import RefluxDb.Wal.ReplayCoverage

/-! The WAL with its flushes in flight.

A flush is more than one step: between the swap of the buffer and the put, and between the put and
the notification, other flushes, the snapshot task and a crash may come. A put may fail for good,
and replay skips a file that is corrupt. Runs in which flushes do not overlap, none fails and no
file is skipped are runs of the WAL whose flushes are one step, taken at the put, so that what holds
of those runs holds of these. -/

namespace RefluxDb.Wal

open List Option RefluxDb.Library

/-- A node's WAL and the flushes of its process that are under way. -/
structure WalNode extends WalSystem where
  inFlight : List Flight := []

inductive NodeAction where
  | swap (file : WalFile) (forceSnapshot : Bool)
  | put (index : Nat)
  | notify (index : Nat)
  | giveUp (index : Nat)
  | skipCorrupt
  | own (action : WalAction)

/-- The files with one more, in the order of their paths. -/
def insertContents (contents : WalContents) (files : List WalContents) : List WalContents :=
  files.filter (fun other => decide (other.number < contents.number)) ++ contents ::
    files.filter fun other => decide (contents.number < other.number)

namespace WalNode

variable (node : WalNode)

/-- Puts the file of a flight; a file with the number stops the process. -/
def put (index : Nat) : Option WalNode := do
  let flight ← node.inFlight[index]?
  let _ ← node.process
  if flight.stored ∨ node.walFiles.any (·.number = flight.contents.number) then none
  else some { node with
    inFlight := node.inFlight.set index { flight with stored := true }
    walFiles := insertContents flight.contents node.walFiles
    history := insertContents flight.contents node.history }

/-- A snapshot waits for the permit, which a flush in flight or the snapshot task may hold. -/
def step (node : WalNode) : NodeAction → Option WalNode
  | .swap file forceSnapshot => do
    let store ← node.process
    let (store, contents) ← store.flushBufferIntoContents file forceSnapshot
    if contents.snapshot.isSome ∧ node.inFlight.any (·.contents.snapshot.isSome) then none
    else some { node with
      process := some store
      inFlight := node.inFlight ++ [⟨contents, false⟩] }
  | .put index => node.put index
  | .notify index => do
    let flight ← node.inFlight[index]?
    let store ← node.process
    if flight.stored then
      some { node with
        process := some (store.notifyContents flight.contents)
        inFlight := node.inFlight.eraseIdx index }
    else none
  | .giveUp index => do
    let flight ← node.inFlight[index]?
    let store ← node.process
    if flight.stored then none
    else some { node with
      process := some { store with walFileSequenceNumber := store.walFileSequenceNumber + 1 }
      inFlight := node.inFlight.eraseIdx index }
  | .skipCorrupt => do
    let store ← node.process
    if store.replaying ∧ store.task.isNone ∧ store.remaining ≠ [] then
      some { node with process := some { store with remaining := store.remaining.tail } }
    else none
  | .own (.flush ..) => none
  | .own .crash => do
    let system ← node.toWalSystem.step .crash
    some { toWalSystem := system }
  | .own action => do
    let system ← node.toWalSystem.step action
    some { node with toWalSystem := system }

end WalNode

def nodeMachine : Machine WalNode NodeAction where
  initial node := node = {}
  step := WalNode.step

/-- The steps of a node whose flushes come one after the other and all succeed, and whose replay
skips no file and takes the snapshots as they were taken. -/
def Serial (node : WalNode) : NodeAction → Prop
  | .swap .. => node.inFlight = []
  | .put _ | .notify _ => True
  | .giveUp _ | .skipCorrupt => False
  | .own action => RetakesSnapshots node.toWalSystem action

instance (node : WalNode) : (action : NodeAction) → Decidable (Serial node action)
  | .swap .. => inferInstanceAs (Decidable (_ = _))
  | .put _ | .notify _ => .isTrue trivial
  | .giveUp _ | .skipCorrupt => .isFalse id
  | .own _ => inferInstanceAs (Decidable (RetakesSnapshots _ _))

/-- The WAL whose flush, if one is under way, is not begun before the put and done after it. -/
inductive Settles (node : WalNode) : WalSystem → Prop
  | idle (hidle : node.inFlight = []) : Settles node node.toWalSystem
  | begun {contents : WalContents} {forceSnapshot : Bool} {store taken : WalObjectStore}
      (hflight : node.inFlight = [⟨contents, false⟩]) (hprocess : node.process = some taken)
      (htaken : store.flushBufferIntoContents contents.file forceSnapshot =
        some (taken, contents)) :
      Settles node { node.toWalSystem with process := some store }
  | stored {contents : WalContents} {store : WalObjectStore}
      (hflight : node.inFlight = [⟨contents, true⟩]) (hprocess : node.process = some store)
      (hlive : store.replaying = false) (hpermit : contents.snapshot.isSome → store.task = none) :
      Settles node { node.toWalSystem with process := some (store.notifyContents contents) }

/-- The process with what a flush changes. -/
def WalObjectStore.withFlush (store : WalObjectStore) (tracker : SnapshotTracker) (number : Nat)
    (buffer : List BufferedRow) : WalObjectStore :=
  { store with tracker := tracker, walFileSequenceNumber := number, buffer := buffer }

section Simulation

variable {node next : WalNode} {system : WalSystem}
variable {store : WalObjectStore} {contents : WalContents} {action : WalAction}

/-- While the process is live and not changed otherwise, its own steps are those of the snapshot
task, and they neither see nor change what a flush changes. -/
theorem own_of_live (hprocess : system.process = some store) (hlive : store.replaying = false)
    {done : WalSystem} (hstep : system.step action = some done) (hcrash : action ≠ .crash)
    (hflush : ∀ file forceSnapshot, action ≠ .flush file forceSnapshot) :
    (action = .persistSnapshot ∨ action = .deleteWalFile) ∧ store.task ≠ none ∧
      ∃ after, done.process = some after ∧ after.replaying = false ∧
        (after.tracker = store.tracker ∧ after.buffer = store.buffer ∧
          after.walFileSequenceNumber = store.walFileSequenceNumber) ∧
        ∀ tracker number buffer,
          { system with process := some (store.withFlush tracker number buffer) }.step action =
            some { done with process := some (after.withFlush tracker number buffer) } := by
  cases action with
  | start config => simp [WalSystem.step, hprocess] at hstep
  | flush file forceSnapshot => exact absurd rfl (hflush file forceSnapshot)
  | replayNext =>
    simp [WalSystem.step, hprocess, WalObjectStore.replayNext, hlive] at hstep
  | finishReplay => simp [WalSystem.step, hprocess, hlive] at hstep
  | crash => exact absurd rfl hcrash
  | persistSnapshot =>
    simp only [WalSystem.step, hprocess, bind_eq_bind, bind_some, WalSystem.persistSnapshot]
      at hstep ⊢
    split at hstep
    case h_2 => cases hstep
    case h_1 details snapshotted cleanup htask =>
      obtain rfl := some.inj hstep
      refine ⟨.inl trivial, by simp [htask], ?_⟩
      cases cleanup
      all_goals
        refine ⟨_, rfl, hlive, ⟨rfl, rfl, rfl⟩, fun tracker number buffer => ?_⟩
        simp [WalObjectStore.withFlush, htask, WalObjectStore.removeSnapshotWalFiles]
  | deleteWalFile =>
    simp only [WalSystem.step, hprocess, bind_eq_bind, bind_some, WalSystem.deleteWalFile]
      at hstep ⊢
    split at hstep
    case h_2 => cases hstep
    case h_1 first last htask =>
      refine ⟨.inr trivial, by simp [htask], ?_⟩
      split at hstep
      all_goals
        rename_i hlast
        obtain rfl := some.inj hstep
        refine ⟨_, rfl, hlive, ⟨rfl, rfl, rfl⟩, fun tracker number buffer => ?_⟩
        simp [WalObjectStore.withFlush, htask, hlast, WalSystem.recordDeletion]

theorem Settles.swap {file : WalFile} {forceSnapshot : Bool} (hsettles : Settles node system)
    (hidle : node.inFlight = []) (hnext : node.step (.swap file forceSnapshot) = some next) :
    Settles next system := by
  cases hsettles with
  | begun hflight => simp [hidle] at hflight
  | stored hflight => simp [hidle] at hflight
  | idle =>
    obtain ⟨store, hprocess, hnext⟩ := bind_eq_some_iff.mp hnext
    obtain ⟨⟨taken, contents⟩, htaken, hnext⟩ := bind_eq_some_iff.mp hnext
    simp only [hidle, any_nil, Bool.false_eq_true, and_false, if_false, some.injEq] at hnext
    subst hnext
    obtain ⟨-, tracker, htake, -⟩ := WalObjectStore.flushBufferIntoContents_eq_some htaken
    obtain ⟨rfl, -⟩ := SnapshotTracker.takeFile_eq_some htake
    have hsame : node.toWalSystem = { node.toWalSystem with process := some store } := by
      rw [← hprocess]
    rw [hsame]
    exact .begun rfl rfl htaken

theorem Settles.notify {index : Nat} (hsettles : Settles node system)
    (hnext : node.step (.notify index) = some next) : Settles next system := by
  obtain ⟨flight, hflight, hnext⟩ := bind_eq_some_iff.mp hnext
  obtain ⟨_, hprocess, hnext⟩ := bind_eq_some_iff.mp hnext
  simp only [ite_none_right_eq_some, some.injEq] at hnext
  obtain ⟨hstored, rfl⟩ := hnext
  cases hsettles with
  | idle hidle => simp [hidle] at hflight
  | begun hbegun =>
    simp [mem_singleton.mp (hbegun ▸ mem_of_getElem? hflight)] at hstored
  | @stored contents store hflying hstore =>
    rw [hflying, getElem?_singleton] at hflight
    simp only [ite_none_right_eq_some, some.injEq] at hflight
    obtain ⟨rfl, rfl⟩ := hflight
    obtain rfl := some.inj (hstore.symm.trans hprocess)
    exact .idle (by simp [hflying])

theorem insertContents_eq {files : List WalContents}
    (hfiles : ∀ other ∈ files, other.number < contents.number) :
    insertContents contents files = files ++ [contents] := by
  have hlow : files.filter (fun other => decide (other.number < contents.number)) = files :=
    filter_eq_self.mpr fun other hother => decide_eq_true (hfiles other hother)
  have hhigh : files.filter (fun other => decide (contents.number < other.number)) = [] := by
    refine filter_eq_nil_iff.mpr fun other hother => ?_
    simpa using (hfiles other hother).le
  rw [insertContents, hlow, hhigh]

/-- The put of a file is the flush as one step. -/
theorem Settles.put {index : Nat} (hsettles : Settles node system)
    (hsystem : walMachine.Reachable RetakesSnapshots system)
    (hnext : node.step (.put index) = some next) :
    ∃ after, walMachine.Reachable RetakesSnapshots after ∧ Settles next after := by
  obtain ⟨flight, hflight, hnext⟩ := bind_eq_some_iff.mp hnext
  obtain ⟨_, hprocess, hnext⟩ := bind_eq_some_iff.mp hnext
  simp only [ite_none_left_eq_some, some.injEq, not_or] at hnext
  obtain ⟨⟨hunstored, -⟩, rfl⟩ := hnext
  cases hsettles with
  | idle hidle => simp [hidle] at hflight
  | stored hstored =>
    simp [mem_singleton.mp (hstored ▸ mem_of_getElem? hflight)] at hunstored
  | @begun contents forceSnapshot store taken hbegun htakenprocess htaken =>
    rw [hbegun, getElem?_singleton] at hflight
    simp only [ite_none_right_eq_some, some.injEq] at hflight
    obtain ⟨rfl, rfl⟩ := hflight
    obtain rfl := some.inj (htakenprocess.symm.trans hprocess)
    obtain ⟨⟨hlive, hnumber, -⟩, tracker, -, hpermit, htakeneq⟩ :=
      WalObjectStore.flushBufferIntoContents_eq_some htaken
    have hsynced := synced_of_reachable _ hsystem
    obtain ⟨seen, hfollows, -⟩ := hsynced.process store rfl
    obtain rfl := hfollows.seen_eq hlive
    have hlt : ∀ other ∈ node.history, other.number < contents.number := fun other hother =>
      (hfollows.seen_lt other hother).trans_eq hnumber.symm
    have hfiles : ∀ other ∈ node.walFiles, other.number < contents.number := by
      intro other hother
      have hmem := hsynced.files ▸ hother
      exact hlt other (mem_filter.mp hmem).1
    have hflush : WalSystem.step { node.toWalSystem with process := some store }
        (.flush contents.file forceSnapshot) = some { node.toWalSystem with
          walFiles := node.walFiles ++ [contents]
          process := some (taken.notifyContents contents)
          history := node.history ++ [contents] } := by
      simp [WalSystem.step, WalObjectStore.flush, htaken]
    have hallowed : ∀ other, RetakesSnapshots other (.flush contents.file forceSnapshot) :=
      fun _ => trivial
    refine ⟨_, hsystem.step (hallowed _) hflush, ?_⟩
    rw [← insertContents_eq hlt, ← insertContents_eq hfiles, hbegun]
    subst htakeneq
    refine .stored rfl hprocess hlive fun hsome => ?_
    obtain ⟨details, hdetails⟩ := isSome_iff_exists.mp hsome
    exact hpermit details hdetails

theorem Settles.crash (hsettles : Settles node system)
    (hsystem : walMachine.Reachable RetakesSnapshots system)
    (hnext : node.step (.own .crash) = some next) :
    ∃ after, walMachine.Reachable RetakesSnapshots after ∧ Settles next after := by
  obtain ⟨crashed, hstep, hnext⟩ := bind_eq_some_iff.mp hnext
  obtain rfl := some.inj hnext
  have hsame : system.step .crash = some crashed := by
    cases hsettles with
    | idle => exact hstep
    | begun _ hprocess => simpa [WalSystem.step, hprocess] using hstep
    | stored _ hprocess => simpa [WalSystem.step, hprocess] using hstep
  have hfree : RetakesSnapshots system .crash := trivial
  exact ⟨crashed, hsystem.step hfree hsame, .idle rfl⟩

theorem Settles.own (hsettles : Settles node system)
    (hsystem : walMachine.Reachable RetakesSnapshots system)
    (hallowed : RetakesSnapshots node.toWalSystem action)
    (hnext : node.step (.own action) = some next) :
    ∃ after, walMachine.Reachable RetakesSnapshots after ∧ Settles next after := by
  by_cases hcrash : action = .crash
  · subst hcrash
    exact hsettles.crash hsystem hnext
  have hflush : ∀ file forceSnapshot, action ≠ .flush file forceSnapshot := by
    rintro file forceSnapshot rfl
    cases hnext
  obtain ⟨done, hstep, rfl⟩ : ∃ done, node.toWalSystem.step action = some done ∧
      next = { node with toWalSystem := done } := by
    cases action
    case crash => exact absurd rfl hcrash
    case flush => cases hnext
    all_goals
      obtain ⟨done, hstep, hnext⟩ := bind_eq_some_iff.mp hnext
      exact ⟨done, hstep, (some.inj hnext).symm⟩
  have hfree : ∀ other, (action = .persistSnapshot ∨ action = .deleteWalFile) →
      RetakesSnapshots other action := by
    rintro other (rfl | rfl) <;> trivial
  cases hsettles with
  | idle hidle => exact ⟨done, hsystem.step hallowed hstep, .idle hidle⟩
  | @begun contents forceSnapshot store taken hbegun hprocess htaken =>
    obtain ⟨hguard, tracker, htake, hpermit, rfl⟩ :=
      WalObjectStore.flushBufferIntoContents_eq_some htaken
    obtain ⟨htask, hbusy, after, hafter, hlive, ⟨htracker, hbuffer, hnumber⟩, hother⟩ :=
      own_of_live hprocess hguard.1 hstep hcrash hflush
    have hnone : contents.snapshot = none := eq_none_iff_forall_not_mem.mpr
      fun details hdetails => hbusy (hpermit details hdetails)
    have hretaken : (after.withFlush store.tracker store.walFileSequenceNumber
        store.buffer).flushBufferIntoContents contents.file forceSnapshot =
          some (after, contents) := by
      dsimp only at htracker hbuffer hnumber
      rw [WalObjectStore.flushBufferIntoContents, if_pos ⟨hlive, hguard.2⟩]
      simp only [WalObjectStore.withFlush, htake, bind_eq_bind, bind_some, hnone, isSome_none,
        Bool.false_eq_true, false_and, if_false, ← htracker, ← hnumber, ← hbuffer]
    exact ⟨_, hsystem.step (hfree _ htask) (hother _ _ _), .begun hbegun hafter hretaken⟩
  | @stored contents store hstored hprocess hlive hpermit =>
    obtain ⟨htask, hbusy, after, hafter, hlive', ⟨htracker, hbuffer, hnumber⟩, hother⟩ :=
      own_of_live hprocess hlive hstep hcrash hflush
    have hnone : contents.snapshot = none :=
      not_isSome_iff_eq_none.mp fun hsome => hbusy (hpermit hsome)
    have hnotify : store.notifyContents contents = store.withFlush store.tracker
        store.walFileSequenceNumber (store.notify contents.file) := by
      simp only [WalObjectStore.notifyContents, hnone, WalObjectStore.withFlush]
    have hsettled : after.withFlush store.tracker store.walFileSequenceNumber
        (store.notify contents.file) = after.notifyContents contents := by
      simp only [WalObjectStore.notifyContents, hnone, WalObjectStore.withFlush,
        WalObjectStore.notify, htracker, hbuffer, ← hnumber]
    refine ⟨_, hsystem.step (hfree _ htask) (hnotify ▸ hother _ _ _), ?_⟩
    rw [hsettled]
    exact .stored hstored hafter hlive' fun hsome => by simp [hnone] at hsome

/-- Every serial run of a node is a run of the WAL whose flushes are one step. -/
theorem exists_settled (hreachable : nodeMachine.Reachable Serial node) :
    ∃ system, walMachine.Reachable RetakesSnapshots system ∧ Settles node system := by
  induction hreachable with
  | initial hinitial =>
    obtain rfl : _ = ({} : WalNode) := hinitial
    exact ⟨{}, .initial rfl, .idle rfl⟩
  | @step node next action _ hallowed hnext ih =>
    obtain ⟨system, hsystem, hsettles⟩ := ih
    cases action with
    | swap => exact ⟨system, hsystem, hsettles.swap hallowed hnext⟩
    | put => exact hsettles.put hsystem hnext
    | notify => exact ⟨system, hsystem, hsettles.notify hnext⟩
    | giveUp | skipCorrupt => cases hallowed
    | own => exact hsettles.own hsystem hallowed hnext

end Simulation

/-- Every WAL file that was deleted during a replay is at or before the last file of a persisted
snapshot. -/
def ReplayCovered (system : WalSystem) : Prop :=
  ∀ deletion ∈ system.deleted, deletion.2 = true →
    ∃ manifest ∈ system.snapshots, deletion.1 ≤ manifest.details.lastWalSequenceNumber

instance (system : WalSystem) : Decidable (ReplayCovered system) := by
  unfold ReplayCovered
  infer_instance

/-- Replay deletes only covered files in every serial run, whatever the configurations of the
processes. -/
theorem replayCovered_of_retakesSnapshots (node : WalNode)
    (hreachable : nodeMachine.Reachable Serial node) :
    ReplayCovered node.toWalSystem := by
  obtain ⟨system, hsystem, hsettles⟩ := exists_settled hreachable
  have hsynced := synced_of_reachable system hsystem
  have hcovered : ReplayCovered system := fun deletion hdeletion _ =>
    hsynced.covered deletion.1 (mem_map_of_mem hdeletion)
  cases hsettles <;> exact hcovered

/-- A gen1 duration of one minute and no snapshotted WAL file to keep. -/
def minuteConfig (snapshotSize : Nat) : WalConfig where
  snapshotSize := snapshotSize
  gen1Duration := .new1m
  snapshottedWalFilesToKeep := 0

/-- A process starts, and flushes one file after the other. -/
def flushes (snapshotSize : Nat) (times : List Int) : List NodeAction :=
  .own (.start (minuteConfig snapshotSize)) :: .own .finishReplay ::
    times.zipIdx.flatMap fun (time, index) =>
      [.swap (singleRowFile (index + 1) time) false, .put 0, .notify 0]

theorem emptyNode_reachable {allowed : WalNode → NodeAction → Prop} :
    nodeMachine.Reachable allowed {} :=
  .initial rfl

/-- A crash before a snapshot is persisted, and a restart with the same configuration: replay
persists the snapshot and deletes a file it covers. -/
theorem replayCovered_of_retakesSnapshots_same_size :
    ∃ node, nodeMachine.Reachable Serial node ∧
      (∃ deletion ∈ node.deleted, deletion.2 = true) ∧ ReplayCovered node.toWalSystem := by
  refine emptyNode_reachable.exists_of_exec_and
    (flushes 2 [1, 2, 60000000001] ++ [.crash, .start (minuteConfig 2), .replayNext, .replayNext,
      .replayNext, .persistSnapshot, .deleteWalFile].map .own)
    _ (by decide) (by decide) ?_
  exact replayCovered_of_retakesSnapshots

/-- Three files, of which an in-order snapshot takes the first, and a restart with a smaller
snapshot size: three pending files are now enough for a snapshot of everything, so replay deletes
the second file, which no persisted snapshot covers. -/
theorem uncovered_deleted_after_smaller_size :
    ∃ node, nodeMachine.Reachable Machine.Unrestricted node ∧ ¬ReplayCovered node.toWalSystem :=
  emptyNode_reachable.exists_of_run
    (flushes 2 [1, 60000000001, 60000000002] ++ [.crash, .start (minuteConfig 1), .replayNext,
      .replayNext, .replayNext, .persistSnapshot, .deleteWalFile, .deleteWalFile].map .own)
    _ (by decide)

end RefluxDb.Wal
