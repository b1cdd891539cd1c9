import RefluxDb.Wal.Restart

/-! Replay deletes only WAL files that a persisted snapshot covers, as long as it takes the
snapshots embedded in the files as they were taken.

The invariant relates every process to the files that ever became durable: after some first files
of them its tracker has pending what those files say, and the persisted snapshots are the embedded
ones up to a number. A snapshot that replay takes itself then ends with the last file of the
embedded one. The configuration of the process enters only where replay takes a snapshot. -/

namespace RefluxDb.Wal

open List Option RefluxDb.Library

namespace WalObjectStore

/-- The last file of the snapshot the process was started from. -/
def startWal (store : WalObjectStore) : Nat := store.lastWalSequenceNumber.getD 0

def oldest (store : WalObjectStore) : Nat := store.oldestWalFile.getD 1

/-- The last file that is not pending once `seen` is replayed or flushed. -/
def base (store : WalObjectStore) (seen : List WalContents) : Nat :=
  max store.startWal (lastTaken seen)

/-- The number of the last snapshot once `seen` is replayed or flushed. -/
def issued (store : WalObjectStore) (seen : List WalContents) : Nat :=
  max store.lastSnapshotSequenceNumber (lastIssued seen)

def persistedNumber (store : WalObjectStore) : Nat :=
  match store.task with
  | some (.persist ..) => store.tracker.lastSnapshotSequenceNumber - 1
  | _ => store.tracker.lastSnapshotSequenceNumber

/-- A process that has seen the first files of the history. -/
structure Follows (store : WalObjectStore) (history seen : List WalContents) : Prop where
  split : history = seen ++ store.remaining
  started : (store.startWal = 0 ∧ store.lastSnapshotSequenceNumber = 0) ∨
    ∃ details ∈ embedded history, store.startWal = details.lastWalSequenceNumber ∧
      store.lastSnapshotSequenceNumber = details.snapshotSequenceNumber
  remaining_after : ∀ contents ∈ store.remaining, store.startWal < contents.number
  pending : Pending store.tracker (store.base seen) (store.issued seen) seen
  seen_lt : ∀ contents ∈ seen, contents.number < store.walFileSequenceNumber
  start_lt : store.startWal < store.walFileSequenceNumber
  live : store.replaying = false → store.remaining = []
  oldest_le_next : store.remaining = [] → store.oldest ≤ store.walFileSequenceNumber
  oldest_le : ∀ contents ∈ history, store.base seen < contents.number →
    store.oldest ≤ contents.number

/-- What the holder of the permit may rely on. -/
structure Permitted (store : WalObjectStore) (snapshots : List SnapshotManifest)
    (history seen : List WalContents) : Prop where
  persisted : snapshots.map (·.details) = (embedded history).filter fun details =>
    decide (details.snapshotSequenceNumber ≤ store.persistedNumber)
  persist : ∀ details rows cleanup, store.task = some (.persist details rows cleanup) →
    details ∈ embedded history ∧
      details.snapshotSequenceNumber = store.tracker.lastSnapshotSequenceNumber ∧
      details.lastWalSequenceNumber ≤ store.base seen ∧
      store.oldest ≤ details.lastWalSequenceNumber ∧
      ∀ info ∈ cleanup, info.lastWalSequenceNumber = details.lastWalSequenceNumber
  delete : ∀ next lastToDelete, store.task = some (.delete next lastToDelete) →
    lastToDelete ≤ store.base seen ∧
      ∃ manifest ∈ snapshots, lastToDelete ≤ manifest.details.lastWalSequenceNumber

end WalObjectStore

def WalSystem.gone (system : WalSystem) : List Nat := system.deleted.map (·.1)

structure Synced (system : WalSystem) : Prop where
  chronicle : Chronicle system.history
  numbers : ∀ contents ∈ system.history, 0 < contents.number ∧ contents.number < 2 ^ 64
  files : system.walFiles = system.history.filter fun contents =>
    decide (contents.number ∉ system.gone)
  covered : ∀ number ∈ system.gone, ∃ manifest ∈ system.snapshots,
    number ≤ manifest.details.lastWalSequenceNumber
  persisted : ∃ number, system.snapshots.map (·.details) =
    (embedded system.history).filter fun details =>
      decide (details.snapshotSequenceNumber ≤ number)
  process : ∀ store, system.process = some store → ∃ seen,
    store.Follows system.history seen ∧ store.Permitted system.snapshots system.history seen

section Steps

variable {system next : WalSystem} {store : WalObjectStore} {seen history : List WalContents}
variable {contents : WalContents} {details : SnapshotDetails}

theorem Chronicle.positive (hfiles : Chronicle history) (hdetails : details ∈ embedded history) :
    0 < details.snapshotSequenceNumber ∧ 0 < details.lastWalSequenceNumber := by
  obtain ⟨contents, hcontents, hsnapshot⟩ := mem_embedded.mp hdetails
  obtain ⟨before, after, rfl⟩ := append_of_mem hcontents
  have hembeds := hfiles.embeds hsnapshot
  have hnumber := hembeds.number
  have hafter := hembeds.after
  omega

namespace WalObjectStore.Follows

section

variable (hfollows : store.Follows history seen)
include hfollows

theorem chronicle_seen (hfiles : Chronicle history) :
    Chronicle seen := by
  rw [hfollows.split] at hfiles
  exact hfiles.of_append

theorem mem_history (hdetails : details ∈ embedded seen) :
    details ∈ embedded history := by
  rw [hfollows.split, embedded_append]
  exact mem_append_left _ hdetails

/-- Once the process has seen the snapshot it was started from, the files say what is pending. -/
theorem base_of_le (hfiles : Chronicle history)
    (hle : store.lastSnapshotSequenceNumber ≤ lastIssued seen) :
    store.base seen = lastTaken seen ∧ store.issued seen = lastIssued seen := by
  refine ⟨Nat.max_eq_right ?_, Nat.max_eq_right hle⟩
  rcases hfollows.started with ⟨hzero, -⟩ | ⟨started, hstarted, hwal, hnumber⟩
  · omega
  have hpositive := (hfiles.positive hstarted).1
  obtain ⟨-, -, hissued⟩ | ⟨last, hlast, htaken, hissued⟩ := embedded_cases seen
  · omega
  rw [hwal, htaken]
  exact hfiles.last_le_of_le hstarted (hfollows.mem_history hlast) (by omega)

/-- Before that, nothing is pending but the files after the one it was started with. -/
theorem base_of_lt (hfiles : Chronicle history)
    (hlt : lastIssued seen < store.lastSnapshotSequenceNumber) :
    ∃ started ∈ embedded history, store.lastSnapshotSequenceNumber =
        started.snapshotSequenceNumber ∧
      store.base seen = started.lastWalSequenceNumber ∧
      store.startWal = started.lastWalSequenceNumber ∧
      store.issued seen = store.lastSnapshotSequenceNumber := by
  rcases hfollows.started with ⟨-, hzero⟩ | ⟨started, hstarted, hwal, hnumber⟩
  · omega
  refine ⟨started, hstarted, hnumber, ?_, hwal, Nat.max_eq_left hlt.le⟩
  unfold WalObjectStore.base
  rw [hwal, Nat.max_eq_left]
  obtain ⟨-, htaken, -⟩ | ⟨last, hlast, htaken, hissued⟩ := embedded_cases seen
  · omega
  rw [htaken]
  exact hfiles.last_le_of_le (hfollows.mem_history hlast) hstarted (by omega)

theorem seen_eq (hlive : store.replaying = false) :
    seen = history := by
  rw [hfollows.split, hfollows.live hlive, append_nil]

end

theorem started_le (hfollows : store.Follows history history) (hfiles : Chronicle history) :
    store.lastSnapshotSequenceNumber ≤ lastIssued history := by
  rcases hfollows.started with ⟨-, hzero⟩ | ⟨started, hstarted, -, hnumber⟩
  · omega
  · rw [hnumber]
    exact (hfiles.le_last hstarted).1

theorem base_lt (hfollows : store.Follows history seen) (hfiles : Chronicle history) :
    store.base seen < store.walFileSequenceNumber := by
  refine max_lt hfollows.start_lt ?_
  have hstart := hfollows.start_lt
  obtain ⟨-, htaken, -⟩ | ⟨last, hlast, htaken, -⟩ := embedded_cases seen
  · omega
  obtain ⟨contents, hcontents, hsnapshot⟩ := mem_embedded.mp hlast
  have hle := (hfollows.chronicle_seen hfiles).last_le_of_mem hcontents hsnapshot
  have hlt := hfollows.seen_lt contents hcontents
  omega

end WalObjectStore.Follows

theorem Synced.mem_embedded_of_manifest (hsynced : Synced system) {manifest : SnapshotManifest}
    (hmanifest : manifest ∈ system.snapshots) : manifest.details ∈ embedded system.history := by
  obtain ⟨number, hpersisted⟩ := hsynced.persisted
  have hmem : manifest.details ∈ system.snapshots.map (·.details) := mem_map_of_mem hmanifest
  rw [hpersisted] at hmem
  exact (mem_filter.mp hmem).1

theorem Synced.not_gone (hsynced : Synced system) {number : Nat}
    (hafter : lastTaken system.history < number) : number ∉ system.gone := by
  intro hgone
  obtain ⟨manifest, hmanifest, hle⟩ := hsynced.covered number hgone
  have := (hsynced.chronicle.le_last (hsynced.mem_embedded_of_manifest hmanifest)).2
  omega

namespace WalObjectStore.Follows

theorem base_concat_none (hnone : contents.snapshot = none) :
    store.base (seen ++ [contents]) = store.base seen ∧
      store.issued (seen ++ [contents]) = store.issued seen := by
  unfold WalObjectStore.base WalObjectStore.issued
  rw [lastTaken_concat_none hnone, lastIssued_concat_none hnone]
  exact ⟨rfl, rfl⟩

/-- A snapshot after the one the process was started from is the last one once it is seen. -/
theorem base_concat_new (hfollows : store.Follows history seen) (hfiles : Chronicle history)
    (hsome : contents.snapshot = some details) (hembeds : Embeds seen contents details)
    (hnew : store.lastSnapshotSequenceNumber < details.snapshotSequenceNumber) :
    store.base seen = lastTaken seen ∧ store.issued seen = lastIssued seen ∧
      store.base (seen ++ [contents]) = details.lastWalSequenceNumber ∧
      store.issued (seen ++ [contents]) = details.snapshotSequenceNumber := by
  have hnumber := hembeds.number
  have htaken := hembeds.after
  obtain ⟨hbase, hissued⟩ := hfollows.base_of_le hfiles (by omega)
  have hstart : store.startWal ≤ store.base seen := le_max_left _ _
  refine ⟨hbase, hissued, ?_, ?_⟩
  · unfold WalObjectStore.base
    rw [lastTaken_concat_some hsome]
    omega
  · unfold WalObjectStore.issued
    rw [lastIssued_concat_some hsome]
    omega

/-- A process that goes on to the next file, whether it replays or flushes it. -/
theorem advance {advanced : WalObjectStore} {longer : List WalContents}
    (hfollows : store.Follows history seen) (hlonger : Chronicle longer)
    (hsplit : longer = seen ++ [contents] ++ advanced.remaining)
    (hhistory : ∀ details ∈ embedded history, details ∈ embedded longer)
    (hstart : advanced.startWal = store.startWal ∧
      advanced.lastSnapshotSequenceNumber = store.lastSnapshotSequenceNumber ∧
      advanced.oldest = store.oldest)
    (hnext : advanced.walFileSequenceNumber = contents.number + 1)
    (hremaining : ∀ later ∈ advanced.remaining, store.startWal < later.number)
    (hlive : advanced.replaying = false → advanced.remaining = [])
    (hafter : store.base seen < contents.number)
    (holdest : ∀ later ∈ longer, store.base seen < later.number → store.oldest ≤ later.number)
    (hpending : Pending advanced.tracker (store.base (seen ++ [contents]))
      (store.issued (seen ++ [contents])) (seen ++ [contents])) :
    advanced.Follows longer (seen ++ [contents]) := by
  obtain ⟨hwal, hsnapshot, hold⟩ := hstart
  have hbase : ∀ files, advanced.base files = store.base files := by
    intro files
    simp only [WalObjectStore.base, hwal]
  have hissued : ∀ files, advanced.issued files = store.issued files := by
    intro files
    simp only [WalObjectStore.issued, hsnapshot]
  have hstartle : store.startWal ≤ store.base seen := le_max_left _ _
  have hchronicle : Chronicle (seen ++ [contents]) := (hsplit ▸ hlonger).of_append
  obtain ⟨-, hlt, hembeds⟩ := Chronicle.concat_iff.mp hchronicle
  have hmono : store.base seen ≤ store.base (seen ++ [contents]) := by
    unfold WalObjectStore.base
    cases hself : contents.snapshot with
    | none => rw [lastTaken_concat_none hself]
    | some details =>
      have := (hembeds details hself).after
      rw [lastTaken_concat_some hself]
      omega
  refine ⟨hsplit, ?_, ?_, ?_, ?_, ?_, hlive, ?_, ?_⟩
  · rw [hwal, hsnapshot]
    refine hfollows.started.imp_right ?_
    rintro ⟨details, hdetails, hstarted⟩
    exact ⟨details, hhistory details hdetails, hstarted⟩
  · rw [hwal]
    exact hremaining
  · rw [hbase, hissued]
    exact hpending
  · intro earlier hearlier
    rw [hnext]
    rcases mem_concat.mp hearlier with hmem | hself
    · exact (hlt earlier hmem).trans (Nat.lt_succ_self _)
    · rw [hself]
      exact Nat.lt_succ_self _
  · omega
  · have hself := holdest contents (by simp [hsplit]) hafter
    intro _
    omega
  · intro later hlater habove
    rw [hold]
    rw [hbase] at habove
    exact holdest later hlater (hmono.trans_lt habove)

end WalObjectStore.Follows

section Flush

variable {flushed : WalObjectStore} {file : WalFile} {forceSnapshot : Bool}

/-- A live process that flushes a file: the file comes last, and the process has seen it. -/
theorem Synced.follows_flush (hsynced : Synced system)
    (hfollows : store.Follows system.history system.history)
    (hflush : store.flush file forceSnapshot = some (flushed, contents)) :
    Chronicle (system.history ++ [contents]) ∧
      flushed.Follows (system.history ++ [contents]) (system.history ++ [contents]) := by
  obtain ⟨⟨hlive, hnumber, -, -⟩, rfl, added, hadded, hsnapshot⟩ :=
    WalObjectStore.flush_eq_some hflush
  change contents.number = _ at hnumber
  have hlt : ∀ earlier ∈ system.history, earlier.number < contents.number := by
    intro earlier hearlier
    exact hnumber ▸ hfollows.seen_lt earlier hearlier
  have hordered := ordered_concat hsynced.chronicle.ordered hlt
  have hstarted := hfollows.started_le hsynced.chronicle
  obtain ⟨hbase, hissued⟩ := hfollows.base_of_le hsynced.chronicle hstarted
  have hafter : store.base system.history < contents.number :=
    hnumber ▸ hfollows.base_lt hsynced.chronicle
  have hpending := hfollows.pending.addWalPeriod hafter hadded
  have hremaining := hfollows.live hlive
  have hembedded : ∀ details ∈ embedded system.history,
      details ∈ embedded (system.history ++ [contents]) := by
    intro details hdetails
    rw [embedded_append]
    exact mem_append_left _ hdetails
  have holdest : ∀ later ∈ system.history ++ [contents],
      store.base system.history < later.number → store.oldest ≤ later.number := by
    refine forall_mem_concat.mpr ⟨hfollows.oldest_le, ?_⟩
    intro habove
    rw [hnumber]
    exact hfollows.oldest_le_next hremaining
  rcases hsnapshot with ⟨hnone, -, rfl⟩ | ⟨details, next, hsome, hissue, -, rfl⟩
  · have hchronicle : Chronicle (system.history ++ [contents]) :=
      .snoc hsynced.chronicle hlt (by simp [hnone])
    refine ⟨hchronicle, ?_⟩
    obtain ⟨hsame, hsame'⟩ := @WalObjectStore.Follows.base_concat_none store system.history
      contents hnone
    refine hfollows.advance hchronicle (by simp [hremaining]) hembedded ⟨rfl, rfl, rfl⟩ rfl
      (by simp [hremaining]) (fun _ => hremaining) hafter holdest ?_
    rw [hsame, hsame']
    exact hpending
  · have hembeds : Embeds system.history contents details := by
      rw [hbase, hissued] at hpending
      rw [hbase] at hafter
      exact hpending.embeds hordered hafter hissue
    have hchronicle : Chronicle (system.history ++ [contents]) := by
      refine .snoc hsynced.chronicle hlt ?_
      intro issued hself
      obtain rfl : details = issued := by simpa [hsome] using hself
      exact hembeds
    refine ⟨hchronicle, ?_⟩
    have hnumbered := hembeds.number
    obtain ⟨-, -, hlast, hlast'⟩ := hfollows.base_concat_new hsynced.chronicle hsome hembeds
      (by omega)
    refine hfollows.advance hchronicle (by simp [hremaining]) hembedded ⟨rfl, rfl, rfl⟩ rfl
      (by simp [hremaining]) (fun _ => hremaining) hafter holdest ?_
    rw [hlast, hlast']
    exact (hpending.issue hordered hissue).2.2.2

theorem Synced.flush (hsynced : Synced system) (hprocess : system.process = some store)
    (hflush : store.flush file forceSnapshot = some (flushed, contents)) :
    Synced { system with
      walFiles := system.walFiles ++ [contents]
      process := some flushed
      history := system.history ++ [contents] } := by
  obtain ⟨seen, hfollows, hpermitted⟩ := hsynced.process store hprocess
  have hflushed := WalObjectStore.flush_eq_some hflush
  obtain ⟨⟨hlive, hnumber, hbound, -⟩, rfl, added, hadded, hsnapshot⟩ := hflushed
  obtain rfl := hfollows.seen_eq hlive
  obtain ⟨hchronicle, hnext⟩ := hsynced.follows_flush hfollows hflush
  change contents.number = _ at hnumber
  change contents.number < _ at hbound
  have hbase := hfollows.base_lt hsynced.chronicle
  have htaken : lastTaken system.history ≤ store.base system.history := le_max_right _ _
  have hgone : contents.number ∉ system.gone := hsynced.not_gone (by omega)
  have hissued : store.tracker.lastSnapshotSequenceNumber = lastIssued system.history := by
    rw [hfollows.pending.number]
    exact (hfollows.base_of_le hsynced.chronicle (hfollows.started_le hsynced.chronicle)).2
  -- the snapshots persisted so far come before the one the file may embed
  have hkept : ∀ number ≤ lastIssued system.history,
      (embedded (system.history ++ [contents])).filter (fun details =>
        decide (details.snapshotSequenceNumber ≤ number)) =
      (embedded system.history).filter fun details =>
        decide (details.snapshotSequenceNumber ≤ number) := by
    intro number hle
    have hnil : contents.snapshot.toList.filter (fun details =>
        decide (details.snapshotSequenceNumber ≤ number)) = [] := by
      rw [filter_eq_nil_iff]
      intro details hdetails
      have := ((Chronicle.concat_iff.mp hchronicle).2.2 details (by simpa using hdetails)).number
      simp only [decide_eq_true_eq]
      omega
    rw [embedded_concat, filter_append, hnil, append_nil]
  have hpersistedle : store.persistedNumber ≤ lastIssued system.history := by
    unfold WalObjectStore.persistedNumber
    split <;> omega
  have hpersisted := hpermitted.persisted
  rw [← hkept _ hpersistedle] at hpersisted
  refine ⟨hchronicle, ?_, ?_, hsynced.covered, ⟨_, hpersisted⟩, ?_⟩
  · refine forall_mem_concat.mpr ⟨hsynced.numbers, ?_⟩
    omega
  · change system.walFiles ++ [contents] =
      (system.history ++ [contents]).filter fun other => decide (other.number ∉ system.gone)
    rw [filter_append, ← hsynced.files]
    simp [hgone]
  · refine forall_eq_some ?_
    refine ⟨_, hnext, ?_⟩
    have hnumbered := hnext.pending.number
    rcases hsnapshot with ⟨hnone, -, rfl⟩ | ⟨details, tracker, hsome, hissue, hfree, rfl⟩
    · obtain ⟨hsame, hsame'⟩ := @WalObjectStore.Follows.base_concat_none store system.history
        contents hnone
      change added.lastSnapshotSequenceNumber = store.issued _ at hnumbered
      rw [hsame', ← hfollows.pending.number] at hnumbered
      refine ⟨?_, ?_, ?_⟩
      · rw [hpersisted]
        simp only [WalObjectStore.persistedNumber, hnumbered]
        rfl
      · intro details rows cleanup htask
        obtain ⟨hmem, hseq, hle, hrest⟩ := hpermitted.persist details rows cleanup htask
        refine ⟨?_, hseq.trans hnumbered.symm, hle.trans_eq hsame.symm, hrest⟩
        rw [embedded_append]
        exact mem_append_left _ hmem
      · intro first lastToDelete htask
        obtain ⟨hle, hmanifest⟩ := hpermitted.delete first lastToDelete htask
        exact ⟨hle.trans_eq hsame.symm, hmanifest⟩
    · have hembeds := (Chronicle.concat_iff.mp hchronicle).2.2 details hsome
      have hnew := hembeds.number
      obtain ⟨-, -, hlast, hlast'⟩ := hfollows.base_concat_new hsynced.chronicle hsome hembeds
        (by have := hfollows.started_le hsynced.chronicle; omega)
      change tracker.lastSnapshotSequenceNumber = store.issued _ at hnumbered
      rw [hlast'] at hnumbered
      have hpersistednumber : store.persistedNumber = tracker.lastSnapshotSequenceNumber - 1 := by
        simp only [WalObjectStore.persistedNumber, hfree]
        omega
      refine ⟨?_, ?_, ?_⟩
      · rw [hpersisted, hpersistednumber]
        rfl
      · intro issued rows cleanup htask
        obtain ⟨rfl, -, rfl⟩ := htask
        refine ⟨?_, hnumbered.symm, hlast.ge, ?_, by simp⟩
        · rw [embedded_concat, hsome]
          simp
        · change store.oldest ≤ _
          obtain ⟨taken, htakenmem, htakennumber⟩ := hembeds.last_mem
          have habove : store.base system.history < taken.number := by
            have := hembeds.after
            have := (hfollows.base_of_le hsynced.chronicle
              (hfollows.started_le hsynced.chronicle)).1
            omega
          rcases mem_concat.mp htakenmem with hold | hself
          · have := hfollows.oldest_le taken hold habove
            omega
          · have := hfollows.oldest_le_next (hfollows.live hlive)
            rw [hself] at htakennumber
            omega
      · intro first lastToDelete htask
        cases htask

end Flush

section Permit

variable {info : SnapshotDetails}

theorem WalObjectStore.Follows.with_task (hfollows : store.Follows history seen)
    (task : Option SnapshotTask) (last : Option Nat) :
    { store with task := task, lastSnapshottedWalSequenceNumber := last }.Follows history seen :=
  { hfollows with }

/-- The numbers do not wrap: what is to be deleted ends before the last file of the snapshot. -/
theorem WalObjectStore.task_removeSnapshotWalFiles
    (holdest : store.oldest ≤ info.lastWalSequenceNumber)
    (hbound : info.lastWalSequenceNumber < 2 ^ 64) :
    (store.removeSnapshotWalFiles info).task = none ∨
      ∃ lastToDelete ≤ info.lastWalSequenceNumber,
        (store.removeSnapshotWalFiles info).task = some (.delete store.oldest lastToDelete) := by
  unfold WalObjectStore.oldest at holdest ⊢
  simp only [WalObjectStore.removeSnapshotWalFiles, lastToDelete]
  split
  · refine .inr ⟨_, ?_, rfl⟩
    omega
  · exact .inl rfl

theorem Synced.number_lt (hsynced : Synced system) (hdetails : details ∈ embedded system.history) :
    details.lastWalSequenceNumber < 2 ^ 64 := by
  obtain ⟨contents, hcontents, hsnapshot⟩ := mem_embedded.mp hdetails
  have hle := hsynced.chronicle.last_le_of_mem hcontents hsnapshot
  have hlt := (hsynced.numbers contents hcontents).2
  omega

theorem Synced.persistSnapshot (hsynced : Synced system) (hprocess : system.process = some store)
    (hnext : system.persistSnapshot store = some next) : Synced next := by
  obtain ⟨seen, hfollows, hpermitted⟩ := hsynced.process store hprocess
  unfold WalSystem.persistSnapshot at hnext
  split at hnext
  case h_2 => cases hnext
  case h_1 details snapshotted cleanup htask =>
  obtain rfl := some.inj hnext
  obtain ⟨hmem, hnumber, hbase, holdest, hcleanup⟩ := hpermitted.persist _ _ _ htask
  have hpositive := (hsynced.chronicle.positive hmem).1
  have hpersisted := hpermitted.persisted
  have hall : (system.snapshots ++ [SnapshotManifest.mk details (snapshotted.map (·.row))]).map
        (·.details) =
      (embedded system.history).filter fun other =>
        decide (other.snapshotSequenceNumber ≤ store.tracker.lastSnapshotSequenceNumber) := by
    simp only [WalObjectStore.persistedNumber, htask] at hpersisted
    have hsucc := hsynced.chronicle.filter_le_succ hmem
      (show details.snapshotSequenceNumber =
        store.tracker.lastSnapshotSequenceNumber - 1 + 1 by omega)
    rw [map_append, hpersisted, map_singleton, hsucc]
    congr 1
    funext other
    congr 2
    omega
  refine ⟨hsynced.chronicle, hsynced.numbers, hsynced.files, ?_, ⟨_, hall⟩, ?_⟩
  · intro number hgone
    obtain ⟨manifest, hmanifest, hle⟩ := hsynced.covered number hgone
    exact ⟨manifest, mem_append_left _ hmanifest, hle⟩
  refine forall_eq_some ?_
  -- what is deleted next, if anything, is covered by the snapshot that was just persisted
  have hdone : ∀ task : Option SnapshotTask,
      (task = none ∨ ∃ first, ∃ lastToDelete ≤ details.lastWalSequenceNumber,
        task = some (.delete first lastToDelete)) → ∀ last,
      WalObjectStore.Permitted
        { store with task := task, lastSnapshottedWalSequenceNumber := last }
        (system.snapshots ++ [⟨details, snapshotted.map (·.row)⟩]) system.history seen := by
    rintro task htask last
    refine ⟨?_, ?_, ?_⟩
    · rw [hall]
      rcases htask with rfl | ⟨_, _, _, rfl⟩ <;> rfl
    · intro _ _ _ hpersist
      rcases htask with rfl | ⟨_, _, _, rfl⟩ <;> cases hpersist
    · intro _ _ hdelete
      rcases htask with rfl | ⟨_, lastToDelete, hle, rfl⟩
      · cases hdelete
      · cases hdelete
        exact ⟨hle.trans hbase, _, mem_concat_self, hle⟩
  cases cleanup with
  | none => exact ⟨seen, hfollows.with_task none _, hdone none (.inl rfl) _⟩
  | some info =>
    have hinfo := hcleanup info rfl
    have htask := @WalObjectStore.task_removeSnapshotWalFiles store info (hinfo ▸ holdest)
      (hinfo ▸ hsynced.number_lt hmem)
    rw [hinfo] at htask
    refine ⟨seen, hfollows.with_task _ _, hdone _ ?_ _⟩
    exact htask.imp_right fun ⟨lastToDelete, hle, hdelete⟩ => ⟨_, lastToDelete, hle, hdelete⟩

theorem mem_recordDeletion {number first : Nat} {replaying : Bool}
    (hgone : number ∈ (system.recordDeletion first replaying).map (·.1)) :
    number ∈ system.gone ∨ number = first := by
  unfold WalSystem.recordDeletion at hgone
  split at hgone
  · simpa [WalSystem.gone] using hgone
  · exact .inl hgone

theorem Synced.files_delete (hsynced : Synced system) (number : Nat) (replaying : Bool) :
    system.walFiles.filter (fun contents => decide (contents.number ≠ number)) =
      system.history.filter fun contents =>
        decide (contents.number ∉ (system.recordDeletion number replaying).map (·.1)) := by
  by_cases hany : system.walFiles.any (fun contents => decide (contents.number = number)) = true
  · rw [hsynced.files, List.filter_filter]
    apply filter_congr
    intro contents _
    simp only [WalSystem.recordDeletion, hany, if_true, map_append, mem_append, not_or,
      WalSystem.gone]
    simp [Bool.and_comm]
  · have hself : system.walFiles.filter (fun contents => decide (contents.number ≠ number)) =
        system.walFiles := by
      rw [filter_eq_self]
      intro contents hcontents
      simp only [List.any_eq_true, decide_eq_true_eq, not_exists, not_and] at hany
      simpa using hany contents hcontents
    rw [hself, hsynced.files]
    simp only [WalSystem.recordDeletion, hany, if_false, Bool.false_eq_true]
    rfl

theorem Synced.deleteWalFile (hsynced : Synced system) (hprocess : system.process = some store)
    (hnext : system.deleteWalFile store = some next) : Synced next := by
  obtain ⟨seen, hfollows, hpermitted⟩ := hsynced.process store hprocess
  unfold WalSystem.deleteWalFile at hnext
  split at hnext
  case h_2 => cases hnext
  case h_1 first lastToDelete htask =>
  obtain ⟨hbase, manifest, hmanifest, hle⟩ := hpermitted.delete _ _ htask
  have hpersisted := hpermitted.persisted
  simp only [WalObjectStore.persistedNumber, htask] at hpersisted
  split at hnext
  case isFalse =>
    obtain rfl := some.inj hnext
    refine { hsynced with persisted := ⟨_, hpersisted⟩, process := ?_ }
    refine forall_eq_some ?_
    refine ⟨seen, { hfollows with oldest_le_next := ?_, oldest_le := ?_ }, ⟨hpersisted, ?_, ?_⟩⟩
    · exact fun _ => hbase.trans (hfollows.base_lt hsynced.chronicle).le
    · intro contents _ habove
      exact hbase.trans habove.le
    · intro _ _ _ hnone
      cases hnone
    · intro _ _ hnone
      cases hnone
  case isTrue hlt =>
    obtain rfl := some.inj hnext
    refine ⟨hsynced.chronicle, hsynced.numbers, ?_, ?_, ⟨_, hpersisted⟩, ?_⟩
    · exact hsynced.files_delete first store.replaying
    · intro number hgone
      rcases mem_recordDeletion hgone with hold | rfl
      · exact hsynced.covered number hold
      · exact ⟨manifest, hmanifest, hlt.le.trans hle⟩
    · refine forall_eq_some ?_
      refine ⟨seen, hfollows.with_task _ _, ⟨hpersisted, ?_, ?_⟩⟩
      · intro _ _ _ hpersist
        cases hpersist
      · intro _ _ hdelete
        cases hdelete
        exact ⟨hbase, manifest, hmanifest, hle⟩

end Permit

section Start

section

variable (hsynced : Synced system)
include hsynced

/-- The newest persisted snapshot has the largest number, and takes the latest file. -/
theorem Synced.newest {newest : SnapshotManifest}
    (hnewest : system.newestSnapshot = some newest) :
    newest ∈ system.snapshots ∧ ∀ manifest ∈ system.snapshots,
      manifest.details.snapshotSequenceNumber ≤ newest.details.snapshotSequenceNumber ∧
        manifest.details.lastWalSequenceNumber ≤ newest.details.lastWalSequenceNumber := by
  have hmem : newest ∈ system.snapshots := argmax_mem hnewest
  refine ⟨hmem, ?_⟩
  intro manifest hmanifest
  have hle := le_of_mem_argmax hmanifest hnewest
  exact ⟨hle, hsynced.chronicle.last_le_of_le (hsynced.mem_embedded_of_manifest hmanifest)
    (hsynced.mem_embedded_of_manifest hmem) hle⟩

/-- The files after the last persisted snapshot are all there to be replayed. -/
theorem Synced.remaining_start :
    system.walFiles.filter (fun contents => (system.newestSnapshot.map
        (·.details.lastWalSequenceNumber)).all (· < contents.number)) =
      filesAfter ((system.newestSnapshot.map (·.details.lastWalSequenceNumber)).getD 0)
        system.history := by
  rw [hsynced.files, List.filter_filter]
  apply filter_congr
  intro contents hcontents
  have hpositive := (hsynced.numbers contents hcontents).1
  cases hnewest : system.newestSnapshot with
  | none =>
    have hnone : system.snapshots = [] := argmax_eq_none.mp hnewest
    have hgone : contents.number ∉ system.gone := by
      intro hgone
      obtain ⟨manifest, hmanifest, -⟩ := hsynced.covered _ hgone
      simp [hnone] at hmanifest
    simp [hgone, hpositive]
  | some newest =>
    by_cases hafter : newest.details.lastWalSequenceNumber < contents.number
    · have hgone : contents.number ∉ system.gone := by
        intro hgone
        obtain ⟨manifest, hmanifest, hle⟩ := hsynced.covered _ hgone
        have := ((hsynced.newest hnewest).2 manifest hmanifest).2
        omega
      simp [hgone, hafter]
    · simp [hafter]

section

variable {lastWal lastSnapshot : Nat}
    (hwal : (system.newestSnapshot.map (·.details.lastWalSequenceNumber)).getD 0 = lastWal)
    (hsnapshot : (system.newestSnapshot.map (·.details.snapshotSequenceNumber)).getD 0 =
      lastSnapshot)
include hwal hsnapshot

theorem Synced.start_cases :
    (system.snapshots = [] ∧ lastWal = 0 ∧ lastSnapshot = 0) ∨
      ∃ newest ∈ system.snapshots, newest.details ∈ embedded system.history ∧
        lastWal = newest.details.lastWalSequenceNumber ∧
        lastSnapshot = newest.details.snapshotSequenceNumber ∧
        ∀ manifest ∈ system.snapshots,
          manifest.details.snapshotSequenceNumber ≤ newest.details.snapshotSequenceNumber := by
  cases hnewest : system.newestSnapshot with
  | none =>
    left
    rw [hnewest] at hwal hsnapshot
    exact ⟨argmax_eq_none.mp hnewest, hwal.symm, hsnapshot.symm⟩
  | some newest =>
    right
    rw [hnewest] at hwal hsnapshot
    obtain ⟨hmem, hmax⟩ := hsynced.newest hnewest
    exact ⟨newest, hmem, hsynced.mem_embedded_of_manifest hmem, hwal.symm, hsnapshot.symm,
      fun manifest hmanifest => (hmax manifest hmanifest).1⟩

/-- The files up to the one a process is started with embed no later snapshot. -/
theorem Synced.embedded_start
    (hdetails : details ∈ embedded (system.history.filter fun contents =>
      decide (contents.number ≤ lastWal))) :
    details.snapshotSequenceNumber ≤ lastSnapshot ∧ details.lastWalSequenceNumber ≤ lastWal := by
  obtain ⟨contents, hcontents, hself⟩ := mem_embedded.mp hdetails
  obtain ⟨hmem, hle⟩ := mem_filter.mp hcontents
  have hle : contents.number ≤ lastWal := by simpa using hle
  have hlast := hsynced.chronicle.last_le_of_mem hmem hself
  have hpositive := (hsynced.numbers contents hmem).1
  refine ⟨?_, hlast.trans hle⟩
  rcases hsynced.start_cases hwal hsnapshot with ⟨-, hzero, -⟩ |
    ⟨newest, -, hnewest, hstart, hnumber, -⟩
  · omega
  · rcases hsynced.chronicle.embedded_trichotomy (mem_embedded.mpr ⟨contents, hmem, hself⟩)
      hnewest with h | h | h
    · omega
    · rw [h, hnumber]
    · omega

/-- The persisted snapshots are those up to the one a process is started from. -/
theorem Synced.persisted_start :
    system.snapshots.map (·.details) = (embedded system.history).filter fun details =>
      decide (details.snapshotSequenceNumber ≤ lastSnapshot) := by
  obtain ⟨number, hpersisted⟩ := hsynced.persisted
  rcases hsynced.start_cases hwal hsnapshot with
    ⟨hnone, -, hzero⟩ | ⟨newest, hnewest, -, -, hnumber, hmax⟩
  · rw [hnone, map_nil, eq_comm, filter_eq_nil_iff]
    intro details hdetails
    have := (hsynced.chronicle.positive hdetails).1
    simp only [decide_eq_true_eq]
    omega
  · have hself : newest.details ∈ system.snapshots.map (·.details) := mem_map_of_mem hnewest
    rw [hpersisted] at hself
    have hle : newest.details.snapshotSequenceNumber ≤ number := by
      simpa using (mem_filter.mp hself).2
    rw [hpersisted]
    apply filter_congr
    intro details hdetails
    rw [decide_eq_decide]
    constructor
    · intro hbelow
      have hmem : details ∈ system.snapshots.map (·.details) := by
        rw [hpersisted]
        exact mem_filter.mpr ⟨hdetails, by simpa using hbelow⟩
      obtain ⟨manifest, hmanifest, rfl⟩ := mem_map.mp hmem
      exact hnumber ▸ hmax manifest hmanifest
    · intro hbelow
      omega

end

/-- The files up to a number, as the process that is started after them has them: none is
pending. -/
theorem Synced.pending_start {store : WalObjectStore}
    (hwal : (system.newestSnapshot.map (·.details.lastWalSequenceNumber)).getD 0 = store.startWal)
    (hsnapshot : (system.newestSnapshot.map (·.details.snapshotSequenceNumber)).getD 0 =
      store.lastSnapshotSequenceNumber)
    (hperiods : store.tracker.walPeriods = [])
    (hnumber : store.tracker.lastSnapshotSequenceNumber = store.lastSnapshotSequenceNumber) :
    Pending store.tracker
      (store.base (system.history.filter fun contents =>
        decide (contents.number ≤ store.startWal)))
      (store.issued (system.history.filter fun contents =>
        decide (contents.number ≤ store.startWal)))
      (system.history.filter fun contents => decide (contents.number ≤ store.startWal)) ∧
    store.base (system.history.filter fun contents =>
      decide (contents.number ≤ store.startWal)) = store.startWal := by
  have hembedded := fun details =>
    @Synced.embedded_start system details hsynced store.startWal store.lastSnapshotSequenceNumber
      hwal hsnapshot
  set seen := system.history.filter fun contents => decide (contents.number ≤ store.startWal)
    with hseen
  have hlast : lastTaken seen ≤ store.startWal ∧
      lastIssued seen ≤ store.lastSnapshotSequenceNumber := by
    obtain ⟨-, htaken, hissued⟩ | ⟨last, hmem, htaken, hissued⟩ := embedded_cases seen
    · omega
    · have := hembedded last hmem
      omega
  have hbase : store.base seen = store.startWal := Nat.max_eq_left hlast.1
  have hissued : store.issued seen = store.lastSnapshotSequenceNumber := Nat.max_eq_left hlast.2
  refine ⟨⟨?_, by rw [hissued, hnumber]⟩, hbase⟩
  have hnone : filesAfter store.startWal seen = [] := by
    unfold filesAfter
    rw [filter_eq_nil_iff]
    intro contents hcontents
    have := (mem_filter.mp hcontents).2
    simpa using this
  rw [hbase, hperiods, hnone, map_nil]

theorem Synced.start (config : WalConfig) :
    Synced (system.start config) := by
  refine { hsynced with process := ?_ }
  intro store hstore
  have hremaining := hsynced.remaining_start
  have hwal : (system.newestSnapshot.map (·.details.lastWalSequenceNumber)).getD 0 =
      store.startWal := by
    rw [← some.inj hstore]
    rfl
  have hsnapshot : (system.newestSnapshot.map (·.details.snapshotSequenceNumber)).getD 0 =
      store.lastSnapshotSequenceNumber := by
    rw [← some.inj hstore]
  have hcases := hsynced.start_cases hwal hsnapshot
  obtain ⟨hpending, hbase⟩ := hsynced.pending_start hwal hsnapshot
    (by rw [← some.inj hstore]; rfl) (by rw [← some.inj hstore]; rfl)
  rw [hwal] at hremaining
  have hrest : store.remaining = filesAfter store.startWal system.history := by
    rw [← hremaining, ← some.inj hstore]
  have hnext : store.walFileSequenceNumber = store.startWal + 1 := by
    rw [← some.inj hstore]
    rfl
  have htask : store.task = none := by rw [← some.inj hstore]
  have holdest : store.oldestWalFile = system.walFiles.head?.map (·.number) := by
    rw [← some.inj hstore]
  have hreplaying : store.replaying = true := by rw [← some.inj hstore]
  have hwalFiles := hsynced.chronicle.ordered.filter fun contents =>
    decide (contents.number ∉ system.gone)
  rw [← hsynced.files] at hwalFiles
  refine ⟨_, ⟨?_, ?_, ?_, hpending, ?_, by omega, by simp [hreplaying], ?_, ?_⟩, ?_, ?_, ?_⟩
  · rw [hrest]
    exact split_at hsynced.chronicle.ordered _
  · rcases hcases with ⟨-, h0, h0'⟩ | ⟨newest, -, hmem, hlast, hnumber, -⟩
    · exact .inl ⟨h0, h0'⟩
    · exact .inr ⟨newest.details, hmem, hlast, hnumber⟩
  · intro contents hcontents
    rw [hrest] at hcontents
    exact (mem_filesAfter.mp hcontents).2
  · intro contents hcontents
    have := (mem_filter.mp hcontents).2
    simp only [decide_eq_true_eq] at this
    omega
  · intro hdone
    unfold WalObjectStore.oldest
    rw [holdest, hnext]
    cases hhead : system.walFiles.head? with
    | none => simp
    | some first =>
      have hfirst : first ∈ system.history := by
        have hmem : first ∈ system.walFiles := mem_of_mem_head? hhead
        rw [hsynced.files] at hmem
        exact (mem_filter.mp hmem).1
      have hnone : first ∉ filesAfter store.startWal system.history := by
        rw [← hrest, hdone]
        exact not_mem_nil
      have hle : first.number ≤ store.startWal := by
        by_contra hafter
        exact hnone (mem_filesAfter.mpr ⟨hfirst, not_le.mp hafter⟩)
      exact hle.trans (Nat.le_succ _)
  · intro contents hcontents habove
    rw [hbase] at habove
    have hmem : contents ∈ filesAfter store.startWal system.history :=
      mem_filesAfter.mpr ⟨hcontents, habove⟩
    rw [← hremaining] at hmem
    have hfile := (mem_filter.mp hmem).1
    obtain ⟨first, hfirst⟩ : ∃ first, system.walFiles.head? = some first :=
      ⟨_, head?_eq_some_head (ne_nil_of_mem hfile)⟩
    unfold WalObjectStore.oldest
    rw [holdest, hfirst]
    exact head_le_of_mem hwalFiles hfirst hfile
  · have hnumber : store.tracker.lastSnapshotSequenceNumber =
        store.lastSnapshotSequenceNumber := by
      rw [← some.inj hstore]
      rfl
    simp only [WalObjectStore.persistedNumber, htask, hnumber]
    exact hsynced.persisted_start hwal hsnapshot
  · simp [htask]
  · simp [htask]

end

end Start

section Replay

/-- The tracker takes the snapshot of the next file to be replayed as the file has it, if it is an
in-order one: fewer files are pending than it takes for a snapshot of everything, and the gen1
duration gives the file's marker. For a snapshot that is not persisted yet enough files must be
pending; for one that is, an earlier marker does as well. -/
def WalObjectStore.RetakesNext (store : WalObjectStore) : Prop :=
  ∀ contents ∈ store.remaining.head?, ∀ details ∈ contents.snapshot, details.forced = false →
    store.tracker.walPeriods.length + 1 < 3 * store.tracker.snapshotSize ∧
      if store.lastSnapshotSequenceNumber < details.snapshotSequenceNumber then
        store.tracker.numberOfPeriodsToSnapshotAfter ≤ store.tracker.walPeriods.length + 1 ∧
          store.tracker.inOrderMarker contents.maxTime = details.endTimeMarker
      else store.tracker.inOrderMarker contents.maxTime ≤ details.endTimeMarker
deriving Decidable

variable {rest : List WalContents} {added : SnapshotTracker}

theorem WalObjectStore.Follows.base_lt_next (hfollows : store.Follows history seen)
    (hfiles : Chronicle history) (hremaining : store.remaining = contents :: rest) :
    (∀ earlier ∈ seen, earlier.number < contents.number) ∧ store.base seen < contents.number := by
  have hsplit := hfollows.split
  rw [hremaining, append_cons] at hsplit
  obtain ⟨hseen, hlt, -⟩ := Chronicle.concat_iff.mp (hsplit ▸ hfiles).of_append
  have hstart := hfollows.remaining_after contents (by simp [hremaining])
  refine ⟨hlt, max_lt hstart ?_⟩
  obtain ⟨-, htaken, -⟩ | ⟨last, hlast, htaken, -⟩ := embedded_cases seen
  · omega
  · obtain ⟨embedding, hembedding, hself⟩ := mem_embedded.mp hlast
    have hle := hseen.last_le_of_mem hembedding hself
    have := hlt embedding hembedding
    omega

section Retake

variable (hfollows : store.Follows history seen)
    (hfiles : Chronicle history) (hretakes : store.RetakesNext)
    (hremaining : store.remaining = contents :: rest) (hsome : contents.snapshot = some details)
    (hadded : store.tracker.addWalPeriod contents.period = some added)

include hfollows hfiles hretakes hremaining hsome hadded

/-- A snapshot that is persisted already is not taken again. -/
theorem WalObjectStore.Follows.retake_old
    (hold : details.snapshotSequenceNumber ≤ store.lastSnapshotSequenceNumber) :
    added.snapshot details.forced = none ∧
      store.base (seen ++ [contents]) = store.base seen ∧
      store.issued (seen ++ [contents]) = store.issued seen := by
  obtain ⟨hlt, hafter⟩ := hfollows.base_lt_next hfiles hremaining
  have hsplit := hfollows.split
  rw [hremaining] at hsplit
  have hembeds := (hsplit ▸ hfiles).embeds hsome
  have hnumber := hembeds.number
  obtain ⟨started, hstarted, hseq, hbase, hwal, hissued⟩ := hfollows.base_of_lt hfiles (by omega)
  have hdetails : details ∈ embedded history :=
    mem_embedded.mpr ⟨contents, by simp [hsplit], hsome⟩
  have hle := hfiles.last_le_of_le hdetails hstarted (by omega)
  have hinorder : details.forced = false := by
    rw [← Bool.not_eq_true]
    intro hforced
    have := hembeds.forced hforced
    omega
  obtain ⟨hfew, hmarker⟩ := hretakes contents (by simp [hremaining]) details hsome hinorder
  rw [if_neg (not_lt.mpr hold)] at hmarker
  have hpending := hfollows.pending.addWalPeriod hafter hadded
  have hnone : added.snapshot false = none := by
    rw [hbase] at hpending hafter
    refine hpending.retake_none (hsplit ▸ hfiles) hsome hinorder (hsplit ▸ hstarted) (by omega)
      hafter ?_ ?_
    · rw [SnapshotTracker.addWalPeriod_eq_some hadded]
      simpa using hfew
    · rw [SnapshotTracker.addWalPeriod_eq_some hadded]
      exact hmarker
  refine ⟨hinorder ▸ hnone, ?_, ?_⟩
  · rw [hbase]
    unfold WalObjectStore.base
    rw [lastTaken_concat_some hsome]
    omega
  · unfold WalObjectStore.issued
    rw [lastIssued_concat_some hsome]
    omega

/-- A snapshot that is not persisted yet is taken again, with the same last file. -/
theorem WalObjectStore.Follows.retake_new
    (hnew : store.lastSnapshotSequenceNumber < details.snapshotSequenceNumber) :
    ∃ info next, added.snapshot details.forced = some (info, next) ∧
      info.lastWalSequenceNumber = details.lastWalSequenceNumber ∧
      Pending next (store.base (seen ++ [contents])) (store.issued (seen ++ [contents]))
        (seen ++ [contents]) := by
  obtain ⟨hlt, hafter⟩ := hfollows.base_lt_next hfiles hremaining
  have hsplit := hfollows.split
  rw [hremaining] at hsplit
  have hembeds := (hsplit ▸ hfiles).embeds hsome
  have hordered := ordered_concat (hfollows.chronicle_seen hfiles).ordered hlt
  obtain ⟨hbase, hissued, hbase', hissued'⟩ :=
    hfollows.base_concat_new hfiles hsome hembeds hnew
  have hpending := hfollows.pending.addWalPeriod hafter hadded
  obtain ⟨info, next, hsnapshot, hlast⟩ : ∃ info next,
      added.snapshot details.forced = some (info, next) ∧
        info.lastWalSequenceNumber = details.lastWalSequenceNumber := by
    cases hforced : details.forced with
    | true =>
      obtain ⟨info, next, hsnapshot, hlast⟩ := hpending.retake_forced hafter
      exact ⟨info, next, hsnapshot, hlast.trans (hembeds.forced hforced).symm⟩
    | false =>
      obtain ⟨hfew, hmarker⟩ := hretakes contents (by simp [hremaining]) details hsome hforced
      rw [if_pos hnew] at hmarker
      rw [hbase] at hpending hafter
      refine hpending.retake_inOrder hordered hafter hembeds hforced ?_ ?_ ?_
      · rw [SnapshotTracker.addWalPeriod_eq_some hadded]
        simpa [SnapshotTracker.numberOfPeriodsToSnapshotAfter] using hmarker.1
      · rw [SnapshotTracker.addWalPeriod_eq_some hadded]
        simpa using hfew
      · rw [SnapshotTracker.addWalPeriod_eq_some hadded]
        exact hmarker.2
  refine ⟨info, next, hsnapshot, hlast, ?_⟩
  obtain ⟨-, hnumber, -, hnext⟩ := hpending.issue hordered hsnapshot
  rw [hbase', hissued', ← hlast]
  have hseq : info.snapshotSequenceNumber = details.snapshotSequenceNumber := by
    have := hembeds.number
    omega
  exact hseq ▸ hnext

end Retake

theorem Synced.replayNext {replayed : WalObjectStore} (hsynced : Synced system)
    (hprocess : system.process = some store) (hretakes : store.RetakesNext)
    (hreplay : store.replayNext = some replayed) :
    Synced { system with process := some replayed } := by
  obtain ⟨seen, hfollows, hpermitted⟩ := hsynced.process store hprocess
  obtain ⟨contents, rest, added, hreplaying, htask, hremaining, hadded, hcases⟩ :=
    WalObjectStore.replayNext_eq_some hreplay
  refine { hsynced with process := ?_ }
  refine forall_eq_some ?_
  obtain ⟨hlt, hafter⟩ := hfollows.base_lt_next hsynced.chronicle hremaining
  have hsplit := hfollows.split
  rw [hremaining] at hsplit
  have hlive : store.replaying = false → rest = [] := by simp [hreplaying]
  have hrest : ∀ later ∈ rest, store.startWal < later.number := fun later hlater =>
    hfollows.remaining_after later (by simp [hremaining, hlater])
  have hpersisted := hpermitted.persisted
  simp only [WalObjectStore.persistedNumber, htask] at hpersisted
  -- a file whose snapshot, if it has one, is not taken again
  have hpassed : store.base (seen ++ [contents]) = store.base seen →
      store.issued (seen ++ [contents]) = store.issued seen →
        let passed : WalObjectStore := { store with
          tracker := added
          walFileSequenceNumber := contents.number + 1
          buffer := store.notify contents.file
          remaining := rest }
        passed.Follows system.history (seen ++ [contents]) ∧
          passed.Permitted system.snapshots system.history (seen ++ [contents]) := by
    intro hsame hsame'
    have hpending := hfollows.pending.addWalPeriod hafter hadded
    have hnumber : added.lastSnapshotSequenceNumber =
        store.tracker.lastSnapshotSequenceNumber := by
      rw [hpending.number, hfollows.pending.number]
    refine ⟨hfollows.advance hsynced.chronicle (by simp [hsplit]) (fun _ h => h) ⟨rfl, rfl, rfl⟩ rfl
      hrest hlive hafter hfollows.oldest_le ?_, ?_, ?_, ?_⟩
    · rw [hsame, hsame']
      exact hpending
    · simp only [WalObjectStore.persistedNumber, htask, hnumber]
      exact hpersisted
    · simp [htask]
    · simp [htask]
  refine ⟨seen ++ [contents], ?_⟩
  rcases hcases with ⟨hnone, rfl⟩ | ⟨details, hsome, ⟨hold, rfl⟩ | ⟨hnew, rfl⟩⟩
  · obtain ⟨hsame, hsame'⟩ := @WalObjectStore.Follows.base_concat_none store seen contents hnone
    exact hpassed hsame hsame'
  · obtain ⟨hretake, hsame, hsame'⟩ := hfollows.retake_old hsynced.chronicle hretakes hremaining
      hsome hadded hold
    simp only [hretake, map_none, elim_none, getD_none]
    exact hpassed hsame hsame'
  · obtain ⟨info, tracker, hretake, hinfo, hpending⟩ := hfollows.retake_new hsynced.chronicle
      hretakes hremaining hsome hadded hnew
    have hembeds := (hsplit ▸ hsynced.chronicle).embeds hsome
    obtain ⟨hbase, hissued, hbase', hissued'⟩ :=
      hfollows.base_concat_new hsynced.chronicle hsome hembeds hnew
    have hnumber : tracker.lastSnapshotSequenceNumber = details.snapshotSequenceNumber := by
      rw [hpending.number, hissued']
    simp only [hretake, map_some, getD_some]
    refine ⟨hfollows.advance hsynced.chronicle (by simp [hsplit]) (fun _ h => h) ⟨rfl, rfl, rfl⟩ rfl
      hrest hlive hafter hfollows.oldest_le hpending, ?_, ?_, ?_⟩
    · have hprevious : store.tracker.lastSnapshotSequenceNumber =
          tracker.lastSnapshotSequenceNumber - 1 := by
        rw [hfollows.pending.number, hnumber, hembeds.number]
        omega
      rw [hprevious] at hpersisted
      exact hpersisted
    · intro issued rows cleanup hpersist
      obtain ⟨rfl, -, rfl⟩ := hpersist
      refine ⟨mem_embedded.mpr ⟨contents, by simp [hsplit], hsome⟩, hnumber.symm, hbase'.ge, ?_,
        by simpa using hinfo⟩
      obtain ⟨taken, htaken, htakennumber⟩ := hembeds.last_mem
      rw [← htakennumber]
      refine hfollows.oldest_le taken ?_ ?_
      · rw [hsplit, append_cons]
        exact mem_append_left _ htaken
      · rw [hbase, htakennumber]
        exact hembeds.after
    · intro _ _ hdelete
      cases hdelete

end Replay

theorem Synced.finishReplay (hsynced : Synced system) (hprocess : system.process = some store)
    (hremaining : store.remaining = []) :
    Synced { system with process := some { store with replaying := false } } := by
  obtain ⟨seen, hfollows, hpermitted⟩ := hsynced.process store hprocess
  refine { hsynced with process := ?_ }
  refine forall_eq_some ?_
  exact ⟨seen, { hfollows with live := fun _ => hremaining }, { hpermitted with }⟩

theorem Synced.crash (hsynced : Synced system) : Synced { system with process := none } :=
  { hsynced with process := by simp }

/-- The steps after which replay takes every snapshot as it was taken: it has the thresholds and
the rounding for it. -/
def RetakesSnapshots (system : WalSystem) : WalAction → Prop
  | .replayNext => ∀ store ∈ system.process, store.RetakesNext
  | _ => True

instance (system : WalSystem) : (action : WalAction) → Decidable (RetakesSnapshots system action)
  | .replayNext => inferInstanceAs (Decidable (∀ store ∈ system.process, _))
  | .start _ | .flush .. | .persistSnapshot | .deleteWalFile | .finishReplay | .crash =>
    .isTrue trivial

theorem synced_step {action : WalAction} (hsynced : Synced system)
    (hallowed : RetakesSnapshots system action) (hnext : system.step action = some next) :
    Synced next := by
  cases action with
  | start config =>
    simp only [WalSystem.step] at hnext
    split at hnext
    · exact some.inj hnext ▸ hsynced.start config
    · cases hnext
  | flush file forceSnapshot =>
    simp only [WalSystem.step, bind_eq_bind, bind_eq_some_iff] at hnext
    obtain ⟨store, hprocess, ⟨flushed, contents⟩, hflush, hpure⟩ := hnext
    exact some.inj hpure ▸ hsynced.flush hprocess hflush
  | persistSnapshot =>
    obtain ⟨store, hprocess, hpersist⟩ := bind_eq_some_iff.mp hnext
    exact hsynced.persistSnapshot hprocess hpersist
  | deleteWalFile =>
    obtain ⟨store, hprocess, hdelete⟩ := bind_eq_some_iff.mp hnext
    exact hsynced.deleteWalFile hprocess hdelete
  | replayNext =>
    simp only [WalSystem.step, bind_eq_bind, bind_eq_some_iff] at hnext
    obtain ⟨store, hprocess, replayed, hreplay, hpure⟩ := hnext
    exact some.inj hpure ▸ hsynced.replayNext hprocess (hallowed store hprocess) hreplay
  | finishReplay =>
    obtain ⟨store, hprocess, hfinish⟩ := bind_eq_some_iff.mp hnext
    split at hfinish
    case isTrue hdone =>
      exact some.inj hfinish ▸
        hsynced.finishReplay hprocess (isEmpty_iff.mp hdone.2.1)
    case isFalse => cases hfinish
  | crash =>
    simp only [WalSystem.step] at hnext
    split at hnext
    · exact some.inj hnext ▸ hsynced.crash
    · cases hnext

theorem synced_initial (hinitial : walMachine.initial system) : Synced system := by
  obtain rfl : system = {} := hinitial
  exact ⟨.nil, by simp, by simp [WalSystem.gone], by simp [WalSystem.gone],
    ⟨0, by simp [embedded]⟩, by simp⟩

theorem synced_of_reachable (system : WalSystem)
    (hreachable : walMachine.Reachable RetakesSnapshots system) : Synced system :=
  hreachable.invariant (fun _ => synced_initial) fun _ _ _ hsynced hallowed hnext =>
    synced_step hsynced hallowed hnext

end Steps

end RefluxDb.Wal
