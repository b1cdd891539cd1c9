import RefluxDb.Write.CheckpointKeeping

/-! A node that persists snapshots, keeps monthly checkpoints of them and restarts.

A snapshot is first made durable and then applied to the checkpoint in memory; that checkpoint is
put in the store with the first snapshot after startup, and then whenever the interval has elapsed.
With the first snapshot of another month the old checkpoint is put and a new one begun. A restart
loses what is in memory. It loads the checkpoint of the current month, if there is one; if there is
no checkpoint at all, a background task builds them from the snapshots and offers the current one.
Puts of checkpoints succeed, and complete before a restart. Clocks are inputs of the steps. -/

namespace RefluxDb.Write

open List Option RefluxDb.Library

/-- What a node has persisted, and what it has in memory for its checkpoints. -/
structure Persister where
  /-- Durable snapshots with the month of `persisted_at`, oldest first. -/
  snapshots : List Dated := []
  checkpoints : List PersistedSnapshotCheckpoint := []
  cached : Option CachedCheckpoint := none
  /-- A checkpoint was put since startup. -/
  hasCheckpointed : Bool := false
  /-- A durable snapshot that is not applied to the checkpoint yet. -/
  unapplied : Option PersistedSnapshot := none
  /-- The month of startup and the snapshots, newest first, that checkpoints are built from. -/
  unbuilt : Option (YearMonth × List Dated) := none
  built : Option PersistedSnapshotCheckpoint := none

namespace Persister

inductive Action where
  | putSnapshot (month : YearMonth) (snapshot : PersistedSnapshot)
  | updateCheckpoint (month : YearMonth) (elapsed : Bool)
  | restart (month : YearMonth)
  | buildCheckpoints
  | warmCheckpointCache

variable (state : Persister)

/-- What a restart finds. -/
def objects : OwnObjects where
  snapshots := state.snapshots.map Prod.snd
  checkpoints := state.checkpoints

def updateCachedCheckpoint (month : YearMonth) (snapshot : PersistedSnapshot) : Persister :=
  let fresh : CachedCheckpoint := { checkpoint := { yearMonth := month } }
  match state.cached with
  | some cached =>
    if cached.checkpoint.yearMonth = month then
      { state with cached := some (cached.updateCachedCheckpoint snapshot) }
    else
      { state with
        cached := some (fresh.updateCachedCheckpoint snapshot)
        checkpoints := putCheckpoint state.checkpoints cached.checkpoint }
  | none => { state with cached := some (fresh.updateCachedCheckpoint snapshot) }

def persistCheckpoint (elapsed : Bool) : Persister :=
  if state.hasCheckpointed && !elapsed then state
  else match state.cached with
    | none => state
    | some cached =>
      { state with
        checkpoints := putCheckpoint state.checkpoints cached.checkpoint
        hasCheckpointed := true }

def restart (snapshotsToLoad : Nat) (month : YearMonth) : Persister :=
  let loaded := state.objects.bootCheckpoints snapshotsToLoad
  { snapshots := state.snapshots
    checkpoints := state.checkpoints
    cached := (loaded.find? fun checkpoint => checkpoint.yearMonth = month).map .ofCheckpoint
    unbuilt :=
      if loaded.isEmpty then some (month, state.snapshots.reverse.take snapshotsToLoad) else none }

def buildCheckpoints (month : YearMonth) (loaded : List Dated) : Persister :=
  let built := buildCheckpointsFromSnapshots loaded
  { state with
    checkpoints := built.foldl putCheckpoint state.checkpoints
    unbuilt := none
    built := built.find? fun checkpoint => checkpoint.yearMonth = month }

def warmCheckpointCache (checkpoint : PersistedSnapshotCheckpoint) : Persister :=
  { state with cached := state.cached.or (some (.ofCheckpoint checkpoint)), built := none }

/-- A node numbers its snapshots upwards; it writes paths of its own tables and WAL files. -/
def step (tableOf : String → TableKey) (snapshotsToLoad : Nat) (state : Persister) :
    Action → Option Persister
  | .putSnapshot month s =>
    if state.unapplied = none ∧ 0 < s.snapshotSequenceNumber ∧
        (∀ d ∈ state.snapshots, d.2.snapshotSequenceNumber < s.snapshotSequenceNumber) ∧
        (Manifest.wal s).Owned tableOf ∧
        ∀ entry ∈ s.added, (parseGen1Path entry.2.path).isSome then
      some { state with snapshots := state.snapshots ++ [(month, s)], unapplied := some s }
    else none
  | .updateCheckpoint month elapsed =>
    state.unapplied.map fun s =>
      { (state.updateCachedCheckpoint month s).persistCheckpoint elapsed with unapplied := none }
  | .restart month => some (state.restart snapshotsToLoad month)
  | .buildCheckpoints => state.unbuilt.map fun work => state.buildCheckpoints work.1 work.2
  | .warmCheckpointCache => state.built.map state.warmCheckpointCache

def machine (tableOf : String → TableKey) (snapshotsToLoad : Nat) : Machine Persister Action where
  initial state := state = {}
  step := step tableOf snapshotsToLoad

/-- Where a restart finds the files that all snapshots together leave. -/
def RestartsRight (snapshotsToLoad : Nat) (state : Persister) : Prop :=
  ∀ key path, (key, path) ∈ (state.objects.loadPersistedFiles snapshotsToLoad).files.paths ↔
    (key, path) ∈ (Inner.newFromPersistedSnapshots (state.snapshots.map Prod.snd)).files.paths

/-- Snapshots are numbered and dated in order, and fit in what is loaded at startup. A snapshot is
applied where no earlier one with files is left out of the checkpoints, to the checkpoint of the
latest month, which is in memory if there is one. Checkpoints are built before any other is there,
from all earlier snapshots with files, which all add some. -/
def LeavesNoneOut (snapshotsToLoad : Nat) (state : Persister) : Action → Prop
  | .putSnapshot month s =>
    (∀ d ∈ state.snapshots, d.1 ≤ month) ∧ s.snapshotSequenceNumber ≤ snapshotsToLoad ∧
      Consistent (state.snapshots.map Prod.snd ++ [s])
  | .updateCheckpoint month _ =>
    (∀ d ∈ state.snapshots, d.2.Lists → some d.2 ≠ state.unapplied →
      ∃ checkpoint ∈ knownCheckpoints state.checkpoints state.cached,
        d.2.snapshotSequenceNumber ≤ checkpoint.lastSnapshotSequenceNumber) ∧
    ∀ checkpoint ∈ knownCheckpoints state.checkpoints state.cached,
      checkpoint.yearMonth ≤ month ∧ (checkpoint.yearMonth = month →
        (state.cached.map (·.checkpoint.yearMonth)) = some month)
  | .buildCheckpoints =>
    ∀ work ∈ state.unbuilt, (∀ d ∈ work.2, ¬d.2.Timed) ∨
      (knownCheckpoints state.checkpoints state.cached = [] ∧
        ∀ d ∈ state.snapshots, d.2.Lists → some d.2 ≠ state.unapplied →
          d ∈ work.2 ∧ d.2.Timed)
  | .restart _ | .warmCheckpointCache => True

instance (snapshotsToLoad : Nat) (state : Persister) :
    ∀ action, Decidable (LeavesNoneOut snapshotsToLoad state action)
  | .putSnapshot _ _ => inferInstanceAs (Decidable (_ ∧ _ ∧ _))
  | .updateCheckpoint _ _ => inferInstanceAs (Decidable (_ ∧ _))
  | .buildCheckpoints => inferInstanceAs (Decidable (∀ work ∈ state.unbuilt, _ ∨ _))
  | .restart _ | .warmCheckpointCache => inferInstanceAs (Decidable True)

/-- The durable snapshots are numbered and dated in order. -/
structure Recorded (tableOf : String → TableKey) (snapshotsToLoad : Nat) (snapshots : List Dated) :
    Prop where
  history : OwnHistory tableOf (snapshots.map Prod.snd)
  months : snapshots.Pairwise fun a b => a.1 ≤ b.1
  window : ∀ s ∈ snapshots.map Prod.snd, s.snapshotSequenceNumber ≤ snapshotsToLoad

/-- What holds along a run, with the snapshots filed so far. -/
structure Orderly (tableOf : String → TableKey) (snapshotsToLoad : Nat) (filed : List Dated)
    (state : Persister) : Prop where
  recorded : Recorded tableOf snapshotsToLoad state.snapshots
  kept : Kept (state.snapshots.map Prod.snd) filed state.checkpoints state.cached
  newest : ∀ s ∈ state.unapplied, Newest (state.snapshots.map Prod.snd) filed s
  loaded : ∀ work ∈ state.unbuilt, work.2.reverse.Sublist state.snapshots ∧
    ∀ d ∈ work.2, some d.2 ≠ state.unapplied
  built : state.cached = none → ∀ b ∈ state.built, b ∈ state.checkpoints ∧ Latest filed b

/-- The invariant: the snapshots are filed in some way. -/
def Tracked (tableOf : String → TableKey) (snapshotsToLoad : Nat) (state : Persister) : Prop :=
  ∃ filed, Orderly tableOf snapshotsToLoad filed state

variable {tableOf : String → TableKey} {snapshotsToLoad : Nat} {filed : List Dated}
variable {state : Persister} {month : YearMonth} {s : PersistedSnapshot} {elapsed : Bool}

theorem Orderly.restartsRight (horderly : Orderly tableOf snapshotsToLoad filed state) :
    RestartsRight snapshotsToLoad state := by
  intro key path
  exact @mem_loadPersistedFiles _ _ state.objects horderly.recorded.history
    horderly.kept.filing_durable horderly.kept.sealed_durable key path _ horderly.recorded.window

theorem Recorded.putSnapshot {snapshots : List Dated}
    (hrecorded : Recorded tableOf snapshotsToLoad snapshots)
    (hpositive : 0 < s.snapshotSequenceNumber)
    (hlater : ∀ d ∈ snapshots, d.2.snapshotSequenceNumber < s.snapshotSequenceNumber)
    (howned : (Manifest.wal s).Owned tableOf)
    (hgen1 : ∀ entry ∈ s.added, (parseGen1Path entry.2.path).isSome)
    (hmonth : ∀ d ∈ snapshots, d.1 ≤ month) (hwindow : s.snapshotSequenceNumber ≤ snapshotsToLoad)
    (hconsistent : Consistent (snapshots.map Prod.snd ++ [s])) :
    Recorded tableOf snapshotsToLoad (snapshots ++ [(month, s)]) := by
  have hmap : (snapshots ++ [(month, s)]).map Prod.snd = snapshots.map Prod.snd ++ [s] := by simp
  refine ⟨?_, ?_, ?_⟩
  · rw [hmap]
    refine ⟨?_, ?_, ?_, ?_, hconsistent⟩
    · exact forall_mem_concat.mpr ⟨hrecorded.history.owned, howned⟩
    · exact forall_mem_concat.mpr ⟨hrecorded.history.gen1, hgen1⟩
    · refine pairwise_concat.mpr ⟨hrecorded.history.ordered, fun t ht => ?_⟩
      obtain ⟨d, hd, rfl⟩ := mem_map.mp ht
      exact hlater d hd
    · exact forall_mem_concat.mpr ⟨hrecorded.history.positive, hpositive⟩
  · exact pairwise_concat.mpr ⟨hrecorded.months, hmonth⟩
  · rw [hmap]
    exact forall_mem_concat.mpr ⟨hrecorded.window, hwindow⟩

theorem Orderly.putSnapshot (horderly : Orderly tableOf snapshotsToLoad filed state)
    (hrecorded : Recorded tableOf snapshotsToLoad (state.snapshots ++ [(month, s)]))
    (hlater : ∀ d ∈ state.snapshots, d.2.snapshotSequenceNumber < s.snapshotSequenceNumber) :
    Orderly tableOf snapshotsToLoad filed
      { state with snapshots := state.snapshots ++ [(month, s)], unapplied := some s } := by
  have hmap : (state.snapshots ++ [(month, s)]).map Prod.snd =
      state.snapshots.map Prod.snd ++ [s] := by simp
  have hlater' : ∀ t ∈ state.snapshots.map Prod.snd,
      t.snapshotSequenceNumber < s.snapshotSequenceNumber := forall_mem_map.mpr hlater
  refine ⟨hrecorded, ?_, ?_, fun work hwork => ⟨?_, fun d hd hsame => ?_⟩, horderly.built⟩
  · rw [hmap]
    exact horderly.kept.putSnapshot hlater'
  · rintro _ ⟨⟩
    rw [hmap]
    refine ⟨by simp, fun t ht hne => ?_, fun d hd hsame => ?_⟩
    · rcases mem_concat.mp ht with hold | hnew
      · exact hlater' t hold
      · exact absurd hnew hne
    · exact absurd (hlater' _ (horderly.kept.filing.known d hd)) (by simp [hsame])
  · exact (horderly.loaded work hwork).1.trans (sublist_append_left _ _)
  · have hmem := (horderly.loaded work hwork).1.subset (mem_reverse.mpr hd)
    have hlt := hlater d hmem
    rw [some_inj.mp hsame] at hlt
    exact lt_irrefl _ hlt

/-- Applying a snapshot changes the checkpoints and nothing else. -/
theorem updateCachedCheckpoint_frame (state : Persister) (month : YearMonth)
    (s : PersistedSnapshot) : ∃ checkpoints cached, state.updateCachedCheckpoint month s =
      { state with checkpoints := checkpoints, cached := some cached } := by
  unfold Persister.updateCachedCheckpoint
  cases state.cached with
  | none => exact ⟨_, _, rfl⟩
  | some c =>
    dsimp only
    split_ifs
    · exact ⟨_, _, rfl⟩
    · exact ⟨_, _, rfl⟩

/-- The newest snapshot is applied to the checkpoint of its month, new or in memory. -/
theorem Orderly.updateCachedCheckpoint (horderly : Orderly tableOf snapshotsToLoad filed state)
    (hunapplied : state.unapplied = some s)
    (hallowed : LeavesNoneOut snapshotsToLoad state (.updateCheckpoint month elapsed)) :
    Kept (state.snapshots.map Prod.snd) (filed ++ [(month, s)])
      (state.updateCachedCheckpoint month s).checkpoints
      (state.updateCachedCheckpoint month s).cached := by
  obtain ⟨hnone, hmonths⟩ := hallowed
  have hkept := horderly.kept
  have hnewest := horderly.newest s hunapplied
  have hordered := horderly.recorded.history.ordered
  have hconsistent := horderly.recorded.history.consistent
  have hcomplete : ∀ t ∈ state.snapshots.map Prod.snd, t.Lists → t ≠ s →
      ∃ month, (month, t) ∈ filed := by
    intro t ht hlists hne
    obtain ⟨d, hd, rfl⟩ := mem_map.mp ht
    obtain ⟨checkpoint, hcheckpoint, hle⟩ := hnone d hd hlists (by simpa [hunapplied] using hne)
    exact hkept.filing.complete checkpoint hcheckpoint d.2 ht hlists hle
  unfold Persister.updateCachedCheckpoint
  cases hcached : state.cached with
  | none =>
    rw [hcached] at hkept hmonths
    refine hkept.beginMonth hordered hconsistent hnewest hcomplete fun checkpoint hmem => ?_
    obtain ⟨hle, hsame⟩ := hmonths checkpoint (mem_knownCheckpoints.mpr (.inl hmem))
    exact hle.lt_of_ne fun heq => by simpa using hsame heq
  | some c =>
    rw [hcached] at hkept hmonths
    dsimp only
    split_ifs with hmonth
    · subst hmonth
      exact hkept.continueMonth hordered hconsistent hnewest hcomplete
        fun checkpoint hmem => (hmonths checkpoint hmem).1
    · refine (hkept.persistCheckpoint.dropCached self_mem_putCheckpoint).beginMonth hordered
        hconsistent hnewest hcomplete fun checkpoint hmem => ?_
      have hknown : checkpoint ∈ knownCheckpoints state.checkpoints (some c) := by
        rcases mem_of_mem_putCheckpoint hmem with hold | rfl
        · exact mem_knownCheckpoints.mpr (.inl hold)
        · exact mem_knownCheckpoints.mpr (.inr ⟨c, rfl, rfl⟩)
      obtain ⟨hle, hsame⟩ := hmonths checkpoint hknown
      exact hle.lt_of_ne fun heq => hmonth (by simpa using hsame heq)

theorem Orderly.updateCheckpoint (horderly : Orderly tableOf snapshotsToLoad filed state)
    (hunapplied : state.unapplied = some s)
    (hallowed : LeavesNoneOut snapshotsToLoad state (.updateCheckpoint month elapsed)) :
    Orderly tableOf snapshotsToLoad (filed ++ [(month, s)])
      { (state.updateCachedCheckpoint month s).persistCheckpoint elapsed with
        unapplied := none } := by
  have hkept := horderly.updateCachedCheckpoint hunapplied hallowed
  obtain ⟨checkpoints, cached, hupdated⟩ := updateCachedCheckpoint_frame state month s
  rw [hupdated] at hkept ⊢
  have hloaded : ∀ work ∈ state.unbuilt, work.2.reverse.Sublist state.snapshots ∧
      ∀ d ∈ work.2, some d.2 ≠ none :=
    fun work hwork => ⟨(horderly.loaded work hwork).1, fun d _ => some_ne_none d.2⟩
  unfold Persister.persistCheckpoint
  split_ifs with hskip
  · exact ⟨horderly.recorded, hkept, by simp, hloaded, by simp⟩
  · exact ⟨horderly.recorded, hkept.persistCheckpoint, by simp, hloaded, by simp⟩

variable {checkpoint : PersistedSnapshotCheckpoint}

/-- The checkpoint that is loaded has all that is durable of its month. -/
theorem latest_of_find {objects : OwnObjects}
    (hfind : objects.latestPerMonth.find? (fun c => c.yearMonth = month) = some checkpoint) :
    Latest (filed.filter fun dated => Checkpointed objects.checkpoints dated) checkpoint := by
  intro dated hdated hmonth
  have hcheckpointed : Checkpointed objects.checkpoints dated :=
    of_decide_eq_true (mem_filter.mp hdated).2
  obtain ⟨latest, hlatest, hsame, hle⟩ := hcheckpointed.latest
  have hpairwise : objects.latestPerMonth.Pairwise fun a b => a.yearMonth < b.yearMonth :=
    OwnObjects.latestPerMonth_pairwise
  obtain rfl : latest = checkpoint := by
    refine inj_on_of_nodup_map (f := (·.yearMonth)) ?_ hlatest
      (mem_of_find?_eq_some hfind) (hsame.trans hmonth)
    exact pairwise_map.mpr (hpairwise.imp fun h => h.ne)
  exact hle

/-- A restart has what the durable checkpoints have. -/
theorem Orderly.restart (horderly : Orderly tableOf snapshotsToLoad filed state)
    (month : YearMonth) :
    Orderly tableOf snapshotsToLoad
      (filed.filter fun dated => Checkpointed state.checkpoints dated)
      (state.restart snapshotsToLoad month) where
  recorded := horderly.recorded
  kept := by
    have hkept := horderly.kept.loseMemory
    have hloaded : state.objects.bootCheckpoints snapshotsToLoad = state.objects.latestPerMonth :=
      OwnObjects.bootCheckpoints_of_window horderly.recorded.window
    simp only [Persister.restart, hloaded]
    cases hfind : state.objects.latestPerMonth.find? fun c => c.yearMonth = month with
    | none => exact hkept
    | some checkpoint =>
      exact hkept.warmCheckpointCache
        (OwnObjects.mem_latestPerMonth (mem_of_find?_eq_some hfind)) (latest_of_find hfind)
  newest := by
    rintro s ⟨⟩
  loaded := by
    intro work hwork
    simp only [Persister.restart] at hwork
    split_ifs at hwork with hempty
    · obtain rfl := mem_some_iff.mp hwork
      refine ⟨?_, fun d _ => some_ne_none d.2⟩
      have hsublist := (take_sublist snapshotsToLoad state.snapshots.reverse).reverse
      rwa [reverse_reverse] at hsublist
    · simp at hwork
  built := by
    rintro _ b ⟨⟩

/-- Where all of the snapshots that were loaded are passed over, nothing is built. -/
theorem buildCheckpointsFromSnapshots_eq_nil {loaded : List Dated}
    (hnone : ∀ d ∈ loaded, ¬d.2.Timed) : buildCheckpointsFromSnapshots loaded = [] := by
  have hempty : (loaded.filter fun d => d.2.Timed) = [] :=
    filter_eq_nil_iff.mpr fun d hd => by simpa using hnone d hd
  rw [buildCheckpointsFromSnapshots, hempty]
  rfl

theorem Orderly.buildCheckpoints (horderly : Orderly tableOf snapshotsToLoad filed state)
    {work : YearMonth × List Dated} (hunbuilt : state.unbuilt = some work)
    (hallowed : LeavesNoneOut snapshotsToLoad state .buildCheckpoints) :
    ∃ filed, Orderly tableOf snapshotsToLoad filed (state.buildCheckpoints work.1 work.2) := by
  obtain ⟨hloaded, hunapplied⟩ := horderly.loaded work hunbuilt
  rcases hallowed work hunbuilt with hnone | ⟨hempty, hall⟩
  · refine ⟨filed, horderly.recorded, ?_, horderly.newest, ?_, ?_⟩
    all_goals simp only [Persister.buildCheckpoints, buildCheckpointsFromSnapshots_eq_nil hnone]
    · exact horderly.kept
    · rintro work ⟨⟩
    · rintro _ b ⟨⟩
  have hcheckpoints : state.checkpoints = [] := (append_eq_nil_iff.mp hempty).1
  have hcached : state.cached = none := by simpa using (append_eq_nil_iff.mp hempty).2
  have hsublist : (buildOrder work.2).Sublist state.snapshots := by
    rw [buildOrder, ← filter_reverse]
    exact filter_sublist.trans hloaded
  have hrecorded := horderly.recorded
  have hordered := ((pairwise_map.mp hrecorded.history.ordered).and hrecorded.months).sublist
    hsublist
  have hmem : ∀ d ∈ work.2, d ∈ state.snapshots :=
    fun d hd => hloaded.subset (mem_reverse.mpr hd)
  have hlater : ∀ s ∈ state.unapplied, ∀ d ∈ work.2,
      d.2.snapshotSequenceNumber < s.snapshotSequenceNumber := by
    intro s hs d hd
    refine (horderly.newest s hs).later d.2 (mem_map_of_mem (hmem d hd)) fun hsame => ?_
    exact hunapplied d hd (hsame ▸ hs.symm)
  have hkept : Kept (state.snapshots.map Prod.snd) (buildOrder work.2)
      ((buildCheckpointsFromSnapshots work.2).foldl putCheckpoint []) none := by
    refine Kept.build hordered horderly.recorded.history.ordered
      horderly.recorded.history.consistent (fun d hd => mem_map_of_mem (hmem d hd)) ?_
    intro t ht hlists
    obtain ⟨d, hd, rfl⟩ := mem_map.mp ht
    by_cases hsame : some d.2 = state.unapplied
    · exact .inr (hlater d.2 hsame.symm)
    · exact .inl ⟨d.1, mem_buildOrder.mpr (hall d hd hlists hsame)⟩
  refine ⟨buildOrder work.2, horderly.recorded, ?_, fun s hs => ?_, ?_, fun _ b hb => ?_⟩
  · simp only [Persister.buildCheckpoints, hcheckpoints, hcached]
    exact hkept
  · obtain ⟨hpersisted, hnewer, _⟩ := horderly.newest s hs
    refine ⟨hpersisted, hnewer, fun d hd hsame => ?_⟩
    exact (hlater s hs d (mem_buildOrder.mp hd).1).ne (congrArg (·.snapshotSequenceNumber) hsame)
  · rintro work ⟨⟩
  · have hbuilt : b ∈ buildCheckpointsFromSnapshots work.2 := mem_of_find?_eq_some hb
    refine ⟨?_, (built_spec hordered hbuilt).1⟩
    exact mem_foldl_putCheckpoint _ pairwise_buildCheckpointsFromSnapshots hbuilt

theorem Orderly.warmCheckpointCache (horderly : Orderly tableOf snapshotsToLoad filed state)
    (hbuilt : state.built = some checkpoint) :
    Orderly tableOf snapshotsToLoad filed (state.warmCheckpointCache checkpoint) := by
  refine ⟨horderly.recorded, ?_, horderly.newest, horderly.loaded, by
    simp [Persister.warmCheckpointCache]⟩
  unfold Persister.warmCheckpointCache
  have hkept := horderly.kept
  cases hcached : state.cached with
  | none =>
    obtain ⟨hdurable, hlatest⟩ := horderly.built hcached checkpoint hbuilt
    rw [hcached] at hkept
    exact hkept.warmCheckpointCache hdurable hlatest
  | some c =>
    rw [hcached] at hkept
    exact hkept

theorem tracked_step {next : Persister} {action : Action}
    (htracked : Tracked tableOf snapshotsToLoad state)
    (hallowed : LeavesNoneOut snapshotsToLoad state action)
    (hstep : (machine tableOf snapshotsToLoad).step state action = some next) :
    Tracked tableOf snapshotsToLoad next := by
  obtain ⟨filed, horderly⟩ := htracked
  cases action with
  | putSnapshot month s =>
    simp only [machine, step, ite_none_right_eq_some, some.injEq] at hstep
    obtain ⟨⟨_, hpositive, hlater, howned, hgen1⟩, rfl⟩ := hstep
    obtain ⟨hmonth, hwindow, hconsistent⟩ := hallowed
    exact ⟨filed, horderly.putSnapshot (horderly.recorded.putSnapshot hpositive hlater howned hgen1
      hmonth hwindow hconsistent) hlater⟩
  | updateCheckpoint month elapsed =>
    obtain ⟨s, hunapplied, rfl⟩ := map_eq_some_iff.mp hstep
    exact ⟨_, horderly.updateCheckpoint hunapplied hallowed⟩
  | restart month =>
    obtain rfl := some.inj hstep
    exact ⟨_, horderly.restart month⟩
  | buildCheckpoints =>
    obtain ⟨work, hunbuilt, rfl⟩ := map_eq_some_iff.mp hstep
    exact horderly.buildCheckpoints hunbuilt hallowed
  | warmCheckpointCache =>
    obtain ⟨checkpoint, hbuilt, rfl⟩ := map_eq_some_iff.mp hstep
    exact ⟨filed, horderly.warmCheckpointCache hbuilt⟩

theorem tracked_initial : Tracked tableOf snapshotsToLoad {} := by
  refine ⟨[], ⟨⟨?_, ?_, ?_⟩, .empty, ?_, ?_, ?_⟩⟩
  · constructor <;> simp [Consistent]
  all_goals simp

/-- A restart finds the files that all snapshots leave, wherever it comes in a run that leaves no
snapshot out of the checkpoints. -/
theorem restartsRight_of_leavesNoneOut
    (hreachable : (machine tableOf snapshotsToLoad).Reachable
      (LeavesNoneOut snapshotsToLoad) state) :
    RestartsRight snapshotsToLoad state := by
  obtain ⟨filed, horderly⟩ : Tracked tableOf snapshotsToLoad state :=
    hreachable.invariant (fun _ hinitial => hinitial ▸ tracked_initial)
      fun _ _ _ htracked hallowed hstep => tracked_step htracked hallowed hstep
  exact horderly.restartsRight

section Example

open Streams

def january : YearMonth := toLex (2026, 1)

def february : YearMonth := toLex (2026, 2)

def ownTable (_ : String) : TableKey := ⟨1, 1⟩

/-- A snapshot of one file is persisted and applied to the checkpoint. -/
def persistSnapshot (month : YearMonth) (seq : Nat) (elapsed : Bool) : List Action :=
  [.putSnapshot month (writerManifest seq [writerFile seq seq]), .updateCheckpoint month elapsed]

theorem initial_persister_reachable {allowed : Persister → Action → Prop} :
    (machine ownTable 10).Reachable allowed {} :=
  .initial rfl

/-- Two snapshots of a month and one of the next, with a restart after each. -/
theorem restartsRight_of_leavesNoneOut_rollover :
    ∃ state, (machine ownTable 10).Reachable (LeavesNoneOut 10) state ∧
      state.snapshots.length = 3 ∧ state.checkpoints.length = 3 ∧ RestartsRight 10 state := by
  obtain ⟨state, hreachable, hsnapshots, hcheckpoints⟩ : ∃ state,
      (machine ownTable 10).Reachable (LeavesNoneOut 10) state ∧
        state.snapshots.length = 3 ∧ state.checkpoints.length = 3 :=
    initial_persister_reachable.exists_of_exec
      (persistSnapshot january 1 false ++ [.restart january] ++ persistSnapshot january 2 false ++
        [.restart january] ++ persistSnapshot february 3 false ++ [.restart february])
      _ (by decide) (by decide)
  exact ⟨state, hreachable, hsnapshots, hcheckpoints, restartsRight_of_leavesNoneOut hreachable⟩

/-- The second snapshot is applied before the interval has elapsed, so that a restart replays it
but does not apply it to the checkpoint it loads. The third puts that checkpoint under its own
number, and the file of the second is gone at the next restart. -/
theorem snapshot_lost_at_second_restart :
    ∃ state, (machine ownTable 10).Reachable Machine.Unrestricted state ∧
      state.snapshots.length = 3 ∧
      (⟨1, 1⟩, (writerFile 2 2).path) ∈
        (Inner.newFromPersistedSnapshots (state.snapshots.map Prod.snd)).files.paths ∧
      (⟨1, 1⟩, (writerFile 2 2).path) ∉ (state.objects.loadPersistedFiles 10).files.paths ∧
      ¬RestartsRight 10 state := by
  obtain ⟨state, hreachable, hlength, hlive, hlost⟩ := initial_persister_reachable.exists_of_run
    (persistSnapshot january 1 false ++ persistSnapshot january 2 false ++ [.restart january] ++
      persistSnapshot january 3 false)
    (fun state => state.snapshots.length = 3 ∧
      (⟨1, 1⟩, (writerFile 2 2).path) ∈
        (Inner.newFromPersistedSnapshots (state.snapshots.map Prod.snd)).files.paths ∧
      (⟨1, 1⟩, (writerFile 2 2).path) ∉ (state.objects.loadPersistedFiles 10).files.paths)
    (by decide)
  exact ⟨state, hreachable, hlength, hlive, hlost, fun hright => hlost ((hright _ _).mpr hlive)⟩

end Example

end Persister

end RefluxDb.Write
