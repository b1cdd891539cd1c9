import Mathlib.Data.Set.Finite.List
import Mathlib.Order.WellFoundedSet
import RefluxDb.Write.Consumers
import RefluxDb.Write.GuardedView

/-! Whether the inputs of a compaction are deleted only when every live consumer has replaced them.

The gate compares a consumer's cursor with the compaction's id. A cursor at or above the id says
that the consumer has folded every published compaction up to the id, so it has replaced the inputs
exactly if the compaction was published, and published before the cursor passed its id. -/

namespace RefluxDb.Write

open List Option RefluxDb.Library

/-- A file that a compaction replaces by another one. -/
def Supersedes (compactions : List (String × PersistedSnapshot))
    (output later : TableKey × String) : Prop :=
  ∃ c ∈ compactions, output ∈ (Manifest.compaction c.1 c.2).removes ∧
    later ∈ (Manifest.compaction c.1 c.2).adds

/-- A view in which a compaction has replaced its inputs: it lists none of them, and each output or
a file that later compactions have replaced it by. -/
structure Converged (compactions : List (String × PersistedSnapshot)) (id : String)
    (snapshot : PersistedSnapshot) (inner : Inner) : Prop where
  inputs : ∀ entry ∈ (Manifest.compaction id snapshot).removes, entry ∉ inner.files.paths
  outputs : ∀ output ∈ (Manifest.compaction id snapshot).adds, ∃ current ∈ inner.files.paths,
    Relation.ReflTransGen (Supersedes compactions) output current

/-- The view of a consumer keeps what the folded manifests add and do not remove. -/
structure Streams.Tracking (streams : Streams) (cluster : Cluster) : Prop where
  guarded : streams.Guarded cluster
  keeps : TombstoneSet.Keeps (TombstoneSet.added (changesOf streams.tableOf cluster.poller.folded))
    (TombstoneSet.removed (changesOf streams.tableOf cluster.poller.folded))
    (cluster.poller.inner.view streams.tableOf)

namespace Streams

variable {streams : Streams} {cluster next : Cluster}

theorem tracking_initial (streams : Streams) : streams.Tracking {} where
  guarded := streams.guarded_initial
  keeps := by
    rw [view_empty]
    exact TombstoneSet.settles_empty.toKeeps

theorem Tracking.step (htracking : streams.Tracking cluster) (action : ClusterAction)
    (hinorder : streams.InOrder cluster action) (hstep : cluster.step action = some next) :
    streams.Tracking next := by
  refine ⟨htracking.guarded.step hinorder hstep, ?_⟩
  obtain ⟨hinner, hfolded⟩ | ⟨_, m, hm, hinner, hfolded⟩ | ⟨_, hinner, hfolded⟩ := view_step hstep
  · rw [hinner, hfolded]
    exact htracking.keeps
  · have howned := streams.owned (htracking.guarded.streaming.nextManifest_mem hm).1
    have hchanges : changesOf streams.tableOf next.poller.folded =
        changesOf streams.tableOf cluster.poller.folded ++ [m.change streams.tableOf] := by
      simp [changesOf, hfolded]
    rw [hinner, view_fold howned, hchanges]
    exact htracking.keeps.apply_changes
  · rw [hinner, hfolded]
    exact htracking.keeps.forget (fun _ hpath => hpath.1)
      fun _ hpath => .inl (mem_of_mem_retain hpath)

variable {compactions : List (String × PersistedSnapshot)} {id : String}
variable {snapshot : PersistedSnapshot}

/-- No input of a folded compaction is live. -/
theorem Guarded.inputs_gone (hguarded : streams.Guarded cluster)
    (hfolded : .compaction id snapshot ∈ cluster.poller.folded) {entry : TableKey × String}
    (hentry : entry ∈ (Manifest.compaction id snapshot).removes) :
    entry ∉ cluster.poller.inner.files.paths := by
  intro hlive
  have hkey : entry.1 = streams.tableOf entry.2 := hguarded.place entry hlive
  have hplaced : (streams.tableOf entry.2, entry.2) = entry := by rw [← hkey]
  refine hguarded.clean entry.2 (by rw [← hplaced] at hlive; exact hlive) ?_
  exact mem_buriable_changesOf.mpr ⟨_, hfolded, by rwa [hplaced], .inr rfl⟩

/-- A folded compaction's output is live, or has been replaced by a later compaction. -/
theorem Tracking.outputs_current (htracking : streams.Tracking cluster)
    (hpublished : ∀ id s, .compaction id s ∈ cluster.poller.folded → (id, s) ∈ compactions)
    (hnew : ∀ c ∈ compactions, WritesNewFiles c.1 c.2)
    (hgen1 : ∀ s, .wal s ∈ cluster.poller.folded → ∀ entry ∈ (Manifest.wal s).removes,
      (parseGen1Path entry.2).isSome)
    (hfolded : .compaction id snapshot ∈ cluster.poller.folded) :
    ∀ output ∈ (Manifest.compaction id snapshot).adds,
      ∃ current ∈ cluster.poller.inner.files.paths,
        Relation.ReflTransGen (Supersedes compactions) output current := by
  have hstreaming := htracking.guarded.streaming
  -- Induction from the largest folded id down: what removes an output is a larger id.
  let ids : Set String := {id | ∃ s, .compaction id s ∈ cluster.poller.folded}
  have hfinite : ids.Finite := by
    refine (cluster.poller.folded.filterMap Manifest.compactionId).finite_toSet.subset ?_
    rintro id ⟨s, hs⟩
    exact mem_filterMap.mpr ⟨_, hs, rfl⟩
  have hwf : ids.WellFoundedOn (· > ·) := hfinite.wellFoundedOn
  refine hwf.induction (P := fun id => ∀ snapshot,
    .compaction id snapshot ∈ cluster.poller.folded →
      ∀ output ∈ (Manifest.compaction id snapshot).adds,
        ∃ current ∈ cluster.poller.inner.files.paths,
          Relation.ReflTransGen (Supersedes compactions) output current)
    ⟨snapshot, hfolded⟩ ?_ snapshot hfolded
  rintro id - ih snapshot hfolded ⟨key, path⟩ hadds
  have hmem : (id, snapshot) ∈ streams.compactions := hstreaming.folded_mem hfolded
  obtain rfl := (streams.compaction_owned _ hmem).of_mem_adds hadds
  by_cases hlive : path ∈ (cluster.poller.inner.view streams.tableOf).live
  · exact ⟨_, hlive, .refl⟩
  · have hremoved :
        path ∈ TombstoneSet.removed (changesOf streams.tableOf cluster.poller.folded) := by
      by_contra hnot
      exact hlive (htracking.keeps.kept path (mem_added_changesOf.mpr ⟨_, hfolded, hadds⟩) hnot)
    obtain ⟨m, hm, hremoves⟩ := mem_removed_changesOf.mp hremoved
    have hnone := streams.compaction_paths _ hmem _ hadds
    cases m with
    | wal s =>
      have hsome := hgen1 s hm _ hremoves
      simp [hnone] at hsome
    | compaction id' s' =>
      have hmem' : (id', s') ∈ streams.compactions := hstreaming.folded_mem hm
      have hne : id ≠ id' := by
        rintro rfl
        have hsame := streams.compaction_distinct _ hmem _ hmem' rfl
        rw [Prod.mk.injEq] at hsame
        rw [← hsame.2] at hremoves
        exact (hnew _ (hpublished _ _ hfolded)).2 _ hadds hremoves
      have hlt : id < id' :=
        lt_of_le_of_ne (streams.compaction_inputs _ hmem _ hmem' _ hadds hremoves) hne
      obtain ⟨later, hlater⟩ := exists_mem_of_ne_nil _ (hnew _ (hpublished _ _ hm)).1
      obtain ⟨current, hcurrent, hpath⟩ := ih id' ⟨s', hm⟩ hlt s' hm later hlater
      exact ⟨current, hcurrent, .head ⟨_, hpublished _ _ hm, hremoves, hlater⟩ hpath⟩

end Streams

/-- The compaction cursor is at or above the id. -/
def Poller.Reached (poller : Poller) (id : String) : Prop :=
  ∃ cursor ∈ poller.compactionCursor, id ≤ cursor

theorem Poller.Reached.mono {poller next : Poller} {id : String} (hreached : poller.Reached id)
    (hle : poller.watermarks.Le next.watermarks) : next.Reached id := by
  obtain ⟨cursor, hcursor, hid⟩ := hreached
  obtain ⟨cursor', hcursor', hcursorle⟩ := hle.2 cursor hcursor
  exact ⟨cursor', hcursor', hid.trans hcursorle⟩

namespace Deployment

/-- When a delete task may delete, every consumer whose stored heartbeat is recent at the time of
its check has converged. -/
def DeletionSafe (ttlMs : Int) (state : Deployment) : Prop :=
  ∀ task ∈ state.tasks, ∀ nowMs, task.phase = .cleared nowMs →
    ∀ nodeId, ∀ heartbeat ∈ state.heartbeats.lookup nodeId, ¬heartbeat.Stale nowMs ttlMs →
      Converged state.store.compactions task.compactionId task.snapshot
        (state.consumers nodeId).poller.inner

/-- A heartbeat that no check is too late for: the check has yet to read it, or it is not recent, or
its consumer had a recent one before or has folded the compaction. -/
def Heard (ttlMs : Int) (task : DeleteTask) (before : Option ConsumerHeartbeat) (nodeId : String)
    (heartbeat : ConsumerHeartbeat) : Prop :=
  ∀ check ∈ task.phase.check, nodeId ∈ check.2 ∨ heartbeat.Stale check.1 ttlMs ∨
    (∃ stored ∈ before, ¬stored.Stale check.1 ttlMs) ∨
    heartbeat.compactionCursor.any (task.compactionId ≤ ·)
deriving Decidable

/-- The steps that publish in the order of the streams, compactions to the shared inventory always,
fetch all they list, and remove compactors' files by compactions only. A consumer that joins while
inputs are checked or deleted has folded the compaction. -/
def Converging (streams : Streams) (ttlMs : Int) (state : Deployment) : DeploymentAction → Prop
  | .publishWal snapshot =>
    streams.InOrder { store := state.store } (.publishWal snapshot) ∧
      ∀ entry ∈ (Manifest.wal snapshot).removes, (parseGen1Path entry.2).isSome
  | .mint id snapshot => streams.InOrder { store := state.store } (.mint id snapshot)
  | .publishCompaction id snapshot shared =>
    shared = true ∧ streams.InOrder { store := state.store } (.publishCompaction id snapshot)
  | .poll _ action => streams.InOrder { store := state.store } (.poll action)
  | .writeConsumerHeartbeat nodeId _ => ∀ heartbeat ∈ (state.consumers nodeId).unwritten,
      ∀ task ∈ state.tasks, Heard ttlMs task (state.heartbeats.lookup nodeId) nodeId heartbeat
  | _ => True

/-- The consumers with a recent heartbeat that a check has read have reached the compaction. -/
def Passed (ttlMs : Int) (state : Deployment) (task : DeleteTask) : Prop :=
  ∀ check ∈ task.phase.check, ∀ nodeId ∉ check.2, ∀ heartbeat ∈ state.heartbeats.lookup nodeId,
    ¬heartbeat.Stale check.1 ttlMs → (state.consumers nodeId).poller.Reached task.compactionId

/-- What keeps deletion safe: every consumer tracks the streams, no cursor that was handed out is
ahead of its consumer, and the live consumers that a check has read have reached the
compaction. -/
structure Gated (streams : Streams) (ttlMs : Int) (state : Deployment) : Prop where
  tracking : ∀ nodeId, streams.Tracking (state.cluster nodeId)
  wal_gen1 : ∀ s ∈ state.store.walSnapshots, ∀ entry ∈ (Manifest.wal s).removes,
    (parseGen1Path entry.2).isSome
  new_files : ∀ c ∈ state.minted ++ state.store.compactions, WritesNewFiles c.1 c.2
  handed : ∀ nodeId, ∀ id ∈ (state.consumers nodeId).heartbeatCursor,
    (state.consumers nodeId).poller.Reached id
  unwritten : ∀ nodeId, ∀ heartbeat ∈ (state.consumers nodeId).unwritten,
    ∀ id ∈ heartbeat.compactionCursor, (state.consumers nodeId).poller.Reached id
  stored : ∀ nodeId, ∀ heartbeat ∈ state.heartbeats.lookup nodeId,
    ∀ id ∈ heartbeat.compactionCursor, (state.consumers nodeId).poller.Reached id
  published : ∀ task ∈ state.tasks, (task.compactionId, task.snapshot) ∈ state.store.compactions
  passed : ∀ task ∈ state.tasks, state.Passed ttlMs task

variable {streams : Streams} {state next : Deployment} {ttlMs : Int}

theorem Gated.deletionSafe (hgated : state.Gated streams ttlMs) : state.DeletionSafe ttlMs := by
  intro task htask nowMs hcleared nodeId heartbeat hstored hrecent
  have htracking := hgated.tracking nodeId
  have hstreaming := htracking.guarded.streaming
  have hfolded : .compaction task.compactionId task.snapshot ∈
      (state.cluster nodeId).poller.folded :=
    hstreaming.caught.compactions.passed_taken _ (hgated.published task htask)
      (hgated.passed task htask (nowMs, []) (by rw [hcleared]; rfl) nodeId not_mem_nil heartbeat
        hstored hrecent)
  refine ⟨fun entry => htracking.guarded.inputs_gone hfolded, ?_⟩
  refine htracking.outputs_current ?_ ?_ ?_ hfolded
  · exact fun id s hm => hstreaming.caught.compactions_grounded.taken_published (id, s) hm
  · exact fun c hc => hgated.new_files c (mem_append_right _ hc)
  · exact fun s hm => hgated.wal_gen1 s (hstreaming.caught.wal_grounded.taken_published s hm)

theorem gated_initial (streams : Streams) : ({} : Deployment).Gated streams ttlMs where
  tracking nodeId := streams.tracking_initial
  wal_gen1 := by simp
  new_files := by simp
  handed := by simp
  unwritten := by simp
  stored := by simp
  published := by simp
  passed := by simp

section

variable (hgated : state.Gated streams ttlMs)
include hgated

theorem Gated.of_same (hstore : next.store = state.store)
    (hminted : next.minted = state.minted)
    (hpollers : ∀ nodeId, (next.consumers nodeId).poller = (state.consumers nodeId).poller)
    (hhanded : ∀ nodeId, ∀ id ∈ (next.consumers nodeId).heartbeatCursor,
      (state.consumers nodeId).poller.Reached id)
    (hunwritten : ∀ nodeId, ∀ heartbeat ∈ (next.consumers nodeId).unwritten,
      ∀ id ∈ heartbeat.compactionCursor, (state.consumers nodeId).poller.Reached id)
    (hstored : ∀ nodeId, ∀ heartbeat ∈ next.heartbeats.lookup nodeId,
      ∀ id ∈ heartbeat.compactionCursor, (state.consumers nodeId).poller.Reached id)
    (hpublished : ∀ task ∈ next.tasks,
      (task.compactionId, task.snapshot) ∈ state.store.compactions)
    (hpassed : ∀ task ∈ next.tasks, next.Passed ttlMs task) : next.Gated streams ttlMs := by
  have hcluster : ∀ nodeId, next.cluster nodeId = state.cluster nodeId := by
    intro nodeId
    simp only [cluster, hstore, hminted, hpollers]
  refine ⟨?_, ?_, ?_, ?_, ?_, ?_, ?_, ?_⟩
  · intro nodeId
    rw [hcluster]
    exact hgated.tracking nodeId
  · rw [hstore]
    exact hgated.wal_gen1
  · rw [hstore, hminted]
    exact hgated.new_files
  · simpa only [hpollers] using hhanded
  · simpa only [hpollers] using hunwritten
  · simpa only [hpollers] using hstored
  · rw [hstore]
    exact hpublished
  · exact hpassed

/-- Steps of the delete tasks: every task is of an old compaction, and the live consumers that it
has read have reached it. -/
theorem Gated.of_tasks {tasks : List DeleteTask}
    {deleted : List String}
    (htasks : ∀ task ∈ tasks, (∃ before ∈ state.tasks,
      task.compactionId = before.compactionId ∧ task.snapshot = before.snapshot) ∧
        state.Passed ttlMs task) :
    ({ state with tasks := tasks, deleted := deleted } : Deployment).Gated streams ttlMs := by
  refine hgated.of_same rfl rfl (fun _ => rfl) hgated.handed hgated.unwritten hgated.stored ?_
    fun task htask => (htasks task htask).2
  intro task htask
  obtain ⟨before, hbefore, hid, hsnapshot⟩ := (htasks task htask).1
  rw [hid, hsnapshot]
  exact hgated.published before hbefore

theorem Gated.setTask {index : Nat} {before task : DeleteTask}
    (hbefore : state.tasks[index]? = some before) (hid : task.compactionId = before.compactionId)
    (hsnapshot : task.snapshot = before.snapshot) (hpassed : state.Passed ttlMs task) :
    (state.setTask index task).Gated streams ttlMs := by
  refine hgated.of_tasks fun other hother => ?_
  rcases mem_or_eq_of_mem_set hother with hold | rfl
  · exact ⟨⟨other, hold, rfl, rfl⟩, hgated.passed other hold⟩
  · exact ⟨⟨before, mem_of_getElem? hbefore, hid, hsnapshot⟩, hpassed⟩

omit hgated in
theorem reached_of_any {heartbeat : ConsumerHeartbeat} {poller : Poller} {compactionId : String}
    (hreached : ∀ id ∈ heartbeat.compactionCursor, poller.Reached id)
    (hany : heartbeat.compactionCursor.any (compactionId ≤ ·) = true) :
    poller.Reached compactionId := by
  obtain ⟨id, hid, hle⟩ := (Option.any_eq_true _ _).mp hany
  obtain ⟨cursor, hcursor, hidle⟩ := hreached id hid
  exact ⟨cursor, hcursor, (of_decide_eq_true hle).trans hidle⟩

/-- A check passes a consumer with a recent heartbeat only if its cursor has reached the
compaction. -/
theorem Gated.checkConsumer {index : Nat}
    (hstep : step ttlMs state (.checkConsumer index) = some next) : next.Gated streams ttlMs := by
  obtain ⟨task, htask, hnext⟩ := bind_eq_some_iff.mp hstep
  obtain ⟨checked, hchecked, rfl⟩ := map_eq_some_iff.mp hnext
  have hpassed := hgated.passed task (mem_of_getElem? htask)
  unfold Deployment.checkConsumer at hchecked
  split at hchecked
  case h_1 nowMs hphase =>
    obtain rfl := some.inj hchecked
    refine hgated.setTask htask rfl rfl ?_
    rintro check ⟨⟩
    exact hpassed (nowMs, []) (by rw [hphase]; rfl)
  case h_2 nowMs nodeId rest hphase =>
    obtain ⟨heartbeat, hlookup, rfl⟩ := map_eq_some_iff.mp hchecked
    -- the consumer that is read is passed if its heartbeat is old or its cursor has come far enough
    have hread (hreached : ¬heartbeat.Stale nowMs ttlMs →
        (state.consumers nodeId).poller.Reached task.compactionId) :
        state.Passed ttlMs { task with phase := .checking nowMs rest } := by
      rintro check ⟨⟩ other hother stored hstored hrecent
      by_cases hself : other = nodeId
      · subst hself
        obtain rfl := some.inj (hstored.symm.trans hlookup)
        exact hreached hrecent
      · exact hpassed (nowMs, nodeId :: rest) (by rw [hphase]; rfl) other
          (by simp [hself, hother]) stored hstored hrecent
    unfold DeleteTask.readHeartbeat
    split_ifs with hstale hfolded
    · exact hgated.setTask htask rfl rfl (hread fun hrecent => absurd hstale hrecent)
    · refine hgated.setTask htask rfl rfl (hread fun _ => ?_)
      exact reached_of_any (hgated.stored nodeId heartbeat hlookup) hfolded
    · exact hgated.setTask htask rfl rfl (by rintro _ ⟨⟩)
  case h_3 => simp at hchecked

end

variable {snapshot : PersistedSnapshot}

/-- What is published is seen by every consumer's poller. -/
theorem Gated.publishWal (hgated : state.Gated streams ttlMs)
    (hallowed : Converging streams ttlMs state (.publishWal snapshot))
    (hstep : step ttlMs state (.publishWal snapshot) = some next) : next.Gated streams ttlMs := by
  obtain ⟨store, hstore, rfl⟩ := map_eq_some_iff.mp hstep
  obtain ⟨_, hwal, hcompactions⟩ := Store.publishWalSnapshot_eq_some hstore
  refine { hgated with
    tracking := fun nodeId => ?_, wal_gen1 := ?_, new_files := ?_, published := ?_ }
  · refine (hgated.tracking nodeId).step (.publishWal snapshot) hallowed.1 ?_
    simp [Cluster.step, cluster, hstore]
  · intro s hs
    rcases mem_concat.mp (hwal ▸ hs) with hold | hnew
    · exact hgated.wal_gen1 s hold
    · rw [hnew]
      exact hallowed.2
  · rw [hcompactions]
    exact hgated.new_files
  · rw [hcompactions]
    exact hgated.published

theorem Gated.mint (hgated : state.Gated streams ttlMs) {id : String}
    (hallowed : Converging streams ttlMs state (.mint id snapshot))
    (hstep : step ttlMs state (.mint id snapshot) = some next) : next.Gated streams ttlMs := by
  simp only [step, ite_none_right_eq_some, some.injEq] at hstep
  obtain ⟨⟨hlatest, _, hwrites⟩, rfl⟩ := hstep
  refine { hgated with tracking := fun nodeId => ?_, new_files := ?_ }
  · refine (hgated.tracking nodeId).step (.mint id snapshot) hallowed ?_
    exact if_pos hlatest
  · intro c hc
    simp only [append_assoc, mem_append, mem_singleton] at hc
    rcases hc with hminted | rfl | hpublished
    · exact hgated.new_files c (mem_append_left _ hminted)
    · exact hwrites
    · exact hgated.new_files c (mem_append_right _ hpublished)

theorem Gated.publishCompaction (hgated : state.Gated streams ttlMs) {id : String} {shared : Bool}
    (hallowed : Converging streams ttlMs state (.publishCompaction id snapshot shared))
    (hstep : step ttlMs state (.publishCompaction id snapshot shared) = some next) :
    next.Gated streams ttlMs := by
  obtain ⟨rfl, hinorder⟩ := hallowed
  simp only [step, ite_none_right_eq_some, map_eq_some_iff, if_true] at hstep
  obtain ⟨hminted, store, hstore, rfl⟩ := hstep
  obtain ⟨_, hcompactions, hwal⟩ := Store.publishCompaction_eq_some hstore
  refine ⟨fun nodeId => ?_, ?_, ?_, hgated.handed, hgated.unwritten, hgated.stored, ?_, ?_⟩
  · refine (hgated.tracking nodeId).step (.publishCompaction id snapshot) hinorder ?_
    simp [Cluster.step, cluster, hminted, hstore]
  · rw [hwal]
    exact hgated.wal_gen1
  · intro c hc
    rw [hcompactions] at hc
    simp only [mem_append, mem_singleton] at hc
    rcases hc with herased | hpublished | rfl
    · exact hgated.new_files c (mem_append_left _ (mem_of_mem_erase herased))
    · exact hgated.new_files c (mem_append_right _ hpublished)
    · exact hgated.new_files _ (mem_append_left _ hminted)
  · intro task htask
    rw [hcompactions]
    rcases mem_concat.mp htask with hold | hself
    · exact mem_append_left _ (hgated.published task hold)
    · rw [hself]
      simp
  · refine forall_mem_concat.mpr ⟨hgated.passed, ?_⟩
    rintro _ ⟨⟩

variable {nodeId : String}

/-- A poller moves its own cursor forward and leaves all others alone. -/
theorem Gated.poll (hgated : state.Gated streams ttlMs) {action : PollerAction}
    (hallowed : Converging streams ttlMs state (.poll nodeId action))
    (hstep : step ttlMs state (.poll nodeId action) = some next) : next.Gated streams ttlMs := by
  obtain ⟨poller, hpoller, rfl⟩ := map_eq_some_iff.mp hstep
  have htracking := hgated.tracking nodeId
  have hle := htracking.guarded.streaming.caught.tidy.watermarks_le hpoller
  have hreached : ∀ other id, (state.consumers other).poller.Reached id →
      ((state.setConsumer nodeId { state.consumers nodeId with poller := poller }).consumers
        other).poller.Reached id := by
    intro other id hold
    by_cases hother : other = nodeId
    · subst hother
      rw [setConsumer_self]
      exact hold.mono hle
    · rwa [setConsumer_of_ne hother]
  have hsame : ∀ other,
      ((state.setConsumer nodeId { state.consumers nodeId with poller := poller }).consumers
        other).heartbeatCursor = (state.consumers other).heartbeatCursor ∧
      ((state.setConsumer nodeId { state.consumers nodeId with poller := poller }).consumers
        other).unwritten = (state.consumers other).unwritten := by
    intro other
    by_cases hother : other = nodeId
    · subst hother
      rw [setConsumer_self]
      exact ⟨rfl, rfl⟩
    · rw [setConsumer_of_ne hother]
      exact ⟨rfl, rfl⟩
  refine ⟨fun other => ?_, hgated.wal_gen1, hgated.new_files, ?_, ?_, ?_, hgated.published, ?_⟩
  · by_cases hother : other = nodeId
    · subst hother
      refine htracking.step (.poll action) hallowed ?_
      simp only [Cluster.step, cluster, setConsumer_self]
      rw [hpoller]
      rfl
    · have hcluster : (state.setConsumer nodeId
          { state.consumers nodeId with poller := poller }).cluster other =
            state.cluster other := by
        simp only [cluster, setConsumer_of_ne hother]
        rfl
      rw [hcluster]
      exact hgated.tracking other
  · intro other id hid
    rw [(hsame other).1] at hid
    exact hreached other id (hgated.handed other id hid)
  · intro other heartbeat hheartbeat id hid
    rw [(hsame other).2] at hheartbeat
    exact hreached other id (hgated.unwritten other heartbeat hheartbeat id hid)
  · intro other heartbeat hheartbeat id hid
    exact hreached other id (hgated.stored other heartbeat hheartbeat id hid)
  · intro task htask check hcheck other hother heartbeat hheartbeat hrecent
    exact hreached other _ (hgated.passed task htask check hcheck other hother heartbeat
      hheartbeat hrecent)

/-- A heartbeat task hands a consumer's cursor on, never one it has not reached. -/
theorem Gated.setHeartbeat (hgated : state.Gated streams ttlMs) {consumer : Consumer}
    {heartbeats : AList fun _ : String => ConsumerHeartbeat}
    (hpoller : consumer.poller = (state.consumers nodeId).poller)
    (hhanded : ∀ id ∈ consumer.heartbeatCursor, consumer.poller.Reached id)
    (hunwritten : ∀ heartbeat ∈ consumer.unwritten, ∀ id ∈ heartbeat.compactionCursor,
      consumer.poller.Reached id)
    (hstored : ∀ other, ∀ heartbeat ∈ heartbeats.lookup other,
      ∀ id ∈ heartbeat.compactionCursor, (state.consumers other).poller.Reached id)
    (hpassed : ∀ task ∈ state.tasks, Passed ttlMs { state with heartbeats := heartbeats } task) :
    ({ state.setConsumer nodeId consumer with heartbeats := heartbeats } : Deployment).Gated
      streams ttlMs := by
  have hconsumer : ∀ other (property : Consumer → Prop), property consumer →
      (other ≠ nodeId → property (state.consumers other)) →
        property ((state.setConsumer nodeId consumer).consumers other) := by
    intro other property hself hothers
    by_cases hother : other = nodeId
    · subst hother
      rwa [setConsumer_self]
    · rw [setConsumer_of_ne hother]
      exact hothers hother
  have hpollers : ∀ other, ((state.setConsumer nodeId consumer).consumers other).poller =
      (state.consumers other).poller := by
    intro other
    by_cases hother : other = nodeId
    · subst hother
      rwa [setConsumer_self]
    · rw [setConsumer_of_ne hother]
  refine hgated.of_same rfl rfl hpollers ?_ ?_ hstored hgated.published ?_
  · intro other
    rw [← hpollers]
    exact hconsumer other (fun c => ∀ id ∈ c.heartbeatCursor, c.poller.Reached id) hhanded
      fun _ => hgated.handed other
  · intro other
    rw [← hpollers]
    exact hconsumer other (fun c => ∀ heartbeat ∈ c.unwritten,
      ∀ id ∈ heartbeat.compactionCursor, c.poller.Reached id) hunwritten
      fun _ => hgated.unwritten other
  · intro task htask
    simpa only [Passed, hpollers] using hpassed task htask

/-- A heartbeat that is stored is one of a consumer that has reached what it was checked for, or no
check has read it. -/
theorem Gated.passed_insert (hgated : state.Gated streams ttlMs) {heartbeat : ConsumerHeartbeat}
    (hheartbeat : heartbeat ∈ (state.consumers nodeId).unwritten) {task : DeleteTask}
    (htask : task ∈ state.tasks)
    (hheard : Heard ttlMs task (state.heartbeats.lookup nodeId) nodeId heartbeat) :
    Passed ttlMs { state with heartbeats := state.heartbeats.insert nodeId heartbeat } task := by
  intro check hcheck other hother stored hstored hrecent
  by_cases hself : other = nodeId
  · subst hself
    rw [AList.lookup_insert] at hstored
    obtain rfl := some.inj hstored
    rcases hheard check hcheck with hunread | hstale | ⟨before, hbefore, hwas⟩ | hreached
    · exact absurd hunread hother
    · exact absurd hstale hrecent
    · exact hgated.passed task htask check hcheck other hother before hbefore hwas
    · exact reached_of_any (hgated.unwritten other _ hheartbeat) hreached
  · rw [AList.lookup_insert_ne hself] at hstored
    exact hgated.passed task htask check hcheck other hother stored hstored hrecent

theorem Gated.step {action : DeploymentAction} (hgated : state.Gated streams ttlMs)
    (hallowed : Converging streams ttlMs state action)
    (hstep : Deployment.step ttlMs state action = some next) : next.Gated streams ttlMs := by
  cases action with
  | publishWal snapshot => exact hgated.publishWal hallowed hstep
  | mint id snapshot => exact hgated.mint hallowed hstep
  | publishCompaction id snapshot shared => exact hgated.publishCompaction hallowed hstep
  | poll nodeId action => exact hgated.poll hallowed hstep
  | publishCursor nodeId =>
    simp only [Deployment.step, ite_none_right_eq_some, some.injEq] at hstep
    obtain ⟨_, rfl⟩ := hstep
    exact hgated.setHeartbeat rfl (fun id hid => ⟨id, hid, le_refl _⟩)
      (hgated.unwritten nodeId) hgated.stored hgated.passed
  | readCursor nodeId nowMs =>
    simp only [Deployment.step, ite_none_right_eq_some, some.injEq] at hstep
    obtain ⟨_, rfl⟩ := hstep
    refine hgated.setHeartbeat rfl (hgated.handed nodeId) ?_ hgated.stored hgated.passed
    refine forall_eq_some ?_
    exact hgated.handed nodeId
  | writeConsumerHeartbeat nodeId written =>
    obtain ⟨heartbeat, hheartbeat, rfl⟩ := map_eq_some_iff.mp hstep
    cases written with
    | false =>
      exact hgated.setHeartbeat rfl (hgated.handed nodeId) (by simp) hgated.stored hgated.passed
    | true =>
      refine hgated.setHeartbeat rfl (hgated.handed nodeId) (by simp) ?_ fun task htask =>
        hgated.passed_insert hheartbeat htask (hallowed heartbeat hheartbeat task htask)
      intro other stored hstored
      by_cases hother : other = nodeId
      · subst hother
        rw [if_pos rfl, AList.lookup_insert] at hstored
        obtain rfl := some.inj hstored
        exact hgated.unwritten other heartbeat hheartbeat
      · rw [if_pos rfl, AList.lookup_insert_ne hother] at hstored
        exact hgated.stored other stored hstored
  | beginCheck index nowMs listing =>
    obtain ⟨task, htask, hnext⟩ := bind_eq_some_iff.mp hstep
    simp only [ite_none_right_eq_some, some.injEq] at hnext
    obtain ⟨⟨_, hlisting⟩, rfl⟩ := hnext
    refine hgated.setTask htask rfl rfl ?_
    -- every consumer with a heartbeat is listed, and none is read yet
    rintro _ ⟨⟩ nodeId hunlisted heartbeat hstored
    exact absurd (hlisting.mem_iff.mpr (AList.mem_keys.mpr
      (AList.lookup_isSome.mp (isSome_iff_exists.mpr ⟨_, hstored⟩)))) hunlisted
  | checkConsumer index => exact hgated.checkConsumer hstep
  | failCheck index =>
    obtain ⟨task, htask, hnext⟩ := bind_eq_some_iff.mp hstep
    simp only [ite_none_left_eq_some, some.injEq] at hnext
    obtain ⟨_, rfl⟩ := hnext
    exact hgated.setTask htask rfl rfl (by rintro _ ⟨⟩)
  | giveUp index =>
    obtain ⟨task, htask, hnext⟩ := bind_eq_some_iff.mp hstep
    simp only [ite_none_right_eq_some, some.injEq] at hnext
    obtain ⟨_, rfl⟩ := hnext
    refine hgated.of_tasks fun other hother => ?_
    have hold := mem_of_mem_eraseIdx hother
    exact ⟨⟨other, hold, rfl, rfl⟩, hgated.passed other hold⟩
  | deleteInput index path =>
    obtain ⟨task, htask, hnext⟩ := bind_eq_some_iff.mp hstep
    simp only [ite_none_right_eq_some, some.injEq] at hnext
    obtain ⟨_, rfl⟩ := hnext
    exact hgated.of_tasks fun other hother =>
      ⟨⟨other, hother, rfl, rfl⟩, hgated.passed other hother⟩

/-- Along runs that publish every compaction to the shared inventory and in the order of the ids,
inputs are deleted only when every live consumer has replaced them. -/
theorem deletionSafe_of_converging (streams : Streams) (ttlMs : Int) (state : Deployment)
    (hreachable : (machine ttlMs).Reachable (Converging streams ttlMs) state) :
    state.DeletionSafe ttlMs := by
  have hgated : state.Gated streams ttlMs := by
    refine hreachable.invariant ?_ fun _ _ _ => Gated.step
    rintro state rfl
    exact gated_initial streams
  exact hgated.deletionSafe

section Example

open Streams

def firstId : String := "019b7000-0000-7000-8000-000000000001"

def secondId : String := "019b7000-0000-7000-8000-000000000002"

def twoInputs : PersistedSnapshot := writerManifest 1 [writerFile 1 0, writerFile 1 1]

def firstCompaction : String × PersistedSnapshot := compactionOf firstId [writerFile 1 0]

def secondCompaction : String × PersistedSnapshot := compactionOf secondId [writerFile 1 1]

def exampleStreams : Streams :=
  ofLists [twoInputs] [firstCompaction, secondCompaction] (fun _ => ⟨1, 1⟩) (by decide)

instance (cluster : Cluster) (action : ClusterAction) :
    Decidable (exampleStreams.InOrder cluster action) :=
  inferInstanceAs (Decidable ((ofLists _ _ _ _).InOrder cluster action))

instance (state : Deployment) (action : DeploymentAction) :
    Decidable (Converging exampleStreams 60000 state action) := by
  cases action <;> unfold Converging <;> infer_instance

/-- A tick of the consumer that folds what is published, and its heartbeat. -/
def tickAndBeat (wal : List PersistedSnapshot) (compactions : List (String × PersistedSnapshot))
    (folds : Nat) : List DeploymentAction :=
  [.poll "querier" (.loadWal wal []), .poll "querier" (.loadCompactions compactions [])] ++
    replicate folds (.poll "querier" .fold) ++
    [.poll "querier" .gc, .publishCursor "querier", .readCursor "querier" 0,
      .writeConsumerHeartbeat "querier" true]

/-- A consumer whose heartbeat is recent at the time of the check below. -/
def Recent (nodeId : String) (state : Deployment) : Prop :=
  ∃ heartbeat ∈ state.heartbeats.lookup nodeId, ¬heartbeat.Stale 1 60000
deriving Decidable

/-- The check of the first delete task reads one heartbeat. -/
def checkFirst : List DeploymentAction :=
  [.beginCheck 0 1 ["querier"], .checkConsumer 0, .checkConsumer 0,
    .deleteInput 0 (writerFile 1 0).path]

theorem initial_deployment_reachable
    {allowed : Deployment → DeploymentAction → Prop} : (machine 60000).Reachable allowed {} :=
  .initial rfl

/-- Both compactions are published and folded, and the inputs of the first are deleted. -/
theorem deletionSafe_of_converging_folded :
    ∃ state, (machine 60000).Reachable (Converging exampleStreams 60000) state ∧
      state.deleted = [(writerFile 1 0).path] ∧ Recent "querier" state ∧
      state.DeletionSafe 60000 := by
  obtain ⟨state, hreachable, hdeleted, hlive⟩ : ∃ state,
      (machine 60000).Reachable (Converging exampleStreams 60000) state ∧
        state.deleted = [(writerFile 1 0).path] ∧ Recent "querier" state :=
    initial_deployment_reachable.exists_of_exec
      ([.publishWal twoInputs, .mint firstId firstCompaction.2, .mint secondId secondCompaction.2,
        .publishCompaction firstId firstCompaction.2 true,
        .publishCompaction secondId secondCompaction.2 true] ++
        tickAndBeat [twoInputs] [firstCompaction, secondCompaction] 3 ++ checkFirst)
      _ (by decide +kernel) (by decide +kernel)
  exact ⟨state, hreachable, hdeleted, hlive,
    deletionSafe_of_converging exampleStreams 60000 state hreachable⟩

/-- The first compaction does not reach the shared inventory, the second does. The consumer's cursor
passes both ids with the second, and an input of the first is deleted that it still lists. -/
theorem unpublished_compaction_input_deleted :
    ∃ state, (machine 60000).Reachable Machine.Unrestricted state ∧
      state.deleted = [(writerFile 1 0).path] ∧
      ((⟨1, 1⟩, (writerFile 1 0).path) : TableKey × String) ∈
        (state.consumers "querier").poller.inner.files.paths ∧
      ¬state.DeletionSafe 60000 := by
  obtain ⟨state, hreachable, hdeleted, hlisted, ⟨heartbeat, hstored, hrecent⟩, task, htask, hid,
      hsnapshot, hcleared⟩ :=
    initial_deployment_reachable.exists_of_run
      ([.publishWal twoInputs, .mint firstId firstCompaction.2, .mint secondId secondCompaction.2,
        .publishCompaction firstId firstCompaction.2 false,
        .publishCompaction secondId secondCompaction.2 true] ++
        tickAndBeat [twoInputs] [secondCompaction] 2 ++ checkFirst)
      (fun state => state.deleted = [(writerFile 1 0).path] ∧
        ((⟨1, 1⟩, (writerFile 1 0).path) : TableKey × String) ∈
          (state.consumers "querier").poller.inner.files.paths ∧
        Recent "querier" state ∧ ∃ task ∈ state.tasks, task.compactionId = firstId ∧
          task.snapshot = firstCompaction.2 ∧ task.phase = .cleared 1) (by decide +kernel)
  refine ⟨state, hreachable, hdeleted, hlisted, fun hsafe => ?_⟩
  have hconverged := hsafe task htask 1 hcleared "querier" heartbeat hstored hrecent
  rw [hid, hsnapshot] at hconverged
  exact hconverged.inputs _ (by decide +kernel) hlisted

end Example

end Deployment

end RefluxDb.Write
