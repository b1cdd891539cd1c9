import RefluxDb.Write.CheckpointWriter

/-! Whether a node that starts from a checkpoint sees what a node sees that folds everything.

The writer captures the marks first and reads the tombstones last. A tick of the poller that ends
between the two drops the tombstones of paths that the captured marks have not passed yet, and a
loader adds such a path again. So does one whose marks were captured after such a drop and before
the marks of that tick were handed out. Where no such tombstone is dropped, every checkpoint ever
written stands for everything up to its marks. -/

namespace RefluxDb.Write

open Option

namespace CompactorNode

/-- What every step keeps to apart from the collections: manifests are published in stream order
and with grounded removals, a task adds no output that a folded compaction removes, only removed
objects are deleted, and the marks of the last tick are handed out before marks are captured. -/
def Orderly (streams : Streams) (node : CompactorNode) : CompactorAction → Prop
  | .cluster (.publishWal s) =>
    streams.InOrder node.cluster (.publishWal s) ∧ node.cluster.store.Grounds s
  | .cluster action => streams.InOrder node.cluster action
  | .addOutputs _ snapshot => ∀ m ∈ node.cluster.poller.folded, m.compactionId.isSome →
      ∀ entry ∈ snapshot.databases.paths, entry ∉ m.removes
  | .deleteObject path =>
    ∃ m ∈ node.cluster.store.manifests, (streams.tableOf path, path) ∈ m.removes
  | .checkpoint .capture => node.marksDue = false
  | _ => True

/-- A tick that ends while the checkpoint writer has captured marks and not yet read the tombstones
drops none that those marks keep. -/
def KeepsHeld (node : CompactorNode) : CompactorAction → Prop
  | .cluster (.poll .gc) => ∀ marks ∈ node.phase.marksHeld,
      ∀ entry ∈ node.inner.removedTombstones.entries,
        Inner.keepsTombstone marks.wal marks.compaction entry.2 = true →
          Inner.keepsTombstone node.cluster.poller.walCursors
            node.cluster.poller.compactionCursor entry.2 = true
  | _ => True

instance (streams : Streams)
    [inOrder : ∀ cluster action, Decidable (streams.InOrder cluster action)]
    (node : CompactorNode) :
    (action : CompactorAction) → Decidable (node.Orderly streams action)
  | .cluster (.publishWal _) => inferInstanceAs (Decidable (_ ∧ _))
  | .cluster (.mint id snapshot) => inOrder node.cluster (.mint id snapshot)
  | .cluster (.publishCompaction id snapshot) =>
    inOrder node.cluster (.publishCompaction id snapshot)
  | .cluster (.poll action) => inOrder node.cluster (.poll action)
  | .addOutputs .. => inferInstanceAs (Decidable (∀ m ∈ node.cluster.poller.folded, _))
  | .deleteObject _ => inferInstanceAs (Decidable (∃ m ∈ node.cluster.store.manifests, _))
  | .checkpoint .capture => inferInstanceAs (Decidable (_ = false))
  | .checkpoint .readRefs | .checkpoint .listObjects | .checkpoint .evict
  | .checkpoint .tombstoneEvicted | .checkpoint .snapshotAll | .checkpoint .gcTombstones
  | .checkpoint .readTombstones | .checkpoint (.loadWal _) | .checkpoint .findSurvivors
  | .checkpoint .write | .publishWatermarks | .removeInputs .. => .isTrue trivial

instance (node : CompactorNode) : (action : CompactorAction) → Decidable (node.KeepsHeld action)
  | .cluster (.poll .gc) => inferInstanceAs (Decidable (∀ marks ∈ node.phase.marksHeld, _))
  | .cluster (.poll (.loadWal ..)) | .cluster (.poll (.loadCompactions ..))
  | .cluster (.poll .fail) | .cluster (.poll .fold) | .cluster (.publishWal _)
  | .cluster (.mint ..) | .cluster (.publishCompaction ..) | .publishWatermarks | .addOutputs ..
  | .removeInputs .. | .deleteObject _ | .checkpoint _ => .isTrue trivial

variable {streams : Streams} {node next : CompactorNode} {action : CompactorAction}

theorem Orderly.cluster {action : ClusterAction}
    (horderly : node.Orderly streams (.cluster action)) :
    streams.InOrder node.cluster action ∧
      ∀ s, action = .publishWal s → node.cluster.store.Grounds s := by
  cases action with
  | publishWal s =>
    refine ⟨horderly.1, fun s' hs' => ?_⟩
    cases hs'
    exact horderly.2
  | mint | publishCompaction | poll => exact ⟨horderly, fun s hs => by cases hs⟩

end CompactorNode

variable {streams : Streams} {node next : CompactorNode} {action : CompactorAction}

theorem Streams.Recording.step (hrecording : streams.Recording node)
    (hallowed : node.Orderly streams action ∧ node.KeepsHeld action)
    (hstep : node.step action = some next) : streams.Recording next := by
  obtain ⟨horderly, hkeeps⟩ := hallowed
  have hstreaming := hrecording.viewed.guarded.streaming
  cases action with
  | cluster action =>
    simp only [CompactorNode.step] at hstep
    split at hstep
    case isTrue => cases hstep
    case isFalse =>
      obtain ⟨cluster, hcluster, rfl⟩ := map_eq_some_iff.mp hstep
      refine hrecording.clusterStep horderly.cluster.1 horderly.cluster.2 ?_ hcluster
      rintro rfl marks hmarks path gc hgc
      exact hkeeps marks hmarks _ (AList.mem_lookup_iff.mp hgc)
  | publishWatermarks =>
    simp only [CompactorNode.step, ite_none_right_eq_some, some.injEq] at hstep
    obtain ⟨_, rfl⟩ := hstep
    refine { hrecording with
      handed := .refl _
      retained := fun _ => hrecording.viewed.guarded.retained
      held := fun marks hmarks => ?_ }
    obtain ⟨hle, hretained⟩ := hrecording.held marks hmarks
    exact ⟨hle.trans hrecording.handed, hretained⟩
  | addOutputs id snapshot =>
    simp only [CompactorNode.step, ite_none_right_eq_some, some.injEq] at hstep
    obtain ⟨⟨hpublished, _⟩, rfl⟩ := hstep
    have hnext := hrecording.setInner (permits_addOutputs hstreaming hpublished horderly) rfl
      hrecording.drafts
    refine { hnext with outputs := fun c hc => ?_ }
    rcases List.mem_cons.mp hc with rfl | hold
    · exact hpublished
    · exact hrecording.outputs c hold
  | removeInputs id snapshot =>
    simp only [CompactorNode.step, ite_none_right_eq_some, some.injEq] at hstep
    obtain ⟨⟨hadded, _⟩, rfl⟩ := hstep
    have hnext := hrecording.setInner
      (permits_removeInputs hstreaming (hrecording.outputs _ hadded)) rfl hrecording.drafts
    exact { hnext with }
  | deleteObject path =>
    obtain rfl := some.inj hstep
    refine { hrecording with gone := fun path' hpath => ?_ }
    rcases List.mem_cons.mp hpath with rfl | hold
    · exact mem_removed_changesOf.mpr horderly
    · exact hrecording.gone path' hold
  | checkpoint action =>
    refine hrecording.checkpointStep ?_ hstep
    rintro rfl
    exact horderly

namespace CompactorNode

/-- What a checkpoint is for: a fresh view that starts from it and folds what is published above
its marks lists what all published manifests add and none removes. -/
def CheckpointsFaithful (node : CompactorNode) : Prop :=
  ∀ checkpoint ∈ node.checkpoints, ∀ walListing compactionListing,
    walListing.Perm node.cluster.store.walSnapshots →
    compactionListing.Perm node.cluster.store.compactions →
    ∀ key path,
      (key, path) ∈ (({} : Inner).foldInventory
        (checkpoint.load walListing compactionListing)).files.paths ↔
      (∃ m ∈ node.cluster.store.manifests, (key, path) ∈ m.adds) ∧
        ¬∃ m ∈ node.cluster.store.manifests, (key, path) ∈ m.removes

theorem recording_of_reachable (hreachable : machine.Reachable
    (fun node action => node.Orderly streams action ∧ node.KeepsHeld action) node) :
    streams.Recording node := by
  refine hreachable.invariant ?_ fun _ _ _ => Streams.Recording.step
  rintro node rfl
  exact streams.recording_initial

/-- Along every orderly run in which no tick drops a tombstone that captured marks keep, every
checkpoint is faithful from the moment it is written on. -/
theorem checkpointsFaithful_of_keepsHeld (streams : Streams) (node : CompactorNode)
    (hreachable : machine.Reachable
      (fun node action => node.Orderly streams action ∧ node.KeepsHeld action) node) :
    node.CheckpointsFaithful := by
  have hrecording := recording_of_reachable hreachable
  have hpublishes := hrecording.viewed.publishes
  intro checkpoint hcheckpoint walListing compactionListing hwal hcompactions key path
  have hsound := hrecording.sound checkpoint hcheckpoint
  have hplace : ({} : Inner).Owned streams.tableOf := by simp [Inner.Owned, Files.paths]
  refine (hsound.place_foldInventory hpublishes hwal hcompactions hplace).mem_paths_iff
    (fun m hm => streams.owned (hpublishes.manifests_mem hm)) fun path => ?_
  refine hsound.mem_foldInventory hpublishes hwal hcompactions ?_ ?_
  · simp [Inner.view, Files.paths]
  · exact fun path hpath => absurd hpath (by simp)

section Example

open Streams

def removingId : String := "019b7000-0000-7000-8000-000000000001"

def inputAdded : PersistedSnapshot := writerManifest 1 [writerFile 1 0]

def inputRemoved : String × PersistedSnapshot := compactionOf removingId [writerFile 1 0]

/-- One writer's file and the compaction that removes it. -/
def checkpointStreams : Streams :=
  ofLists [inputAdded] [inputRemoved] (fun _ => ⟨1, 1⟩) (by decide)

instance (cluster : Cluster) (action : ClusterAction) :
    Decidable (checkpointStreams.InOrder cluster action) :=
  inferInstanceAs (Decidable ((ofLists _ _ _ _).InOrder cluster action))

def publishRemoval : List CompactorAction :=
  [.cluster (.mint removingId inputRemoved.2),
    .cluster (.publishCompaction removingId inputRemoved.2)]

/-- The checkpoint writer from its capture on, with nothing to evict. -/
def finishCheckpoint : List CompactorAction :=
  [.checkpoint .readRefs, .checkpoint .listObjects, .checkpoint .snapshotAll,
    .checkpoint .gcTombstones, .checkpoint .readTombstones, .checkpoint (.loadWal [inputAdded]),
    .checkpoint .findSurvivors, .checkpoint .write]

/-- The compaction is folded in a tick that has not listed the writer's manifest, whose file then
has a tombstone above the writer's mark. -/
def removalAhead : List CompactorAction :=
  [.cluster (.poll (.loadWal [] [])), .cluster (.publishWal inputAdded)] ++ publishRemoval ++
    [.cluster (.poll (.loadCompactions [inputRemoved] [])), .cluster (.poll .fold),
      .cluster (.poll .gc), .publishWatermarks, .checkpoint .capture]

/-- The next tick folds the writer's manifest and collects. -/
def nextTick : List CompactorAction :=
  [.cluster (.poll (.loadWal [inputAdded] [])),
    .cluster (.poll (.loadCompactions [inputRemoved] [])),
    .cluster (.poll .fold), .cluster (.poll .gc), .publishWatermarks]

theorem initial_compactor_reachable
    {allowed : CompactorNode → CompactorAction → Prop} : machine.Reachable allowed {} :=
  .initial rfl

/-- The checkpoint is finished before the next tick. -/
theorem checkpointsFaithful_of_keepsHeld_between_ticks :
    ∃ node, machine.Reachable
        (fun node action => node.Orderly checkpointStreams action ∧ node.KeepsHeld action) node ∧
      node.checkpoints.length = 1 ∧ node.cluster.poller.folded.length = 2 ∧
      node.CheckpointsFaithful := by
  obtain ⟨node, hreachable, hone, htwo⟩ : ∃ node, machine.Reachable
      (fun node action => node.Orderly checkpointStreams action ∧ node.KeepsHeld action) node ∧
        node.checkpoints.length = 1 ∧ node.cluster.poller.folded.length = 2 :=
    initial_compactor_reachable.exists_of_exec (removalAhead ++ finishCheckpoint ++ nextTick)
      _ (by decide) (by decide)
  exact ⟨node, hreachable, hone, htwo,
    checkpointsFaithful_of_keepsHeld checkpointStreams node hreachable⟩

/-- The next tick ends between the capture and the reading of the tombstones: the file that the
compaction removed is live in a view that starts from the checkpoint. -/
theorem removed_input_live_after_checkpoint :
    ∃ node, machine.Reachable (fun node action => node.Orderly checkpointStreams action) node ∧
      (∃ checkpoint ∈ node.checkpoints, ((⟨1, 1⟩, (writerFile 1 0).path) : TableKey × String) ∈
        (({} : Inner).foldInventory (checkpoint.load node.cluster.store.walSnapshots
          node.cluster.store.compactions)).files.paths) ∧
      ¬node.CheckpointsFaithful := by
  obtain ⟨node, hreachable, hremoved, checkpoint, hcheckpoint, hlive⟩ : ∃ node, machine.Reachable
      (fun node action => node.Orderly checkpointStreams action) node ∧
        inputRemoved ∈ node.cluster.store.compactions ∧ ∃ checkpoint ∈ node.checkpoints,
          ((⟨1, 1⟩, (writerFile 1 0).path) : TableKey × String) ∈
            (({} : Inner).foldInventory (checkpoint.load node.cluster.store.walSnapshots
              node.cluster.store.compactions)).files.paths :=
    initial_compactor_reachable.exists_of_exec (removalAhead ++ nextTick ++ finishCheckpoint)
      _ (by decide) (by decide)
  refine ⟨node, hreachable, ⟨checkpoint, hcheckpoint, hlive⟩, fun hfaithful => ?_⟩
  refine ((hfaithful checkpoint hcheckpoint _ _ (.refl _) (.refl _) _ _).mp hlive).2 ?_
  exact ⟨_, Store.compaction_mem_manifests.mpr hremoved, by decide⟩

end Example

/-- The view lists only what a published manifest adds, and all that a folded manifest adds and no
published one removes. -/
def ViewBetweenPublished (node : CompactorNode) : Prop :=
  (∀ entry ∈ node.inner.files.paths, ∃ m ∈ node.cluster.store.manifests, entry ∈ m.adds) ∧
    ∀ m ∈ node.cluster.poller.folded, ∀ entry ∈ m.adds,
      (∀ r ∈ node.cluster.store.manifests, entry ∉ r.removes) → entry ∈ node.inner.files.paths

theorem view_between_published (streams : Streams) (node : CompactorNode)
    (hreachable : machine.Reachable
      (fun node action => node.Orderly streams action ∧ node.KeepsHeld action) node) :
    node.ViewBetweenPublished := by
  have hviewed := (recording_of_reachable hreachable).viewed
  refine ⟨fun (key, path) hentry => ?_, fun m hm (key, path) hadds hkept => ?_⟩
  · obtain rfl : key = streams.tableOf path := hviewed.guarded.place _ hentry
    exact mem_added_changesOf.mp (hviewed.added path hentry)
  · obtain rfl := (streams.owned (hviewed.guarded.streaming.folded_mem hm)).of_mem_adds hadds
    refine hviewed.keeps.kept path (mem_added_changesOf.mpr ⟨m, hm, hadds⟩) fun hremoved => ?_
    obtain ⟨r, hr, hremoves⟩ := mem_removed_changesOf.mp hremoved
    exact hkept r hr hremoves

theorem view_between_published_ticks :
    ∃ node, machine.Reachable (fun node action => node.Orderly checkpointStreams action ∧
        node.KeepsHeld action) node ∧
      (node.inner.files.paths ≠ [] ∧ node.cluster.poller.folded.length = 2) ∧
      node.ViewBetweenPublished := by
  refine initial_compactor_reachable.exists_of_exec_and
    (removalAhead ++ finishCheckpoint ++ nextTick) _ (by decide) (by decide) ?_
  exact view_between_published checkpointStreams

end CompactorNode

end RefluxDb.Write
