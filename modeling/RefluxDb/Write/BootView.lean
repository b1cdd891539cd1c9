import RefluxDb.Write.Boot
import RefluxDb.Write.CheckpointEquivalence

/-! Whether the view a writer starts with lists files that were compacted away.

The own snapshots list the files the node has written and know nothing of what compactors on other
nodes have removed. A compaction below the mark of the inventory's checkpoint is not replayed, and
its removals have no effect on what the own load has added: the merged view of the checkpoint only
adds, and tombstones only suppress additions. -/

namespace RefluxDb.Write

open List RefluxDb.Library

namespace NodeDirectory

open OwnObjects

/-- The node's manifests have been published. -/
structure PublishedIn (directory : NodeDirectory) (store : Store) : Prop where
  snapshots : ∀ s ∈ directory.snapshots, s ∈ store.walSnapshots
  compactions : ∀ c ∈ directory.compactions, c ∈ store.compactions

/-- A file that something adds which is loaded from the node's own prefix. -/
def Sources (directory : NodeDirectory) (snapshotsToLoad : Nat) (entry : TableKey × String) :
    Prop :=
  (∃ listed ∈ (directory.bootCheckpoints snapshotsToLoad).flatMap (·.databases),
    PersistedSnapshotCheckpoint.Listed (directory.bootCheckpoints snapshotsToLoad) listed ∧
      (listed.1, listed.2.path) = entry) ∨
    (∃ s ∈ directory.bootSnapshots snapshotsToLoad, entry ∈ (Manifest.wal s).adds) ∨
      ∃ c ∈ directory.compactions, entry ∈ (Manifest.compaction c.1 c.2).adds

/-- A file that the node's own manifests remove: its compactions, or if it is a writer's file the
snapshots that are loaded. -/
def Withdraws (directory : NodeDirectory) (snapshotsToLoad : Nat) (entry : TableKey × String) :
    Prop :=
  ((parseGen1Path entry.2).isSome ∧ ∃ s ∈ directory.bootSnapshots snapshotsToLoad,
    entry ∈ (Manifest.wal s).removes) ∨
      ∃ c ∈ directory.compactions, entry ∈ (Manifest.compaction c.1 c.2).removes

instance (directory : NodeDirectory) (snapshotsToLoad : Nat) (entry : TableKey × String) :
    Decidable (directory.Sources snapshotsToLoad entry) :=
  inferInstanceAs (Decidable (_ ∨ _))

instance (directory : NodeDirectory) (snapshotsToLoad : Nat) (entry : TableKey × String) :
    Decidable (directory.Withdraws snapshotsToLoad entry) :=
  inferInstanceAs (Decidable (_ ∨ _))

variable {directory : NodeDirectory} {snapshotsToLoad : Nat} {key : TableKey} {path : String}
variable {streams : Streams} {store : Store}

/-- What the own manifests are folded onto, and in which order. -/
theorem loadOwn_eq : directory.loadOwn snapshotsToLoad =
    ((directory.bootSnapshots snapshotsToLoad ++ directory.loadCompactionSnapshots).map
      .wal).foldl Inner.fold (directory.start snapshotsToLoad) := by
  rw [loadOwn, loadPersistedFiles_eq, map_append, foldl_append, List.foldl_map,
    List.foldl_map]
  rfl

section Own

variable (hpublishes : streams.Publishes store) (hpublished : directory.PublishedIn store)

include hpublishes hpublished

variable {s : PersistedSnapshot}

theorem wal_mem_of_snapshots (hs : s ∈ directory.snapshots) :
    s ∈ streams.wal :=
  hpublishes.wal_mem s (hpublished.snapshots s hs)

theorem compactions_mem_of_compactions {c : String × PersistedSnapshot}
    (hc : c ∈ directory.compactions) : c ∈ streams.compactions :=
  hpublishes.compactions_mem c (hpublished.compactions c hc)

omit hpublishes in
/-- Every manifest of the own load adds and removes what a published one does. -/
theorem manifest_of_own
    (hs : s ∈ directory.bootSnapshots snapshotsToLoad ++ directory.loadCompactionSnapshots) :
    ∃ m ∈ store.manifests, m.snapshot = s := by
  rcases mem_append.mp hs with hsnapshot | hcompaction
  · exact ⟨.wal s, Store.wal_mem_manifests.mpr
      (hpublished.snapshots s (mem_bootSnapshots hsnapshot)), rfl⟩
  · obtain ⟨id, hid⟩ := mem_loadCompactionSnapshots.mp hcompaction
    exact ⟨.compaction id s, Store.compaction_mem_manifests.mpr (hpublished.compactions _ hid), rfl⟩

theorem owned_own : ∀ m ∈ (directory.bootSnapshots snapshotsToLoad ++
    directory.loadCompactionSnapshots).map Manifest.wal, m.Owned streams.tableOf := by
  rw [forall_mem_map]
  intro s hs
  obtain ⟨m, hm, rfl⟩ := manifest_of_own hpublished hs
  have howned : m.Owned streams.tableOf := streams.owned (hpublishes.manifests_mem hm)
  exact howned

theorem view_loadOwn : (directory.loadOwn snapshotsToLoad).view streams.tableOf =
    ((directory.start snapshotsToLoad).view streams.tableOf).applyAll (changesOf streams.tableOf
      ((directory.bootSnapshots snapshotsToLoad ++ directory.loadCompactionSnapshots).map
        .wal)) := by
  rw [loadOwn_eq]
  exact view_foldl _ (owned_own hpublishes hpublished) _

/-- The own load leaves tombstones of removed paths only. -/
theorem removed_of_loadOwn : ∀ path ∈ (directory.loadOwn snapshotsToLoad).removedTombstones,
    path ∈ streams.removedBy store := by
  intro path hpath
  have hburied : path ∈ ((directory.loadOwn snapshotsToLoad).view streams.tableOf).buried := hpath
  rw [view_loadOwn hpublishes hpublished] at hburied
  rcases TombstoneSet.buried_applyAll_subset _ _ hburied with hstart | hremoved
  · change path ∈ (directory.start snapshotsToLoad).removedTombstones at hstart
    rw [start_tombstones] at hstart
    exact absurd hstart (AList.notMem_empty path)
  · obtain ⟨s, hs, hremoves⟩ := mem_removed_replay.mp hremoved
    obtain ⟨m, hm, rfl⟩ := manifest_of_own hpublished hs
    exact mem_removed_changesOf.mpr ⟨m, hm, hremoves⟩

omit hpublishes hpublished in
theorem notMem_start_buried :
    path ∉ ((directory.start snapshotsToLoad).view streams.tableOf).buried := by
  change path ∉ (directory.start snapshotsToLoad).removedTombstones
  rw [start_tombstones]
  exact AList.notMem_empty path

/-- A writer's path is live after the own load if something loaded adds it and nothing loaded
removes it: its removals leave tombstones, so the order does not matter. -/
theorem mem_loadOwn_gen1 (hgen1 : (parseGen1Path path).isSome) :
    path ∈ ((directory.loadOwn snapshotsToLoad).view streams.tableOf).live ↔
      ((streams.tableOf path, path) ∈ (directory.start snapshotsToLoad).files.paths ∨
        ∃ s ∈ directory.bootSnapshots snapshotsToLoad ++ directory.loadCompactionSnapshots,
          (streams.tableOf path, path) ∈ (Manifest.wal s).adds) ∧
      ¬∃ s ∈ directory.bootSnapshots snapshotsToLoad ++ directory.loadCompactionSnapshots,
        (streams.tableOf path, path) ∈ (Manifest.wal s).removes := by
  have hcompactor : ∀ s ∈ directory.loadCompactionSnapshots,
      (streams.tableOf path, path) ∉ (Manifest.wal s).adds := by
    intro s hs hadds
    obtain ⟨id, hid⟩ := mem_loadCompactionSnapshots.mp hs
    have hnone := streams.compaction_paths _
      (compactions_mem_of_compactions hpublishes hpublished hid) _ hadds
    simp [hnone] at hgen1
  have honly : ∀ s ∈ directory.snapshots, ∀ s' ∈ directory.snapshots,
      (streams.tableOf path, path) ∈ (Manifest.wal s).adds →
        (streams.tableOf path, path) ∈ (Manifest.wal s').adds → s = s' := fun s hs s' hs' hadds =>
    streams.wal_added_once s (wal_mem_of_snapshots hpublishes hpublished hs)
      s' (wal_mem_of_snapshots hpublishes hpublished hs') _ hadds
  rw [view_loadOwn hpublishes hpublished, ← mem_removed_replay, ← mem_added_replay]
  refine TombstoneSet.mem_live_of_buries notMem_start_buried ?_ ?_ ?_
  · intro change hchange _
    obtain ⟨m, _, rfl⟩ := mem_map.mp hchange
    exact tombstoneGc_isSome.mpr (.inl hgen1)
  · simp only [changesOf, pairwise_map]
    refine pairwise_append.mpr ⟨?_, ?_, ?_⟩
    · refine (directory.nodup_bootSnapshots snapshotsToLoad).imp_of_mem ?_
      intro s s' hs hs' hne hadds hadds'
      exact hne (honly s (mem_bootSnapshots hs) s' (mem_bootSnapshots hs') hadds hadds')
    · refine pairwise_of_forall_mem_list ?_
      intro s _ s' hs' _ hadds'
      exact hcompactor s' hs' hadds'
    · intro s _ s' hs' _ hadds'
      exact hcompactor s' hs' hadds'
  · intro hstart hadded
    obtain ⟨s, hs, hadds⟩ := mem_added_replay.mp hadded
    rcases mem_append.mp hs with hloaded | hcompaction
    · obtain ⟨s', hs', hadds', hunloaded⟩ := source_of_mem_start hstart
      exact hunloaded (honly s' hs' s (mem_bootSnapshots hloaded) hadds' hadds ▸ hloaded)
    · exact hcompactor s hcompaction hadds

/-- A compactor's path is live after the own load if an own compaction adds it and none removes
it: they are folded in the order of their ids. -/
theorem mem_loadOwn_compactor (hnone : parseGen1Path path = none) :
    path ∈ ((directory.loadOwn snapshotsToLoad).view streams.tableOf).live ↔
      (∃ s ∈ directory.loadCompactionSnapshots,
        (streams.tableOf path, path) ∈ (Manifest.wal s).adds) ∧
      ¬∃ s ∈ directory.loadCompactionSnapshots,
        (streams.tableOf path, path) ∈ (Manifest.wal s).removes := by
  have hwriter : ∀ s ∈ directory.snapshots,
      (streams.tableOf path, path) ∉ (Manifest.wal s).adds := by
    intro s hs hadds
    have hparse := streams.wal_paths s (wal_mem_of_snapshots hpublishes hpublished hs) _ hadds
    simp [hnone] at hparse
  have habsent : path ∉ ((directory.start snapshotsToLoad).view streams.tableOf).live := by
    intro hstart
    obtain ⟨s, hs, hadds, _⟩ := source_of_mem_start hstart
    exact hwriter s hs hadds
  have hnotadded : path ∉ TombstoneSet.added (changesOf streams.tableOf
      ((directory.bootSnapshots snapshotsToLoad).map .wal)) := by
    rw [mem_added_replay]
    rintro ⟨s, hs, hadds⟩
    exact hwriter s (mem_bootSnapshots hs) hadds
  -- The own snapshots neither add the path nor bury it, so only the compactions matter.
  have hburied : path ∉ ((((directory.start snapshotsToLoad).view streams.tableOf)).applyAll
      (changesOf streams.tableOf ((directory.bootSnapshots snapshotsToLoad).map .wal))).buried := by
    rw [TombstoneSet.mem_buried_of_notMem_added habsent hnotadded, mem_buriable_changesOf]
    rintro (hstart | ⟨m, hm, _, hburies⟩)
    · exact notMem_start_buried hstart
    · obtain ⟨s, _, rfl⟩ := mem_map.mp hm
      simp [hnone, Manifest.compactionId] at hburies
  have hlive : path ∉ ((((directory.start snapshotsToLoad).view streams.tableOf)).applyAll
      (changesOf streams.tableOf ((directory.bootSnapshots snapshotsToLoad).map .wal))).live := by
    rw [TombstoneSet.mem_live_of_notMem_added hnotadded]
    exact fun h => habsent h.1
  have hordered : (changesOf streams.tableOf
      (directory.loadCompactionSnapshots.map .wal)).Pairwise
        fun c d => path ∈ d.adds → path ∉ c.removes := by
    have hmem : ∀ c ∈ directory.compactions, c ∈ streams.compactions := fun c hc =>
      compactions_mem_of_compactions hpublishes hpublished hc
    have hsorted := pairwise_insertionSort
      (fun a b : String × PersistedSnapshot => a.1 ≤ b.1) directory.compactions
    have hnodup := (perm_insertionSort
      (fun a b : String × PersistedSnapshot => a.1 ≤ b.1) directory.compactions).nodup_iff.mpr
        (List.Nodup.of_map _ directory.compactions_distinct)
    simp only [changesOf, loadCompactionSnapshots, pairwise_map]
    refine (hsorted.and hnodup).imp_of_mem ?_
    intro c c' hc hc' hle hadds hremoves
    have hc := hmem c ((mem_insertionSort _).mp hc)
    have hc' := hmem c' ((mem_insertionSort _).mp hc')
    have hge := streams.compaction_inputs c' hc' c hc _ hadds hremoves
    exact hle.2 (streams.compaction_distinct c hc c' hc' (le_antisymm hle.1 hge))
  rw [view_loadOwn hpublishes hpublished, map_append, changesOf, map_append,
    TombstoneSet.applyAll_append]
  refine (TombstoneSet.mem_live_of_ordered hburied hordered).trans ?_
  rw [or_iff_right hlive, mem_added_replay, mem_removed_replay]

theorem mem_loadOwn : path ∈ ((directory.loadOwn snapshotsToLoad).view streams.tableOf).live ↔
    directory.Sources snapshotsToLoad (streams.tableOf path, path) ∧
      ¬directory.Withdraws snapshotsToLoad (streams.tableOf path, path) := by
  have hadds : (∃ s ∈ directory.loadCompactionSnapshots,
      (streams.tableOf path, path) ∈ (Manifest.wal s).adds) ↔ ∃ c ∈ directory.compactions,
        (streams.tableOf path, path) ∈ (Manifest.compaction c.1 c.2).adds :=
    exists_mem_loadCompactionSnapshots fun s => (streams.tableOf path, path) ∈ s.databases.paths
  have hremoves : (∃ s ∈ directory.loadCompactionSnapshots,
      (streams.tableOf path, path) ∈ (Manifest.wal s).removes) ↔ ∃ c ∈ directory.compactions,
        (streams.tableOf path, path) ∈ (Manifest.compaction c.1 c.2).removes :=
    exists_mem_loadCompactionSnapshots fun s => (streams.tableOf path, path) ∈ s.removedFiles.paths
  unfold Sources Withdraws
  rw [← mem_start_paths]
  cases hparse : parseGen1Path path with
  | some parsed =>
    rw [mem_loadOwn_gen1 hpublishes hpublished (by simp [hparse])]
    simp only [← hadds, ← hremoves, Option.isSome_some, true_and, mem_append, or_and_right,
      exists_or]
  | none =>
    have hnotlisted : (streams.tableOf path, path) ∉
        (directory.start snapshotsToLoad).files.paths := by
      intro hstart
      obtain ⟨s, hs, hadds, _⟩ := source_of_mem_start hstart
      have hgen1 := streams.wal_paths s (wal_mem_of_snapshots hpublishes hpublished hs) _ hadds
      simp [hparse] at hgen1
    have hnotadded : ¬∃ s ∈ directory.bootSnapshots snapshotsToLoad,
        (streams.tableOf path, path) ∈ (Manifest.wal s).adds := by
      rintro ⟨s, hs, hadds⟩
      have hgen1 := streams.wal_paths s
        (wal_mem_of_snapshots hpublishes hpublished (mem_bootSnapshots hs)) _ hadds
      simp [hparse] at hgen1
    rw [mem_loadOwn_compactor hpublishes hpublished hparse, hadds, hremoves]
    simp only [hnotlisted, hnotadded, false_or, Option.isSome_none, Bool.false_eq_true,
      false_and]

end Own

section Boot

variable {checkpoint : Checkpoint} {walListing : List PersistedSnapshot}
variable {compactionListing : List (String × PersistedSnapshot)}

/-- What starting from a checkpoint is for: no file is listed that a compaction up to the mark has
removed, and every file is that is added and not removed. -/
def BootsRight (directory : NodeDirectory) (snapshotsToLoad : Nat) (store : Store)
    (checkpoint : Checkpoint) (walListing : List PersistedSnapshot)
    (compactionListing : List (String × PersistedSnapshot)) : Prop :=
  (∀ c ∈ store.compactions, checkpoint.marks.Passed (.compaction c.1 c.2) →
    ∀ entry ∈ (Manifest.compaction c.1 c.2).removes, entry ∉ (directory.boot snapshotsToLoad
      (checkpoint.load walListing compactionListing)).files.paths) ∧
  ∀ entry, (∃ m ∈ store.manifests, entry ∈ m.adds) → (¬∃ m ∈ store.manifests, entry ∈ m.removes) →
    entry ∈ (directory.boot snapshotsToLoad
      (checkpoint.load walListing compactionListing)).files.paths

/-- Every file that something loaded from the own prefix adds and a compaction up to the mark
removes is also removed by the own manifests, or by a published one above the marks. -/
def RemovalsReach (directory : NodeDirectory) (snapshotsToLoad : Nat) (store : Store)
    (checkpoint : Checkpoint) : Prop :=
  ∀ c ∈ store.compactions, checkpoint.marks.Passed (.compaction c.1 c.2) →
    ∀ entry ∈ (Manifest.compaction c.1 c.2).removes, directory.Sources snapshotsToLoad entry →
      directory.Withdraws snapshotsToLoad entry ∨
        ∃ m ∈ store.manifests, ¬checkpoint.marks.Passed m ∧ entry ∈ m.removes

instance (marks : InventoryWatermarks) (m : Manifest) : Decidable (marks.Passed m) :=
  match m with
  | .wal s => inferInstanceAs (Decidable (s.snapshotSequenceNumber ≤ marks.wal s.nodeId))
  | .compaction id _ => inferInstanceAs (Decidable (∃ mark ∈ marks.compaction, id ≤ mark))

instance (directory : NodeDirectory) (snapshotsToLoad : Nat) (store : Store)
    (checkpoint : Checkpoint) :
    Decidable (directory.RemovalsReach snapshotsToLoad store checkpoint) :=
  inferInstanceAs (Decidable (∀ c ∈ store.compactions, _))

variable (hsound : checkpoint.Sound streams store) (hpublishes : streams.Publishes store)
variable (hpublished : directory.PublishedIn store)
variable (hwal : walListing.Perm store.walSnapshots)
variable (hcompactions : compactionListing.Perm store.compactions)

include hsound hpublishes hpublished hwal hcompactions

omit hpublished in
/-- A file that a compaction up to the mark has removed is listed exactly when the own load leaves
it and nothing above the marks removes it. -/
theorem mem_boot_of_passed {c : String × PersistedSnapshot} (hc : c ∈ store.compactions)
    (hpassed : checkpoint.marks.Passed (.compaction c.1 c.2))
    (hremoves : (streams.tableOf path, path) ∈ (Manifest.compaction c.1 c.2).removes) :
    (streams.tableOf path, path) ∈ (directory.boot snapshotsToLoad
        (checkpoint.load walListing compactionListing)).files.paths ↔
      path ∈ ((directory.loadOwn snapshotsToLoad).view streams.tableOf).live ∧
        ¬∃ m ∈ store.manifests, ¬checkpoint.marks.Passed m ∧
          (streams.tableOf path, path) ∈ m.removes := by
  have hreplayed : path ∈ TombstoneSet.removed (changesOf streams.tableOf
      ((checkpoint.load walListing compactionListing).flatten.map .wal)) ↔
        ∃ m ∈ store.manifests, ¬checkpoint.marks.Passed m ∧
          (streams.tableOf path, path) ∈ m.removes := by
    rw [mem_removed_replay]
    constructor
    · rintro ⟨s, hs, hremoves⟩
      rcases mem_cons.mp hs with rfl | hreplayed
      · have hnone := hsound.removes
        change (streams.tableOf path, path) ∈ checkpoint.mergedSnapshot.removedFiles.paths
          at hremoves
        rw [hnone] at hremoves
        exact absurd hremoves not_mem_nil
      · obtain ⟨m, hm, hunpassed, rfl⟩ :=
          Checkpoint.manifest_of_replayed hwal hcompactions hreplayed
        exact ⟨m, hm, hunpassed, hremoves⟩
    · rintro ⟨m, hm, hunpassed, hremoves⟩
      exact ⟨m.snapshot, mem_cons_of_mem _
        (Checkpoint.replayed_of_manifest hwal hcompactions hm hunpassed), hremoves⟩
  change path ∈ ((directory.boot snapshotsToLoad
    (checkpoint.load walListing compactionListing)).view streams.tableOf).live ↔ _
  rw [boot, hsound.view_load hpublishes hwal hcompactions, hsound.mem_live_of_passed hpublishes hwal
    hcompactions (checkpoint.mem_seeded _) (Store.compaction_mem_manifests.mpr hc) hpassed hremoves
    (.inr rfl), hreplayed]
  rfl

/-- Every file that is added and not removed is listed. -/
theorem mem_boot_of_kept {m : Manifest} (hm : m ∈ store.manifests)
    (hadds : (streams.tableOf path, path) ∈ m.adds) (hkept : path ∉ streams.removedBy store) :
    (streams.tableOf path, path) ∈ (directory.boot snapshotsToLoad
      (checkpoint.load walListing compactionListing)).files.paths := by
  change path ∈ ((directory.boot snapshotsToLoad
    (checkpoint.load walListing compactionListing)).view streams.tableOf).live
  rw [boot, hsound.view_load hpublishes hwal hcompactions,
    hsound.mem_live_of_notMem_removed hpublishes hwal hcompactions
      (hsound.removed_of_seeded (removed_of_loadOwn hpublishes hpublished)) hkept]
  exact .inr (mem_added_changesOf.mpr ⟨m, hm, hadds⟩)

theorem bootsRight_iff : directory.BootsRight snapshotsToLoad store checkpoint walListing
    compactionListing ↔ directory.RemovalsReach snapshotsToLoad store checkpoint := by
  constructor
  · rintro ⟨hclean, _⟩ c hc hpassed ⟨key, path⟩ hremoves hsources
    obtain rfl := (streams.compaction_owned c (hpublishes.compactions_mem c hc)).of_mem_removes
      hremoves
    have habsent := hclean c hc hpassed _ hremoves
    rw [mem_boot_of_passed hsound hpublishes hwal hcompactions hc hpassed hremoves,
      mem_loadOwn hpublishes hpublished] at habsent
    grind
  · intro hreach
    refine ⟨fun c hc hpassed entry hremoves => ?_, fun entry hadded hkept => ?_⟩
    · obtain ⟨key, path⟩ := entry
      obtain rfl := (streams.compaction_owned c (hpublishes.compactions_mem c hc)).of_mem_removes
        hremoves
      rw [mem_boot_of_passed hsound hpublishes hwal hcompactions hc hpassed hremoves,
        mem_loadOwn hpublishes hpublished]
      rintro ⟨⟨hsources, hkept⟩, hunremoved⟩
      exact (hreach c hc hpassed _ hremoves hsources).elim hkept hunremoved
    · obtain ⟨key, path⟩ := entry
      obtain ⟨m, hm, hadds⟩ := hadded
      obtain rfl := (streams.owned (hpublishes.manifests_mem hm)).of_mem_adds hadds
      refine mem_boot_of_kept hsound hpublishes hpublished hwal hcompactions hm hadds fun h => ?_
      exact hkept (mem_removed_changesOf.mp h)

end Boot

end NodeDirectory

namespace CompactorNode

/-- In every history in which checkpoints are faithful, a writer starts right exactly when every
file it loads from its own prefix that a compaction up to the checkpoint's mark removes is also
removed by its own manifests or by a manifest above the marks. -/
theorem boot_right_iff_removalsReach (streams : Streams) (node : CompactorNode)
    (hreachable : machine.Reachable
      (fun node action => node.Orderly streams action ∧ node.KeepsHeld action) node)
    (directory : NodeDirectory) (hpublished : directory.PublishedIn node.cluster.store)
    (snapshotsToLoad : Nat) (checkpoint : Checkpoint) (hcheckpoint : checkpoint ∈ node.checkpoints)
    (walListing : List PersistedSnapshot) (hwal : walListing.Perm node.cluster.store.walSnapshots)
    (compactionListing : List (String × PersistedSnapshot))
    (hcompactions : compactionListing.Perm node.cluster.store.compactions) :
    directory.BootsRight snapshotsToLoad node.cluster.store checkpoint walListing
        compactionListing ↔
      directory.RemovalsReach snapshotsToLoad node.cluster.store checkpoint := by
  have hrecording := recording_of_reachable hreachable
  exact NodeDirectory.bootsRight_iff (hrecording.sound checkpoint hcheckpoint)
    hrecording.viewed.publishes hpublished hwal hcompactions

section Example

open Streams

def laterAdded : PersistedSnapshot := writerManifest 2 [writerFile 2 1]

/-- Two snapshots of a writer and the compaction that removes the file of the first. -/
def bootStreams : Streams :=
  ofLists [inputAdded, laterAdded] [inputRemoved] (fun _ => ⟨1, 1⟩) (by decide)

instance (cluster : Cluster) (action : ClusterAction) :
    Decidable (bootStreams.InOrder cluster action) :=
  inferInstanceAs (Decidable ((ofLists _ _ _ _).InOrder cluster action))

/-- The writer's own prefix. -/
def writerDirectory : NodeDirectory where
  snapshots := [inputAdded, laterAdded]
  snapshots_distinct := by decide
  compactions := []
  compactions_distinct := nodup_nil

/-- Everything is published and folded in one tick, and then the checkpoint is written. -/
def foldAndCheckpoint : List CompactorAction :=
  [.cluster (.publishWal inputAdded), .cluster (.publishWal laterAdded)] ++ publishRemoval ++
    [.cluster (.poll (.loadWal [inputAdded, laterAdded] [])),
      .cluster (.poll (.loadCompactions [inputRemoved] [])), .cluster (.poll .fold),
      .cluster (.poll .fold), .cluster (.poll .fold), .cluster (.poll .gc), .publishWatermarks,
      .checkpoint .capture, .checkpoint .readRefs, .checkpoint .listObjects,
      .checkpoint .snapshotAll, .checkpoint .gcTombstones, .checkpoint .readTombstones,
      .checkpoint (.loadWal [inputAdded, laterAdded]), .checkpoint .findSurvivors,
      .checkpoint .write]

theorem writerDirectory_publishedIn {store : Store}
    (hstore : store.walSnapshots = [inputAdded, laterAdded]) :
    writerDirectory.PublishedIn store := by
  refine ⟨fun s hs => ?_, fun c hc => ?_⟩
  · rw [hstore]
    exact hs
  · exact absurd hc not_mem_nil

/-- A writer that loads only its latest snapshot starts right. -/
theorem boot_right_iff_removalsReach_latest :
    ∃ node, machine.Reachable
        (fun node action => node.Orderly bootStreams action ∧ node.KeepsHeld action) node ∧
      ∃ checkpoint ∈ node.checkpoints, checkpoint.compactionsHighWater = some removingId ∧
        writerDirectory.BootsRight 1 node.cluster.store checkpoint node.cluster.store.walSnapshots
          node.cluster.store.compactions := by
  obtain ⟨node, hreachable, hstore, checkpoint, hcheckpoint, hmark, hreach⟩ : ∃ node,
      machine.Reachable
        (fun node action => node.Orderly bootStreams action ∧ node.KeepsHeld action) node ∧
      node.cluster.store.walSnapshots = [inputAdded, laterAdded] ∧
        ∃ checkpoint ∈ node.checkpoints, checkpoint.compactionsHighWater = some removingId ∧
          writerDirectory.RemovalsReach 1 node.cluster.store checkpoint :=
    initial_compactor_reachable.exists_of_exec foldAndCheckpoint _ (by decide +kernel)
      (by decide +kernel)
  exact ⟨node, hreachable, checkpoint, hcheckpoint, hmark,
    (boot_right_iff_removalsReach bootStreams node hreachable writerDirectory
      (writerDirectory_publishedIn hstore) 1 checkpoint hcheckpoint _ (.refl _) _ (.refl _)).mpr
        hreach⟩

/-- A writer that loads both its snapshots lists the file that was compacted away. -/
theorem removed_input_live_after_boot :
    ∃ node, machine.Reachable
        (fun node action => node.Orderly bootStreams action ∧ node.KeepsHeld action) node ∧
      writerDirectory.PublishedIn node.cluster.store ∧
      ∃ checkpoint ∈ node.checkpoints, checkpoint.compactionsHighWater = some removingId ∧
        ¬writerDirectory.BootsRight 2 node.cluster.store checkpoint node.cluster.store.walSnapshots
          node.cluster.store.compactions := by
  obtain ⟨node, hreachable, hstore, hremoved, checkpoint, hcheckpoint, hmark, hlive⟩ : ∃ node,
      machine.Reachable
        (fun node action => node.Orderly bootStreams action ∧ node.KeepsHeld action) node ∧
      node.cluster.store.walSnapshots = [inputAdded, laterAdded] ∧
        inputRemoved ∈ node.cluster.store.compactions ∧
        ∃ checkpoint ∈ node.checkpoints, checkpoint.compactionsHighWater = some removingId ∧
          ((⟨1, 1⟩, (writerFile 1 0).path) : TableKey × String) ∈
            (writerDirectory.boot 2 (checkpoint.load node.cluster.store.walSnapshots
              node.cluster.store.compactions)).files.paths :=
    initial_compactor_reachable.exists_of_exec foldAndCheckpoint _ (by decide +kernel)
      (by decide +kernel)
  refine ⟨node, hreachable, writerDirectory_publishedIn hstore, checkpoint, hcheckpoint, hmark,
    fun hright => ?_⟩
  exact hright.1 inputRemoved hremoved ⟨removingId, hmark, le_refl _⟩ _ (by decide +kernel) hlive

end Example

end CompactorNode

end RefluxDb.Write
