import Mathlib.Data.List.MinMax
import RefluxDb.Write.CheckpointLoad
import RefluxDb.Write.SnapshotCheckpoints

/-! How a node builds its view at startup.

First what it finds under its own prefix: the latest checkpoint of each month and the snapshots
after them, or without a checkpoint just the snapshots; then its own compaction manifests; then the
tombstones and the manifests of the shared inventory. The number of snapshots that are loaded, and
with it how far back the checkpoints may lie, is a setting. Listing and fetching succeed. -/

namespace RefluxDb.Write

open List

/-- What is found under a node's own prefix. -/
structure OwnObjects where
  snapshots : List PersistedSnapshot := []
  checkpoints : List PersistedSnapshotCheckpoint := []
  compactions : List (String × PersistedSnapshot) := []

/-- What a node keeps under its own prefix: one object for each number and id. A checkpoint lists
files of snapshots up to its own number; a node numbers its files apart and counts each to one
month. -/
structure NodeDirectory extends OwnObjects where
  snapshots_distinct : (snapshots.map (·.snapshotSequenceNumber)).Nodup := by simp
  compactions_distinct : (compactions.map Prod.fst).Nodup := by simp
  listed : ∀ checkpoint ∈ checkpoints, ∀ entry ∈ checkpoint.databases,
    ∃ s ∈ snapshots, s.snapshotSequenceNumber ≤ checkpoint.lastSnapshotSequenceNumber ∧
      entry ∈ s.databases.entries := by simp
  numbered : ∀ checkpoint ∈ checkpoints, (checkpoint.databases.map slot).Nodup := by simp
  apart : ∀ checkpoint ∈ checkpoints, ∀ other ∈ checkpoints,
    checkpoint.yearMonth ≠ other.yearMonth →
      ∀ entry ∈ checkpoint.databases, ∀ entry' ∈ other.databases, slot entry ≠ slot entry' := by
        simp

namespace OwnObjects

variable (directory : OwnObjects)

/-- The most recent snapshots, newest first. -/
def loadSnapshots (mostRecent : Nat) : List PersistedSnapshot :=
  (directory.snapshots.insertionSort fun a b =>
    b.snapshotSequenceNumber ≤ a.snapshotSequenceNumber).take mostRecent

def loadSnapshotsAfter (after mostRecent : Nat) : List PersistedSnapshot :=
  (directory.loadSnapshots mostRecent).filter fun s => after < s.snapshotSequenceNumber

/-- The own compaction manifests in the order of their ids. -/
def loadCompactionSnapshots : List PersistedSnapshot :=
  (directory.compactions.insertionSort fun a b => a.1 ≤ b.1).map Prod.snd

/-- The latest checkpoint of each month, oldest month first. -/
def latestPerMonth : List PersistedSnapshotCheckpoint :=
  ((directory.checkpoints.map (·.yearMonth)).dedup.insertionSort (· ≤ ·)).filterMap fun month =>
    ((directory.checkpoints.filter fun checkpoint => checkpoint.yearMonth = month).insertionSort
      fun a b => b.lastSnapshotSequenceNumber ≤ a.lastSnapshotSequenceNumber).head?

/-- The checkpoints that reach to the given number, and the one before the first of them. -/
def overlapping (minSequence : Nat) :
    List PersistedSnapshotCheckpoint → List PersistedSnapshotCheckpoint
  | [] => []
  | checkpoint :: rest =>
    if minSequence ≤ checkpoint.lastSnapshotSequenceNumber ∨
        rest.head?.any fun next => minSequence ≤ next.lastSnapshotSequenceNumber then
      checkpoint :: overlapping minSequence rest
    else overlapping minSequence rest

def listLatestCheckpointsPerMonth (minSequence : Option Nat) : List PersistedSnapshotCheckpoint :=
  match minSequence with
  | none => directory.latestPerMonth
  | some minSequence => overlapping minSequence directory.latestPerMonth

def sequenceCutoff (snapshotsToLoad : Nat) : Option Nat :=
  (directory.loadSnapshots 1).head?.map fun s => s.snapshotSequenceNumber - snapshotsToLoad

def bootCheckpoints (snapshotsToLoad : Nat) : List PersistedSnapshotCheckpoint :=
  directory.listLatestCheckpointsPerMonth (directory.sequenceCutoff snapshotsToLoad)

def bootSnapshots (snapshotsToLoad : Nat) : List PersistedSnapshot :=
  match ((directory.bootCheckpoints snapshotsToLoad).map (·.lastSnapshotSequenceNumber)).max? with
  | none => directory.loadSnapshots snapshotsToLoad
  | some last => directory.loadSnapshotsAfter last snapshotsToLoad

/-- The view from the node's own checkpoints and snapshots. -/
def loadPersistedFiles (snapshotsToLoad : Nat) : Inner :=
  match directory.bootCheckpoints snapshotsToLoad with
  | [] => .newFromPersistedSnapshots (directory.bootSnapshots snapshotsToLoad)
  | checkpoints =>
    .newFromCheckpointsAndSnapshots checkpoints (directory.bootSnapshots snapshotsToLoad)

/-- The view before the shared inventory is folded. -/
def loadOwn (snapshotsToLoad : Nat) : Inner :=
  directory.loadCompactionSnapshots.foldl Inner.addPersistedSnapshotFiles
    (directory.loadPersistedFiles snapshotsToLoad)

def boot (snapshotsToLoad : Nat) (inventory : LoadedInventory) : Inner :=
  (directory.loadOwn snapshotsToLoad).foldInventory inventory

variable {directory} {snapshotsToLoad : Nat} {s : PersistedSnapshot}

theorem mem_loadSnapshots {mostRecent : Nat} (hs : s ∈ directory.loadSnapshots mostRecent) :
    s ∈ directory.snapshots :=
  (mem_insertionSort _).mp (mem_of_mem_take hs)

theorem mem_bootSnapshots (hs : s ∈ directory.bootSnapshots snapshotsToLoad) :
    s ∈ directory.snapshots := by
  unfold bootSnapshots at hs
  split at hs
  · exact mem_loadSnapshots hs
  · exact mem_loadSnapshots (mem_of_mem_filter hs)

variable {checkpoint : PersistedSnapshotCheckpoint}

/-- Beside checkpoints only snapshots after all of them are loaded. -/
theorem lt_of_mem_bootSnapshots (hs : s ∈ directory.bootSnapshots snapshotsToLoad)
    (hcheckpoint : checkpoint ∈ directory.bootCheckpoints snapshotsToLoad) :
    checkpoint.lastSnapshotSequenceNumber < s.snapshotSequenceNumber := by
  have hmem := mem_map_of_mem (f := (·.lastSnapshotSequenceNumber)) hcheckpoint
  unfold bootSnapshots at hs
  split at hs
  case h_1 hnone =>
    rw [max?_eq_none_iff] at hnone
    rw [hnone] at hmem
    exact absurd hmem not_mem_nil
  case h_2 last hlast =>
    have hle := (max?_eq_some_iff.mp hlast).2 _ hmem
    have hlt := (mem_filter.mp hs).2
    rw [decide_eq_true_eq] at hlt
    exact hle.trans_lt hlt

theorem mem_loadCompactionSnapshots : s ∈ directory.loadCompactionSnapshots ↔
    ∃ id, (id, s) ∈ directory.compactions := by
  simp [loadCompactionSnapshots]

theorem exists_mem_loadCompactionSnapshots (property : PersistedSnapshot → Prop) :
    (∃ s ∈ directory.loadCompactionSnapshots, property s) ↔
      ∃ c ∈ directory.compactions, property c.2 := by
  constructor
  · rintro ⟨s, hs, hproperty⟩
    obtain ⟨id, hid⟩ := mem_loadCompactionSnapshots.mp hs
    exact ⟨_, hid, hproperty⟩
  · rintro ⟨c, hc, hproperty⟩
    exact ⟨c.2, mem_loadCompactionSnapshots.mpr ⟨c.1, hc⟩, hproperty⟩

theorem pairwise_sortedMonths (months : List YearMonth) :
    (months.dedup.insertionSort (· ≤ ·)).Pairwise (· < ·) := by
  have hnodup : (months.dedup.insertionSort (· ≤ ·)).Nodup :=
    (perm_insertionSort _ _).nodup_iff.mpr (nodup_dedup _)
  exact ((pairwise_insertionSort _ _).and hnodup).imp fun h => lt_of_le_of_ne h.1 h.2

theorem latestPerMonth_pairwise :
    directory.latestPerMonth.Pairwise fun a b => a.yearMonth < b.yearMonth := by
  refine (pairwise_sortedMonths _).filterMap _ fun month month' hlt checkpoint hcheckpoint other
    hother => ?_
  have hmonth : ∀ {month : YearMonth} {checkpoint : PersistedSnapshotCheckpoint},
      checkpoint ∈ ((directory.checkpoints.filter fun checkpoint =>
        checkpoint.yearMonth = month).insertionSort fun a b =>
          b.lastSnapshotSequenceNumber ≤ a.lastSnapshotSequenceNumber).head? →
        checkpoint.yearMonth = month := by
    intro month checkpoint hhead
    have hmem := (mem_insertionSort _).mp (mem_of_mem_head? hhead)
    simpa using (mem_filter.mp hmem).2
  rw [hmonth hcheckpoint, hmonth hother]
  exact hlt

theorem mem_latestPerMonth
    (hmem : checkpoint ∈ directory.latestPerMonth) : checkpoint ∈ directory.checkpoints := by
  obtain ⟨month, _, hhead⟩ := mem_filterMap.mp hmem
  exact mem_of_mem_filter ((mem_insertionSort _).mp (mem_of_mem_head? hhead))

theorem overlapping_sublist (minSequence : Nat) (checkpoints : List PersistedSnapshotCheckpoint) :
    (overlapping minSequence checkpoints).Sublist checkpoints := by
  induction checkpoints with
  | nil => exact List.Sublist.refl _
  | cons checkpoint rest ih =>
    unfold overlapping
    split
    · exact ih.cons_cons checkpoint
    · exact ih.cons checkpoint

theorem bootCheckpoints_sublist :
    (directory.bootCheckpoints snapshotsToLoad).Sublist directory.latestPerMonth := by
  unfold bootCheckpoints listLatestCheckpointsPerMonth
  split
  · exact List.Sublist.refl _
  · exact overlapping_sublist _ _

theorem bootCheckpoints_pairwise : (directory.bootCheckpoints snapshotsToLoad).Pairwise
    fun a b => a.yearMonth < b.yearMonth :=
  latestPerMonth_pairwise.sublist bootCheckpoints_sublist

/-- The view of the merged monthly checkpoints. -/
def start (directory : OwnObjects) (snapshotsToLoad : Nat) : Inner :=
  match directory.bootCheckpoints snapshotsToLoad with
  | [] => {}
  | first :: rest => .ofCheckpoint (rest.foldl PersistedSnapshotCheckpoint.merge first)

theorem start_eq : directory.start snapshotsToLoad =
    .newFromCheckpointsAndSnapshots (directory.bootCheckpoints snapshotsToLoad) [] := by
  rw [Inner.newFromCheckpointsAndSnapshots,
    List.Pairwise.insertionSort_eq (bootCheckpoints_pairwise.imp le_of_lt)]
  rfl

/-- The own snapshots are folded onto the merged checkpoints. -/
theorem loadPersistedFiles_eq : directory.loadPersistedFiles snapshotsToLoad =
    (directory.bootSnapshots snapshotsToLoad).foldl Inner.addPersistedSnapshotFiles
      (directory.start snapshotsToLoad) := by
  have hsorted : (directory.bootCheckpoints snapshotsToLoad).insertionSort
      (fun a b => a.yearMonth ≤ b.yearMonth) = directory.bootCheckpoints snapshotsToLoad :=
    List.Pairwise.insertionSort_eq (bootCheckpoints_pairwise.imp le_of_lt)
  unfold loadPersistedFiles start
  cases hcheckpoints : directory.bootCheckpoints snapshotsToLoad with
  | nil => rfl
  | cons first rest =>
    rw [hcheckpoints] at hsorted
    dsimp only
    rw [Inner.newFromCheckpointsAndSnapshots, hsorted]

theorem start_tombstones : (directory.start snapshotsToLoad).removedTombstones = ∅ := by
  unfold start
  split <;> rfl

end OwnObjects

namespace NodeDirectory

open OwnObjects

theorem nodup_loadSnapshots (directory : NodeDirectory) (mostRecent : Nat) :
    (directory.loadSnapshots mostRecent).Nodup := by
  have hnodup := List.Nodup.of_map _ directory.snapshots_distinct
  exact ((perm_insertionSort _ _).nodup_iff.mpr hnodup).sublist (take_sublist _ _)

theorem nodup_bootSnapshots (directory : NodeDirectory) (snapshotsToLoad : Nat) :
    (directory.bootSnapshots snapshotsToLoad).Nodup := by
  unfold OwnObjects.bootSnapshots
  split
  · exact directory.nodup_loadSnapshots _
  · exact (directory.nodup_loadSnapshots _).filter _

variable {directory : NodeDirectory} {snapshotsToLoad : Nat} {key : TableKey} {path : String}

theorem mem_start_files {listed : TableKey × ParquetFile} :
    listed ∈ (directory.start snapshotsToLoad).files ↔
      PersistedSnapshotCheckpoint.Listed (directory.bootCheckpoints snapshotsToLoad) listed := by
  have hmem : ∀ checkpoint ∈ directory.bootCheckpoints snapshotsToLoad,
      checkpoint ∈ directory.checkpoints := fun checkpoint h =>
    mem_latestPerMonth (bootCheckpoints_sublist.subset h)
  rw [start_eq]
  refine PersistedSnapshotCheckpoint.mem_newFromCheckpoints_iff bootCheckpoints_pairwise ?_
  rw [map_flatMap, nodup_flatMap]
  refine ⟨fun checkpoint h => directory.numbered checkpoint (hmem checkpoint h), ?_⟩
  refine bootCheckpoints_pairwise.imp_of_mem fun {a b} ha hb hlt => ?_
  intro target hinA hinB
  obtain ⟨entry, hentry, rfl⟩ := mem_map.mp hinA
  obtain ⟨entry', hentry', hslot⟩ := mem_map.mp hinB
  exact directory.apart a (hmem a ha) b (hmem b hb) hlt.ne entry hentry entry' hentry' hslot.symm

theorem mem_start_paths : (key, path) ∈ (directory.start snapshotsToLoad).files.paths ↔
    ∃ listed ∈ (directory.bootCheckpoints snapshotsToLoad).flatMap (·.databases),
      PersistedSnapshotCheckpoint.Listed (directory.bootCheckpoints snapshotsToLoad) listed ∧
        (listed.1, listed.2.path) = (key, path) := by
  simp only [Files.paths, mem_map, mem_start_files]
  constructor
  · rintro ⟨listed, hlisted, heq⟩
    obtain ⟨checkpoint, hcheckpoint, hentry, _⟩ := id hlisted
    exact ⟨listed, mem_flatMap.mpr ⟨checkpoint, hcheckpoint, hentry⟩, hlisted, heq⟩
  · rintro ⟨listed, _, hlisted, heq⟩
    exact ⟨listed, hlisted, heq⟩

/-- What the merged checkpoints list was added by a snapshot of the node that is not loaded. -/
theorem source_of_mem_start (hstart : (key, path) ∈ (directory.start snapshotsToLoad).files.paths) :
    ∃ s ∈ directory.snapshots, (key, path) ∈ (Manifest.wal s).adds ∧
      s ∉ directory.bootSnapshots snapshotsToLoad := by
  obtain ⟨listed, _, ⟨checkpoint, hcheckpoint, hentry, _⟩, heq⟩ := mem_start_paths.mp hstart
  obtain ⟨s, hs, hle, hadds⟩ := directory.listed checkpoint
    (mem_latestPerMonth (bootCheckpoints_sublist.subset hcheckpoint)) listed hentry
  refine ⟨s, hs, ?_, fun hboot => ?_⟩
  · change (key, path) ∈ s.databases.paths
    rw [← DatabaseTables.paths_entries, ← heq]
    exact mem_map_of_mem hadds
  · exact absurd (lt_of_mem_bootSnapshots hboot hcheckpoint) (not_lt.mpr hle)

end NodeDirectory

end RefluxDb.Write
