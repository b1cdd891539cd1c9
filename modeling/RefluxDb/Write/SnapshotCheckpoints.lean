import Mathlib.Data.Prod.Lex
import RefluxDb.Write.FoldSpec

/-! A node's monthly checkpoints of its own snapshots.

Each month's snapshots are merged into one document under the node's prefix: the files they add,
without those they remove, and the removals that found nothing, which are for files of earlier
months. At startup the documents of all months are merged, each applied to those before it. Files
are told apart by their number here, not by their path. The size and the time range of a document,
and the number of the next file, are left out: nothing reads them back into the view. -/

namespace RefluxDb.Write

open List RefluxDb.Library

/-- A year and a month, in the order of time. -/
abbrev YearMonth := Nat ×ₗ Nat

/-- The files of a manifest's map, table by table. -/
def DatabaseTables.entries (tables : DatabaseTables) : Files :=
  tables.tables.flatMap fun table => table.2.map fun file => (table.1, file)

theorem DatabaseTables.paths_entries (tables : DatabaseTables) :
    Files.paths tables.entries = tables.paths := by
  simp [Files.paths, DatabaseTables.entries, DatabaseTables.paths, map_flatMap,
    Function.comp_def]

/-- What a checkpoint tells files of a table apart by. -/
def slot (entry : TableKey × ParquetFile) : TableKey × Nat := (entry.1, entry.2.id)

structure PersistedSnapshotCheckpoint where
  yearMonth : YearMonth
  lastSnapshotSequenceNumber : Nat := 0
  rowCount : Nat := 0
  databases : Files := []
  pendingRemovedFiles : Files := []
deriving DecidableEq

namespace PersistedSnapshotCheckpoint

def addFile (checkpoint : PersistedSnapshotCheckpoint) (entry : TableKey × ParquetFile) :
    PersistedSnapshotCheckpoint :=
  { checkpoint with
    rowCount := checkpoint.rowCount + entry.2.rowCount
    databases := checkpoint.databases ++ [entry] }

/-- Removes the first file of the table with the given number. -/
def removeFile (checkpoint : PersistedSnapshotCheckpoint) (key : TableKey) (id : Nat) :
    PersistedSnapshotCheckpoint :=
  match checkpoint.databases.find? fun entry => slot entry = (key, id) with
  | none => checkpoint
  | some removed =>
    { checkpoint with
      rowCount := checkpoint.rowCount - removed.2.rowCount
      databases := checkpoint.databases.eraseP fun entry => slot entry = (key, id) }

def addPendingRemoved (checkpoint : PersistedSnapshotCheckpoint)
    (entry : TableKey × ParquetFile) : PersistedSnapshotCheckpoint :=
  { checkpoint with pendingRemovedFiles := checkpoint.pendingRemovedFiles ++ [entry] }

def updateFromSnapshot (checkpoint : PersistedSnapshotCheckpoint)
    (snapshot : PersistedSnapshot) : PersistedSnapshotCheckpoint :=
  { checkpoint with lastSnapshotSequenceNumber := snapshot.snapshotSequenceNumber }

/-- Adds the files of a later checkpoint and applies its pending removals. -/
def merge (checkpoint other : PersistedSnapshotCheckpoint) : PersistedSnapshotCheckpoint :=
  let added := other.databases.foldl addFile checkpoint
  let removed := other.pendingRemovedFiles.foldl
    (fun checkpoint entry => checkpoint.removeFile entry.1 entry.2.id) added
  { removed with
    yearMonth := other.yearMonth
    lastSnapshotSequenceNumber := other.lastSnapshotSequenceNumber }

/-- The checkpoint removes a file of an earlier one. -/
def Cancels (checkpoint : PersistedSnapshotCheckpoint) (entry : TableKey × ParquetFile) : Prop :=
  slot entry ∈ checkpoint.pendingRemovedFiles.map slot
deriving Decidable

end PersistedSnapshotCheckpoint

/-- A checkpoint being built, with the table of every file in it by the file's number. -/
structure CachedCheckpoint where
  checkpoint : PersistedSnapshotCheckpoint
  fileIndex : AList fun _ : Nat => TableKey := ∅

namespace CachedCheckpoint

def addSnapshotFiles (cached : CachedCheckpoint) (databases : Files) : CachedCheckpoint :=
  databases.foldl (fun cached entry =>
    { checkpoint := cached.checkpoint.addFile entry
      fileIndex := cached.fileIndex.insert entry.2.id entry.1 }) cached

/-- Removes the files the checkpoint has; the others are kept as pending. -/
def processRemovedFiles (cached : CachedCheckpoint) (removedFiles : Files) : CachedCheckpoint :=
  removedFiles.foldl (fun cached entry =>
    match cached.fileIndex.lookup entry.2.id with
    | some key =>
      { checkpoint := cached.checkpoint.removeFile key entry.2.id
        fileIndex := cached.fileIndex.erase entry.2.id }
    | none => { cached with checkpoint := cached.checkpoint.addPendingRemoved entry }) cached

def updateCachedCheckpoint (cached : CachedCheckpoint) (snapshot : PersistedSnapshot) :
    CachedCheckpoint :=
  let updated := { cached with checkpoint := cached.checkpoint.updateFromSnapshot snapshot }
  (updated.addSnapshotFiles snapshot.databases.entries).processRemovedFiles
    snapshot.removedFiles.entries

/-- The checkpoint of a month from its snapshots, oldest first. -/
def ofSnapshots (month : YearMonth) (snapshots : List PersistedSnapshot) : CachedCheckpoint :=
  snapshots.foldl updateCachedCheckpoint { checkpoint := { yearMonth := month } }

end CachedCheckpoint

namespace Inner

def ofCheckpoint (checkpoint : PersistedSnapshotCheckpoint) : Inner where
  files := checkpoint.databases
  parquetFilesCount := checkpoint.databases.length
  parquetFilesRowCount := checkpoint.rowCount

/-- Boot fold of the merged monthly checkpoints and the snapshots after them. -/
def newFromCheckpointsAndSnapshots (checkpoints : List PersistedSnapshotCheckpoint)
    (additionalSnapshots : List PersistedSnapshot) : Inner :=
  let start := match checkpoints.insertionSort (fun a b => a.yearMonth ≤ b.yearMonth) with
    | [] => {}
    | first :: rest => ofCheckpoint (rest.foldl PersistedSnapshotCheckpoint.merge first)
  additionalSnapshots.foldl addPersistedSnapshotFiles start

end Inner

variable {checkpoint other : PersistedSnapshotCheckpoint} {entry : TableKey × ParquetFile}
variable {key : TableKey} {id : Nat}

namespace PersistedSnapshotCheckpoint

theorem databases_removeFile : (checkpoint.removeFile key id).databases =
    checkpoint.databases.eraseP fun entry => slot entry = (key, id) := by
  unfold removeFile
  split
  case h_1 hnone =>
    rw [eraseP_of_forall_not]
    simpa using hnone
  case h_2 => rfl

theorem databases_foldl_addFile (files : Files) (checkpoint : PersistedSnapshotCheckpoint) :
    (files.foldl addFile checkpoint).databases = checkpoint.databases ++ files := by
  induction files generalizing checkpoint with
  | nil => simp
  | cons entry rest ih =>
    rw [foldl_cons, ih]
    simp [addFile]

/-- Where the numbers differ, removing a number removes just its file. -/
theorem mem_eraseP_slot {files : Files} (hnodup : (files.map slot).Nodup)
    (target : TableKey × Nat) :
    entry ∈ files.eraseP (fun entry => slot entry = target) ↔
      entry ∈ files ∧ slot entry ≠ target := by
  induction files with
  | nil => simp
  | cons first rest ih =>
    rw [map_cons, nodup_cons] at hnodup
    by_cases hfirst : slot first = target
    · rw [eraseP_cons_of_pos (by simpa using hfirst), mem_cons]
      constructor
      · intro hrest
        refine ⟨.inr hrest, fun hentry => hnodup.1 ?_⟩
        rw [hfirst, ← hentry]
        exact mem_map_of_mem hrest
      · rintro ⟨rfl | hrest, hne⟩
        · exact absurd hfirst hne
        · exact hrest
    · rw [eraseP_cons_of_neg (by simpa using hfirst), mem_cons, mem_cons,
        ih hnodup.2]
      constructor
      · rintro (rfl | ⟨hrest, hne⟩)
        · exact ⟨.inl rfl, hfirst⟩
        · exact ⟨.inr hrest, hne⟩
      · rintro ⟨rfl | hrest, hne⟩
        · exact .inl rfl
        · exact .inr ⟨hrest, hne⟩

/-- The pending removals of a checkpoint, one after the other. -/
theorem databases_foldl_removeFile (pending : Files) (checkpoint : PersistedSnapshotCheckpoint)
    (hnodup : (checkpoint.databases.map slot).Nodup) :
    let removed := pending.foldl
      (fun checkpoint entry => checkpoint.removeFile entry.1 entry.2.id) checkpoint
    (removed.databases.map slot).Nodup ∧
      ∀ entry, entry ∈ removed.databases ↔
        entry ∈ checkpoint.databases ∧ slot entry ∉ pending.map slot := by
  induction pending generalizing checkpoint with
  | nil => simpa using hnodup
  | cons first rest ih =>
    have hfirst : (checkpoint.removeFile first.1 first.2.id).databases =
        checkpoint.databases.eraseP fun entry => slot entry = (first.1, first.2.id) :=
      databases_removeFile
    have hnext : ((checkpoint.removeFile first.1 first.2.id).databases.map slot).Nodup := by
      rw [hfirst]
      exact hnodup.sublist (eraseP_sublist.map slot)
    obtain ⟨hremoved, hmem⟩ := ih _ hnext
    refine ⟨hremoved, fun entry => ?_⟩
    rw [foldl_cons, hmem, hfirst, mem_eraseP_slot hnodup, map_cons, mem_cons,
      not_or, and_assoc]
    rfl

/-- Merging adds the files of the later checkpoint and takes out those it cancels. -/
theorem mem_merge (hnodup : ((checkpoint.databases ++ other.databases).map slot).Nodup) :
    ((checkpoint.merge other).databases.map slot).Nodup ∧
      ∀ entry, entry ∈ (checkpoint.merge other).databases ↔
        (entry ∈ checkpoint.databases ∨ entry ∈ other.databases) ∧ ¬other.Cancels entry := by
  have hadded := databases_foldl_addFile other.databases checkpoint
  rw [← hadded] at hnodup
  obtain ⟨hremoved, hmem⟩ := databases_foldl_removeFile other.pendingRemovedFiles _ hnodup
  refine ⟨hremoved, fun entry => (hmem entry).trans ?_⟩
  rw [hadded, mem_append]
  rfl

/-- A file that the monthly checkpoints list together: one of them lists it, and none from it on
cancels it. The pending removals of the first are not applied. -/
def Listed (checkpoints : List PersistedSnapshotCheckpoint) (entry : TableKey × ParquetFile) :
    Prop :=
  ∃ checkpoint ∈ checkpoints, entry ∈ checkpoint.databases ∧
    ∀ later ∈ checkpoints.tail, checkpoint.yearMonth ≤ later.yearMonth → ¬later.Cancels entry
deriving Decidable

theorem mem_foldl_merge (rest : List PersistedSnapshotCheckpoint)
    (first : PersistedSnapshotCheckpoint)
    (hmonths : rest.Pairwise fun a b => a.yearMonth < b.yearMonth)
    (hnodup : ((first.databases ++ rest.flatMap databases).map slot).Nodup) :
    entry ∈ (rest.foldl merge first).databases ↔
      (entry ∈ first.databases ∧ ∀ later ∈ rest, ¬later.Cancels entry) ∨
        ∃ checkpoint ∈ rest, entry ∈ checkpoint.databases ∧
          ∀ later ∈ rest, checkpoint.yearMonth ≤ later.yearMonth → ¬later.Cancels entry := by
  induction rest generalizing first with
  | nil => simp
  | cons next rest ih =>
    obtain ⟨hfirst, hrest⟩ := pairwise_cons.mp hmonths
    rw [flatMap_cons, ← append_assoc, map_append, nodup_append] at hnodup
    obtain ⟨hmerged, hmem⟩ := mem_merge hnodup.1
    have hnext : (((first.merge next).databases ++ rest.flatMap databases).map slot).Nodup := by
      rw [map_append, nodup_append]
      refine ⟨hmerged, hnodup.2.1, fun a ha b hb => hnodup.2.2 a ?_ b hb⟩
      obtain ⟨entry, hentry, rfl⟩ := mem_map.mp ha
      exact mem_map_of_mem (mem_append.mpr ((hmem entry).mp hentry).1)
    rw [foldl_cons, ih (first.merge next) hrest hnext, hmem]
    simp only [mem_cons, exists_eq_or_imp, forall_eq_or_imp]
    have hlater : ∀ checkpoint ∈ rest, ¬checkpoint.yearMonth ≤ next.yearMonth :=
      fun checkpoint hcheckpoint => not_le.mpr (hfirst checkpoint hcheckpoint)
    have hafter : (∀ later ∈ rest, next.yearMonth ≤ later.yearMonth → ¬later.Cancels entry) ↔
        ∀ later ∈ rest, ¬later.Cancels entry :=
      forall₂_congr fun later hlater => forall_prop_of_true (hfirst later hlater).le
    have hothers : (∃ checkpoint ∈ rest, entry ∈ checkpoint.databases ∧
          (checkpoint.yearMonth ≤ next.yearMonth → ¬next.Cancels entry) ∧
          ∀ later ∈ rest, checkpoint.yearMonth ≤ later.yearMonth → ¬later.Cancels entry) ↔
        ∃ checkpoint ∈ rest, entry ∈ checkpoint.databases ∧
          ∀ later ∈ rest, checkpoint.yearMonth ≤ later.yearMonth → ¬later.Cancels entry := by
      refine exists_congr fun checkpoint => and_congr_right fun hcheckpoint => ?_
      simp only [hlater checkpoint hcheckpoint, false_implies, true_and]
    simp only [le_refl, true_implies]
    rw [hothers, hafter, and_assoc, or_and_right, or_assoc]

/-- The merged checkpoints list what one of them lists and none from it on cancels. -/
theorem mem_newFromCheckpoints_iff {checkpoints : List PersistedSnapshotCheckpoint}
    (hmonths : checkpoints.Pairwise fun a b => a.yearMonth < b.yearMonth)
    (hnodup : ((checkpoints.flatMap databases).map slot).Nodup) :
    entry ∈ (Inner.newFromCheckpointsAndSnapshots checkpoints []).files ↔
      Listed checkpoints entry := by
  rw [Inner.newFromCheckpointsAndSnapshots,
    List.Pairwise.insertionSort_eq (hmonths.imp le_of_lt)]
  cases checkpoints with
  | nil => simp [Listed]
  | cons first rest =>
    obtain ⟨hfirst, hrest⟩ := pairwise_cons.mp hmonths
    refine (mem_foldl_merge rest first hrest hnodup).trans ?_
    simp only [Listed, tail_cons, mem_cons, exists_eq_or_imp]
    refine or_congr (and_congr_right fun _ => ?_) Iff.rfl
    exact forall₂_congr fun later hlater => ⟨fun h _ => h, fun h => h (hfirst later hlater).le⟩

end PersistedSnapshotCheckpoint

end RefluxDb.Write
