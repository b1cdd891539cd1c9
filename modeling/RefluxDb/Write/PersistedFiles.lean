import Mathlib.Data.List.Sort
import Mathlib.Data.String.Basic
import RefluxDb.Library.Assoc
import RefluxDb.Write.Paths

/-! The in-memory view of the parquet files that exist, and the fold of manifests into it.

The files of all tables are kept as one list of table and file in insertion order, of which a
table's files are a sublist; a manifest's two nested maps are flattened to one map from a table
to its files. The counters are the file count and the row count; the size in megabytes, a
floating-point sum, is left out, as are the tables marked for deletion, which no fold reads. -/

namespace RefluxDb.Write

open RefluxDb.Library

structure TableKey where
  dbId : Nat
  tableId : Nat
deriving DecidableEq

structure ParquetFile where
  id : Nat
  path : String
  sizeBytes : Nat
  rowCount : Nat
  chunkTime : Int
  minTime : Int
  maxTime : Int
deriving DecidableEq

instance : LawfulBEq (TableKey × String) := inferInstance

instance : LawfulBEq (TableKey × ParquetFile) := inferInstance

def IsTimestamp (time : Int) : Prop := -2 ^ 63 ≤ time ∧ time < 2 ^ 63
deriving Decidable

/-- The files of some tables, each table listed once. -/
structure DatabaseTables where
  tables : List (TableKey × List ParquetFile) := []
  nodup_keys : (tables.map Prod.fst).Nodup := by decide
deriving DecidableEq

def DatabaseTables.empty : DatabaseTables := {}

@[simp]
theorem DatabaseTables.tables_empty : DatabaseTables.empty.tables = [] := rfl

/-- A manifest: the files it adds and the files it removes. -/
structure PersistedSnapshot where
  nodeId : String
  snapshotSequenceNumber : Nat
  walFileSequenceNumber : Nat
  databases : DatabaseTables
  removedFiles : DatabaseTables
deriving DecidableEq

instance : LawfulBEq (String × PersistedSnapshot) := inferInstance

/-- The time bounds of a query. -/
structure ChunkFilter where
  timeLowerBoundNs : Option Int := none
  timeUpperBoundNs : Option Int := none

/-- Whether a time range overlaps the bounds. -/
def ChunkFilter.testTimeStampMinMax (filter : ChunkFilter) (minTimeNs maxTimeNs : Int) : Bool :=
  match filter.timeLowerBoundNs, filter.timeUpperBoundNs with
  | none, none => true
  | none, some u => minTimeNs ≤ u
  | some l, none => maxTimeNs ≥ l
  | some l, some u => minTimeNs ≤ u && maxTimeNs ≥ l

/-- When a tombstone may be dropped. -/
inductive TombstoneGc where
  | walSeq (nodeId : String) (walSeq : Nat)
  | compaction (removingId : String)
  | objectGone
deriving DecidableEq

abbrev Tombstones := AList fun _ : String => TombstoneGc

/-- The files of all tables, in the order they were added. -/
abbrev Files := List (TableKey × ParquetFile)

structure Inner where
  files : Files := []
  parquetFilesCount : Nat := 0
  parquetFilesRowCount : Nat := 0
  removedTombstones : Tombstones := ∅
  evictionTombstones : List String := []

structure SnapshotFoldDelta where
  addedCount : Nat := 0
  addedSizeBytes : Nat := 0
  addedRowCount : Nat := 0
  removedCount : Nat := 0
  removedSizeBytes : Nat := 0
  removedRowCount : Nat := 0

def maxEvictionTombstones : Nat := 200000

/-- What the fold of one manifest changes. -/
structure FoldState where
  files : Files
  tombstones : Tombstones
  delta : SnapshotFoldDelta

def SnapshotFoldDelta.add (delta : SnapshotFoldDelta) (file : ParquetFile) : SnapshotFoldDelta :=
  { delta with
    addedCount := delta.addedCount + 1
    addedSizeBytes := delta.addedSizeBytes + file.sizeBytes
    addedRowCount := delta.addedRowCount + file.rowCount }

def SnapshotFoldDelta.remove (delta : SnapshotFoldDelta) (gone : Files) : SnapshotFoldDelta :=
  { delta with
    removedCount := delta.removedCount + gone.length
    removedSizeBytes := delta.removedSizeBytes + (gone.map (·.2.sizeBytes)).sum
    removedRowCount := delta.removedRowCount + (gone.map (·.2.rowCount)).sum }

/-- The table already has a file at the path. -/
def hasPath (files : Files) (key : TableKey) (path : String) : Bool :=
  files.any fun entry => entry.1 = key && entry.2.path = path

/-- Adds one file of a manifest, unless its path is tombstoned or already in the table. -/
def addFile (key : TableKey) (state : FoldState) (file : ParquetFile) : FoldState :=
  if file.path ∈ state.tombstones then state
  else if hasPath state.files key file.path then state
  else { state with files := state.files ++ [(key, file)], delta := state.delta.add file }

def addTable (state : FoldState) (table : TableKey × List ParquetFile) : FoldState :=
  table.2.foldl (addFile table.1) state

/-- How long a removal that found nothing is remembered, if it is. -/
def tombstoneGc (sourceCompactionId : Option String) (path : String) : Option TombstoneGc :=
  match parseGen1Path path with
  | some (nodeId, walSeq) => some (.walSeq nodeId walSeq)
  | none => sourceCompactionId.map .compaction

/-- Leaves a tombstone for a removed file that is not among the targets that were present. -/
def bury (sourceCompactionId : Option String) (presentTargets : List String)
    (tombstones : Tombstones) (file : ParquetFile) : Tombstones :=
  if file.path ∈ presentTargets then tombstones
  else match tombstoneGc sourceCompactionId file.path with
    | some gc => tombstones.insert file.path gc
    | none => tombstones

/-- Removes the files of one table that a manifest names. -/
def removeTable (sourceCompactionId : Option String) (state : FoldState)
    (table : TableKey × List ParquetFile) : FoldState :=
  let removePaths := table.2.map (·.path)
  let isTarget (entry : TableKey × ParquetFile) : Bool :=
    decide (entry.1 = table.1) && decide (entry.2.path ∈ removePaths)
  let targets := state.files.filter isTarget
  { files := state.files.filter fun entry => !isTarget entry
    tombstones := table.2.foldl (bury sourceCompactionId (targets.map (·.2.path)))
      state.tombstones
    delta := state.delta.remove targets }

def updatePersistedFilesWithSnapshot (snapshot : PersistedSnapshot) (files : Files)
    (tombstones : Tombstones) (sourceCompactionId : Option String) : FoldState :=
  let added := snapshot.databases.tables.foldl addTable ⟨files, tombstones, {}⟩
  snapshot.removedFiles.tables.foldl (removeTable sourceCompactionId) added

namespace Inner

variable (inner : Inner)

def addPersistedSnapshot (snapshot : PersistedSnapshot) (sourceCompactionId : Option String) :
    Inner :=
  let folded := updatePersistedFilesWithSnapshot snapshot inner.files inner.removedTombstones
    sourceCompactionId
  { inner with
    files := folded.files
    removedTombstones := folded.tombstones
    parquetFilesCount :=
      inner.parquetFilesCount + folded.delta.addedCount - folded.delta.removedCount
    parquetFilesRowCount :=
      inner.parquetFilesRowCount + folded.delta.addedRowCount - folded.delta.removedRowCount }

def addPersistedSnapshotFiles (snapshot : PersistedSnapshot) : Inner :=
  inner.addPersistedSnapshot snapshot none

def addPersistedCompactionFiles (snapshot : PersistedSnapshot) (compactionId : String) : Inner :=
  inner.addPersistedSnapshot snapshot (some compactionId)

/-- Adds one file without looking at the tombstones. The file count grows even when the file is
there already. -/
def addPersistedFile (key : TableKey) (file : ParquetFile) : Inner :=
  if (key, file) ∈ inner.files then
    { inner with parquetFilesCount := inner.parquetFilesCount + 1 }
  else
    { inner with
      files := inner.files ++ [(key, file)]
      parquetFilesCount := inner.parquetFilesCount + 1
      parquetFilesRowCount := inner.parquetFilesRowCount + file.rowCount }

def removePersistedFiles (key : TableKey) (filesToRemove : List ParquetFile) : Inner :=
  let isTarget (entry : TableKey × ParquetFile) : Bool :=
    decide (entry.1 = key) && decide (entry.2.path ∈ filesToRemove.map (·.path))
  let targets := inner.files.filter isTarget
  { inner with
    files := inner.files.filter fun entry => !isTarget entry
    parquetFilesCount := inner.parquetFilesCount - targets.length
    parquetFilesRowCount := inner.parquetFilesRowCount - (targets.map (·.2.rowCount)).sum }

/-- Whether a tombstone is kept at the given high-water marks. -/
def keepsTombstone (walHighWater : String → Nat) (compactionsHighWater : Option String) :
    TombstoneGc → Bool
  | .walSeq nodeId walSeq => walHighWater nodeId < walSeq
  | .compaction removingId => compactionsHighWater.all (· < removingId)
  | .objectGone => true

def gcTombstones (walHighWater : String → Nat) (compactionsHighWater : Option String) : Inner :=
  { inner with
    removedTombstones :=
      retain (fun _ gc => keepsTombstone walHighWater compactionsHighWater gc)
        inner.removedTombstones }

/-- Seeds the tombstones of a checkpoint; one whose path has no node is dropped. -/
def seedTombstones (gen1 : List (String × Nat)) (compaction : List (String × String)) : Inner :=
  let seedGen1 (tombstones : Tombstones) (entry : String × Nat) : Tombstones :=
    let nodeId := Text.firstPiece '/' entry.1.toList
    if nodeId.isEmpty then tombstones
    else tombstones.insert entry.1 (.walSeq (.ofList nodeId) entry.2)
  let seedCompaction (tombstones : Tombstones) (entry : String × String) : Tombstones :=
    tombstones.insert entry.1 (.compaction entry.2)
  { inner with
    removedTombstones := compaction.foldl seedCompaction
      (gen1.foldl seedGen1 inner.removedTombstones) }

/-- The tombstones a checkpoint carries, by their garbage-collection key. -/
def tombstonesForCheckpoint : List (String × Nat) × List (String × String) :=
  (inner.removedTombstones.entries.filterMap fun entry => match entry.2 with
    | .walSeq _ walSeq => some (entry.1, walSeq)
    | _ => none,
   inner.removedTombstones.entries.filterMap fun entry => match entry.2 with
    | .compaction removingId => some (entry.1, removingId)
    | _ => none)

/-- Tombstones one path whose object is gone, unless it has a tombstone. -/
def tombstoneGone (path : String) : Inner :=
  if path ∈ inner.removedTombstones then inner
  else { inner with
    removedTombstones := inner.removedTombstones.insert path .objectGone
    evictionTombstones := inner.evictionTombstones ++ [path] }

/-- Drops the oldest eviction tombstone that is still one. -/
def dropOldestEviction : Inner :=
  match inner.evictionTombstones with
  | [] => inner
  | oldest :: rest =>
    { inner with
      evictionTombstones := rest
      removedTombstones :=
        if inner.removedTombstones.lookup oldest = some .objectGone then
          inner.removedTombstones.erase oldest
        else inner.removedTombstones }

def tombstoneEvicted (paths : List String) : Inner :=
  let tombstoned := paths.foldl tombstoneGone inner
  (List.range (tombstoned.evictionTombstones.length - maxEvictionTombstones)).foldl
    (fun state _ => state.dropOldestEviction) tombstoned

def tableFiles (key : TableKey) : List ParquetFile :=
  (inner.files.filter fun entry => entry.1 = key).map Prod.snd

/-- The files of a table that pass a filter on their time range, latest start first. -/
def getFilesFiltered (key : TableKey) (filter : ChunkFilter) : List ParquetFile :=
  ((inner.tableFiles key).filter fun file => filter.testTimeStampMinMax file.minTime
    file.maxTime).insertionSort fun a b => b.minTime ≤ a.minTime

def getFiles (key : TableKey) : List ParquetFile := inner.getFilesFiltered key {}

/-- Boot fold of a node's own snapshots, in the order given. -/
def newFromPersistedSnapshots (snapshots : List PersistedSnapshot) : Inner :=
  snapshots.foldl addPersistedSnapshotFiles {}

end Inner

end RefluxDb.Write
