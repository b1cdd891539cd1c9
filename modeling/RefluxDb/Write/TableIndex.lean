import RefluxDb.Library.KeySet
import RefluxDb.Write.PersistedFiles

/-! The index of one table's parquet files, and the snapshots that are merged into it.

An index orders its files by their ids alone: two files with one id do not both get in. Sums are
taken as `i64` is in a release build. What a GET of a snapshot gives is an argument, as is what the
listing found; an index that was changed before an error stays changed. The metadata of a snapshot,
which nothing reads, is left out. -/

namespace RefluxDb.Write

open RefluxDb.Library

/-- What is left of an integer when it is stored as an `i64`. -/
def asI64 (value : Int) : Int := value.bmod (2 ^ 64)

structure IndexMetadata where
  parquetSizeBytes : Int
  rowCount : Int
  minTime : Int
  maxTime : Int
deriving DecidableEq

namespace IndexMetadata

def empty : IndexMetadata where
  parquetSizeBytes := 0
  rowCount := 0
  minTime := 2 ^ 63 - 1
  maxTime := 0

def mergeFromParquetFile (metadata : IndexMetadata) (file : ParquetFile) : IndexMetadata where
  parquetSizeBytes := asI64 (metadata.parquetSizeBytes + asI64 file.sizeBytes)
  rowCount := asI64 (metadata.rowCount + asI64 file.rowCount)
  minTime := min metadata.minTime file.minTime
  maxTime := max metadata.maxTime file.maxTime

def merge (metadata other : IndexMetadata) : IndexMetadata where
  parquetSizeBytes := asI64 (metadata.parquetSizeBytes + other.parquetSizeBytes)
  rowCount := asI64 (metadata.rowCount + other.rowCount)
  minTime := min metadata.minTime other.minTime
  maxTime := max metadata.maxTime other.maxTime

end IndexMetadata

structure TableIndexId where
  nodeId : String
  table : TableKey
deriving DecidableEq

/-- The part of a persisted snapshot that is about one table. Its files are in the order in which
the hash set is iterated. -/
structure TableIndexSnapshot where
  id : TableIndexId
  snapshotSequenceNumber : Nat
  files : List ParquetFile
  removedFiles : List Nat
  nodup_files : files.Nodup := by decide
deriving DecidableEq

abbrev IndexFiles := KeySet ParquetFile.id

structure CoreTableIndex where
  id : TableIndexId
  files : IndexFiles := ∅
  latestSnapshotSequenceNumber : Nat := 0
  metadata : IndexMetadata := .empty
deriving DecidableEq

inductive TableIndexError where
  | mergeMismatch (expected actual : TableIndexId)
  | loadSnapshot
deriving DecidableEq

/-- What the object store answers when a listed snapshot is read. -/
inductive SnapshotGet where
  | found (snapshot : TableIndexSnapshot)
  | notFound
  | failed

def foundIn (answers : List (Nat × SnapshotGet)) : List TableIndexSnapshot :=
  answers.filterMap fun answer =>
    match answer.2 with
    | .found snapshot => some snapshot
    | _ => none

namespace CoreTableIndex

/-- The first snapshot of another table, if there is one. -/
def mismatch (id : TableIndexId) (snapshots : List TableIndexSnapshot) :
    Option TableIndexSnapshot :=
  snapshots.find? fun snapshot => id ≠ snapshot.id

def removedBy (snapshots : List TableIndexSnapshot) : List Nat :=
  snapshots.flatMap (·.removedFiles)

/-- The files that the snapshots add and none of them removes. -/
def addedBy (snapshots : List TableIndexSnapshot) : List ParquetFile :=
  snapshots.flatMap fun snapshot =>
    snapshot.files.filter fun file => file.id ∉ removedBy snapshots

def latestOf (snapshots : List TableIndexSnapshot) : Nat :=
  snapshots.foldl (fun latest snapshot => max latest snapshot.snapshotSequenceNumber) 0

def fromSnapshots (id : TableIndexId) (snapshots : List TableIndexSnapshot) :
    Except TableIndexError (CoreTableIndex × List Nat) :=
  match mismatch id snapshots with
  | some snapshot => .error (.mergeMismatch id snapshot.id)
  | none => .ok
      ({ id := id
         files := .collect ParquetFile.id (addedBy snapshots)
         latestSnapshotSequenceNumber := latestOf snapshots
         metadata := (addedBy snapshots).foldl IndexMetadata.mergeFromParquetFile .empty },
        removedBy snapshots)

variable (index : CoreTableIndex)

/-- The files of an index after these snapshots are merged into it. -/
def mergedFiles (snapshots : List TableIndexSnapshot) : IndexFiles :=
  (index.files.extend (KeySet.collect ParquetFile.id (addedBy snapshots)).items).retain
    fun file => file.id ∉ removedBy snapshots

/-- The files of an index and of the snapshots that none of the snapshots removes. -/
def remaining (snapshots : List TableIndexSnapshot) : List ParquetFile :=
  (index.files.items ++ snapshots.flatMap (·.files)).filter fun file =>
    file.id ∉ removedBy snapshots

def merge (other : CoreTableIndex) : Except TableIndexError CoreTableIndex :=
  if index.id ≠ other.id then .error (.mergeMismatch index.id other.id)
  else .ok
    { index with
      metadata := index.metadata.merge other.metadata
      files := index.files.extend other.files.items
      latestSnapshotSequenceNumber :=
        max index.latestSnapshotSequenceNumber other.latestSnapshotSequenceNumber }

def pruneRemoved (removed : List Nat) : CoreTableIndex :=
  let kept := index.files.retain fun file => file.id ∉ removed
  { index with
    files := kept
    metadata := kept.items.foldl IndexMetadata.mergeFromParquetFile .empty }

/-- The loop over the answers, in the order of the sequence numbers. The number of a snapshot is
taken over as soon as it is loaded. -/
def loadSnapshots (loaded : List TableIndexSnapshot) :
    CoreTableIndex → List (Nat × SnapshotGet) →
      Except TableIndexError (List TableIndexSnapshot) × CoreTableIndex
  | index, [] => (.ok loaded, index)
  | index, (sequence, .found snapshot) :: rest =>
    loadSnapshots (loaded ++ [snapshot])
      { index with latestSnapshotSequenceNumber := sequence } rest
  | index, (_, .notFound) :: rest => loadSnapshots loaded index rest
  | index, (_, .failed) :: _ => (.error .loadSnapshot, index)

def mergeLoaded (loaded : List TableIndexSnapshot) : Except TableIndexError CoreTableIndex :=
  if loaded.isEmpty then .ok index
  else do
    let (newIndex, removed) ← fromSnapshots index.id loaded
    let merged ← index.merge newIndex
    return merged.pruneRemoved removed

/-- The index after an update with these answers, whether it succeeded or not. -/
def updateFromObjectStore (answers : List (Nat × SnapshotGet)) :
    Except TableIndexError Unit × CoreTableIndex :=
  match loadSnapshots [] index answers with
  | (.error e, loadedIndex) => (.error e, loadedIndex)
  | (.ok loaded, loadedIndex) =>
    match loadedIndex.mergeLoaded loaded with
    | .error e => (.error e, loadedIndex)
    | .ok merged => (.ok (), merged)

/-- The index that a purge leaves, when some file has expired. -/
def withoutExpired (cutoffTimeNs : Int) : CoreTableIndex :=
  { index with files := index.files.retain fun file => cutoffTimeNs ≤ file.maxTime }

def purgeExpired (cutoffTimeNs : Int) : CoreTableIndex :=
  if ∀ file ∈ index.files.items, cutoffTimeNs ≤ file.maxTime then index
  else index.withoutExpired cutoffTimeNs

end CoreTableIndex

namespace CoreTableIndex

variable {index other merged : CoreTableIndex} {id : TableIndexId}
variable {snapshots loaded : List TableIndexSnapshot} {removed : List Nat}

variable {file : ParquetFile}

theorem mem_addedBy :
    file ∈ addedBy snapshots ↔
      (∃ snapshot ∈ snapshots, file ∈ snapshot.files) ∧ file.id ∉ removedBy snapshots := by
  simp only [addedBy, List.mem_flatMap, List.mem_filter, decide_eq_true_eq]
  constructor
  · rintro ⟨snapshot, hsnapshot, hfile, hkept⟩
    exact ⟨⟨snapshot, hsnapshot, hfile⟩, hkept⟩
  · rintro ⟨⟨snapshot, hsnapshot, hfile⟩, hkept⟩
    exact ⟨snapshot, hsnapshot, hfile, hkept⟩

theorem fromSnapshots_eq_ok (h : fromSnapshots id snapshots = .ok (index, removed)) :
    removed = removedBy snapshots ∧
      index = { id := id
                files := .collect ParquetFile.id (addedBy snapshots)
                latestSnapshotSequenceNumber := latestOf snapshots
                metadata :=
                  (addedBy snapshots).foldl IndexMetadata.mergeFromParquetFile .empty } := by
  unfold fromSnapshots at h
  split at h
  · exact nomatch h
  · obtain ⟨rfl, rfl⟩ := Prod.mk.inj (Except.ok.inj h)
    exact ⟨rfl, rfl⟩

theorem merge_eq_ok (h : index.merge other = .ok merged) :
    merged = { index with
      metadata := index.metadata.merge other.metadata
      files := index.files.extend other.files.items
      latestSnapshotSequenceNumber :=
        max index.latestSnapshotSequenceNumber other.latestSnapshotSequenceNumber } := by
  unfold merge at h
  split at h
  · exact nomatch h
  · exact (Except.ok.inj h).symm

theorem mem_remaining :
    file ∈ index.remaining snapshots ↔
      (file ∈ index.files ∨ ∃ snapshot ∈ snapshots, file ∈ snapshot.files) ∧
        file.id ∉ removedBy snapshots := by
  simp [remaining, List.mem_flatMap, KeySet.mem_items, or_and_right]

theorem mem_remaining_of_mem_mergedFiles
    (hfile : file ∈ index.mergedFiles snapshots) : file ∈ index.remaining snapshots := by
  obtain ⟨hmem, hkept⟩ := KeySet.mem_retain.mp hfile
  refine mem_remaining.mpr ⟨?_, of_decide_eq_true hkept⟩
  rcases KeySet.mem_of_mem_extend hmem with hold | hcollected
  · exact .inl hold
  · exact .inr (mem_addedBy.mp (KeySet.mem_of_mem_collect hcollected)).1

/-- A file that remains is in the merged index, if files with one id are the same. -/
theorem mem_mergedFiles_of_mem_remaining
    (hsame : ∀ other ∈ index.remaining snapshots, other.id = file.id → other = file)
    (hfile : file ∈ index.remaining snapshots) : file ∈ index.mergedFiles snapshots := by
  obtain ⟨hlisted, hkept⟩ := mem_remaining.mp hfile
  have hkept' : decide (file.id ∉ removedBy snapshots) = true := decide_eq_true hkept
  rcases hlisted with hold | hnew
  · exact KeySet.mem_retain.mpr ⟨KeySet.mem_extend_of_mem _ hold, hkept'⟩
  · have hadded : file ∈ addedBy snapshots := mem_addedBy.mpr ⟨hnew, hkept⟩
    obtain ⟨first, hfirst, hfirstId⟩ :
        ∃ first ∈ KeySet.collect ParquetFile.id (addedBy snapshots), first.id = file.id :=
      KeySet.exists_mem_collect hadded
    obtain ⟨second, hsecond, hsecondId⟩ := KeySet.exists_mem_extend (s := index.files) hfirst
    have hid : second.id = file.id := hsecondId.trans hfirstId
    have hmerged : second ∈ index.mergedFiles snapshots :=
      KeySet.mem_retain.mpr ⟨hsecond, hid ▸ hkept'⟩
    exact hsame second (mem_remaining_of_mem_mergedFiles hmerged) hid ▸ hmerged

/-- Loaded snapshots are merged into the files, and what they remove is pruned. -/
theorem mergeLoaded_eq_ok (h : index.mergeLoaded loaded = .ok merged) :
    (loaded = [] ∧ merged = index) ∨
      ∃ between : CoreTableIndex,
        between.id = index.id ∧
        between.files =
          index.files.extend (KeySet.collect ParquetFile.id (addedBy loaded)).items ∧
        between.latestSnapshotSequenceNumber =
          max index.latestSnapshotSequenceNumber (latestOf loaded) ∧
        merged = between.pruneRemoved (removedBy loaded) := by
  unfold mergeLoaded at h
  split at h
  · rename_i hempty
    exact .inl ⟨List.isEmpty_iff.mp hempty, (Except.ok.inj h).symm⟩
  · cases hnew : fromSnapshots index.id loaded with
    | error e => simp [hnew, bind, Except.bind] at h
    | ok result =>
      obtain ⟨newIndex, removed⟩ := result
      cases hmerge : index.merge newIndex with
      | error e => simp [hnew, hmerge, bind, Except.bind] at h
      | ok between =>
        simp only [hnew, hmerge, bind, Except.bind] at h
        obtain ⟨rfl, rfl⟩ := fromSnapshots_eq_ok hnew
        have hbetween := merge_eq_ok hmerge
        exact .inr ⟨between, by rw [hbetween], by rw [hbetween], by rw [hbetween],
          (Except.ok.inj h).symm⟩

theorem loadSnapshots_keeps (loaded : List TableIndexSnapshot) (index : CoreTableIndex)
    (answers : List (Nat × SnapshotGet)) :
    ∃ latest, (loadSnapshots loaded index answers).2 =
      { index with latestSnapshotSequenceNumber := latest } := by
  induction answers generalizing index loaded with
  | nil => exact ⟨index.latestSnapshotSequenceNumber, rfl⟩
  | cons answer rest ih =>
    obtain ⟨sequence, get⟩ := answer
    cases get with
    | found snapshot =>
      obtain ⟨latest, hlatest⟩ := ih (loaded ++ [snapshot])
        { index with latestSnapshotSequenceNumber := sequence }
      exact ⟨latest, hlatest⟩
    | notFound => exact ih loaded index
    | failed => exact ⟨index.latestSnapshotSequenceNumber, rfl⟩

/-- The snapshots that an update merges are those that were found. -/
theorem eq_foundIn_of_loadSnapshots {answers : List (Nat × SnapshotGet)} {final : CoreTableIndex}
    {before snapshots : List TableIndexSnapshot}
    (h : loadSnapshots before index answers = (.ok snapshots, final)) :
    snapshots = before ++ foundIn answers := by
  induction answers generalizing index before with
  | nil =>
    obtain ⟨hloaded, _⟩ := Prod.mk.inj h
    obtain rfl := Except.ok.inj hloaded
    exact (List.append_nil _).symm
  | cons answer rest ih =>
    obtain ⟨sequence, get⟩ := answer
    cases get with
    | found snapshot => simpa [foundIn] using ih h
    | notFound => exact ih h
    | failed => exact nomatch (Prod.mk.inj h).1

/-- What an update leaves: the index with a new number, or what the snapshots that were read make
of it. -/
theorem updateFromObjectStore_cases (index : CoreTableIndex) (answers : List (Nat × SnapshotGet)) :
    ∃ latest, (index.updateFromObjectStore answers).2 =
        { index with latestSnapshotSequenceNumber := latest } ∨
      ∃ merged, (index.updateFromObjectStore answers).2 = merged ∧
        mergeLoaded { index with latestSnapshotSequenceNumber := latest } (foundIn answers) =
          .ok merged := by
  obtain ⟨latest, hlatest⟩ := loadSnapshots_keeps [] index answers
  refine ⟨latest, ?_⟩
  unfold updateFromObjectStore
  cases hload : loadSnapshots [] index answers with
  | mk result loadedIndex =>
    obtain rfl : loadedIndex = { index with latestSnapshotSequenceNumber := latest } := by
      rw [← hlatest, hload]
    cases result with
    | error e => exact .inl rfl
    | ok loaded =>
      obtain rfl : loaded = foundIn answers := by simpa using eq_foundIn_of_loadSnapshots hload
      cases hmerged : mergeLoaded { index with latestSnapshotSequenceNumber := latest }
          (foundIn answers) with
      | error e => exact .inl (by simp [hmerged])
      | ok merged => exact .inr ⟨merged, by simp [hmerged], rfl⟩

end CoreTableIndex

end RefluxDb.Write
