import Mathlib.Algebra.Order.Group.MinMax
import Mathlib.Data.List.MinMax
import RefluxDb.Library.Truncation
import RefluxDb.Query.SplitDedup
import RefluxDb.Write.PersistedFiles

/-! Compaction jobs: which files one takes, and the file it writes.

A job takes files of one generation in ascending order of their first time and resolves rows with
the same primary key by the last non-null value of each field. Its output is named after the
compaction id, and its chunk time is its first time rounded by the duration of the target
generation. Formatting a chunk time as a date is left to a parameter. -/

namespace RefluxDb.Write

open List RefluxDb.Library RefluxDb.Query

/-- The rows of the parquet object at each path. -/
abbrev Objects (Tags Field Value : Type*) := String → List (Row Tags Field Value)

variable {Tags Field Value : Type*} [DecidableEq Tags]

/-- What a file holds for a primary key and a field. -/
def fieldValue (objects : Objects Tags Field Value) (key : PrimaryKey Tags) (field : Field)
    (file : ParquetFile) : Option Value :=
  ((objects file.path).find? fun row => row.key = key).bind fun row => row.fields field

/-- The rows of a job's output: one for each primary key of the inputs, with the last non-null
value of each field in the order of the inputs. -/
def compactedRows (objects : Objects Tags Field Value) (files : List ParquetFile) :
    List (Row Tags Field Value) :=
  (files.flatMap fun file => (objects file.path).map (·.key)).dedup.map fun key =>
    ⟨key, fun field => lastValue (fieldValue objects key field) files⟩

omit [DecidableEq Tags] in
def batchesTimeRangeAndRows (rows : List (Row Tags Field Value)) : Option (Int × Int × Nat) :=
  match (rows.map (·.key.time)).min?, (rows.map (·.key.time)).max? with
  | some minTime, some maxTime => some (minTime, maxTime, rows.length)
  | _, _ => none

def chunkTimeForDuration (minTime targetNanos : Int) : Int :=
  if 0 < targetNanos then minTime.tdiv targetNanos * targetNanos else minTime

/-- The generation in a path, by its first `/gen` directory; a path without one is gen1. -/
def getFileGeneration (file : ParquetFile) : Option Nat :=
  match Text.afterFirst "/gen".toList file.path.toList with
  | none => some 1
  | some genPart =>
    match Text.splitOnce '/' genPart with
    | none => some 1
    | some (genStr, _) => (Text.parseU8 genStr).filter fun level => 1 ≤ level && level ≤ 5

/-- Whether the files of a generation are enough and span the duration of the next one. -/
def canCompactToGeneration (minFilesForCompaction : Nat) (files : List ParquetFile)
    (targetNanos : Int) : Bool :=
  let minTime := (files.map (·.minTime)).min?.getD 0
  let maxTime := (files.map (·.maxTime)).max?.getD 0
  minFilesForCompaction ≤ files.length && targetNanos ≤ max (maxTime - minTime) 0

/-- Splits the files of a generation into job inputs, oldest first. -/
def chunkFilesForJobs (files : List ParquetFile) (maxFiles : Nat) : List (List ParquetFile) :=
  let sorted := files.insertionSort fun a b => a.minTime ≤ b.minTime
  let size := max maxFiles 1
  (List.range ((sorted.length + size - 1) / size)).map fun i => (sorted.drop (i * size)).take size

/-- What a compactor names its outputs by. -/
structure Compactor where
  host : String
  databaseName : String
  tableName : String
  formatDate : Int → String

/-- The file a job writes, if it has any row. -/
def Compactor.writeCompactedFile (compactor : Compactor) (key : TableKey)
    (targetGeneration : Nat) (targetNanos : Int) (rows : List (Row Tags Field Value))
    (compactionId : String) (id sizeBytes : Nat) : Option ParquetFile :=
  (batchesTimeRangeAndRows rows).map fun (minTime, maxTime, rowCount) =>
    let chunkTime := chunkTimeForDuration minTime targetNanos
    { id := id
      path := compactedFilePath compactor.host compactor.databaseName key.dbId
        compactor.tableName key.tableId targetGeneration (compactor.formatDate chunkTime)
        compactionId
      sizeBytes := sizeBytes
      rowCount := rowCount
      chunkTime := chunkTime
      minTime := minTime
      maxTime := maxTime }

variable {objects : Objects Tags Field Value} {rows : List (Row Tags Field Value)}
variable {file : ParquetFile} {files job : List ParquetFile} {maxFiles : Nat}
variable {inner : Inner}

theorem Inner.tableFiles_addPersistedFile {key : TableKey}
    (hnew : file ∉ inner.tableFiles key) :
    (inner.addPersistedFile key file).tableFiles key = inner.tableFiles key ++ [file] := by
  have habsent : (key, file) ∉ inner.files := by
    intro hmem
    exact hnew (mem_map.mpr ⟨(key, file), mem_filter.mpr ⟨hmem, by simp⟩, rfl⟩)
  simp [tableFiles, addPersistedFile, habsent]

theorem Inner.tableFiles_removePersistedFiles {key : TableKey} :
    (inner.removePersistedFiles key files).tableFiles key =
      (inner.tableFiles key).filter fun file => !decide (file.path ∈ files.map (·.path)) := by
  simp only [tableFiles, removePersistedFiles, filter_map, filter_filter]
  congr 1
  refine filter_congr fun entry _ => ?_
  by_cases hkey : entry.1 = key <;> simp [hkey]

/-- A job's inputs, in their order, are among the files sorted by their first time. -/
theorem sublist_of_mem_chunkFilesForJobs (hjob : job ∈ chunkFilesForJobs files maxFiles) :
    job.Sublist (files.insertionSort fun a b => a.minTime ≤ b.minTime) := by
  obtain ⟨i, _, rfl⟩ := mem_map.mp hjob
  exact (take_sublist _ _).trans (drop_sublist _ _)

theorem ne_nil_of_mem_chunkFilesForJobs (hjob : job ∈ chunkFilesForJobs files maxFiles) :
    job ≠ [] := by
  obtain ⟨i, hi, rfl⟩ := mem_map.mp hjob
  have hsize : 0 < max maxFiles 1 := by omega
  have hstart : i * max maxFiles 1 <
      (files.insertionSort fun a b => a.minTime ≤ b.minTime).length := by
    have hle := (Nat.le_div_iff_mul_le hsize).mp (Nat.succ_le_of_lt (mem_range.mp hi))
    rw [Nat.succ_mul] at hle
    omega
  rw [ne_eq, take_eq_nil_iff, drop_eq_nil_iff]
  omega

variable {rowCount : Nat}

section

omit [DecidableEq Tags]

theorem batchesTimeRangeAndRows_eq_some {minTime maxTime : Int}
    (hrange : batchesTimeRangeAndRows rows = some (minTime, maxTime, rowCount)) :
    (∀ row ∈ rows, minTime ≤ row.key.time ∧ row.key.time ≤ maxTime) ∧
      ∃ row ∈ rows, row.key.time = minTime := by
  unfold batchesTimeRangeAndRows at hrange
  split at hrange
  case h_2 => simp at hrange
  case h_1 lo hi hmin hmax =>
    obtain ⟨rfl, rfl, _⟩ := hrange
    obtain ⟨hmem, hle⟩ := min?_eq_some_iff.mp hmin
    obtain ⟨_, hge⟩ := max?_eq_some_iff.mp hmax
    refine ⟨fun row hrow => ?_, mem_map.mp hmem⟩
    have htime := mem_map_of_mem (f := fun row : Row Tags Field Value => row.key.time) hrow
    exact ⟨hle _ htime, hge _ htime⟩

theorem batchesTimeRangeAndRows_isSome (hrows : rows ≠ []) :
    (batchesTimeRangeAndRows rows).isSome := by
  have htimes : rows.map (·.key.time) ≠ [] := by simpa using hrows
  obtain ⟨lo, hlo⟩ := Option.ne_none_iff_exists'.mp (mt min?_eq_none_iff.mp htimes)
  obtain ⟨hi, hhi⟩ := Option.ne_none_iff_exists'.mp (mt max?_eq_none_iff.mp htimes)
  simp [batchesTimeRangeAndRows, hlo, hhi]

theorem batchesTimeRangeAndRows_congr {rows' : List (Row Tags Field Value)} {minTime maxTime : Int}
    (hkeys : ∀ key, (∃ row ∈ rows, row.key = key) ↔ ∃ row ∈ rows', row.key = key)
    (hrange : batchesTimeRangeAndRows rows = some (minTime, maxTime, rowCount)) :
    batchesTimeRangeAndRows rows' = some (minTime, maxTime, rows'.length) := by
  have htimes : ∀ time, time ∈ rows.map (·.key.time) ↔ time ∈ rows'.map (·.key.time) := by
    intro time
    simp only [mem_map]
    constructor
    · rintro ⟨row, hrow, rfl⟩
      obtain ⟨row', hrow', hkey⟩ := (hkeys row.key).mp ⟨row, hrow, rfl⟩
      exact ⟨row', hrow', by rw [hkey]⟩
    · rintro ⟨row', hrow', rfl⟩
      obtain ⟨row, hrow, hkey⟩ := (hkeys row'.key).mpr ⟨row', hrow', rfl⟩
      exact ⟨row, hrow, by rw [hkey]⟩
  unfold batchesTimeRangeAndRows at hrange
  split at hrange
  case h_2 => simp at hrange
  case h_1 lo hi hmin hmax =>
    simp only [Option.some.injEq, Prod.mk.injEq] at hrange
    obtain ⟨rfl, rfl, _⟩ := hrange
    have hmin' : (rows'.map (·.key.time)).min? = some lo := by
      rw [min?_eq_some_iff] at hmin ⊢
      exact ⟨(htimes lo).mp hmin.1, fun time htime => hmin.2 time ((htimes time).mpr htime)⟩
    have hmax' : (rows'.map (·.key.time)).max? = some hi := by
      rw [max?_eq_some_iff] at hmax ⊢
      exact ⟨(htimes hi).mp hmax.1, fun time htime => hmax.2 time ((htimes time).mpr htime)⟩
    simp [batchesTimeRangeAndRows, hmin', hmax']

end

variable {key : PrimaryKey Tags}

/-- The keys of a job's output are those of its inputs. -/
theorem mem_compactedRows_key :
    (∃ row ∈ compactedRows objects files, row.key = key) ↔
      ∃ file ∈ files, ∃ row ∈ objects file.path, row.key = key := by
  simp [compactedRows, and_assoc]

variable {field : Field}

theorem exists_row_of_fieldValue (hholds : (fieldValue objects key field file).isSome) :
    ∃ row ∈ objects file.path, row.key = key := by
  unfold fieldValue at hholds
  cases hfind : (objects file.path).find? fun row => row.key = key with
  | none => simp [hfind] at hholds
  | some row =>
    exact ⟨row, mem_of_find?_eq_some hfind, by simpa using find?_some hfind⟩

/-- What a job's output holds is what its inputs resolve to. -/
theorem fieldValue_compactedRows {objects' : Objects Tags Field Value}
    (hpath : objects' file.path = compactedRows objects files) :
    fieldValue objects' key field file = lastValue (fieldValue objects key field) files := by
  rw [fieldValue, hpath]
  cases hfind : (compactedRows objects files).find? fun row => row.key = key with
  | some row =>
    have hkey : row.key = key := by simpa using find?_some hfind
    obtain ⟨key', _, rfl⟩ := mem_map.mp (mem_of_find?_eq_some hfind)
    obtain rfl : key' = key := hkey
    rfl
  | none =>
    symm
    refine lastValue_eq_none fun input hinput => ?_
    by_contra hholds
    obtain ⟨row, hrow, hkey⟩ :=
      exists_row_of_fieldValue (Option.isSome_iff_ne_none.mpr hholds)
    obtain ⟨row', hrow', hkey'⟩ := mem_compactedRows_key.mpr ⟨input, hinput, row, hrow, hkey⟩
    simpa [hkey'] using find?_eq_none.mp hfind row' hrow'

end RefluxDb.Write
