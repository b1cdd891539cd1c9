import RefluxDb.Write.Compaction

/-! Whether a compaction changes the answers of queries.

A query numbers the files of a table in descending order of their first time, so among the files
that hold a value the one that starts first wins; a compaction numbers its inputs in ascending
order, so the one that starts last wins. The output then stands in for its inputs at the earliest
of their first times. -/

namespace RefluxDb.Write

open List RefluxDb.Library RefluxDb.Query

namespace ChunkFilter

/-- The times a query with these bounds asks for. -/
def Admits (filter : ChunkFilter) (time : Int) : Prop :=
  (∀ l ∈ filter.timeLowerBoundNs, l ≤ time) ∧ ∀ u ∈ filter.timeUpperBoundNs, time ≤ u

/-- A file whose time range has an admitted time passes. -/
theorem test_of_admits {filter : ChunkFilter} {minTime time maxTime : Int}
    (hadmits : filter.Admits time) (hmin : minTime ≤ time) (hmax : time ≤ maxTime) :
    filter.testTimeStampMinMax minTime maxTime = true := by
  obtain ⟨hlower, hupper⟩ := hadmits
  unfold testTimeStampMinMax
  split
  case h_1 => rfl
  case h_2 u _ hu =>
    have := hupper u hu
    simp only [decide_eq_true_eq]
    omega
  case h_3 l hl _ =>
    have := hlower l hl
    simp only [ge_iff_le, decide_eq_true_eq]
    omega
  case h_4 l u hl hu =>
    have := hlower l hl
    have := hupper u hu
    simp only [ge_iff_le, Bool.and_eq_true, decide_eq_true_eq]
    omega

end ChunkFilter

/-- A table's live files and the rows of the objects they name. A file's time range and row count
are those of its rows. -/
structure TableState (Tags Field Value : Type*) where
  inner : Inner
  key : TableKey
  objects : Objects Tags Field Value
  nodup_paths : ((inner.tableFiles key).map (·.path)).Nodup
  ranges : ∀ file ∈ inner.tableFiles key, batchesTimeRangeAndRows (objects file.path) =
    some (file.minTime, file.maxTime, file.rowCount)

section Winners

variable {Value : Type*} {value : ParquetFile → Option Value} {files : List ParquetFile}
variable {a : ParquetFile}

/-- The file that holds a value and starts first; of those that start together, the last. -/
structure StartsFirst (value : ParquetFile → Option Value) (files : List ParquetFile)
    (a : ParquetFile) : Prop where
  mem : a ∈ files
  holds : (value a).isSome
  first : ∀ b ∈ files, (value b).isSome → b = a ∨ a.minTime < b.minTime ∨
    a.minTime = b.minTime ∧ Precedes files b a

/-- The file among `inputs` that holds a value and starts last; of those that start together, the
last. -/
structure StartsLast (value : ParquetFile → Option Value) (files inputs : List ParquetFile)
    (a : ParquetFile) : Prop where
  mem : a ∈ inputs
  holds : (value a).isSome
  last : ∀ b ∈ inputs, (value b).isSome → b = a ∨ b.minTime < a.minTime ∨
    b.minTime = a.minTime ∧ Precedes files b a

instance : Std.Total fun a b : ParquetFile => b.minTime ≤ a.minTime :=
  ⟨fun a b => le_total b.minTime a.minTime⟩

instance : IsTrans ParquetFile fun a b => b.minTime ≤ a.minTime :=
  ⟨fun _ _ _ hab hbc => le_trans hbc hab⟩

instance : Std.Total fun a b : ParquetFile => a.minTime ≤ b.minTime :=
  ⟨fun a b => le_total a.minTime b.minTime⟩

instance : IsTrans ParquetFile fun a b => a.minTime ≤ b.minTime :=
  ⟨fun _ _ _ hab hbc => le_trans hab hbc⟩

theorem le_and_iff_lt_or_eq {x y : Int} {p q : Prop} (h : x = y → (p ↔ q)) :
    x ≤ y ∧ (y ≤ x → p) ↔ x < y ∨ x = y ∧ q := by
  rcases lt_trichotomy x y with hlt | heq | hgt
  · simp [hlt, hlt.le, hlt.ne, hlt.not_ge]
  · simp [heq, h heq]
  · simp [hgt.not_ge, hgt.not_gt, hgt.ne']

/-- In the order of a query the file that starts first is the last holder. -/
theorem lastHolder_query_iff (hnodup : files.Nodup) :
    LastHolder value (files.insertionSort fun a b => b.minTime ≤ a.minTime) a ↔
      StartsFirst value files a := by
  have horder : ∀ b ∈ files, a ∈ files → b ≠ a →
      (Precedes (files.insertionSort fun a b => b.minTime ≤ a.minTime) b a ↔
        a.minTime < b.minTime ∨ a.minTime = b.minTime ∧ Precedes files b a) := by
    intro b hb ha hne
    rw [precedes_insertionSort_iff hnodup hb ha hne]
    exact le_and_iff_lt_or_eq fun _ => Iff.rfl
  constructor
  · rintro ⟨hmem, hholds, hlast⟩
    have ha := (mem_insertionSort _).mp hmem
    exact ⟨ha, hholds, fun b hb hbholds => (or_congr_right' (horder b hb ha)).mp
      (hlast b ((mem_insertionSort _).mpr hb) hbholds)⟩
  · rintro ⟨ha, hholds, hfirst⟩
    refine ⟨(mem_insertionSort _).mpr ha, hholds, fun b hb hbholds => ?_⟩
    have hb := (mem_insertionSort _).mp hb
    exact (or_congr_right' (horder b hb ha)).mpr (hfirst b hb hbholds)

theorem StartsFirst.sublist {kept : List ParquetFile} (hfirst : StartsFirst value files a)
    (hsublist : kept.Sublist files) (hnodup : files.Nodup) (ha : a ∈ kept) :
    StartsFirst value kept a := by
  refine ⟨ha, hfirst.holds, fun b hb hbholds => ?_⟩
  by_cases hne : b = a
  · exact .inl hne
  · rcases hfirst.first b (hsublist.subset hb) hbholds with heq | hlt | ⟨heq, hprecedes⟩
    · exact .inl heq
    · exact .inr (.inl hlt)
    · exact .inr (.inr ⟨heq, (precedes_sublist_iff hsublist hnodup hb ha hne).mpr hprecedes⟩)

end Winners

namespace TableState

variable {Tags Field Value : Type*} [DecidableEq Tags]

section Query

variable (state : TableState Tags Field Value)

def files : List ParquetFile := state.inner.tableFiles state.key

/-- The value a query over the files returns for a primary key and a field. -/
def queryValue (filter : ChunkFilter) (key : PrimaryKey Tags) (field : Field) : Option Value :=
  lastValue (fieldValue state.objects key field)
    (state.inner.getFilesFiltered state.key filter)

def filesOfGeneration (generation : Nat) : List ParquetFile :=
  (state.inner.getFiles state.key).filter fun file => getFileGeneration file = some generation

end Query

/-- A job over files of one generation of a table. The name of its output is new. -/
structure Job (state : TableState Tags Field Value) where
  compactor : Compactor
  generation : Nat
  maxFiles : Nat
  files : List ParquetFile
  files_mem : files ∈ chunkFilesForJobs (state.filesOfGeneration generation) maxFiles
  targetNanos : Int
  compactionId : String
  fileId : Nat
  sizeBytes : Nat
  path_fresh : ∀ date, compactedFilePath compactor.host compactor.databaseName state.key.dbId
    compactor.tableName state.key.tableId (generation + 1) date compactionId ∉
      state.files.map (·.path)

variable {state : TableState Tags Field Value} {file a b : ParquetFile}

namespace Job

variable (job : Job state)

def rows : List (Row Tags Field Value) := compactedRows state.objects job.files

def output : Option ParquetFile :=
  job.compactor.writeCompactedFile state.key (job.generation + 1) job.targetNanos job.rows
    job.compactionId job.fileId job.sizeBytes

end Job

section

omit [DecidableEq Tags]

theorem nodup_files : state.files.Nodup := List.Nodup.of_map _ state.nodup_paths

theorem eq_of_path_eq (ha : a ∈ state.files) (hb : b ∈ state.files) (hpath : a.path = b.path) :
    a = b :=
  inj_on_of_nodup_map state.nodup_paths ha hb hpath

theorem nodup_queryOrder :
    (state.files.insertionSort fun a b => b.minTime ≤ a.minTime).Nodup :=
  (perm_insertionSort _ _).nodup_iff.mpr nodup_files

theorem filesOfGeneration_sublist (generation : Nat) :
    (state.filesOfGeneration generation).Sublist
      (state.files.insertionSort fun a b => b.minTime ≤ a.minTime) := by
  have hall : (state.inner.tableFiles state.key).filter (fun file =>
      ChunkFilter.testTimeStampMinMax {} file.minTime file.maxTime) = state.files :=
    filter_true _
  rw [filesOfGeneration, Inner.getFiles, Inner.getFilesFiltered, hall]
  exact filter_sublist

end

namespace Job

variable {job : Job state}

omit [DecidableEq Tags] in
theorem mem_files (hfile : file ∈ job.files) : file ∈ state.files := by
  have hsorted := (sublist_of_mem_chunkFilesForJobs job.files_mem).subset hfile
  have hgeneration := (mem_insertionSort _).mp hsorted
  exact (mem_insertionSort _).mp ((filesOfGeneration_sublist _).subset hgeneration)

omit [DecidableEq Tags] in
theorem nodup_files : job.files.Nodup := by
  refine (sublist_of_mem_chunkFilesForJobs job.files_mem).nodup ?_
  refine (perm_insertionSort _ _).nodup_iff.mpr ?_
  exact (filesOfGeneration_sublist _).nodup nodup_queryOrder

/-- Every job has a row, so it writes a file. -/
theorem exists_output (job : Job state) : ∃ file, job.output = some file := by
  obtain ⟨input, hinput⟩ := exists_mem_of_ne_nil _
    (ne_nil_of_mem_chunkFilesForJobs job.files_mem)
  obtain ⟨_, row, hrow, _⟩ :=
    batchesTimeRangeAndRows_eq_some (state.ranges input (mem_files hinput))
  obtain ⟨row', hrow', _⟩ :=
    mem_compactedRows_key.mpr ⟨input, hinput, row, hrow, rfl⟩
  have hrange : (batchesTimeRangeAndRows job.rows).isSome :=
    batchesTimeRangeAndRows_isSome (ne_nil_of_mem hrow')
  obtain ⟨range, hrange⟩ := Option.isSome_iff_exists.mp hrange
  exact ⟨_, by rw [output, Compactor.writeCompactedFile, hrange]; rfl⟩

theorem output_path_fresh (houtput : job.output = some file) :
    file.path ∉ state.files.map (·.path) := by
  obtain ⟨range, _, rfl⟩ := Option.map_eq_some_iff.mp houtput
  exact job.path_fresh _

theorem output_range (houtput : job.output = some file) :
    batchesTimeRangeAndRows job.rows = some (file.minTime, file.maxTime, file.rowCount) := by
  obtain ⟨range, hrange, rfl⟩ := Option.map_eq_some_iff.mp houtput
  exact hrange

/-- The output starts where the first of its inputs does. -/
theorem output_minTime (houtput : job.output = some file) :
    (∀ input ∈ job.files, file.minTime ≤ input.minTime) ∧
      ∃ input ∈ job.files, input.minTime ≤ file.minTime := by
  obtain ⟨hbounds, first, hfirst, htime⟩ := batchesTimeRangeAndRows_eq_some (output_range houtput)
  constructor
  · intro input hinput
    obtain ⟨_, row, hrow, hrowTime⟩ :=
      batchesTimeRangeAndRows_eq_some (state.ranges input (mem_files hinput))
    obtain ⟨row', hrow', hkey⟩ := mem_compactedRows_key.mpr ⟨input, hinput, row, hrow, rfl⟩
    have hle := (hbounds row' hrow').1
    rw [hkey] at hle
    omega
  · obtain ⟨input, hinput, row, hrow, hkey⟩ := mem_compactedRows_key.mp ⟨first, hfirst, rfl⟩
    have hle := ((batchesTimeRangeAndRows_eq_some
      (state.ranges input (mem_files hinput))).1 row hrow).1
    rw [hkey] at hle
    exact ⟨input, hinput, by omega⟩

def kept (job : Job state) : List ParquetFile :=
  state.files.filter fun file => !decide (file.path ∈ job.files.map (·.path))

omit [DecidableEq Tags] in
theorem mem_kept : file ∈ job.kept ↔ file ∈ state.files ∧ file ∉ job.files := by
  simp only [kept, mem_filter, Bool.not_eq_true', decide_eq_false_iff_not]
  refine and_congr_right fun hfile => not_congr ?_
  constructor
  · intro hpath
    obtain ⟨input, hinput, hsame⟩ := mem_map.mp hpath
    rwa [← eq_of_path_eq (mem_files hinput) hfile hsame]
  · exact mem_map_of_mem

theorem tableFiles_publish (houtput : job.output = some file) :
    ((state.inner.addPersistedFile state.key file).removePersistedFiles state.key
      job.files).tableFiles state.key = job.kept ++ [file] := by
  have hfresh := output_path_fresh houtput
  have hnotMem : file ∉ state.files := fun hmem => hfresh (mem_map_of_mem hmem)
  have hnotInput : file.path ∉ job.files.map (·.path) := by
    intro hpath
    obtain ⟨input, hinput, hsame⟩ := mem_map.mp hpath
    exact hfresh (hsame ▸ mem_map_of_mem (mem_files hinput))
  rw [Inner.tableFiles_removePersistedFiles, Inner.tableFiles_addPersistedFile hnotMem,
    filter_append, filter_cons_of_pos (by simpa using hnotInput)]
  rfl

omit [DecidableEq Tags] in
/-- In the order of a job the input that starts last is the last holder. -/
theorem lastHolder_job_iff {value : ParquetFile → Option Value} :
    LastHolder value job.files a ↔ StartsLast value state.files job.files a := by
  have hgeneration : (state.filesOfGeneration job.generation).Nodup :=
    (filesOfGeneration_sublist _).nodup nodup_queryOrder
  have hsublist := sublist_of_mem_chunkFilesForJobs job.files_mem
  have horder : ∀ b ∈ job.files, a ∈ job.files → b ≠ a →
      (Precedes job.files b a ↔
        b.minTime < a.minTime ∨ b.minTime = a.minTime ∧ Precedes state.files b a) := by
    intro b hb ha hne
    have hmem : ∀ file ∈ job.files, file ∈ state.filesOfGeneration job.generation :=
      fun file hfile => (mem_insertionSort _).mp (hsublist.subset hfile)
    have hfiles : b.minTime = a.minTime →
        (Precedes (state.filesOfGeneration job.generation) b a ↔ Precedes state.files b a) := by
      intro htie
      rw [precedes_sublist_iff (filesOfGeneration_sublist _) nodup_queryOrder (hmem b hb)
        (hmem a ha) hne, precedes_insertionSort_iff TableState.nodup_files (mem_files hb)
          (mem_files ha) hne]
      exact ⟨fun h => h.2 htie.le, fun h => ⟨htie.ge, fun _ => h⟩⟩
    rw [precedes_sublist_iff hsublist ((perm_insertionSort _ _).nodup_iff.mpr hgeneration)
      hb ha hne, precedes_insertionSort_iff hgeneration (hmem b hb) (hmem a ha) hne]
    exact le_and_iff_lt_or_eq hfiles
  constructor
  · rintro ⟨ha, hholds, hlast⟩
    exact ⟨ha, hholds, fun b hb hbholds =>
      (or_congr_right' (horder b hb ha)).mp (hlast b hb hbholds)⟩
  · rintro ⟨ha, hholds, hlast⟩
    exact ⟨ha, hholds, fun b hb hbholds =>
      (or_congr_right' (horder b hb ha)).mpr (hlast b hb hbholds)⟩

theorem nodup_paths_publish (houtput : job.output = some file) :
    ((job.kept ++ [file]).map (·.path)).Nodup := by
  have hkept : (job.kept.map (·.path)).Sublist (state.files.map (·.path)) :=
    filter_sublist.map _
  rw [map_append, nodup_append']
  refine ⟨hkept.nodup state.nodup_paths, by simp, ?_⟩
  intro path hpath hlast
  simp only [map_cons, map_nil, mem_singleton] at hlast
  exact output_path_fresh houtput (hlast ▸ hkept.subset hpath)

theorem path_ne_output (houtput : job.output = some file) (ha : a ∈ state.files) :
    a.path ≠ file.path :=
  fun hsame => output_path_fresh houtput (hsame ▸ mem_map_of_mem ha)

theorem ranges_publish (houtput : job.output = some file) :
    ∀ a ∈ job.kept ++ [file],
      batchesTimeRangeAndRows (Function.update state.objects file.path job.rows a.path) =
        some (a.minTime, a.maxTime, a.rowCount) := by
  intro a ha
  rcases mem_concat.mp ha with hkept | hself
  · have hfile := (mem_kept.mp hkept).1
    rw [Function.update_of_ne (path_ne_output houtput hfile)]
    exact state.ranges a hfile
  · rw [hself, Function.update_self]
    exact output_range houtput

/-- The table after a job has published its output. A job without rows publishes nothing. -/
def execute (job : Job state) : TableState Tags Field Value :=
  match houtput : job.output with
  | none => state
  | some file =>
    { inner := (state.inner.addPersistedFile state.key file).removePersistedFiles state.key
        job.files
      key := state.key
      objects := Function.update state.objects file.path job.rows
      nodup_paths := by
        rw [tableFiles_publish houtput]
        exact nodup_paths_publish houtput
      ranges := by
        rw [tableFiles_publish houtput]
        exact ranges_publish houtput }

theorem execute_files (houtput : job.output = some file) :
    job.execute.files = job.kept ++ [file] := by
  have hfiles := tableFiles_publish houtput
  unfold execute
  split
  case h_1 hnone => simp [houtput] at hnone
  case h_2 file' hsome =>
    obtain rfl : file' = file := by simpa [houtput] using hsome.symm
    exact hfiles

theorem execute_objects (houtput : job.output = some file) :
    job.execute.objects = Function.update state.objects file.path job.rows := by
  unfold execute
  split
  case h_1 hnone => simp [houtput] at hnone
  case h_2 file' hsome =>
    obtain rfl : file' = file := by simpa [houtput] using hsome.symm
    rfl

variable {key : PrimaryKey Tags} {field : Field}

section

variable (houtput : job.output = some file)
include houtput

theorem fieldValue_execute (ha : a ∈ state.files) :
    fieldValue job.execute.objects key field a = fieldValue state.objects key field a := by
  rw [fieldValue, execute_objects houtput, Function.update_of_ne (path_ne_output houtput ha)]
  rfl

theorem fieldValue_output :
    fieldValue job.execute.objects key field file =
      lastValue (fieldValue state.objects key field) job.files := by
  refine fieldValue_compactedRows ?_
  rw [execute_objects houtput, Function.update_self]
  rfl

/-- A file that is no input and won before still wins, if no input holds a value or it starts
before all of them. -/
theorem startsFirst_kept (hfirst : StartsFirst (fieldValue state.objects key field) state.files a)
    (ha : a ∉ job.files)
    (hinputs : (∀ input ∈ job.files, fieldValue state.objects key field input = none) ∨
      a.minTime < file.minTime) :
    StartsFirst (fieldValue job.execute.objects key field) job.execute.files a := by
  have hkept := mem_kept.mpr ⟨hfirst.mem, ha⟩
  have hsublist := hfirst.sublist filter_sublist TableState.nodup_files hkept
  rw [execute_files houtput]
  refine ⟨mem_append_left _ hkept, ?_, fun b hb hbholds => ?_⟩
  · rw [fieldValue_execute houtput hfirst.mem]
    exact hfirst.holds
  · rcases mem_concat.mp hb with hbkept | rfl
    · rw [fieldValue_execute houtput (mem_kept.mp hbkept).1] at hbholds
      rcases hsublist.first b hbkept hbholds with heq | hlt | ⟨heq, hprecedes⟩
      · exact .inl heq
      · exact .inr (.inl hlt)
      · exact .inr (.inr ⟨heq, List.Sublist.trans hprecedes (sublist_append_left _ _)⟩)
    · rcases hinputs with hnone | hlt
      · rw [fieldValue_output houtput, lastValue_eq_none hnone] at hbholds
        simp at hbholds
      · exact .inr (.inl hlt)

/-- The output wins if an input holds a value and no other file that does starts before it. -/
theorem startsFirst_output
    (hholds : (lastValue (fieldValue state.objects key field) job.files).isSome)
    (hothers : ∀ other ∈ state.files, other ∉ job.files →
      (fieldValue state.objects key field other).isSome → file.minTime ≤ other.minTime) :
    StartsFirst (fieldValue job.execute.objects key field) job.execute.files file := by
  rw [execute_files houtput]
  refine ⟨by simp, by rwa [fieldValue_output houtput], fun b hb hbholds => ?_⟩
  rcases mem_concat.mp hb with hbkept | hself
  · obtain ⟨hbfile, hbinput⟩ := mem_kept.mp hbkept
    rw [fieldValue_execute houtput hbfile] at hbholds
    rcases (hothers b hbfile hbinput hbholds).lt_or_eq with hlt | heq
    · exact .inr (.inl hlt)
    · exact .inr (.inr ⟨heq, (singleton_sublist.mpr hbkept).append (.refl _)⟩)
  · exact .inl hself

end

/-- Whenever an input holds a value and no other file that does starts before every input, the
holder that starts last among the inputs has the same value as the holder that starts first in
the table. -/
def Agrees (job : Job state) : Prop :=
  ∀ (key : PrimaryKey Tags) (field : Field) (newest oldest : ParquetFile),
    StartsLast (fieldValue state.objects key field) state.files job.files newest →
    StartsFirst (fieldValue state.objects key field) state.files oldest →
    (∀ other ∈ state.files, other ∉ job.files →
      (fieldValue state.objects key field other).isSome →
        ∃ input ∈ job.files, input.minTime ≤ other.minTime) →
    fieldValue state.objects key field newest = fieldValue state.objects key field oldest

end Job

section Answers

variable {filter : ChunkFilter} {key : PrimaryKey Tags} {field : Field}

/-- A file that holds a value of an admitted key passes the filter. -/
theorem test_of_holds (hadmits : filter.Admits key.time) (hfile : file ∈ state.files)
    (hholds : (fieldValue state.objects key field file).isSome) :
    filter.testTimeStampMinMax file.minTime file.maxTime = true := by
  obtain ⟨row, hrow, rfl⟩ := exists_row_of_fieldValue hholds
  obtain ⟨hmin, hmax⟩ := (batchesTimeRangeAndRows_eq_some (state.ranges file hfile)).1 row hrow
  exact ChunkFilter.test_of_admits hadmits hmin hmax

theorem queryValue_eq_of_startsFirst (hadmits : filter.Admits key.time)
    (hfirst : StartsFirst (fieldValue state.objects key field) state.files a) :
    state.queryValue filter key field = fieldValue state.objects key field a := by
  have htest := test_of_holds hadmits hfirst.mem hfirst.holds
  have hfiltered := hfirst.sublist (filter_sublist
    (p := fun file => filter.testTimeStampMinMax file.minTime file.maxTime))
    nodup_files (mem_filter.mpr ⟨hfirst.mem, htest⟩)
  have hnodup := nodup_files.filter (l := state.files)
    fun file => filter.testTimeStampMinMax file.minTime file.maxTime
  exact ((lastHolder_query_iff hnodup).mpr hfiltered).lastValue_eq
    ((perm_insertionSort _ _).nodup_iff.mpr hnodup)

theorem queryValue_eq_none
    (hnone : ∀ file ∈ state.files, fieldValue state.objects key field file = none) :
    state.queryValue filter key field = none := by
  refine lastValue_eq_none fun file hfile => hnone file ?_
  exact (mem_filter.mp ((mem_insertionSort _).mp hfile)).1

theorem exists_startsFirst (hfile : file ∈ state.files)
    (hholds : (fieldValue state.objects key field file).isSome) :
    ∃ a, StartsFirst (fieldValue state.objects key field) state.files a := by
  obtain ⟨a, ha, _⟩ := exists_lastHolder
    (l := state.files.insertionSort fun a b => b.minTime ≤ a.minTime)
    ((mem_insertionSort _).mpr hfile) hholds
  exact ⟨a, (lastHolder_query_iff nodup_files).mp ha⟩

variable {job : Job state}

/-- When no other holder starts before every input, the query afterwards returns the value of the
input that starts last. -/
theorem queryValue_execute_eq (hadmits : filter.Admits key.time)
    (hlast : StartsLast (fieldValue state.objects key field) state.files job.files a)
    (hothers : ∀ other ∈ state.files, other ∉ job.files →
      (fieldValue state.objects key field other).isSome →
        ∃ input ∈ job.files, input.minTime ≤ other.minTime) :
    job.execute.queryValue filter key field = fieldValue state.objects key field a := by
  obtain ⟨output, houtput⟩ := job.exists_output
  have hvalue := (Job.lastHolder_job_iff.mpr hlast).lastValue_eq Job.nodup_files
  have hfirst :
      StartsFirst (fieldValue job.execute.objects key field) job.execute.files output := by
    refine Job.startsFirst_output houtput (by rw [hvalue]; exact hlast.holds) ?_
    intro other hother hinput hholds
    obtain ⟨input, hmem, hle⟩ := hothers other hother hinput hholds
    exact ((Job.output_minTime houtput).1 input hmem).trans hle
  rw [queryValue_eq_of_startsFirst hadmits hfirst, Job.fieldValue_output houtput, hvalue]

/-- When an input holds nothing, or another holder starts before every input, the query returns
what it returned before. -/
theorem queryValue_execute_of_kept (hadmits : filter.Admits key.time)
    (hinputs : (∀ input ∈ job.files, fieldValue state.objects key field input = none) ∨
      ∃ other ∈ state.files, (fieldValue state.objects key field other).isSome ∧
        ∀ input ∈ job.files, other.minTime < input.minTime) :
    job.execute.queryValue filter key field = state.queryValue filter key field := by
  obtain ⟨output, houtput⟩ := job.exists_output
  by_cases hholder : ∃ file ∈ state.files, (fieldValue state.objects key field file).isSome
  · obtain ⟨file, hfile, hholds⟩ := hholder
    obtain ⟨a, ha⟩ := exists_startsFirst hfile hholds
    have hkept : a ∉ job.files ∧
        ((∀ input ∈ job.files, fieldValue state.objects key field input = none) ∨
          a.minTime < output.minTime) := by
      rcases hinputs with hnone | ⟨other, hother, hotherHolds, hearlier⟩
      · refine ⟨fun hinput => ?_, .inl hnone⟩
        have hholds := ha.holds
        rw [hnone a hinput] at hholds
        simp at hholds
      · have hle : a.minTime ≤ other.minTime := by
          rcases ha.first other hother hotherHolds with rfl | hlt | ⟨heq, _⟩
          · exact le_rfl
          · exact hlt.le
          · exact heq.le
        obtain ⟨input, hinput, hstart⟩ := (Job.output_minTime houtput).2
        refine ⟨fun hself => ?_, .inr ?_⟩
        · have := hearlier a hself
          omega
        · have := hearlier input hinput
          omega
    rw [queryValue_eq_of_startsFirst hadmits (Job.startsFirst_kept houtput ha hkept.1 hkept.2),
      queryValue_eq_of_startsFirst hadmits ha, Job.fieldValue_execute houtput ha.mem]
  · push Not at hholder
    have hnone : ∀ file ∈ state.files, fieldValue state.objects key field file = none :=
      fun file hfile => by simpa using hholder file hfile
    rw [queryValue_eq_none hnone]
    refine queryValue_eq_none fun file hfile => ?_
    rw [Job.execute_files houtput] at hfile
    rcases mem_concat.mp hfile with hkept | hself
    · have hmem := (Job.mem_kept.mp hkept).1
      rw [Job.fieldValue_execute houtput hmem]
      exact hnone file hmem
    · rw [hself, Job.fieldValue_output houtput]
      exact lastValue_eq_none fun input hinput => hnone input (Job.mem_files hinput)

/-- A job changes no answer exactly when its newest and the table's oldest values agree. -/
theorem answers_unchanged_iff (state : TableState Tags Field Value) (job : Job state) :
    (∀ (filter : ChunkFilter) (key : PrimaryKey Tags) (field : Field), filter.Admits key.time →
      job.execute.queryValue filter key field = state.queryValue filter key field) ↔
    job.Agrees := by
  constructor
  · intro hall key field newest oldest hnewest holdest hothers
    have hadmits : ChunkFilter.Admits {} key.time := by simp [ChunkFilter.Admits]
    rw [← queryValue_execute_eq hadmits hnewest hothers,
      ← queryValue_eq_of_startsFirst hadmits holdest]
    exact hall {} key field hadmits
  · intro hagrees filter key field hadmits
    by_cases hkept : (∀ input ∈ job.files, fieldValue state.objects key field input = none) ∨
        ∃ other ∈ state.files, (fieldValue state.objects key field other).isSome ∧
          ∀ input ∈ job.files, other.minTime < input.minTime
    · exact queryValue_execute_of_kept hadmits hkept
    · push Not at hkept
      obtain ⟨⟨input, hinput, hholds⟩, hothers⟩ := hkept
      have hholds := Option.isSome_iff_ne_none.mpr hholds
      have hothers : ∀ other ∈ state.files, other ∉ job.files →
          (fieldValue state.objects key field other).isSome →
            ∃ input ∈ job.files, input.minTime ≤ other.minTime :=
        fun other hother _ => hothers other hother
      obtain ⟨newest, hlast, _⟩ := exists_lastHolder hinput hholds
      have hnewest := Job.lastHolder_job_iff.mp hlast
      obtain ⟨oldest, holdest⟩ := exists_startsFirst (Job.mem_files hinput) hholds
      rw [queryValue_execute_eq hadmits hnewest hothers,
        queryValue_eq_of_startsFirst hadmits holdest]
      exact hagrees key field newest oldest hnewest holdest hothers

end Answers

def gen1File (walSeq rowCount : Nat) (minTime maxTime : Int) : ParquetFile where
  id := walSeq
  path := parquetFilePath "writer" 1 1 "2026-01-01/00-00" walSeq 0
  sizeBytes := 1
  rowCount := rowCount
  chunkTime := 0
  minTime := minTime
  maxTime := maxTime

/-- A gen1 file with a row of its own at its first time and a row at time 10. -/
def overlappingFile (walSeq : Nat) (minTime : Int) : ParquetFile := gen1File walSeq 2 minTime 10

def overlappingRows (minTime : Int) (value : Nat) : List (Row Nat Unit Nat) :=
  [⟨⟨0, minTime⟩, fun _ => some 0⟩, ⟨⟨1, 10⟩, fun _ => some value⟩]

/-- Two writers' files of one table with different values for the row at time 10, and one ten
minutes later. -/
def overlappingTable : TableState Nat Unit Nat where
  inner := { files := [(⟨1, 1⟩, overlappingFile 1 0), (⟨1, 1⟩, overlappingFile 2 5),
    (⟨1, 1⟩, gen1File 3 1 600000000000 600000000000)] }
  key := ⟨1, 1⟩
  objects path :=
    if path = (overlappingFile 1 0).path then overlappingRows 0 1
    else if path = (overlappingFile 2 5).path then overlappingRows 5 2
    else [⟨⟨0, 600000000000⟩, fun _ => some 0⟩]
  nodup_paths := by decide
  ranges := by decide

def overlappingJob : Job overlappingTable where
  compactor := ⟨"compactor", "db", "t", fun _ => "2026-01-01/00-00"⟩
  generation := 1
  maxFiles := 2
  files := [overlappingFile 1 0, overlappingFile 2 5]
  files_mem := by decide
  targetNanos := 600000000000
  compactionId := "019b7000-0000-7000-8000-000000000001"
  fileId := 3
  sizeBytes := 1
  path_fresh := by
    intro date hmem
    have hgen1 : ∀ path ∈ overlappingTable.files.map (·.path), (parseGen1Path path).isSome := by
      decide
    have hid : "019b7000-0000-7000-8000-000000000001".toList = "019b7000".toList ++ '-' ::
        "0000".toList ++ '-' :: "7000-8000-000000000001".toList := by decide
    have hnone : parseGen1Path (compactedFilePath "compactor" "db" 1 "t" 1 2 date
        "019b7000-0000-7000-8000-000000000001") = none :=
      parseGen1Path_compactedFilePath (by decide) (by decide) hid (by decide) (by decide) 1 1 2
    have hsome : (parseGen1Path (compactedFilePath "compactor" "db" 1 "t" 1 2 date
        "019b7000-0000-7000-8000-000000000001")).isSome := hgen1 _ hmem
    simp [hnone] at hsome

/-- Before the compaction a query reads the value of the file that starts first, after it the value
of the file that starts last. -/
theorem compaction_changes_answer :
    ∃ (state : TableState Nat Unit Nat) (job : Job state) (key : PrimaryKey Nat),
      canCompactToGeneration 2 (state.filesOfGeneration job.generation) job.targetNanos ∧
      state.queryValue {} key () = some 1 ∧ job.execute.queryValue {} key () = some 2 := by
  exact ⟨overlappingTable, overlappingJob, ⟨1, 10⟩, by decide, by decide, by decide⟩

end TableState

end RefluxDb.Write
