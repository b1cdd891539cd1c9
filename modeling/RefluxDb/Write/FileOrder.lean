import RefluxDb.Write.TablePartitions

/-! Which of two gen1 files a query prefers.

A query numbers the files of a table in descending order of their first time and prefers, among
rows with one primary key, the file with the largest number: the file that starts first, whichever
was persisted first. Files that start together keep the order of the list they are held in. -/

namespace RefluxDb.Write

open List RefluxDb.Library RefluxDb.Query

namespace Table

variable {Id Tags Field Value : Type*} [LinearOrder Id] [DecidableEq Tags]

/-- The rows of a gen1 file have one chunk time, and no primary key twice. -/
structure Gen1File (config : TableConfig Id) (stored : StoredFile Tags Field Value) : Prop where
  chunkTime : HaveChunkTime config stored.file.chunkTime stored.rows
  unique : (stored.rows.map (·.key)).Nodup

/-- The rows a query with this filter returns from the files. -/
def queryFiles (config : TableConfig Id) (filter : ChunkFilter)
    (files : List (StoredFile Tags Field Value)) : List (Row Tags Field Value) :=
  splitDedup config.maxDedupSplit (getTableChunks config { persisted := files } filter)

/-- For every primary key of both files a query returns the value stored in `later` for each field
that is not null there. -/
def LaterWins (config : TableConfig Id) (filter : ChunkFilter)
    (files : List (StoredFile Tags Field Value)) (earlier later : StoredFile Tags Field Value) :
    Prop :=
  ∀ row ∈ earlier.rows, ∀ row' ∈ later.rows, row.key = row'.key → ∀ field value,
    row'.fields field = some value →
      (∃ answer ∈ queryFiles config filter files, answer.key = row.key) ∧
        ∀ answer ∈ queryFiles config filter files, answer.key = row.key →
          answer.fields field = some value

/-- The files store no two different values for a field of one primary key. -/
def Agree (stored other : StoredFile Tags Field Value) : Prop :=
  ∀ row ∈ stored.rows, ∀ row' ∈ other.rows, row.key = row'.key → ∀ field value value',
    row.fields field = some value → row'.fields field = some value' → value = value'

omit [LinearOrder Id] [DecidableEq Tags] in
theorem Gen1File.agree_self {config : TableConfig Id} {stored : StoredFile Tags Field Value}
    (hstored : Gen1File config stored) : Agree stored stored := by
  intro row hrow row' hrow' hkey field value value' hvalue hvalue'
  obtain rfl : row = row' := inj_on_of_nodup_map hstored.unique hrow hrow' hkey
  exact Option.some_inj.mp (hvalue.symm.trans hvalue')

section Chunks

variable {config : TableConfig Id} {filter : ChunkFilter}
variable {first second : StoredFile Tags Field Value}
variable {files : List (StoredFile Tags Field Value)}

/-- The chunks of a table of two files that are sorted for a query. -/
def fileChunks (config : TableConfig Id) (first second : StoredFile Tags Field Value) :
    List (QueryChunk Id Tags Field Value) :=
  [parquetChunkFromFile config first 0, { parquetChunkFromFile config second 1 with id := 1 }]

section

omit [LinearOrder Id] [DecidableEq Tags]

theorem getTableChunks_of_sorted (hfiles : filesFiltered { persisted := files } filter =
    [first, second]) :
    getTableChunks config { persisted := files } filter = fileChunks config first second := by
  simp [getTableChunks, parquetChunks, bufferChunks, tailChunks, hfiles, withIds,
    TableBuffer.partitionedRecordBatches, mergeBatches, fileChunks, parquetChunkFromFile]

theorem wellFormed_fileChunks (hfirst : Gen1File config first) (hsecond : Gen1File config second) :
    WellFormed (fileChunks config first second) := by
  have hchunk : ∀ chunk ∈ fileChunks config first second, ∃ stored, Gen1File config stored ∧
      chunk.timestampMinMax = some (stored.file.minTime, stored.file.maxTime) ∧
      chunk.rows = stored.rows ∧
      chunk.partitionId = config.partitionHash (toString stored.file.chunkTime) := by
    intro chunk hchunk
    simp only [fileChunks, mem_cons, not_mem_nil, or_false] at hchunk
    rcases hchunk with rfl | rfl
    · exact ⟨first, hfirst, rfl, rfl, rfl⟩
    · exact ⟨second, hsecond, rfl, rfl, rfl⟩
  refine ⟨?_, ?_, ?_, ?_⟩
  · simp [fileChunks, parquetChunkFromFile]
  · intro chunk hmem range hrange
    obtain ⟨stored, _, hstats, hrows, _⟩ := hchunk chunk hmem
    rw [hstats, Option.mem_some_iff] at hrange
    rw [← hrange, hrows]
    exact stored.range
  · intro chunk hmem _
    obtain ⟨stored, hgen1, _, hrows, _⟩ := hchunk chunk hmem
    rw [hrows]
    exact hgen1.unique
  · intro chunk hmem other hother hshared
    obtain ⟨stored, hgen1, _, hrows, hid⟩ := hchunk chunk hmem
    obtain ⟨stored', hgen1', _, hrows', hid'⟩ := hchunk other hother
    simp only [Separate, not_forall, not_not, hrows, hrows'] at hshared
    obtain ⟨row, hrow, row', hrow', hkey⟩ := hshared
    rw [hid, hid', ← hgen1.chunkTime row hrow, ← hgen1'.chunkTime row' hrow', hkey]

end

/-- A query over two files prefers the second of its order. -/
theorem fields_of_mem_queryFiles (hfirst : Gen1File config first) (hsecond : Gen1File config second)
    (hfiles : filesFiltered { persisted := files } filter = [first, second])
    {answer : Row Tags Field Value} (hanswer : answer ∈ queryFiles config filter files)
    (field : Field) :
    answer.fields field = (lastValue (keyedField answer.key field) second.rows).or
      (lastValue (keyedField answer.key field) first.rows) := by
  rw [queryFiles, getTableChunks_of_sorted hfiles] at hanswer
  have horders : ∀ chunk ∈ fileChunks config first second,
      ∀ other ∈ fileChunks config first second, chunk.order = other.order → chunk = other := by
    intro chunk hchunk other hother
    simp only [fileChunks, mem_cons, not_mem_nil, or_false] at hchunk hother
    rcases hchunk with rfl | rfl <;> rcases hother with rfl | rfl <;>
      simp [parquetChunkFromFile]
  rw [fields_of_mem_splitDedup (wellFormed_fileChunks hfirst hsecond) horders hanswer]
  simp [rowsInOrder, fileChunks, parquetChunkFromFile, lastValue, getLast?_append]

theorem exists_mem_queryFiles (hfirst : Gen1File config first) (hsecond : Gen1File config second)
    (hfiles : filesFiltered { persisted := files } filter = [first, second])
    {row : Row Tags Field Value} (hrow : row ∈ first.rows ∨ row ∈ second.rows) :
    ∃ answer ∈ queryFiles config filter files, answer.key = row.key := by
  have hkey : row.key ∈ (queryFiles config filter files).map (·.key) := by
    rw [queryFiles, getTableChunks_of_sorted hfiles,
      mem_splitDedup_key_iff (wellFormed_fileChunks hfirst hsecond)]
    rcases hrow with hrow | hrow
    · exact ⟨_, mem_cons_self, row, hrow, rfl⟩
    · exact ⟨_, mem_cons_of_mem _ mem_cons_self, row, hrow, rfl⟩
  exact mem_map.mp hkey

end Chunks

section Order

variable {config : TableConfig Id} {filter : ChunkFilter}
  {earlier later : StoredFile Tags Field Value} {files : List (StoredFile Tags Field Value)}

/-- If the later file comes last in the order of the query, it wins. -/
theorem laterWins_of_last (hearlier : Gen1File config earlier) (hlater : Gen1File config later)
    (hfiles : filesFiltered { persisted := files } filter = [earlier, later]) :
    LaterWins config filter files earlier later := by
  intro row hrow row' hrow' hkey field value hvalue
  refine ⟨exists_mem_queryFiles hearlier hlater hfiles (.inl hrow), ?_⟩
  intro answer hanswer hsame
  rw [fields_of_mem_queryFiles hearlier hlater hfiles hanswer, hsame, hkey,
    lastValue_keyedField_of_nodup hrow' hlater.unique, hvalue]
  rfl

/-- If the later file comes first, it wins only where the files agree. -/
theorem laterWins_iff_of_first (hearlier : Gen1File config earlier) (hlater : Gen1File config later)
    (hfiles : filesFiltered { persisted := files } filter = [later, earlier]) :
    LaterWins config filter files earlier later ↔ Agree earlier later := by
  have hanswer : ∀ row ∈ earlier.rows, ∀ row' ∈ later.rows, row.key = row'.key →
      ∀ answer ∈ queryFiles config filter files, answer.key = row.key → ∀ field,
        answer.fields field = (row.fields field).or (row'.fields field) := by
    intro row hrow row' hrow' hkey answer hanswer hsame field
    rw [fields_of_mem_queryFiles hlater hearlier hfiles hanswer, hsame,
      lastValue_keyedField_of_nodup hrow hearlier.unique, hkey,
      lastValue_keyedField_of_nodup hrow' hlater.unique]
  constructor
  · intro hwins row hrow row' hrow' hkey field value value' hvalue hvalue'
    obtain ⟨⟨answer, hmem, hsame⟩, hall⟩ := hwins row hrow row' hrow' hkey field value' hvalue'
    have hfield := hanswer row hrow row' hrow' hkey answer hmem hsame field
    rw [hall answer hmem hsame, hvalue, Option.some_or, Option.some_inj] at hfield
    exact hfield.symm
  · intro hagree row hrow row' hrow' hkey field value hvalue
    refine ⟨exists_mem_queryFiles hlater hearlier hfiles (.inr hrow), ?_⟩
    intro answer hmem hsame
    rw [hanswer row hrow row' hrow' hkey answer hmem hsame field]
    cases hfield : row.fields field with
    | none => simpa using hvalue
    | some other => simp [hagree row hrow row' hrow' hkey field other value hfield hvalue]

/-- For two gen1 files, a query returns the later one's values exactly if it starts before the
other, or starts with it and is listed after it, or the files agree. -/
theorem laterWins_iff (config : TableConfig Id) (filter : ChunkFilter)
    (earlier later : StoredFile Tags Field Value) (files : List (StoredFile Tags Field Value))
    (hearlier : Gen1File config earlier) (hlater : Gen1File config later)
    (hfiles : files = [earlier, later] ∨ files = [later, earlier])
    (hfilter : ∀ stored ∈ files,
      filter.testTimeStampMinMax stored.file.minTime stored.file.maxTime = true) :
    LaterWins config filter files earlier later ↔
      later.file.minTime < earlier.file.minTime ∨
        later.file.minTime = earlier.file.minTime ∧ files = [earlier, later] ∨
          Agree earlier later := by
  have hall : filesFiltered { persisted := files } filter =
      files.insertionSort fun a b => b.file.minTime ≤ a.file.minTime := by
    rw [filesFiltered, filter_eq_self.mpr hfilter]
  rcases hfiles with rfl | rfl
  · by_cases hle : later.file.minTime ≤ earlier.file.minTime
    · have hsorted : filesFiltered { persisted := [earlier, later] } filter = [earlier, later] := by
        simp [hall, hle]
      have hstarts : later.file.minTime < earlier.file.minTime ∨
          later.file.minTime = earlier.file.minTime := hle.lt_or_eq
      simp only [laterWins_of_last hearlier hlater hsorted, true_iff, and_true]
      rcases hstarts with hlt | heq
      · exact .inl hlt
      · exact .inr (.inl heq)
    · have hsorted : filesFiltered { persisted := [earlier, later] } filter = [later, earlier] := by
        simp [hall, hle]
      rw [laterWins_iff_of_first hearlier hlater hsorted]
      have hnot : ¬later.file.minTime < earlier.file.minTime := fun hlt => hle hlt.le
      have hne : later.file.minTime ≠ earlier.file.minTime := fun heq => hle heq.le
      simp [hnot, hne]
  · by_cases hle : earlier.file.minTime ≤ later.file.minTime
    · have hsorted : filesFiltered { persisted := [later, earlier] } filter = [later, earlier] := by
        simp [hall, hle]
      rw [laterWins_iff_of_first hearlier hlater hsorted]
      constructor
      · exact fun hagree => .inr (.inr hagree)
      · rintro (hlt | ⟨_, hsame⟩ | hagree)
        · exact absurd hle (not_le.mpr hlt)
        · obtain rfl : later = earlier := (List.cons.inj hsame).1
          exact hlater.agree_self
        · exact hagree
    · have hsorted : filesFiltered { persisted := [later, earlier] } filter = [earlier, later] := by
        simp [hall, hle]
      simp [laterWins_of_last hearlier hlater hsorted, not_le.mp hle]

end Order

section Example

/-- The file of the first snapshot, with rows at 5 and at 10. -/
def firstPersisted : StoredFile Nat Unit Nat :=
  persistedFile ⟨0, [⟨⟨0, 5⟩, fun _ => some 1⟩, ⟨⟨1, 10⟩, fun _ => some 1⟩], by simp⟩
    (writerPath 1) 1 1

/-- The file of the second snapshot, in which the row at 10 was written again. -/
def secondPersisted : StoredFile Nat Unit Nat :=
  persistedFile ⟨0, [⟨⟨1, 10⟩, fun _ => some 2⟩], by simp⟩ (writerPath 2) 2 1

theorem gen1File_persisted :
    Gen1File tenMinutes firstPersisted ∧ Gen1File tenMinutes secondPersisted :=
  ⟨⟨by decide, by decide⟩, ⟨by decide, by decide⟩⟩

/-- The file of the second snapshot starts at 10, the first at 5: the query returns what the first
snapshot stored. -/
theorem rewritten_value_not_returned :
    (queryFiles tenMinutes {} [firstPersisted, secondPersisted]).map
        (fun row => (row.key, row.fields ())) = [(⟨0, 5⟩, some 1), (⟨1, 10⟩, some 1)] ∧
      ¬LaterWins tenMinutes {} [firstPersisted, secondPersisted]
        firstPersisted secondPersisted := by
  have hanswers : (queryFiles tenMinutes {} [firstPersisted, secondPersisted]).map
      (fun row => (row.key, row.fields ())) = [(⟨0, 5⟩, some 1), (⟨1, 10⟩, some 1)] := by
    decide
  refine ⟨hanswers, fun hwins => ?_⟩
  have hrow : ∃ row ∈ firstPersisted.rows, ∃ row' ∈ secondPersisted.rows, row.key = row'.key ∧
      row.key = ⟨1, 10⟩ ∧ row'.fields () = some 2 := by
    decide
  obtain ⟨row, hrow, row', hrow', hkey, hten, hvalue⟩ := hrow
  obtain ⟨⟨answer, hanswer, hsame⟩, hall⟩ := hwins row hrow row' hrow' hkey () 2 hvalue
  have hmem := mem_map_of_mem (f := fun row : Row Nat Unit Nat => (row.key, row.fields ()))
    hanswer
  rw [hanswers, hall answer hanswer hsame, hsame, hten] at hmem
  revert hmem
  decide

/-- With the snapshots in the other order the file that starts first is the later one. -/
theorem laterWins_iff_starts_first :
    LaterWins tenMinutes {} [secondPersisted, firstPersisted] secondPersisted firstPersisted :=
  (laterWins_iff tenMinutes {} secondPersisted firstPersisted [secondPersisted, firstPersisted]
    gen1File_persisted.2 gen1File_persisted.1 (.inl rfl) (by decide)).mpr (.inl (by decide))

end Example

end Table

end RefluxDb.Write
