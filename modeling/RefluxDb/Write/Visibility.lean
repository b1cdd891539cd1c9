import RefluxDb.Write.TablePartitions

/-! When a row is visible to a query.

A row of the buffer or of the WAL tail is handed out as it was written. A file holds one row for
each primary key of the chunk it was made from, so there a row may be shown by one that has later
values of the same fields. -/

namespace RefluxDb.Query

open List RefluxDb.Library

variable {Tags Field Value : Type*}

/-- The row has the primary key of another one and a value for each field that one has. -/
def Row.Shows (shown row : Row Tags Field Value) : Prop :=
  shown.key = row.key ∧ ∀ field, (row.fields field).isSome → (shown.fields field).isSome

/-- Some row of these shows it. -/
def ShownIn (rows : List (Row Tags Field Value)) (row : Row Tags Field Value) : Prop :=
  ∃ shown ∈ rows, shown.Shows row

theorem Row.Shows.refl (row : Row Tags Field Value) : row.Shows row := ⟨rfl, fun _ h => h⟩

variable {rows : List (Row Tags Field Value)} {row : Row Tags Field Value}

theorem shownIn_of_mem (hrow : row ∈ rows) : ShownIn rows row := ⟨row, hrow, .refl row⟩

theorem shownIn_deduplicate [DecidableEq Tags] (hrow : row ∈ rows) :
    ShownIn (deduplicate rows) row := by
  refine ⟨_, mem_map.mpr ⟨row.key, ?_, rfl⟩, rfl, fun field hfield => ?_⟩
  · exact mem_dedup.mpr (mem_map_of_mem hrow)
  · exact isSome_lastValue hrow (by simpa using hfield)

end RefluxDb.Query

namespace RefluxDb.Write

open List RefluxDb.Library RefluxDb.Query

variable {Id Tags Field Value : Type*}

/-- The time lies within the bounds of the query. -/
def ChunkFilter.Selects (filter : ChunkFilter) (time : Int) : Prop :=
  (∀ lower ∈ filter.timeLowerBoundNs, lower ≤ time) ∧
    ∀ upper ∈ filter.timeUpperBoundNs, time ≤ upper
deriving Decidable

variable {filter : ChunkFilter}

/-- A time range with a selected time passes the filter. -/
theorem ChunkFilter.testTimeStampMinMax_of_selects
    {time minTimeNs maxTimeNs : Int} (hselects : filter.Selects time) (hmin : minTimeNs ≤ time)
    (hmax : time ≤ maxTimeNs) : filter.testTimeStampMinMax minTimeNs maxTimeNs = true := by
  obtain ⟨lower, upper⟩ := filter
  obtain ⟨hlower, hupper⟩ := hselects
  cases lower with
  | none =>
    cases upper with
    | none => rfl
    | some u => simpa [testTimeStampMinMax] using hmin.trans (hupper u rfl)
  | some l =>
    have hl := (hlower l rfl).trans hmax
    cases upper with
    | none => simpa [testTimeStampMinMax] using hl
    | some u => simpa [testTimeStampMinMax] using ⟨hmin.trans (hupper u rfl), hl⟩

variable {row : Row Tags Field Value}

theorem exists_mem_mergeBatches {batches : List (Batch Tags Field Value)}
    {batch : Batch Tags Field Value} (hbatch : batch ∈ batches)
    (hrow : row ∈ batch.rows) : ∃ merged ∈ mergeBatches batches, row ∈ merged.rows := by
  refine ⟨_, mem_map.mpr ⟨batch.chunkTime, ?_, rfl⟩, ?_⟩
  · exact mem_dedup.mpr (mem_map_of_mem hbatch)
  · exact mem_flatMap.mpr ⟨batch, mem_filter.mpr ⟨hbatch, by simp⟩, hrow⟩

/-- A query is handed the selected rows of a buffer. -/
theorem exists_mem_partitionedRecordBatches {buffer : TableBuffer Tags Field Value}
    {chunk : BufferedChunk Tags Field Value}
    (hchunk : chunk ∈ buffer.snapshottingChunks ++ buffer.chunks) (hrow : row ∈ chunk.rows)
    (hselects : filter.Selects row.key.time) :
    ∃ batch ∈ buffer.partitionedRecordBatches filter, row ∈ batch.rows := by
  have hbounds := chunk.covers.2 row hrow
  have htest := ChunkFilter.testTimeStampMinMax_of_selects hselects hbounds.1 hbounds.2
  exact exists_mem_mergeBatches (mem_map_of_mem (mem_filter.mpr ⟨hchunk, htest⟩)) hrow

namespace Table

variable {config : TableConfig Id} {table : Table Tags Field Value} {filter : ChunkFilter}
variable {row : Row Tags Field Value}

variable {chunk : QueryChunk Id Tags Field Value}

theorem exists_mem_withIds {chunks : List (QueryChunk Id Tags Field Value)}
    (hchunk : chunk ∈ chunks) :
    ∃ numbered ∈ withIds chunks, numbered.rows = chunk.rows := by
  obtain ⟨index, hindex⟩ := exists_mem_zipIdx 0 hchunk
  exact ⟨_, mem_map.mpr ⟨_, hindex, rfl⟩, rfl⟩

variable {stored : StoredFile Tags Field Value}

theorem mem_filesFiltered (hstored : stored ∈ table.persisted) (hshown : ShownIn stored.rows row)
    (hselects : filter.Selects row.key.time) : stored ∈ table.filesFiltered filter := by
  obtain ⟨shown, hmem, hkey, _⟩ := hshown
  have hbounds := stored.range.2 shown hmem
  rw [hkey] at hbounds
  have htest := ChunkFilter.testTimeStampMinMax_of_selects hselects hbounds.1 hbounds.2
  exact (mem_insertionSort _).mpr (mem_filter.mpr ⟨hstored, htest⟩)

theorem exists_mem_parquetChunks
    (hstored : stored ∈ table.persisted) (hshown : ShownIn stored.rows row)
    (hselects : filter.Selects row.key.time) :
    ∃ chunk ∈ table.parquetChunks config filter, ShownIn chunk.rows row := by
  obtain ⟨chunkOrder, horder⟩ := exists_mem_zipIdx (table.bufferChunks config filter).length
    (mem_filesFiltered hstored hshown hselects)
  exact ⟨parquetChunkFromFile config stored chunkOrder, mem_map.mpr ⟨_, horder, rfl⟩, hshown⟩

theorem exists_stored_of_mem_parquetChunks (hchunk : chunk ∈ table.parquetChunks config filter) :
    ∃ stored ∈ table.persisted, chunk.rows = stored.rows := by
  obtain ⟨⟨stored, chunkOrder⟩, hstored, rfl⟩ := mem_map.mp hchunk
  have hsorted := (mem_insertionSort _).mp (fst_mem_of_mem_zipIdx hstored)
  exact ⟨stored, (mem_filter.mp hsorted).1, rfl⟩

/-- A query is handed the selected rows of a file of the tail, if the file's range covers them. -/
theorem exists_mem_tailChunks {file : TailFile Tags Field Value}
    {buffered : BufferedChunk Tags Field Value} (hfile : file ∈ table.tail)
    (hbuffered : buffered ∈ file.buffer.chunks) (hrow : row ∈ buffered.rows)
    (hwithin : file.buffer.timestampMinMax.1 ≤ row.key.time ∧
      row.key.time ≤ file.buffer.timestampMinMax.2) (hselects : filter.Selects row.key.time) :
    ∃ chunk ∈ table.tailChunks config filter, row ∈ chunk.rows := by
  have htest := ChunkFilter.testTimeStampMinMax_of_selects hselects hwithin.1 hwithin.2
  obtain ⟨batch, hbatch, hin⟩ :=
    exists_mem_partitionedRecordBatches (mem_append_right _ hbuffered) hrow hselects
  have hpart : batch ∈ (table.tail.filter fun file => filter.testTimeStampMinMax
      file.buffer.timestampMinMax.1 file.buffer.timestampMinMax.2).flatMap fun file =>
        file.buffer.partitionedRecordBatches filter :=
    mem_flatMap.mpr ⟨file, mem_filter.mpr ⟨hfile, htest⟩, hbatch⟩
  obtain ⟨merged, hmerged, hin⟩ := exists_mem_mergeBatches hpart hin
  exact ⟨_, mem_map.mpr ⟨merged, hmerged, rfl⟩, hin⟩

theorem exists_buffered_of_mem_tailChunks
    (hchunk : chunk ∈ table.tailChunks config filter) (hrow : row ∈ chunk.rows) :
    ∃ file ∈ table.tail, ∃ buffered ∈ file.buffer.snapshottingChunks ++ file.buffer.chunks,
      row ∈ buffered.rows := by
  obtain ⟨batch, hbatch, rfl⟩ := mem_map.mp hchunk
  obtain ⟨part, hpart, _, hin⟩ := (exists_of_mem_mergeBatches hbatch).2 row hrow
  obtain ⟨file, hfile, hfiled⟩ := mem_flatMap.mp hpart
  obtain ⟨buffered, hbuffered, _, hrows⟩ := exists_of_mem_partitionedRecordBatches hfiled row hin
  exact ⟨file, (mem_filter.mp hfile).1, buffered, hbuffered, hrows⟩

end Table

end RefluxDb.Write
