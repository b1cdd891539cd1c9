import RefluxDb.Wal.SnapshotTracker
import RefluxDb.Write.Compaction

/-! The chunks of a table that a query is handed.

Four producers make them: the write buffer, gen1 files, compacted files and the tail of the
writers' WAL. A buffered row is keyed by its gen1 chunk time and a file by the chunk time in its
record, which for a compacted file is its first time rounded by the duration of its generation;
all of the WAL tail has one key. The key's hash is the partition id. -/

namespace RefluxDb.Write

open List RefluxDb.Library RefluxDb.Query RefluxDb.Wal

/-- The smallest time range that covers both. -/
def rangeUnion (a b : Int × Int) : Int × Int := (min a.1 b.1, max a.2 b.2)

variable {Tags Field Value : Type*}

/-- The rows of one chunk time, with their time range. -/
structure Batch (Tags Field Value : Type*) where
  chunkTime : Int
  range : Int × Int
  rows : List (Row Tags Field Value)

/-- Coalesces batches by chunk time. -/
def mergeBatches (batches : List (Batch Tags Field Value)) : List (Batch Tags Field Value) :=
  (batches.map (·.chunkTime)).dedup.map fun chunkTime =>
    let same := batches.filter fun batch => batch.chunkTime = chunkTime
    { chunkTime := chunkTime
      range := (same.map (·.range)).foldl rangeUnion (i64Max, i64Min)
      rows := same.flatMap (·.rows) }

/-- A buffered chunk. It is made by the write of its first row. -/
structure BufferedChunk (Tags Field Value : Type*) where
  chunkTime : Int
  rows : List (Row Tags Field Value)
  rows_ne : rows ≠ []

def BufferedChunk.timestampMinMax (chunk : BufferedChunk Tags Field Value) : Int × Int :=
  (chunk.rows.map fun row => (row.key.time, row.key.time)).foldl rangeUnion (i64Max, i64Min)

structure TableBuffer (Tags Field Value : Type*) where
  chunks : List (BufferedChunk Tags Field Value) := []
  snapshottingChunks : List (BufferedChunk Tags Field Value) := []

namespace TableBuffer

variable (buffer : TableBuffer Tags Field Value)

/-- Adds rows to the last chunk of their chunk time, or begins one. -/
def appendRows (added : BufferedChunk Tags Field Value) :
    List (BufferedChunk Tags Field Value) → List (BufferedChunk Tags Field Value)
  | [] => [added]
  | chunk :: rest =>
    if chunk.chunkTime = added.chunkTime ∧ ∀ later ∈ rest, later.chunkTime ≠ added.chunkTime then
      { chunk with rows := chunk.rows ++ added.rows, rows_ne := by simp [added.rows_ne] } :: rest
    else chunk :: appendRows added rest

/-- Buffers rows of one chunk time; `exceedsLimit` is whether they do not fit the last chunk. -/
def bufferChunk (added : BufferedChunk Tags Field Value) (exceedsLimit : Bool) :
    TableBuffer Tags Field Value :=
  { buffer with
    chunks := if exceedsLimit then buffer.chunks ++ [added] else appendRows added buffer.chunks }

def partitionedRecordBatches (filter : ChunkFilter) : List (Batch Tags Field Value) :=
  mergeBatches (((buffer.snapshottingChunks ++ buffer.chunks).filter fun chunk =>
      filter.testTimeStampMinMax chunk.timestampMinMax.1 chunk.timestampMinMax.2).map fun chunk =>
    ⟨chunk.chunkTime, chunk.timestampMinMax, chunk.rows⟩)

/-- The chunks in the order of the map that holds them. -/
def chunksByTime : List (BufferedChunk Tags Field Value) :=
  buffer.chunks.insertionSort fun a b => a.chunkTime ≤ b.chunkTime

/-- The time range by which a whole file of the tail is skipped. The fold pairs the bounds of the
accumulator with each other, so it does not give the range of the chunks. -/
def timestampMinMax : Int × Int :=
  let range := if buffer.chunks.isEmpty then (0, 0)
    else (buffer.chunksByTime.map (·.timestampMinMax)).foldl
      (fun acc range => (min acc.1 acc.2, max range.1 range.2)) (i64Max, i64Min)
  (buffer.snapshottingChunks.map (·.timestampMinMax)).foldl rangeUnion range

def snapshot (olderThanChunkTime : Int) : TableBuffer Tags Field Value where
  chunks := buffer.chunks.filter fun chunk => !decide (chunk.chunkTime < olderThanChunkTime)
  snapshottingChunks := buffer.chunks.filter fun chunk => chunk.chunkTime < olderThanChunkTime

def clearSnapshots : TableBuffer Tags Field Value := { buffer with snapshottingChunks := [] }

end TableBuffer

/-- A parquet file and its rows, which lie in its time range. -/
structure StoredFile (Tags Field Value : Type*) where
  file : ParquetFile
  rows : List (Row Tags Field Value)
  range : file.minTime ≤ file.maxTime ∧
    ∀ row ∈ rows, file.minTime ≤ row.key.time ∧ row.key.time ≤ file.maxTime

/-- A WAL file of a writer, replayed into a buffer of its own. -/
structure TailFile (Tags Field Value : Type*) where
  writerNodeId : String
  seq : Nat
  buffer : TableBuffer Tags Field Value

structure TableConfig (Id : Type*) where
  gen1Duration : Gen1Duration
  maxDedupSplit : Nat
  maxFilesPerWriter : Nat
  partitionHash : String → Id
  key : TableKey
  compactor : Compactor
  minFilesForCompaction : Nat
  generationNanos : Nat → Int

/-- A table as one node sees it. `persistJobs` are the chunks of the running snapshot that are not
yet files. -/
structure Table (Tags Field Value : Type*) where
  buffer : TableBuffer Tags Field Value := {}
  persistJobs : List (BufferedChunk Tags Field Value) := []
  persisted : List (StoredFile Tags Field Value) := []
  tail : List (TailFile Tags Field Value) := []

variable {Id : Type*}

def chunkOrderWalTail : Int := i64Max - 2

def walTailKey : String := "wal-tail"

/-- A chunk of rows in memory, which may have duplicates. -/
def memoryChunk (config : TableConfig Id) (partitionKey : String) (chunkOrder : Int)
    (batch : Batch Tags Field Value) : QueryChunk Id Tags Field Value where
  partitionId := config.partitionHash partitionKey
  order := chunkOrder
  id := 0
  timestampMinMax := some batch.range
  mayContainPkDuplicates := true
  rows := batch.rows

def parquetChunkFromFile (config : TableConfig Id) (stored : StoredFile Tags Field Value)
    (chunkOrder : Int) : QueryChunk Id Tags Field Value where
  partitionId := config.partitionHash (toString stored.file.chunkTime)
  order := chunkOrder
  id := 0
  timestampMinMax := some (stored.file.minTime, stored.file.maxTime)
  mayContainPkDuplicates := false
  rows := stored.rows

def withIds (chunks : List (QueryChunk Id Tags Field Value)) :
    List (QueryChunk Id Tags Field Value) :=
  chunks.zipIdx.map fun (chunk, id) => { chunk with id := id }

namespace Table

variable (config : TableConfig Id) (table : Table Tags Field Value)

def bufferChunks (filter : ChunkFilter) : List (QueryChunk Id Tags Field Value) :=
  (table.buffer.partitionedRecordBatches filter).map fun batch =>
    memoryChunk config (toString batch.chunkTime) i64Max batch

/-- The files a query reads, latest start first. -/
def filesFiltered (filter : ChunkFilter) : List (StoredFile Tags Field Value) :=
  (table.persisted.filter fun stored => filter.testTimeStampMinMax stored.file.minTime
    stored.file.maxTime).insertionSort fun a b => b.file.minTime ≤ a.file.minTime

/-- The files are numbered from the number of buffer chunks on. -/
def parquetChunks (filter : ChunkFilter) : List (QueryChunk Id Tags Field Value) :=
  ((table.filesFiltered filter).zipIdx (table.bufferChunks config filter).length).map
    fun (stored, chunkOrder) => parquetChunkFromFile config stored chunkOrder

def tailChunks (filter : ChunkFilter) : List (QueryChunk Id Tags Field Value) :=
  (mergeBatches ((table.tail.filter fun file => filter.testTimeStampMinMax
      file.buffer.timestampMinMax.1 file.buffer.timestampMinMax.2).flatMap fun file =>
    file.buffer.partitionedRecordBatches filter)).map fun batch =>
    memoryChunk config walTailKey chunkOrderWalTail batch

def getTableChunks (filter : ChunkFilter) : List (QueryChunk Id Tags Field Value) :=
  withIds (table.bufferChunks config filter ++ table.parquetChunks config filter ++
    table.tailChunks config filter)

/-- What the table holds, chunk by chunk, with the partition key each is handed out under. -/
def holdings : List (String × List (Row Tags Field Value)) :=
  (table.buffer.snapshottingChunks ++ table.buffer.chunks ++ table.persistJobs).map
      (fun chunk => (toString chunk.chunkTime, chunk.rows)) ++
    table.persisted.map (fun stored => (toString stored.file.chunkTime, stored.rows)) ++
    table.tail.flatMap fun file =>
      (file.buffer.snapshottingChunks ++ file.buffer.chunks).map fun chunk =>
        (walTailKey, chunk.rows)

end Table

/-- A time range that is one and covers the rows. -/
def Covers (range : Int × Int) (rows : List (Row Tags Field Value)) : Prop :=
  range.1 ≤ range.2 ∧ ∀ row ∈ rows, range.1 ≤ row.key.time ∧ row.key.time ≤ range.2

theorem exists_mem_zipIdx {α : Type*} {items : List α} {item : α} (start : Nat)
    (hitem : item ∈ items) : ∃ index, (item, index) ∈ items.zipIdx start := by
  rw [← zipIdx_map_fst start items] at hitem
  obtain ⟨⟨_, index⟩, hpair, rfl⟩ := mem_map.mp hitem
  exact ⟨index, hpair⟩

theorem foldl_rangeUnion_le {ranges : List (Int × Int)} {init range : Int × Int}
    (hrange : range = init ∨ range ∈ ranges) :
    (ranges.foldl rangeUnion init).1 ≤ range.1 ∧ range.2 ≤ (ranges.foldl rangeUnion init).2 := by
  induction ranges generalizing init range with
  | nil =>
    obtain rfl : range = init := by simpa using hrange
    exact ⟨le_rfl, le_rfl⟩
  | cons first rest ih =>
    rw [foldl_cons]
    have hunion := ih (.inl (Eq.refl (rangeUnion init first)))
    simp only [rangeUnion, le_min_iff, max_le_iff] at hunion
    rcases hrange with rfl | hmem
    · exact ⟨hunion.1.1, hunion.2.1⟩
    · rcases mem_cons.mp hmem with rfl | hrest
      · exact ⟨hunion.1.2, hunion.2.2⟩
      · exact ih (.inr hrest)

theorem BufferedChunk.covers (chunk : BufferedChunk Tags Field Value) :
    Covers chunk.timestampMinMax chunk.rows := by
  have hrow : ∀ row ∈ chunk.rows, chunk.timestampMinMax.1 ≤ row.key.time ∧
      row.key.time ≤ chunk.timestampMinMax.2 := fun row hrow =>
    foldl_rangeUnion_le (.inr (mem_map_of_mem hrow))
  obtain ⟨row, hmem⟩ := exists_mem_of_ne_nil _ chunk.rows_ne
  have hbounds := hrow row hmem
  exact ⟨hbounds.1.trans hbounds.2, hrow⟩

section Batches

variable {batches : List (Batch Tags Field Value)} {merged : Batch Tags Field Value}

theorem exists_of_mem_mergeBatches (hmerged : merged ∈ mergeBatches batches) :
    (∃ batch ∈ batches, batch.chunkTime = merged.chunkTime) ∧
      ∀ row ∈ merged.rows, ∃ batch ∈ batches, batch.chunkTime = merged.chunkTime ∧
        row ∈ batch.rows := by
  obtain ⟨chunkTime, htime, rfl⟩ := mem_map.mp hmerged
  obtain ⟨batch, hbatch, hsame⟩ := mem_map.mp (mem_dedup.mp htime)
  refine ⟨⟨batch, hbatch, hsame⟩, fun row hrow => ?_⟩
  obtain ⟨batch, hmem, hin⟩ := mem_flatMap.mp hrow
  obtain ⟨hbatch, htime⟩ := mem_filter.mp hmem
  exact ⟨batch, hbatch, by simpa using htime, hin⟩

theorem covers_mergeBatches (hcovers : ∀ batch ∈ batches, Covers batch.range batch.rows)
    (hmerged : merged ∈ mergeBatches batches) : Covers merged.range merged.rows := by
  obtain ⟨chunkTime, htime, rfl⟩ := mem_map.mp hmerged
  have hwithin : ∀ batch ∈ batches.filter fun batch => batch.chunkTime = chunkTime,
      (((batches.filter fun batch => batch.chunkTime = chunkTime).map (·.range)).foldl rangeUnion
          (i64Max, i64Min)).1 ≤ batch.range.1 ∧
        batch.range.2 ≤ (((batches.filter fun batch => batch.chunkTime = chunkTime).map
          (·.range)).foldl rangeUnion (i64Max, i64Min)).2 := fun batch hbatch =>
    foldl_rangeUnion_le (.inr (mem_map_of_mem hbatch))
  obtain ⟨batch, hbatch, hsame⟩ := mem_map.mp (mem_dedup.mp htime)
  constructor
  · have hbounds := hwithin batch (mem_filter.mpr ⟨hbatch, by simpa using hsame⟩)
    have hrange := (hcovers batch hbatch).1
    exact hbounds.1.trans (hrange.trans hbounds.2)
  · intro row hrow
    obtain ⟨batch, hmem, hin⟩ := mem_flatMap.mp hrow
    have hbounds := hwithin batch hmem
    have htime := (hcovers batch (mem_filter.mp hmem).1).2 row hin
    exact ⟨hbounds.1.trans htime.1, htime.2.trans hbounds.2⟩

variable {buffer : TableBuffer Tags Field Value} {filter : ChunkFilter}

theorem covers_partitionedRecordBatches
    (hmerged : merged ∈ buffer.partitionedRecordBatches filter) :
    Covers merged.range merged.rows := by
  refine covers_mergeBatches ?_ hmerged
  rw [forall_mem_map]
  exact fun chunk _ => chunk.covers

theorem exists_of_mem_partitionedRecordBatches
    (hmerged : merged ∈ buffer.partitionedRecordBatches filter) :
    ∀ row ∈ merged.rows, ∃ chunk ∈ buffer.snapshottingChunks ++ buffer.chunks,
      chunk.chunkTime = merged.chunkTime ∧ row ∈ chunk.rows := by
  intro row hrow
  obtain ⟨batch, hbatch, htime, hin⟩ := (exists_of_mem_mergeBatches hmerged).2 row hrow
  obtain ⟨chunk, hchunk, rfl⟩ := mem_map.mp hbatch
  exact ⟨chunk, (mem_filter.mp hchunk).1, htime, hin⟩

end Batches

section Chunks

variable {config : TableConfig Id} {table : Table Tags Field Value} {filter : ChunkFilter}
variable {chunk : QueryChunk Id Tags Field Value}

/-- What is known of a chunk handed to a query: the key it is handed out under is that of what the
table holds, its time range holds, and only files claim to be free of duplicates. -/
structure Handed (config : TableConfig Id) (table : Table Tags Field Value)
    (chunk : QueryChunk Id Tags Field Value) : Prop where
  held : ∃ partitionKey, chunk.partitionId = config.partitionHash partitionKey ∧
    ∀ row ∈ chunk.rows, ∃ rows, (partitionKey, rows) ∈ table.holdings ∧ row ∈ rows
  range : ∀ range ∈ chunk.timestampMinMax, Covers range chunk.rows
  stored : chunk.mayContainPkDuplicates = false →
    ∃ stored ∈ table.persisted, chunk.rows = stored.rows

theorem handed_of_mem_bufferChunks (hchunk : chunk ∈ table.bufferChunks config filter) :
    Handed config table chunk := by
  obtain ⟨batch, hbatch, rfl⟩ := mem_map.mp hchunk
  refine ⟨⟨toString batch.chunkTime, rfl, fun row hrow => ?_⟩, ?_, by simp [memoryChunk]⟩
  · obtain ⟨buffered, hbuffered, htime, hin⟩ :=
      exists_of_mem_partitionedRecordBatches hbatch row hrow
    refine ⟨buffered.rows, ?_, hin⟩
    simp only [Table.holdings, mem_append, mem_map]
    exact .inl (.inl ⟨buffered, .inl (mem_append.mp hbuffered), by rw [htime]⟩)
  · rintro range ⟨⟩
    exact covers_partitionedRecordBatches hbatch

theorem handed_parquetChunkFromFile {stored : StoredFile Tags Field Value}
    (hstored : stored ∈ table.persisted) (chunkOrder : Int) :
    Handed config table (parquetChunkFromFile config stored chunkOrder) := by
  refine ⟨⟨toString stored.file.chunkTime, rfl, fun row hrow => ⟨stored.rows, ?_, hrow⟩⟩, ?_,
    fun _ => ⟨stored, hstored, rfl⟩⟩
  · simp only [Table.holdings, mem_append, mem_map]
    exact .inl (.inr ⟨stored, hstored, rfl⟩)
  · rintro range ⟨⟩
    exact stored.range

theorem handed_of_mem_parquetChunks (hchunk : chunk ∈ table.parquetChunks config filter) :
    Handed config table chunk := by
  obtain ⟨⟨stored, chunkOrder⟩, hstored, rfl⟩ := mem_map.mp hchunk
  have hsorted := (mem_insertionSort _).mp (fst_mem_of_mem_zipIdx hstored)
  exact handed_parquetChunkFromFile (mem_filter.mp hsorted).1 chunkOrder

theorem handed_of_mem_tailChunks (hchunk : chunk ∈ table.tailChunks config filter) :
    Handed config table chunk := by
  obtain ⟨batch, hbatch, rfl⟩ := mem_map.mp hchunk
  refine ⟨⟨walTailKey, rfl, fun row hrow => ?_⟩, ?_, by simp [memoryChunk]⟩
  · obtain ⟨part, hpart, _, hin⟩ := (exists_of_mem_mergeBatches hbatch).2 row hrow
    obtain ⟨file, hfile, hfiled⟩ := mem_flatMap.mp hpart
    obtain ⟨buffered, hbuffered, _, hrows⟩ :=
      exists_of_mem_partitionedRecordBatches hfiled row hin
    refine ⟨buffered.rows, ?_, hrows⟩
    simp only [Table.holdings, mem_append, mem_flatMap, mem_map]
    exact .inr ⟨file, (mem_filter.mp hfile).1, buffered, mem_append.mp hbuffered, rfl⟩
  · rintro range ⟨⟩
    refine covers_mergeBatches ?_ hbatch
    intro part hpart
    obtain ⟨file, _, hfiled⟩ := mem_flatMap.mp hpart
    exact covers_partitionedRecordBatches hfiled

theorem handed_of_mem_withIds {chunks : List (QueryChunk Id Tags Field Value)}
    (hhanded : ∀ chunk ∈ chunks, Handed config table chunk) (hchunk : chunk ∈ withIds chunks) :
    Handed config table chunk := by
  obtain ⟨⟨source, id⟩, hsource, rfl⟩ := mem_map.mp hchunk
  have hsourced := hhanded source (fst_mem_of_mem_zipIdx hsource)
  exact ⟨hsourced.held, hsourced.range, hsourced.stored⟩

theorem handed_of_mem_getTableChunks (hchunk : chunk ∈ table.getTableChunks config filter) :
    Handed config table chunk := by
  refine handed_of_mem_withIds (fun source hsource => ?_) hchunk
  rw [mem_append, mem_append] at hsource
  rcases hsource with (hbuffer | hparquet) | htail
  · exact handed_of_mem_bufferChunks hbuffer
  · exact handed_of_mem_parquetChunks hparquet
  · exact handed_of_mem_tailChunks htail

theorem nodup_withIds (chunks : List (QueryChunk Id Tags Field Value)) :
    (withIds chunks).Nodup := by
  have hids : ((withIds chunks).map (·.id)) = List.range' 0 chunks.length := by
    simp [withIds, Function.comp_def]
  refine List.Nodup.of_map (·.id) ?_
  rw [hids]
  exact nodup_range'

end Chunks

end RefluxDb.Write
