import RefluxDb.Write.TableChunks

/-! Whether rows with the same primary key are handed to a query under one partition id.

A row of a given time always has the same gen1 chunk time, so the buffer and the gen1 files agree
on its key. A compacted file's key is its first time rounded by a longer duration, and the key of
the WAL tail is a constant: a later write of a row that was compacted, or a row that is in the
tail and in a file, is handed out under two keys. -/

namespace RefluxDb.Write

open List Option RefluxDb.Library RefluxDb.Query RefluxDb.Wal

variable {Id Tags Field Value : Type*} [LinearOrder Id] [DecidableEq Tags]

inductive TableAction (Tags Field Value : Type*) where
  | bufferChunk (added : BufferedChunk Tags Field Value) (exceedsLimit : Bool)
  | snapshot (olderThanChunkTime : Int)
  | persist (index : Nat) (path : String) (id sizeBytes : Nat)
  | addPeerFile (stored : StoredFile Tags Field Value)
  | compact (generation maxFiles : Nat) (job : List ParquetFile) (compactionId : String)
      (id sizeBytes : Nat)
  | removeFiles (paths : List String)
  | replayWalFile (writerNodeId : String) (seq : Nat)
    (chunks : List (BufferedChunk Tags Field Value))
  | evictUpTo (writerNodeId : String) (seq : Nat)

namespace Table

section Steps

variable (config : TableConfig Id) (table : Table Tags Field Value)

/-- The rows all have this gen1 chunk time. -/
def HaveChunkTime (chunkTime : Int) (rows : List (Row Tags Field Value)) : Prop :=
  ∀ row ∈ rows, config.gen1Duration.chunkTimeForTimestamp row.key.time = chunkTime
deriving Decidable

def persistedFile (job : BufferedChunk Tags Field Value) (path : String) (id sizeBytes : Nat) :
    StoredFile Tags Field Value where
  file :=
    { id := id
      path := path
      sizeBytes := sizeBytes
      rowCount := (deduplicate job.rows).length
      chunkTime := job.chunkTime
      minTime := job.timestampMinMax.1
      maxTime := job.timestampMinMax.2 }
  rows := deduplicate job.rows
  range := by
    refine ⟨job.covers.1, fun row hrow => ?_⟩
    have hkey : row.key ∈ job.rows.map (·.key) := by
      have hmem := mem_map_of_mem (f := fun row : Row Tags Field Value => row.key) hrow
      simpa [deduplicate, Function.comp_def] using hmem
    obtain ⟨row', hrow', hsame⟩ := mem_map.mp hkey
    rw [← hsame]
    exact job.covers.2 row' hrow'

def filesOfGeneration (generation : Nat) : List ParquetFile :=
  ((table.filesFiltered {}).map (·.file)).filter fun file =>
    getFileGeneration file = some generation

/-- The stored files a job names, in its order. -/
def jobInputs (job : List ParquetFile) : List (StoredFile Tags Field Value) :=
  job.filterMap fun file => table.persisted.find? fun stored => stored.file.path = file.path

def createChunksFromFiles (job : List ParquetFile) : List (QueryChunk Id Tags Field Value) :=
  withIds ((table.jobInputs job).zipIdx.map fun (stored, chunkOrder) =>
    parquetChunkFromFile config stored chunkOrder)

def jobRows (job : List ParquetFile) : List (Row Tags Field Value) :=
  splitDedup config.maxDedupSplit (table.createChunksFromFiles config job)

def withoutFiles (paths : List String) : Table Tags Field Value :=
  { table with
    persisted := table.persisted.filter fun stored => !decide (stored.file.path ∈ paths) }

/-- The output of a job, if it has rows. -/
def compactedFile (generation : Nat) (job : List ParquetFile) (compactionId : String)
    (id sizeBytes : Nat) : Option (StoredFile Tags Field Value) :=
  match hfile : config.compactor.writeCompactedFile config.key (generation + 1)
      (config.generationNanos (generation + 1)) (table.jobRows config job) compactionId id
      sizeBytes with
  | none => none
  | some file =>
    some ⟨file, table.jobRows config job, by
      obtain ⟨range, hrange, rfl⟩ := map_eq_some_iff.mp hfile
      obtain ⟨hbounds, row, hrow, htime⟩ := batchesTimeRangeAndRows_eq_some hrange
      refine ⟨?_, hbounds⟩
      change range.1 ≤ range.2.1
      rw [← htime]
      exact (hbounds row hrow).2⟩

/-- The numbers of a writer's files in a tail. -/
def seqsOf (writerNodeId : String) (tail : List (TailFile Tags Field Value)) : List Nat :=
  (tail.filter (·.writerNodeId = writerNodeId)).map (·.seq)

/-- The files of the tail after one more of a writer. At most `maxFilesPerWriter` stay, the oldest
go first. -/
def addTailFile (file : TailFile Tags Field Value) : List (TailFile Tags Field Value) :=
  let files := table.tail ++ [file]
  let seqs := (seqsOf file.writerNodeId files).insertionSort (· ≤ ·)
  let victims := seqs.take (seqs.length - config.maxFilesPerWriter)
  files.filter fun f => !(decide (f.writerNodeId = file.writerNodeId) && decide (f.seq ∈ victims))

/-- A compaction adds its output under one lock and removes its inputs under another, so the removal
is a step of its own, that of `removeFiles`. -/
def step : TableAction Tags Field Value → Option (Table Tags Field Value)
  | .bufferChunk added exceedsLimit =>
    if HaveChunkTime config added.chunkTime added.rows then
      some { table with buffer := table.buffer.bufferChunk added exceedsLimit }
    else none
  | .snapshot olderThanChunkTime =>
    let buffer := table.buffer.snapshot olderThanChunkTime
    some { table with
      buffer := buffer
      persistJobs := table.persistJobs ++ buffer.snapshottingChunks }
  | .persist index path id sizeBytes =>
    table.persistJobs[index]?.map fun job =>
      { table with
        persisted := table.persisted ++ [persistedFile job path id sizeBytes]
        buffer := table.buffer.clearSnapshots
        persistJobs := table.persistJobs.eraseIdx index }
  | .addPeerFile stored =>
    if (stored.rows.map (·.key)).Nodup ∧
        HaveChunkTime config stored.file.chunkTime stored.rows then
      some { table with persisted := table.persisted ++ [stored] }
    else none
  | .compact generation maxFiles job compactionId id sizeBytes =>
    let files := table.filesOfGeneration generation
    if canCompactToGeneration config.minFilesForCompaction files
          (config.generationNanos (generation + 1)) ∧
        job ∈ chunkFilesForJobs files maxFiles then
      match table.compactedFile config generation job compactionId id sizeBytes with
      | none => some table
      | some output => some { table with persisted := table.persisted ++ [output] }
    else none
  | .removeFiles paths => some (table.withoutFiles paths)
  | .replayWalFile writerNodeId seq chunks =>
    if (∀ chunk ∈ chunks, HaveChunkTime config chunk.chunkTime chunk.rows) ∧
        ∀ file ∈ table.tail, file.writerNodeId = writerNodeId → file.seq < seq then
      some { table with tail := table.addTailFile config ⟨writerNodeId, seq, { chunks := chunks }⟩ }
    else none
  | .evictUpTo writerNodeId seq =>
    some { table with tail := table.tail.filter fun file =>
      !(decide (file.writerNodeId = writerNodeId) && decide (file.seq ≤ seq)) }

def machine : Machine (Table Tags Field Value) (TableAction Tags Field Value) where
  initial table := table = {}
  step := step config

end Steps

/-- The table holds a row with this primary key under this partition key. -/
def Holds (table : Table Tags Field Value) (partitionKey : String) (key : PrimaryKey Tags) : Prop :=
  ∃ held ∈ table.holdings, held.1 = partitionKey ∧ ∃ row ∈ held.2, row.key = key

/-- Every row with one of these primary keys is held under this partition key. -/
def HoldsOnly (table : Table Tags Field Value) (partitionKey : String)
    (rows : List (Row Tags Field Value)) : Prop :=
  ∀ held ∈ table.holdings, (∃ row ∈ held.2, ∃ added ∈ rows, row.key = added.key) →
    held.1 = partitionKey

instance (table : Table Tags Field Value) (partitionKey : String)
    (rows : List (Row Tags Field Value)) : Decidable (table.HoldsOnly partitionKey rows) :=
  inferInstanceAs (Decidable (∀ held ∈ table.holdings, _))

/-- The steps that bring rows in only under the partition key their primary keys are held under,
if they are held at all. A compaction's inputs are held beside its output until they are removed. -/
def KeepsApart (config : TableConfig Id) (table : Table Tags Field Value) :
    TableAction Tags Field Value → Prop
  | .bufferChunk added _ => table.HoldsOnly (toString added.chunkTime) added.rows
  | .addPeerFile stored => table.HoldsOnly (toString stored.file.chunkTime) stored.rows
  | .compact generation _ job _ _ _ =>
    let rows := (table.jobInputs job).flatMap (·.rows)
    ∀ range ∈ batchesTimeRangeAndRows rows, table.HoldsOnly
      (toString (chunkTimeForDuration range.1 (config.generationNanos (generation + 1)))) rows
  | .replayWalFile _ _ chunks => table.HoldsOnly walTailKey (chunks.flatMap (·.rows))
  | _ => True

instance (config : TableConfig Id) (table : Table Tags Field Value)
    (action : TableAction Tags Field Value) : Decidable (KeepsApart config table action) := by
  cases action <;> unfold KeepsApart <;> infer_instance

variable {config : TableConfig Id} {table next : Table Tags Field Value}
variable {partitionKey partitionKey' : String} {key : PrimaryKey Tags}

/-- Each primary key is held under one partition key, and files have no duplicates. -/
structure Partitioned (table : Table Tags Field Value) : Prop where
  separated : ∀ partitionKey partitionKey' key, table.Holds partitionKey key →
    table.Holds partitionKey' key → partitionKey = partitionKey'
  unique : ∀ stored ∈ table.persisted, (stored.rows.map (·.key)).Nodup

omit [DecidableEq Tags] in
theorem holds_iff : table.Holds partitionKey key ↔
    (∃ chunk ∈ table.buffer.snapshottingChunks ++ table.buffer.chunks ++ table.persistJobs,
      toString chunk.chunkTime = partitionKey ∧ ∃ row ∈ chunk.rows, row.key = key) ∨
    (∃ stored ∈ table.persisted,
      toString stored.file.chunkTime = partitionKey ∧ ∃ row ∈ stored.rows, row.key = key) ∨
    ∃ file ∈ table.tail, walTailKey = partitionKey ∧
      ∃ chunk ∈ file.buffer.snapshottingChunks ++ file.buffer.chunks, ∃ row ∈ chunk.rows,
        row.key = key := by
  constructor
  · rintro ⟨held, hheld, rfl, hrow⟩
    rw [holdings, mem_append, mem_append] at hheld
    rcases hheld with (hbuffer | hpersisted) | htail
    · obtain ⟨chunk, hchunk, rfl⟩ := mem_map.mp hbuffer
      exact .inl ⟨chunk, hchunk, rfl, hrow⟩
    · obtain ⟨stored, hstored, rfl⟩ := mem_map.mp hpersisted
      exact .inr (.inl ⟨stored, hstored, rfl, hrow⟩)
    · obtain ⟨file, hfile, hin⟩ := mem_flatMap.mp htail
      obtain ⟨chunk, hchunk, rfl⟩ := mem_map.mp hin
      exact .inr (.inr ⟨file, hfile, rfl, chunk, hchunk, hrow⟩)
  · rintro (⟨chunk, hchunk, rfl, hrow⟩ | ⟨stored, hstored, rfl, hrow⟩ |
      ⟨file, hfile, rfl, chunk, hchunk, hrow⟩)
    · exact ⟨(toString chunk.chunkTime, chunk.rows), mem_append_left _ (mem_append_left _
        (mem_map.mpr ⟨chunk, hchunk, rfl⟩)), rfl, hrow⟩
    · exact ⟨(toString stored.file.chunkTime, stored.rows), mem_append_left _
        (mem_append_right _ (mem_map.mpr ⟨stored, hstored, rfl⟩)), rfl, hrow⟩
    · exact ⟨(walTailKey, chunk.rows), mem_append_right _ (mem_flatMap.mpr ⟨file, hfile,
        mem_map.mpr ⟨chunk, hchunk, rfl⟩⟩), rfl, hrow⟩

variable {rows : List (Row Tags Field Value)}

section

omit [DecidableEq Tags]

theorem HoldsOnly.eq {added : Row Tags Field Value}
    (honly : table.HoldsOnly partitionKey rows) (hadded : added ∈ rows)
    (hholds : table.Holds partitionKey' added.key) : partitionKey' = partitionKey := by
  obtain ⟨held, hheld, rfl, row, hrow, hkey⟩ := hholds
  exact honly held hheld ⟨row, hrow, added, hadded, hkey⟩

/-- A step keeps the keys separated if whatever it holds was held before, or is new under a key
that alone may hold it. -/
theorem Partitioned.separated_of (hpartitioned : table.Partitioned)
    (honly : table.HoldsOnly partitionKey rows)
    (hholds : ∀ partitionKey' key, next.Holds partitionKey' key →
      table.Holds partitionKey' key ∨ partitionKey' = partitionKey ∧ ∃ row ∈ rows, row.key = key) :
    ∀ k k' key, next.Holds k key → next.Holds k' key → k = k' := by
  intro k k' key hk hk'
  rcases hholds k key hk with hold | ⟨rfl, row, hrow, rfl⟩
  · rcases hholds k' key hk' with hold' | ⟨rfl, row, hrow, rfl⟩
    · exact hpartitioned.separated k k' key hold hold'
    · exact honly.eq hrow hold
  · rcases hholds k' row.key hk' with hold' | ⟨rfl, _⟩
    · exact (honly.eq hrow hold').symm
    · rfl

theorem Partitioned.separated_mono (hpartitioned : table.Partitioned)
    (hholds : ∀ partitionKey key, next.Holds partitionKey key → table.Holds partitionKey key) :
    ∀ k k' key, next.Holds k key → next.Holds k' key → k = k' :=
  fun k k' key hk hk' => hpartitioned.separated k k' key (hholds k key hk) (hholds k' key hk')

end

variable {chunks : List (BufferedChunk Tags Field Value)} {row : Row Tags Field Value}

variable {added chunk : BufferedChunk Tags Field Value}

omit [DecidableEq Tags] in
/-- A row of the buffer after rows were added to it was there, in a chunk of the same chunk time, or
is one of them. -/
theorem mem_appendRows
    (hchunk : chunk ∈ TableBuffer.appendRows added chunks) (hrow : row ∈ chunk.rows) :
    (∃ old ∈ chunks, old.chunkTime = chunk.chunkTime ∧ row ∈ old.rows) ∨
      added.chunkTime = chunk.chunkTime ∧ row ∈ added.rows := by
  induction chunks with
  | nil =>
    rw [TableBuffer.appendRows, mem_singleton] at hchunk
    exact .inr ⟨by rw [hchunk], hchunk ▸ hrow⟩
  | cons first rest ih =>
    rw [TableBuffer.appendRows] at hchunk
    split at hchunk
    case isTrue hlast =>
      rcases mem_cons.mp hchunk with rfl | hin
      · rcases mem_append.mp hrow with hold | hnew
        · exact .inl ⟨first, by simp, rfl, hold⟩
        · exact .inr ⟨hlast.1.symm, hnew⟩
      · exact .inl ⟨chunk, by simp [hin], rfl, hrow⟩
    case isFalse =>
      rcases mem_cons.mp hchunk with rfl | hin
      · exact .inl ⟨chunk, by simp, rfl, hrow⟩
      · rcases ih hin with ⟨old, hold, hsame⟩ | hnew
        · exact .inl ⟨old, by simp [hold], hsame⟩
        · exact .inr hnew

variable {exceedsLimit : Bool}

omit [DecidableEq Tags] in
theorem mem_bufferChunk {buffer : TableBuffer Tags Field Value}
    (hchunk : chunk ∈ (buffer.bufferChunk added exceedsLimit).chunks)
    (hrow : row ∈ chunk.rows) :
    (∃ old ∈ buffer.chunks, old.chunkTime = chunk.chunkTime ∧ row ∈ old.rows) ∨
      added.chunkTime = chunk.chunkTime ∧ row ∈ added.rows := by
  cases exceedsLimit with
  | true =>
    rcases mem_concat.mp hchunk with hold | hnew
    · exact .inl ⟨chunk, hold, rfl, hrow⟩
    · rw [hnew] at hrow ⊢
      exact .inr ⟨rfl, hrow⟩
  | false => exact mem_appendRows hchunk hrow

theorem Partitioned.bufferChunk (hpartitioned : table.Partitioned)
    {added : BufferedChunk Tags Field Value}
    (hallowed : KeepsApart config table (.bufferChunk added exceedsLimit))
    (hstep : table.step config (.bufferChunk added exceedsLimit) = some next) :
    next.Partitioned := by
  simp only [step, ite_none_right_eq_some, some.injEq] at hstep
  obtain ⟨_, rfl⟩ := hstep
  refine ⟨hpartitioned.separated_of hallowed ?_, hpartitioned.unique⟩
  intro partitionKey key hholds
  rw [holds_iff] at hholds ⊢
  rcases hholds with ⟨chunk, hchunk, rfl, row, hrow, rfl⟩ | hrest
  · simp only [mem_append] at hchunk
    rcases hchunk with (hsnapshotting | hbuffered) | hjob
    · exact .inl (.inl ⟨chunk, by simp [show chunk ∈ table.buffer.snapshottingChunks from
        hsnapshotting], rfl, row, hrow, rfl⟩)
    · rcases mem_bufferChunk hbuffered hrow with ⟨old, hold, htime, hin⟩ | ⟨htime, hin⟩
      · exact .inl (.inl ⟨old, by simp [hold], by rw [htime], row, hin, rfl⟩)
      · exact .inr ⟨by rw [htime], row, hin, rfl⟩
    · exact .inl (.inl ⟨chunk, by simp [hjob], rfl, row, hrow, rfl⟩)
  · exact .inl (.inr hrest)

theorem Partitioned.snapshot (hpartitioned : table.Partitioned) {olderThanChunkTime : Int}
    (hstep : table.step config (.snapshot olderThanChunkTime) = some next) :
    next.Partitioned := by
  simp only [step, some.injEq] at hstep
  subst hstep
  refine ⟨hpartitioned.separated_mono ?_, hpartitioned.unique⟩
  intro partitionKey key hholds
  rw [holds_iff] at hholds ⊢
  rcases hholds with ⟨chunk, hchunk, hrow⟩ | hrest
  · refine .inl ⟨chunk, ?_, hrow⟩
    simp only [TableBuffer.snapshot, mem_append, mem_filter] at hchunk ⊢
    grind
  · exact .inr hrest

theorem Partitioned.persist (hpartitioned : table.Partitioned) {index : Nat} {path : String}
    {id sizeBytes : Nat}
    (hstep : table.step config (.persist index path id sizeBytes) = some next) :
    next.Partitioned := by
  obtain ⟨job, hjob, rfl⟩ := map_eq_some_iff.mp hstep
  refine ⟨hpartitioned.separated_mono ?_, ?_⟩
  · intro partitionKey key hholds
    rw [holds_iff] at hholds ⊢
    rcases hholds with ⟨chunk, hchunk, hrow⟩ | ⟨stored, hstored, rfl, row, hrow, rfl⟩ | htail
    · refine .inl ⟨chunk, ?_, hrow⟩
      simp only [TableBuffer.clearSnapshots, nil_append, mem_append] at hchunk ⊢
      rcases hchunk with hbuffered | herased
      · exact .inl (.inr hbuffered)
      · exact .inr (mem_of_mem_eraseIdx herased)
    · rcases mem_concat.mp hstored with hold | hnew
      · exact .inr (.inl ⟨stored, hold, rfl, row, hrow, rfl⟩)
      · rw [hnew] at hrow ⊢
        have hkey : row.key ∈ job.rows.map (·.key) := by
          have hmem := mem_map_of_mem (f := fun row : Row Tags Field Value => row.key) hrow
          simpa [persistedFile, deduplicate, Function.comp_def] using hmem
        obtain ⟨row', hrow', hsame⟩ := mem_map.mp hkey
        exact .inl ⟨job, mem_append_right _ (mem_of_getElem? hjob), rfl, row', hrow', hsame⟩
    · exact .inr (.inr htail)
  · refine forall_mem_concat.mpr ⟨hpartitioned.unique, ?_⟩
    exact nodup_deduplicate _

variable {stored : StoredFile Tags Field Value}

omit [DecidableEq Tags] in
/-- A file is added whose primary keys are held under its own partition key alone. -/
theorem Partitioned.addFile (hpartitioned : table.Partitioned)
    (honly : table.HoldsOnly (toString stored.file.chunkTime) rows)
    (hkeys : ∀ key, (∃ row ∈ stored.rows, row.key = key) → ∃ row ∈ rows, row.key = key)
    (hnodup : (stored.rows.map (·.key)).Nodup) :
    Partitioned { table with persisted := table.persisted ++ [stored] } := by
  refine ⟨hpartitioned.separated_of honly ?_,
    forall_mem_concat.mpr ⟨hpartitioned.unique, hnodup⟩⟩
  intro partitionKey key hholds
  rw [holds_iff] at hholds ⊢
  rcases hholds with hbuffer | ⟨other, hother, rfl, hrow⟩ | htail
  · exact .inl (.inl hbuffer)
  · rcases mem_concat.mp hother with hold | rfl
    · exact .inl (.inr (.inl ⟨other, hold, rfl, hrow⟩))
    · exact .inr ⟨rfl, hkeys key hrow⟩
  · exact .inl (.inr (.inr htail))

theorem Partitioned.addPeerFile (hpartitioned : table.Partitioned)
    (hallowed : KeepsApart config table (.addPeerFile stored))
    (hstep : table.step config (.addPeerFile stored) = some next) : next.Partitioned := by
  simp only [step, ite_none_right_eq_some, some.injEq] at hstep
  obtain ⟨⟨hnodup, _⟩, rfl⟩ := hstep
  exact hpartitioned.addFile hallowed (fun _ h => h) hnodup

omit [DecidableEq Tags] in
theorem holds_of_withoutFiles {paths : List String}
    (hholds : (table.withoutFiles paths).Holds partitionKey key) :
      table.Holds partitionKey key := by
  rw [holds_iff] at hholds ⊢
  rcases hholds with hbuffer | ⟨stored, hstored, hrow⟩ | htail
  · exact .inl hbuffer
  · exact .inr (.inl ⟨stored, (mem_filter.mp hstored).1, hrow⟩)
  · exact .inr (.inr htail)

omit [DecidableEq Tags] in
theorem Partitioned.withoutFiles (hpartitioned : table.Partitioned) (paths : List String) :
    (table.withoutFiles paths).Partitioned :=
  ⟨hpartitioned.separated_mono fun _ _ => holds_of_withoutFiles,
    fun stored hstored => hpartitioned.unique stored (mem_filter.mp hstored).1⟩

omit [LinearOrder Id] [DecidableEq Tags] in
/-- Chunks handed out by a partitioned table are as the split de-duplication needs them. -/
theorem Partitioned.wellFormed (hpartitioned : table.Partitioned)
    {chunks : List (QueryChunk Id Tags Field Value)} (hnodup : chunks.Nodup)
    (hhanded : ∀ chunk ∈ chunks, Handed config table chunk) : WellFormed chunks where
  nodup := hnodup
  ranges chunk hchunk := (hhanded chunk hchunk).range
  unique chunk hchunk hflag := by
    obtain ⟨stored, hstored, hrows⟩ := (hhanded chunk hchunk).stored hflag
    rw [hrows]
    exact hpartitioned.unique stored hstored
  partitions chunk hchunk other hother hshared := by
    unfold Separate at hshared
    push Not at hshared
    obtain ⟨row, hrow, row', hrow', hkey⟩ := hshared
    obtain ⟨partitionKey, hid, hheld⟩ := (hhanded chunk hchunk).held
    obtain ⟨partitionKey', hid', hheld'⟩ := (hhanded other hother).held
    obtain ⟨rows, hrows, hin⟩ := hheld row hrow
    obtain ⟨rows', hrows', hin'⟩ := hheld' row' hrow'
    have hsame := hpartitioned.separated partitionKey partitionKey' row.key
      ⟨_, hrows, rfl, row, hin, rfl⟩ ⟨_, hrows', rfl, row', hin', hkey.symm⟩
    rw [hid, hid', hsame]

variable {job : List ParquetFile}

omit [DecidableEq Tags] in
theorem mem_jobInputs (hstored : stored ∈ table.jobInputs job) : stored ∈ table.persisted := by
  obtain ⟨file, _, hfind⟩ := mem_filterMap.mp hstored
  exact mem_of_find?_eq_some hfind

omit [LinearOrder Id] [DecidableEq Tags] in
theorem Partitioned.wellFormed_job (hpartitioned : table.Partitioned) (config : TableConfig Id)
    (job : List ParquetFile) : WellFormed (table.createChunksFromFiles config job) := by
  have hhanded : ∀ chunk ∈ table.createChunksFromFiles config job, Handed config table chunk := by
    intro chunk hchunk
    refine handed_of_mem_withIds (fun source hsource => ?_) hchunk
    obtain ⟨⟨stored, chunkOrder⟩, hstored, rfl⟩ := mem_map.mp hsource
    exact handed_parquetChunkFromFile (mem_jobInputs (fst_mem_of_mem_zipIdx hstored)) chunkOrder
  exact hpartitioned.wellFormed (nodup_withIds _) hhanded

omit [LinearOrder Id] [DecidableEq Tags] in
theorem exists_mem_createChunksFromFiles :
    (∃ chunk ∈ table.createChunksFromFiles config job, row ∈ chunk.rows) ↔
      ∃ stored ∈ table.jobInputs job, row ∈ stored.rows := by
  constructor
  · rintro ⟨chunk, hchunk, hrow⟩
    obtain ⟨⟨source, id⟩, hsource, rfl⟩ := mem_map.mp hchunk
    obtain ⟨⟨stored, chunkOrder⟩, hstored, rfl⟩ :=
      mem_map.mp (fst_mem_of_mem_zipIdx hsource)
    exact ⟨stored, fst_mem_of_mem_zipIdx hstored, hrow⟩
  · rintro ⟨stored, hstored, hrow⟩
    obtain ⟨chunkOrder, horder⟩ := exists_mem_zipIdx 0 hstored
    obtain ⟨id, hid⟩ := exists_mem_zipIdx 0 (mem_map_of_mem
      (f := fun p : StoredFile Tags Field Value × Nat => parquetChunkFromFile config p.1 p.2)
        horder)
    exact ⟨_, mem_map.mpr ⟨_, hid, rfl⟩, hrow⟩

/-- A job of a partitioned table reads the primary keys of its inputs, each once. -/
theorem Partitioned.jobRows_key (hpartitioned : table.Partitioned) (config : TableConfig Id)
    (job : List ParquetFile) :
    ((table.jobRows config job).map (·.key)).Nodup ∧
      ∀ key, (∃ row ∈ table.jobRows config job, row.key = key) ↔
        ∃ row ∈ (table.jobInputs job).flatMap (·.rows), row.key = key := by
  have hwf := hpartitioned.wellFormed_job config job
  refine ⟨nodup_splitDedup hwf _, fun key => ?_⟩
  rw [← List.mem_map, jobRows, mem_splitDedup_key_iff hwf]
  constructor
  · rintro ⟨chunk, hchunk, row, hrow, hkey⟩
    obtain ⟨stored, hstored, hin⟩ := exists_mem_createChunksFromFiles.mp ⟨chunk, hchunk, hrow⟩
    exact ⟨row, mem_flatMap.mpr ⟨stored, hstored, hin⟩, hkey⟩
  · rintro ⟨row, hrow, hkey⟩
    obtain ⟨stored, hstored, hin⟩ := mem_flatMap.mp hrow
    obtain ⟨chunk, hchunk, hrow⟩ := exists_mem_createChunksFromFiles.mpr ⟨stored, hstored, hin⟩
    exact ⟨chunk, hchunk, row, hrow, hkey⟩

variable {compactionId : String}

theorem compactedFile_eq_some {generation : Nat}
    {id sizeBytes : Nat} {output : StoredFile Tags Field Value}
    (houtput : table.compactedFile config generation job compactionId id sizeBytes = some output) :
    output.rows = table.jobRows config job ∧
      ∃ range, batchesTimeRangeAndRows (table.jobRows config job) = some range ∧
        output.file.chunkTime =
          chunkTimeForDuration range.1 (config.generationNanos (generation + 1)) := by
  unfold compactedFile at houtput
  split at houtput
  case h_1 => simp at houtput
  case h_2 file hfile =>
    obtain ⟨range, hrange, rfl⟩ := map_eq_some_iff.mp hfile
    rw [← some.inj houtput]
    refine ⟨?_, range, hrange, ?_⟩
    all_goals dsimp only

theorem Partitioned.compact (hpartitioned : table.Partitioned) {generation maxFiles : Nat}
    {id sizeBytes : Nat}
    (hallowed : KeepsApart config table
      (.compact generation maxFiles job compactionId id sizeBytes))
    (hstep : table.step config (.compact generation maxFiles job compactionId id sizeBytes) =
      some next) : next.Partitioned := by
  simp only [step, ite_none_right_eq_some] at hstep
  obtain ⟨_, hstep⟩ := hstep
  obtain ⟨hnodup, hkeys⟩ := hpartitioned.jobRows_key config job
  split at hstep
  case h_1 =>
    obtain rfl := some.inj hstep
    exact hpartitioned
  case h_2 output houtput =>
    obtain rfl := some.inj hstep
    obtain ⟨hrows, ⟨minTime, maxTime, rowCount⟩, hrange, htime⟩ := compactedFile_eq_some houtput
    have honly := hallowed _ (batchesTimeRangeAndRows_congr hkeys hrange)
    rw [← htime] at honly
    exact hpartitioned.addFile honly (fun key h => (hkeys key).mp (hrows ▸ h)) (hrows ▸ hnodup)

variable {writerNodeId : String}

theorem Partitioned.replayWalFile (hpartitioned : table.Partitioned)
    {seq : Nat}
    (hallowed : KeepsApart config table (.replayWalFile writerNodeId seq chunks))
    (hstep : table.step config (.replayWalFile writerNodeId seq chunks) = some next) :
    next.Partitioned := by
  simp only [step, ite_none_right_eq_some, some.injEq] at hstep
  obtain ⟨_, rfl⟩ := hstep
  refine ⟨hpartitioned.separated_of hallowed ?_, hpartitioned.unique⟩
  intro partitionKey key hholds
  rw [holds_iff] at hholds ⊢
  rcases hholds with hbuffer | hpersisted | ⟨file, hfile, rfl, chunk, hchunk, row, hrow, hkey⟩
  · exact .inl (.inl hbuffer)
  · exact .inl (.inr (.inl hpersisted))
  · rcases mem_concat.mp (mem_filter.mp hfile).1 with hold | rfl
    · exact .inl (.inr (.inr ⟨file, hold, rfl, chunk, hchunk, row, hrow, hkey⟩))
    · exact .inr ⟨rfl, row, mem_flatMap.mpr ⟨chunk, by simpa using hchunk, hrow⟩, hkey⟩

theorem Partitioned.evictUpTo (hpartitioned : table.Partitioned)
    {seq : Nat} (hstep : table.step config (.evictUpTo writerNodeId seq) = some next) :
    next.Partitioned := by
  obtain rfl := some.inj hstep
  refine ⟨hpartitioned.separated_mono fun partitionKey key hholds => ?_, hpartitioned.unique⟩
  rw [holds_iff] at hholds ⊢
  rcases hholds with hbuffer | hpersisted | ⟨file, hfile, hrest⟩
  · exact .inl hbuffer
  · exact .inr (.inl hpersisted)
  · exact .inr (.inr ⟨file, (mem_filter.mp hfile).1, hrest⟩)

theorem Partitioned.step {action : TableAction Tags Field Value} (hpartitioned : table.Partitioned)
    (hallowed : KeepsApart config table action) (hstep : table.step config action = some next) :
    next.Partitioned := by
  cases action with
  | bufferChunk added exceedsLimit => exact hpartitioned.bufferChunk hallowed hstep
  | snapshot olderThanChunkTime => exact hpartitioned.snapshot hstep
  | persist index path id sizeBytes => exact hpartitioned.persist hstep
  | addPeerFile stored => exact hpartitioned.addPeerFile hallowed hstep
  | compact generation maxFiles job compactionId id sizeBytes =>
    exact hpartitioned.compact hallowed hstep
  | removeFiles paths =>
    obtain rfl := some.inj hstep
    exact hpartitioned.withoutFiles paths
  | replayWalFile writerNodeId seq chunks => exact hpartitioned.replayWalFile hallowed hstep
  | evictUpTo writerNodeId seq => exact hpartitioned.evictUpTo hstep

/-- Rows with the same primary key in two chunks of a query have one partition id, and the query
returns no primary key twice. -/
def QueriesDeduplicate (config : TableConfig Id) (table : Table Tags Field Value) : Prop :=
  ∀ filter, (∀ chunk ∈ table.getTableChunks config filter,
      ∀ other ∈ table.getTableChunks config filter,
        (∃ row ∈ chunk.rows, ∃ row' ∈ other.rows, row.key = row'.key) →
          chunk.partitionId = other.partitionId) ∧
    ((splitDedup config.maxDedupSplit (table.getTableChunks config filter)).map (·.key)).Nodup

/-- In every state of a table reached by steps that bring in rows only under the partition key
their primary keys are held under, queries are de-duplicated. -/
theorem queriesDeduplicate_of_keepsApart (config : TableConfig Id) (table : Table Tags Field Value)
    (hreachable : (machine config).Reachable (KeepsApart config) table) :
    table.QueriesDeduplicate config := by
  have hpartitioned : table.Partitioned := by
    induction hreachable with
    | initial hinitial =>
      obtain rfl := hinitial
      exact ⟨fun _ _ _ hholds => by simp [Holds, holdings] at hholds, by simp⟩
    | step _ hallowed hstep ih =>
      change Table.step config _ _ = some _ at hstep
      exact ih.step hallowed hstep
  intro filter
  have hwf : WellFormed (table.getTableChunks config filter) :=
    hpartitioned.wellFormed (nodup_withIds _) fun chunk => handed_of_mem_getTableChunks
  refine ⟨fun chunk hchunk other hother hshared => ?_, nodup_splitDedup hwf _⟩
  obtain ⟨row, hrow, row', hrow', hkey⟩ := hshared
  exact hwf.partitions chunk hchunk other hother fun hseparate =>
    hseparate row hrow row' hrow' hkey

section Example

/-- Gen1 chunks of ten minutes, gen2 files of twenty and gen3 files of forty. The hash keeps the
partition key. -/
def tenMinutes : TableConfig String where
  gen1Duration := .new10m
  maxDedupSplit := 100
  maxFilesPerWriter := 64
  partitionHash := id
  key := ⟨1, 1⟩
  compactor := ⟨"compactor", "db", "t", fun _ => "2026-01-01/00-00"⟩
  minFilesForCompaction := 2
  generationNanos generation := 600000000000 * 2 ^ (generation - 1)

/-- A write of one row at the start of a gen1 chunk. -/
def writeAt (chunkTime : Int) (tags value : Nat) : TableAction Nat Unit Nat :=
  .bufferChunk ⟨chunkTime, [⟨⟨tags, chunkTime⟩, fun _ => some value⟩], by simp⟩ false

def writerPath (walSeq : Nat) : String := parquetFilePath "writer" 1 1 "2026-01-01/00-00" walSeq 0

def writerFile (walSeq : Nat) (chunkTime : Int) : ParquetFile :=
  ⟨walSeq, writerPath walSeq, 1, 1, chunkTime, chunkTime, chunkTime⟩

/-- The rows of the buffer become files. -/
def persistAs (walSeqs : List Nat) : List (TableAction Nat Unit Nat) :=
  .snapshot 9000000000000 :: walSeqs.map fun walSeq => .persist 0 (writerPath walSeq) walSeq 1

/-- Gen1 files are compacted; the inputs go after the output is added. -/
def compactToGen2 (maxFiles : Nat) (files : List ParquetFile) (id : Nat) :
    List (TableAction Nat Unit Nat) :=
  [.compact 1 maxFiles files s!"019b7000-0000-7000-8000-{id}" id 1,
    .removeFiles (files.map (·.path))]

theorem initial_table_reachable {allowed : Table Nat Unit Nat → TableAction Nat Unit Nat → Prop} :
    (machine tenMinutes).Reachable allowed {} := .initial rfl

/-- A row at time zero is written twice and once more when its two files are compacted; the files of
the generation span twenty minutes. -/
theorem queriesDeduplicate_of_keepsApart_rewrite :
    ∃ table : Table Nat Unit Nat, (machine tenMinutes).Reachable (KeepsApart tenMinutes) table ∧
      (table.getTableChunks tenMinutes {}).length = 3 ∧ table.QueriesDeduplicate tenMinutes := by
  refine initial_table_reachable.exists_of_exec_and
    ([writeAt 0 1 1] ++ persistAs [1] ++ [writeAt 0 1 2, writeAt 1200000000000 2 1] ++
      persistAs [2, 3] ++ compactToGen2 2 [writerFile 1 0, writerFile 2 0] 4 ++ [writeAt 0 1 3])
    _ (by decide) (by decide) ?_
  exact queriesDeduplicate_of_keepsApart tenMinutes

/-- Files of three gen1 chunks are compacted into one file at time zero. A later write of the row at
ten minutes is buffered under another partition key: a query returns the row twice. -/
theorem rewritten_row_returned_twice :
    ∃ table : Table Nat Unit Nat, (machine tenMinutes).Reachable Machine.Unrestricted table ∧
      (splitDedup tenMinutes.maxDedupSplit (table.getTableChunks tenMinutes {})).map (·.key) =
        [⟨0, 0⟩, ⟨1, 600000000000⟩, ⟨2, 1200000000000⟩, ⟨1, 600000000000⟩] ∧
      ¬table.QueriesDeduplicate tenMinutes := by
  obtain ⟨table, hreachable, hkeys⟩ := initial_table_reachable.exists_of_run
    ([writeAt 0 0 1, writeAt 600000000000 1 1, writeAt 1200000000000 2 1] ++
      persistAs [1, 2, 3] ++ compactToGen2 4
        [writerFile 1 0, writerFile 2 600000000000, writerFile 3 1200000000000] 4 ++
      [writeAt 600000000000 1 2])
    (fun table => (splitDedup tenMinutes.maxDedupSplit (table.getTableChunks tenMinutes {})).map
      (·.key) = [⟨0, 0⟩, ⟨1, 600000000000⟩, ⟨2, 1200000000000⟩, ⟨1, 600000000000⟩]) (by decide)
  refine ⟨table, hreachable, hkeys, fun hdeduplicate => ?_⟩
  have hnodup := (hdeduplicate {}).2
  rw [hkeys] at hnodup
  revert hnodup
  decide

end Example

end Table

end RefluxDb.Write
