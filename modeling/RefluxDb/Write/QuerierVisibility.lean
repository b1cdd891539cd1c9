import Mathlib.Data.Fintype.Basic
import RefluxDb.Write.TailReplay
import RefluxDb.Write.WalTail

/-! Whether a querier loses sight of a row.

A querier has the rows of its writers twice over: as files, which its inventory poller folds in,
and as the tail of the writers' WAL, which its tail task replays. The poller folds a snapshot and
then drops the WAL files the snapshot covers. A query reads the files and then the tail, with no
lock over both. The three tasks and any number of queries interleave; a single table is looked
at, on a querier whose own write buffer is empty. -/

namespace RefluxDb.Write

open List Option RefluxDb.Library RefluxDb.Query RefluxDb.Wal

variable {Id Tags Field Value : Type*}

/-- A pass of the tail task over one writer. It has read the cursor and then the high-water mark,
and has listed WAL files that it replays one by one. -/
structure TailTick (Tags Field Value : Type*) where
  writerId : String
  cursor : Nat
  highWater : Option Nat := none
  paths : Option (List (WalContents Tags Field Value)) := none

/-- What the poller still has to evict; the high-water mark is raised first. -/
structure Eviction where
  writerNodeId : String
  seq : Nat
  raised : Bool := false

/-- The chunks a query got from the files, and the number of snapshots folded until then. -/
structure FilesRead (Id Tags Field Value : Type*) where
  chunks : List (QueryChunk Id Tags Field Value)
  folds : Nat

/-- A running query. `owed` are the rows it has to return: those it selects of what the querier had
when it started and of what earlier queries were handed. -/
structure TableQuery (Id Tags Field Value : Type*) where
  filter : ChunkFilter
  owed : List (Row Tags Field Value)
  read : Option (FilesRead Id Tags Field Value) := none

structure QueryAnswer (Id Tags Field Value : Type*) where
  owed : List (Row Tags Field Value)
  chunks : List (QueryChunk Id Tags Field Value)

/-- `walSequence` is the number of each writer's last WAL file, `folds` the number of snapshots
folded. -/
structure Querier (Id Tags Field Value : Type*) where
  wal : List (WalContents Tags Field Value) := []
  walSequence : String → Nat := fun _ => 0
  persisted : List (StoredFile Tags Field Value) := []
  folds : Nat := 0
  eviction : Option Eviction := none
  tail : List (TailFile Tags Field Value) := []
  persistedHighWater : String → Nat := fun _ => 0
  tick : Option (TailTick Tags Field Value) := none
  queries : List (TableQuery Id Tags Field Value) := []
  answers : List (QueryAnswer Id Tags Field Value) := []

inductive QuerierAction (Tags Field Value : Type*) where
  | flushWal (writerNodeId : String) (ops : List (BufferedChunk Tags Field Value × Bool))
  | startTick (writerId : String)
  | readHighWater
  | listPaths
  | replayNext
  | skipNext
  | endTick
  | foldSnapshot (nodeId : String) (walSeq : Nat) (files : List (StoredFile Tags Field Value))
  | raiseHighWater
  | dropFiles
  | startQuery (filter : ChunkFilter)
  | readPersisted (index : Nat)
  | readTail (index : Nat)

namespace Querier

section Steps

variable (config : TableConfig Id) (querier : Querier Id Tags Field Value)

def table : Table Tags Field Value where
  persisted := querier.persisted
  tail := querier.tail

def tailRows (tail : List (TailFile Tags Field Value)) : List (Row Tags Field Value) :=
  tail.flatMap fun file => file.buffer.chunks.flatMap (·.rows)

def heldRows : List (Row Tags Field Value) :=
  querier.persisted.flatMap (·.rows) ++ tailRows querier.tail

def returnedRows : List (Row Tags Field Value) :=
  querier.answers.flatMap fun answer => answer.chunks.flatMap (·.rows)

/-- The largest file number of a writer in the tail. -/
def tailCursor (writerId : String) : Nat :=
  (Table.seqsOf writerId querier.tail).foldl max 0

/-- Adds the files of a snapshot whose paths are new. -/
def foldFiles (persisted files : List (StoredFile Tags Field Value)) :
    List (StoredFile Tags Field Value) :=
  persisted ++ files.filter fun stored =>
    decide (stored.file.path ∉ persisted.map (·.file.path))

/-- The tick without the file it was at. -/
def advance (tick : TailTick Tags Field Value) : TailTick Tags Field Value :=
  { tick with paths := tick.paths.map List.tail }

def replay (tick : TailTick Tags Field Value) (contents : WalContents Tags Field Value) :
    Querier Id Tags Field Value :=
  if contents.walFileNumber ≤ tick.cursor ∨ contents.walFileNumber ≤ tick.highWater.getD 0 then
    { querier with tick := some (advance tick) }
  else
    { querier with
      tick := some (advance tick)
      tail := querier.table.addTailFile config contents.tailFile }

/-- A snapshot covers WAL files its writer has written, and its files have distinct paths. A file
of the tail that is skipped is one that was deleted since or cannot be deserialized; a tick ends
when it is through, or early with an error. -/
def step : QuerierAction Tags Field Value → Option (Querier Id Tags Field Value)
  | .flushWal writerNodeId ops =>
    let contents : WalContents Tags Field Value :=
      ⟨writerNodeId, querier.walSequence writerNodeId + 1, ops⟩
    if contents.WellTimed config then
      some { querier with
        wal := querier.wal ++ [contents]
        walSequence := Function.update querier.walSequence writerNodeId contents.walFileNumber }
    else none
  | .startTick writerId =>
    if querier.tick.isNone then
      some { querier with tick := some ⟨writerId, querier.tailCursor writerId, none, none⟩ }
    else none
  | .readHighWater => querier.tick.bind fun tick =>
    if tick.highWater.isNone then
      some { querier with
        tick := some { tick with highWater := querier.persistedHighWater tick.writerId } }
    else none
  | .listPaths => querier.tick.bind fun tick =>
    if tick.highWater.isSome ∧ tick.paths.isNone then
      some { querier with
        tick := some { tick with paths := querier.wal.filter (·.writerNodeId = tick.writerId) } }
    else none
  | .replayNext => querier.tick.bind fun tick =>
    (tick.paths.bind List.head?).map (querier.replay config tick)
  | .skipNext => querier.tick.map fun tick => { querier with tick := some (advance tick) }
  | .endTick => some { querier with tick := none }
  | .foldSnapshot nodeId walSeq files =>
    if querier.eviction.isNone ∧ walSeq ≤ querier.walSequence nodeId ∧
        (files.map (·.file.path)).Nodup then
      some { querier with
        persisted := foldFiles querier.persisted files
        folds := querier.folds + 1
        eviction := some ⟨nodeId, walSeq, false⟩ }
    else none
  | .raiseHighWater => querier.eviction.map fun eviction =>
    if querier.persistedHighWater eviction.writerNodeId < eviction.seq then
      { querier with
        persistedHighWater :=
          Function.update querier.persistedHighWater eviction.writerNodeId eviction.seq
        eviction := some { eviction with raised := true } }
    else { querier with eviction := none }
  | .dropFiles => querier.eviction.bind fun eviction =>
    if eviction.raised then
      some { querier with
        eviction := none
        tail := querier.tail.filter fun file =>
          !(decide (file.writerNodeId = eviction.writerNodeId) &&
            decide (file.seq ≤ eviction.seq)) }
    else none
  | .startQuery filter =>
    some { querier with
      queries := querier.queries ++ [⟨filter, (querier.heldRows ++ querier.returnedRows).filter
        fun row => decide (filter.Selects row.key.time), none⟩] }
  | .readPersisted index => querier.queries[index]?.bind fun query =>
    if query.read.isNone then
      some { querier with
        queries := querier.queries.set index { query with
          read := some ⟨querier.table.bufferChunks config query.filter ++
            querier.table.parquetChunks config query.filter, querier.folds⟩ } }
    else none
  | .readTail index => querier.queries[index]?.bind fun query => query.read.map fun read =>
    { querier with
      queries := querier.queries.eraseIdx index
      answers := querier.answers ++
        [⟨query.owed, withIds (read.chunks ++ querier.table.tailChunks config query.filter)⟩] }

def machine : Machine (Querier Id Tags Field Value) (QuerierAction Tags Field Value) where
  initial querier := querier = {}
  step := step config

end Steps

section Definitions

variable (config : TableConfig Id) (querier : Querier Id Tags Field Value)

def ShownBy (chunks : List (QueryChunk Id Tags Field Value)) (row : Row Tags Field Value) : Prop :=
  ∃ chunk ∈ chunks, ShownIn chunk.rows row

def InFiles (files : List (StoredFile Tags Field Value)) (row : Row Tags Field Value) : Prop :=
  ∃ stored ∈ files, ShownIn stored.rows row

/-- Every query that was answered got the rows it is owed. -/
def NeverLosesSight : Prop :=
  ∀ answer ∈ querier.answers, ∀ row ∈ answer.owed, ShownBy answer.chunks row

/-- The steps of a querier that keeps sight of its rows: no WAL file has a chunk that outgrew its
limit, the tail stays below its cap, a snapshot that is folded leaves no row of the WAL files it
covers without a file, and files of the tail are dropped only while every query that has read the
files and not yet the tail has read them since the last fold. -/
def KeepsSight (config : TableConfig Id) (querier : Querier Id Tags Field Value) :
    QuerierAction Tags Field Value → Prop
  | .flushWal _ ops => ∀ op ∈ ops, op.2 = false
  | .replayNext => ∀ tick ∈ querier.tick,
      (querier.tail.filter (·.writerNodeId = tick.writerId)).length < config.maxFilesPerWriter
  | .foldSnapshot nodeId walSeq files => ∀ contents ∈ querier.wal,
      contents.writerNodeId = nodeId → contents.walFileNumber ≤ walSeq → ∀ row ∈ contents.rows,
        (∃ stored ∈ querier.persisted, ShownIn stored.rows row) ∨
          ∃ stored ∈ files, stored.file.path ∉ querier.persisted.map (·.file.path) ∧
            ShownIn stored.rows row
  | .dropFiles => ∀ query ∈ querier.queries, ∀ read ∈ query.read, read.folds = querier.folds
  | _ => True

instance [DecidableEq Tags] [Fintype Field] (shown row : Row Tags Field Value) :
    Decidable (shown.Shows row) :=
  inferInstanceAs (Decidable (_ ∧ _))

instance [DecidableEq Tags] [Fintype Field] (rows : List (Row Tags Field Value))
    (row : Row Tags Field Value) : Decidable (ShownIn rows row) :=
  inferInstanceAs (Decidable (∃ shown ∈ rows, _))

instance [DecidableEq Tags] [Fintype Field] (action : QuerierAction Tags Field Value) :
    Decidable (KeepsSight config querier action) := by
  cases action <;> unfold KeepsSight <;> infer_instance

/-- Where a row is that a running query is owed. -/
inductive Due (files : List (StoredFile Tags Field Value)) (tail : List (TailFile Tags Field Value))
    (query : TableQuery Id Tags Field Value) (row : Row Tags Field Value) : Prop
  | inTail (htail : row ∈ tailRows tail)
  | inFiles (hunread : query.read = none) (hfiles : InFiles files row)
  | inRead (read : FilesRead Id Tags Field Value) (hread : query.read = some read)
      (hshown : ShownBy read.chunks row)

/-- What a query got from the files is in the files, and is all that it selects of them unless
a snapshot was folded since. -/
structure UpToDate (files : List (StoredFile Tags Field Value)) (folds : Nat) (filter : ChunkFilter)
    (read : FilesRead Id Tags Field Value) : Prop where
  folds_le : read.folds ≤ folds
  current : read.folds = folds → ∀ row, InFiles files row → filter.Selects row.key.time →
    ShownBy read.chunks row
  inFiles : ∀ chunk ∈ read.chunks, ∀ row ∈ chunk.rows, InFiles files row

/-- What holds along runs that keep sight. Everything in the tail is replayed WAL, and what the
poller is about to drop from it is in files. -/
structure Sighted : Prop where
  listed : ∀ tick ∈ querier.tick, ∀ paths ∈ tick.paths, ∀ contents ∈ paths,
    contents ∈ querier.wal ∧ contents.writerNodeId = tick.writerId
  replayed : ∀ file ∈ querier.tail, ∃ contents ∈ querier.wal, file = contents.tailFile
  sound : ∀ contents ∈ querier.wal, contents.WellTimed config ∧ contents.FitsChunks
  covered : ∀ eviction ∈ querier.eviction,
    eviction.seq ≤ querier.walSequence eviction.writerNodeId ∧
      ∀ contents ∈ querier.wal, contents.writerNodeId = eviction.writerNodeId →
        contents.walFileNumber ≤ eviction.seq → ∀ row ∈ contents.rows, InFiles querier.persisted row
  due : ∀ query ∈ querier.queries, ∀ row ∈ query.owed,
    query.filter.Selects row.key.time ∧ Due querier.persisted querier.tail query row
  upToDate : ∀ query ∈ querier.queries, ∀ read ∈ query.read,
    UpToDate querier.persisted querier.folds query.filter read
  answered : querier.NeverLosesSight
  returned : ∀ row ∈ querier.returnedRows, InFiles querier.persisted row ∨
    row ∈ tailRows querier.tail

end Definitions

variable {config : TableConfig Id} {querier next : Querier Id Tags Field Value}
variable {row : Row Tags Field Value} {filter : ChunkFilter}

theorem InFiles.foldFiles {persisted files : List (StoredFile Tags Field Value)}
    (hfiles : InFiles persisted row) : InFiles (Querier.foldFiles persisted files) row := by
  obtain ⟨stored, hstored, hshown⟩ := hfiles
  exact ⟨stored, mem_append_left _ hstored, hshown⟩

theorem mem_heldRows (hrow : row ∈ querier.heldRows) :
    InFiles querier.persisted row ∨ row ∈ tailRows querier.tail := by
  rcases mem_append.mp hrow with hfile | htail
  · obtain ⟨stored, hstored, hin⟩ := mem_flatMap.mp hfile
    exact .inl ⟨stored, hstored, shownIn_of_mem hin⟩
  · exact .inr htail

/-- Below the cap the tail only grows. -/
theorem addTailFile_eq {table : Table Tags Field Value} {file : TailFile Tags Field Value}
    (hcap : (table.tail.filter (·.writerNodeId = file.writerNodeId)).length <
      config.maxFilesPerWriter) : table.addTailFile config file = table.tail ++ [file] := by
  unfold Table.addTailFile
  have hlength : ((Table.seqsOf file.writerNodeId (table.tail ++ [file])).insertionSort
      (· ≤ ·)).length ≤ config.maxFilesPerWriter := by
    rw [Table.seqsOf, length_insertionSort, length_map, filter_append, length_append]
    have hone : ([file].filter fun f => f.writerNodeId = file.writerNodeId).length = 1 := by simp
    omega
  dsimp only
  rw [Nat.sub_eq_zero_of_le hlength]
  simp

theorem mem_tailRows {tail : List (TailFile Tags Field Value)} : row ∈ tailRows tail ↔
    ∃ file ∈ tail, ∃ chunk ∈ file.buffer.chunks, row ∈ chunk.rows := by
  simp only [tailRows, mem_flatMap]

/-- A query is handed what it selects of the tail, the range of each file being right. -/
theorem Sighted.shownBy_tailChunks (hsighted : querier.Sighted config)
    (htail : row ∈ tailRows querier.tail) (hselects : filter.Selects row.key.time) :
    ShownBy (querier.table.tailChunks config filter) row := by
  obtain ⟨file, hfile, buffered, hbuffered, hrow⟩ := mem_tailRows.mp htail
  obtain ⟨contents, hcontents, rfl⟩ := hsighted.replayed file hfile
  obtain ⟨htimed, hfits⟩ := hsighted.sound contents hcontents
  have hone : OneChunkEach config contents.buffer.chunks :=
    OneChunkEach.foldl_bufferChunk ⟨by simp, by simp⟩ htimed hfits
  have hwithin := hone.within_timestampMinMax contents.snapshottingChunks_buffer hbuffered hrow
  obtain ⟨chunk, hchunk, hin⟩ :
      ∃ chunk ∈ querier.table.tailChunks config filter, row ∈ chunk.rows :=
    Table.exists_mem_tailChunks hfile hbuffered hrow hwithin hselects
  exact ⟨chunk, hchunk, shownIn_of_mem hin⟩

theorem Sighted.mem_tailRows_of_mem_tailChunks (hsighted : querier.Sighted config)
    {chunk : QueryChunk Id Tags Field Value}
    (hchunk : chunk ∈ querier.table.tailChunks config filter) (hrow : row ∈ chunk.rows) :
    row ∈ tailRows querier.tail := by
  obtain ⟨file, hfile, buffered, hbuffered, hin⟩ :=
    Table.exists_buffered_of_mem_tailChunks hchunk hrow
  obtain ⟨contents, _, hcontents⟩ := hsighted.replayed file hfile
  rw [hcontents] at hbuffered
  rw [show contents.tailFile.buffer.snapshottingChunks = [] from
    contents.snapshottingChunks_buffer, ← hcontents] at hbuffered
  exact mem_tailRows.mpr ⟨file, hfile, buffered, hbuffered, hin⟩

variable {chunks : List (QueryChunk Id Tags Field Value)}

theorem shownBy_withIds (hshown : ShownBy chunks row) :
    ShownBy (withIds chunks) row := by
  obtain ⟨chunk, hchunk, hshown⟩ := hshown
  obtain ⟨numbered, hnumbered, hrows⟩ := Table.exists_mem_withIds hchunk
  exact ⟨numbered, hnumbered, hrows ▸ hshown⟩

theorem Due.mono {query : TableQuery Id Tags Field Value}
    {files files' : List (StoredFile Tags Field Value)}
    {tail tail' : List (TailFile Tags Field Value)}
    (hdue : Due files tail query row) (hfiles : InFiles files row → InFiles files' row)
    (htail : row ∈ tailRows tail → Due files' tail' query row) : Due files' tail' query row := by
  cases hdue with
  | inTail hin => exact htail hin
  | inFiles hunread hin => exact .inFiles hunread (hfiles hin)
  | inRead read hread hshown => exact .inRead read hread hshown

section

variable (hsighted : querier.Sighted config)
include hsighted

theorem Sighted.setTick {tick : Option (TailTick Tags Field Value)}
    (hlisted : ∀ current ∈ tick, ∀ paths ∈ current.paths, ∀ contents ∈ paths,
      contents ∈ querier.wal ∧ contents.writerNodeId = current.writerId) :
    Sighted config { querier with tick := tick } :=
  { hsighted with listed := hlisted }

theorem Sighted.advance {tick : TailTick Tags Field Value}
    (htick : querier.tick = some tick) :
    Sighted config { querier with tick := some (advance tick) } := by
  refine hsighted.setTick ?_
  rintro _ ⟨⟩ paths hpaths contents hcontents
  obtain ⟨all, hall, rfl⟩ := Option.mem_map.mp hpaths
  exact hsighted.listed tick htick all hall contents (mem_of_mem_tail hcontents)

theorem Sighted.flushWal {writerNodeId : String}
    {ops : List (BufferedChunk Tags Field Value × Bool)}
    (hallowed : KeepsSight config querier (.flushWal writerNodeId ops))
    (hstep : querier.step config (.flushWal writerNodeId ops) = some next) :
    next.Sighted config := by
  simp only [step, ite_none_right_eq_some, some.injEq] at hstep
  obtain ⟨htimed, rfl⟩ := hstep
  have hgrows {seq : Nat} {node : String} (hle : seq ≤ querier.walSequence node) :
      seq ≤ Function.update querier.walSequence writerNodeId
        (querier.walSequence writerNodeId + 1) node := by
    by_cases hnode : node = writerNodeId
    · subst hnode
      rw [Function.update_self]
      omega
    · rwa [Function.update_of_ne hnode]
  refine { hsighted with listed := ?_, replayed := ?_, sound := ?_, covered := ?_ }
  · intro tick htick paths hpaths contents hcontents
    obtain ⟨hmem, hwriter⟩ := hsighted.listed tick htick paths hpaths contents hcontents
    exact ⟨mem_append_left _ hmem, hwriter⟩
  · intro file hfile
    obtain ⟨contents, hcontents, hreplayed⟩ := hsighted.replayed file hfile
    exact ⟨contents, mem_append_left _ hcontents, hreplayed⟩
  · refine forall_mem_concat.mpr ⟨hsighted.sound, ?_⟩
    exact ⟨htimed, hallowed⟩
  · intro eviction heviction
    obtain ⟨hle, hcovered⟩ := hsighted.covered eviction heviction
    refine ⟨hgrows hle, fun contents hcontents hwriter hseq => ?_⟩
    rcases mem_concat.mp hcontents with hold | hnew
    · exact hcovered contents hold hwriter hseq
    · rw [hnew] at hwriter hseq
      -- the new file has a number that no snapshot of its writer covers
      subst hwriter
      dsimp only at hseq
      omega

theorem Sighted.replayNext (hallowed : KeepsSight config querier .replayNext)
    (hstep : querier.step config .replayNext = some next) : next.Sighted config := by
  simp only [step, bind_eq_some_iff, map_eq_some_iff] at hstep
  obtain ⟨tick, htick, contents, ⟨paths, hpaths, hhead⟩, rfl⟩ := hstep
  have hadvanced := hsighted.advance htick
  obtain ⟨hcontents, hwriter⟩ :=
    hsighted.listed tick htick paths hpaths contents (mem_of_head? hhead)
  unfold replay
  split
  · exact hadvanced
  · have hcap := hallowed tick htick
    have htail : querier.table.addTailFile config contents.tailFile =
        querier.tail ++ [contents.tailFile] := addTailFile_eq (by
      rw [show contents.tailFile.writerNodeId = tick.writerId from hwriter]
      exact hcap)
    rw [htail]
    have hgrows (row : Row Tags Field Value) (hrow : row ∈ tailRows querier.tail) :
        row ∈ tailRows (querier.tail ++ [contents.tailFile]) := by
      obtain ⟨file, hfile, hin⟩ := mem_tailRows.mp hrow
      exact mem_tailRows.mpr ⟨file, mem_append_left _ hfile, hin⟩
    refine { hadvanced with replayed := ?_, due := ?_, returned := ?_ }
    · exact forall_mem_concat.mpr ⟨hsighted.replayed, contents, hcontents, rfl⟩
    · intro query hquery row hrow
      obtain ⟨hselects, hdue⟩ := hsighted.due query hquery row hrow
      exact ⟨hselects, hdue.mono id fun hin => .inTail (hgrows row hin)⟩
    · intro row hrow
      exact (hsighted.returned row hrow).imp_right (hgrows row)

theorem Sighted.foldSnapshot {nodeId : String} {walSeq : Nat}
    {files : List (StoredFile Tags Field Value)}
    (hallowed : KeepsSight config querier (.foldSnapshot nodeId walSeq files))
    (hstep : querier.step config (.foldSnapshot nodeId walSeq files) = some next) :
    next.Sighted config := by
  simp only [step, ite_none_right_eq_some, some.injEq] at hstep
  obtain ⟨⟨_, hle, _⟩, rfl⟩ := hstep
  refine { hsighted with covered := ?_, due := ?_, upToDate := ?_, returned := ?_ }
  · rintro _ ⟨⟩
    refine ⟨hle, fun contents hcontents hwriter hseq row hrow => ?_⟩
    rcases hallowed contents hcontents hwriter hseq row hrow with hold |
      ⟨stored, hstored, hpath, hshown⟩
    · exact InFiles.foldFiles hold
    · refine ⟨stored, mem_append_right _ (mem_filter.mpr ⟨hstored, ?_⟩), hshown⟩
      simpa using hpath
  · intro query hquery row hrow
    obtain ⟨hselects, hdue⟩ := hsighted.due query hquery row hrow
    exact ⟨hselects, hdue.mono InFiles.foldFiles .inTail⟩
  · intro query hquery read hread
    have hupToDate := hsighted.upToDate query hquery read hread
    have hle := hupToDate.folds_le
    refine ⟨Nat.le_succ_of_le hle, fun hcurrent => ?_, fun chunk hchunk row hrow =>
      InFiles.foldFiles (hupToDate.inFiles chunk hchunk row hrow)⟩
    dsimp only at hcurrent
    omega
  · intro row hrow
    exact (hsighted.returned row hrow).imp_left InFiles.foldFiles

theorem Sighted.raiseHighWater
    (hstep : querier.step config .raiseHighWater = some next) : next.Sighted config := by
  simp only [step, map_eq_some_iff] at hstep
  obtain ⟨eviction, heviction, rfl⟩ := hstep
  split
  · refine { hsighted with covered := ?_ }
    rintro _ ⟨⟩
    exact hsighted.covered eviction heviction
  · refine { hsighted with covered := ?_ }
    rintro _ ⟨⟩

/-- A row that leaves the tail is in a file, and a query that has read the files since that file was
folded has got it. -/
theorem Sighted.dropFiles (hallowed : KeepsSight config querier .dropFiles)
    (hstep : querier.step config .dropFiles = some next) : next.Sighted config := by
  simp only [step, bind_eq_some_iff, ite_none_right_eq_some, some.injEq] at hstep
  obtain ⟨eviction, heviction, _, rfl⟩ := hstep
  obtain ⟨_, hcovered⟩ := hsighted.covered eviction heviction
  have hleaves (row : Row Tags Field Value) (hrow : row ∈ tailRows querier.tail) :
      InFiles querier.persisted row ∨ row ∈ tailRows (querier.tail.filter fun file =>
        !(decide (file.writerNodeId = eviction.writerNodeId) &&
          decide (file.seq ≤ eviction.seq))) := by
    obtain ⟨file, hfile, chunk, hchunk, hin⟩ := mem_tailRows.mp hrow
    by_cases hdropped : file.writerNodeId = eviction.writerNodeId ∧ file.seq ≤ eviction.seq
    · obtain ⟨contents, hcontents, rfl⟩ := hsighted.replayed file hfile
      exact .inl (hcovered contents hcontents hdropped.1 hdropped.2 row
        (WalContents.mem_rows hchunk hin))
    · refine .inr (mem_tailRows.mpr ⟨file, mem_filter.mpr ⟨hfile, ?_⟩, chunk, hchunk, hin⟩)
      rw [not_and_or] at hdropped
      simpa using hdropped
  refine { hsighted with replayed := ?_, covered := ?_, due := ?_, returned := ?_ }
  · intro file hfile
    exact hsighted.replayed file (mem_filter.mp hfile).1
  · rintro _ ⟨⟩
  · intro query hquery row hrow
    obtain ⟨hselects, hdue⟩ := hsighted.due query hquery row hrow
    refine ⟨hselects, hdue.mono id fun hin => ?_⟩
    rcases hleaves row hin with hpersisted | hstays
    · cases hread : query.read with
      | none => exact .inFiles hread hpersisted
      | some read =>
        have hupToDate := hsighted.upToDate query hquery read hread
        have hcurrent := hallowed query hquery read hread
        exact .inRead read hread (hupToDate.current hcurrent row hpersisted hselects)
    · exact .inTail hstays
  · intro row hrow
    rcases hsighted.returned row hrow with hpersisted | htail
    · exact .inl hpersisted
    · exact hleaves row htail

theorem Sighted.startQuery
    (hstep : querier.step config (.startQuery filter) = some next) : next.Sighted config := by
  obtain rfl := some.inj hstep
  refine { hsighted with due := ?_, upToDate := ?_ }
  · refine forall_mem_concat.mpr ⟨hsighted.due, ?_⟩
    intro row hrow
    obtain ⟨hmem, hselects⟩ := mem_filter.mp hrow
    have hheld : InFiles querier.persisted row ∨ row ∈ tailRows querier.tail := by
      rcases mem_append.mp hmem with hheld | hreturned
      · exact mem_heldRows hheld
      · exact hsighted.returned row hreturned
    refine ⟨by simpa using hselects, ?_⟩
    rcases hheld with hpersisted | htail
    · exact .inFiles rfl hpersisted
    · exact .inTail htail
  · refine forall_mem_concat.mpr ⟨hsighted.upToDate, ?_⟩
    intro read hread
    simp at hread

theorem Sighted.readPersisted {index : Nat}
    (hstep : querier.step config (.readPersisted index) = some next) : next.Sighted config := by
  simp only [step, bind_eq_some_iff, ite_none_right_eq_some, some.injEq,
    isNone_iff_eq_none] at hstep
  obtain ⟨query, hquery, hunread, rfl⟩ := hstep
  have hmem : query ∈ querier.queries := mem_of_getElem? hquery
  have hshown (row : Row Tags Field Value) (hfiles : InFiles querier.persisted row)
      (hselects : query.filter.Selects row.key.time) :
      ShownBy (querier.table.bufferChunks config query.filter ++
        querier.table.parquetChunks config query.filter) row := by
    obtain ⟨stored, hstored, hin⟩ := hfiles
    obtain ⟨chunk, hchunk, hrow⟩ : ShownBy (querier.table.parquetChunks config query.filter) row :=
      Table.exists_mem_parquetChunks hstored hin hselects
    exact ⟨chunk, mem_append_right _ hchunk, hrow⟩
  refine { hsighted with due := ?_, upToDate := ?_ }
  · intro other hother row hrow
    rcases mem_or_eq_of_mem_set hother with hold | rfl
    · exact hsighted.due other hold row hrow
    · obtain ⟨hselects, hdue⟩ := hsighted.due query hmem row hrow
      refine ⟨hselects, ?_⟩
      cases hdue with
      | inTail htail => exact .inTail htail
      | inFiles _ hfiles => exact .inRead _ rfl (hshown row hfiles hselects)
      | inRead read hread _ => simp [hunread] at hread
  · intro other hother read hread
    rcases mem_or_eq_of_mem_set hother with hold | rfl
    · exact hsighted.upToDate other hold read hread
    · obtain rfl := some.inj hread
      refine ⟨le_rfl, fun _ => hshown, fun chunk hchunk row hrow => ?_⟩
      rcases mem_append.mp hchunk with hbuffer | hfile
      · simp [Table.bufferChunks, table, TableBuffer.partitionedRecordBatches, mergeBatches]
          at hbuffer
      · obtain ⟨stored, hstored, hrows⟩ := Table.exists_stored_of_mem_parquetChunks hfile
        exact ⟨stored, hstored, shownIn_of_mem (hrows ▸ hrow)⟩

end

theorem Sighted.readTail (hsighted : querier.Sighted config) {index : Nat}
    (hstep : querier.step config (.readTail index) = some next) : next.Sighted config := by
  simp only [step, bind_eq_some_iff, map_eq_some_iff] at hstep
  obtain ⟨query, hquery, read, hread, rfl⟩ := hstep
  have hmem : query ∈ querier.queries := mem_of_getElem? hquery
  refine { hsighted with due := ?_, upToDate := ?_, answered := ?_, returned := ?_ }
  · intro other hother
    exact hsighted.due other (mem_of_mem_eraseIdx hother)
  · intro other hother
    exact hsighted.upToDate other (mem_of_mem_eraseIdx hother)
  · refine forall_mem_concat.mpr ⟨hsighted.answered, ?_⟩
    intro row hrow
    obtain ⟨hselects, hdue⟩ := hsighted.due query hmem row hrow
    refine shownBy_withIds ?_
    cases hdue with
    | inTail htail =>
      obtain ⟨chunk, hchunk, hshown⟩ := hsighted.shownBy_tailChunks htail hselects
      exact ⟨chunk, mem_append_right _ hchunk, hshown⟩
    | inFiles hunread _ => simp [hunread] at hread
    | inRead other hother hshown =>
      obtain rfl : read = other := some.inj (hread.symm.trans hother)
      obtain ⟨chunk, hchunk, hshown⟩ := hshown
      exact ⟨chunk, mem_append_left _ hchunk, hshown⟩
  · intro row hrow
    rw [returnedRows, flatMap_append, mem_append] at hrow
    rcases hrow with hold | hnew
    · exact hsighted.returned row hold
    · simp only [flatMap_cons, flatMap_nil, append_nil] at hnew
      obtain ⟨numbered, hnumbered, hin⟩ := mem_flatMap.mp hnew
      obtain ⟨⟨chunk, id⟩, hzip, rfl⟩ := List.mem_map.mp hnumbered
      have hchunk := fst_mem_of_mem_zipIdx hzip
      rcases mem_append.mp hchunk with hfile | htail
      · exact .inl ((hsighted.upToDate query hmem read hread).inFiles chunk hfile row hin)
      · exact .inr (hsighted.mem_tailRows_of_mem_tailChunks htail hin)

theorem Sighted.step {action : QuerierAction Tags Field Value} (hsighted : querier.Sighted config)
    (hallowed : KeepsSight config querier action) (hstep : querier.step config action = some next) :
    next.Sighted config := by
  cases action with
  | flushWal writerNodeId ops => exact hsighted.flushWal hallowed hstep
  | startTick writerId =>
    simp only [Querier.step, ite_none_right_eq_some, some.injEq] at hstep
    obtain ⟨_, rfl⟩ := hstep
    exact hsighted.setTick (by simp)
  | readHighWater =>
    simp only [Querier.step, bind_eq_some_iff, ite_none_right_eq_some,
      some.injEq] at hstep
    obtain ⟨tick, htick, _, rfl⟩ := hstep
    refine hsighted.setTick ?_
    rintro _ ⟨⟩
    exact hsighted.listed tick htick
  | listPaths =>
    simp only [Querier.step, bind_eq_some_iff, ite_none_right_eq_some,
      some.injEq] at hstep
    obtain ⟨tick, htick, _, rfl⟩ := hstep
    refine hsighted.setTick ?_
    rintro _ ⟨⟩ _ ⟨⟩ contents hcontents
    simpa using hcontents
  | replayNext => exact hsighted.replayNext hallowed hstep
  | skipNext =>
    obtain ⟨tick, htick, rfl⟩ := map_eq_some_iff.mp hstep
    exact hsighted.advance htick
  | endTick =>
    obtain rfl := some.inj hstep
    exact hsighted.setTick (by simp)
  | foldSnapshot nodeId walSeq files => exact hsighted.foldSnapshot hallowed hstep
  | raiseHighWater => exact hsighted.raiseHighWater hstep
  | dropFiles => exact hsighted.dropFiles hallowed hstep
  | startQuery filter => exact hsighted.startQuery hstep
  | readPersisted index => exact hsighted.readPersisted hstep
  | readTail index => exact hsighted.readTail hstep

/-- In every run that keeps sight of the rows, each query gets what it selects of the rows that the
querier had when it started and of those that earlier queries got. -/
theorem neverLosesSight_of_keepsSight (config : TableConfig Id)
    (querier : Querier Id Tags Field Value)
    (hreachable : (machine config).Reachable (KeepsSight config) querier) :
    querier.NeverLosesSight := by
  have hsighted : querier.Sighted config := by
    refine hreachable.invariant ?_ fun _ _ _ => Sighted.step
    rintro state rfl
    constructor <;> simp [NeverLosesSight, returnedRows]
  exact hsighted.answered

section WalTail

open Table (seqsOf)

/-- A file that a tick replays below the cap is one that the writer's tail takes or passes over. -/
theorem replay_simulates {tick : TailTick Tags Field Value}
    {contents : WalContents Tags Field Value} {w : WalTail.World} {passed rest : List Nat}
    (hwriter : contents.writerNodeId = tick.writerId)
    (hlast : ∀ seq ∈ seqsOf tick.writerId querier.tail, seq < contents.walFileNumber)
    (hcap : (seqsOf tick.writerId querier.tail).length < config.maxFilesPerWriter)
    (hfiles : w.files = seqsOf tick.writerId querier.tail)
    (htick : w.tick = some (.reading tick.cursor (tick.highWater.getD 0) passed
      (contents.walFileNumber :: rest)))
    (hobject : ⟨contents.walFileNumber, true⟩ ∈ w.wal) :
    ∃ next, WalTail.step config.maxFilesPerWriter w (.next .verified) = some next ∧
      next.files = seqsOf tick.writerId (querier.replay config tick contents).tail := by
  have hinserted : (w.files.filter (· ≠ contents.walFileNumber)).orderedInsert (· ≤ ·)
      contents.walFileNumber = w.files ++ [contents.walFileNumber] := by
    rw [← hfiles] at hlast
    rw [filter_eq_self.mpr (by grind), orderedInsert_eq_take_drop,
      takeWhile_eq_self_iff.mpr (by simpa using hlast),
      dropWhile_eq_nil_iff.mpr (by simpa using hlast)]
  simp only [WalTail.step, htick, replay, if_pos hobject]
  split
  · exact ⟨_, rfl, hfiles⟩
  · refine ⟨_, rfl, ?_⟩
    have hroom : (w.files ++ [contents.walFileNumber]).length - config.maxFilesPerWriter = 0 := by
      rw [hfiles, length_append, length_singleton]
      omega
    rw [← hwriter, seqsOf] at *
    rw [length_map] at hcap
    simp only [WalTail.addFile, hinserted, hroom, drop_zero]
    rw [addTailFile_eq hcap, hfiles]
    simp [table, WalContents.tailFile]

end WalTail

section Example

def flushRow : QuerierAction Nat Unit Nat :=
  .flushWal "writer" [(⟨0, [⟨⟨1, 0⟩, fun _ => some 1⟩], by simp⟩, false)]

/-- The tail task replays the WAL of the writer. -/
def tailPass : List (QuerierAction Nat Unit Nat) :=
  [.startTick "writer", .readHighWater, .listPaths, .replayNext, .endTick]

/-- The snapshot that covers the WAL file of `flushRow`. -/
def foldRow : QuerierAction Nat Unit Nat :=
  .foldSnapshot "writer" 1 [Table.persistedFile ⟨0, [⟨⟨1, 0⟩, fun _ => some 1⟩], by simp⟩
    (Table.writerPath 1) 1 1]

theorem initial_querier_reachable
    {allowed : Querier String Nat Unit Nat → QuerierAction Nat Unit Nat → Prop} :
    (machine Table.tenMinutes).Reachable allowed {} := .initial rfl

/-- The first query has its answer before the tail is evicted, the second one reads the files after
the fold. -/
theorem neverLosesSight_of_keepsSight_fold :
    ∃ querier : Querier String Nat Unit Nat,
      (machine Table.tenMinutes).Reachable (KeepsSight Table.tenMinutes) querier ∧
      querier.answers.length = 2 ∧ querier.NeverLosesSight := by
  refine initial_querier_reachable.exists_of_exec_and
    ([flushRow] ++ tailPass ++
      [.startQuery {}, .readPersisted 0, .readTail 0, foldRow, .startQuery {}, .readPersisted 0,
        .raiseHighWater, .dropFiles, .readTail 0])
    _ (by decide) (by decide) ?_
  exact neverLosesSight_of_keepsSight Table.tenMinutes

/-- A query reads the files before the snapshot is folded and the tail after it was evicted: it gets
no row, though the row was in the tail when it started. -/
theorem row_missed_between_reads :
    ∃ querier : Querier String Nat Unit Nat,
      (machine Table.tenMinutes).Reachable Machine.Unrestricted querier ∧
      (∃ answer ∈ querier.answers, answer.owed.length = 1 ∧ answer.chunks = []) ∧
      ¬querier.NeverLosesSight := by
  obtain ⟨querier, hreachable, answer, hanswer, howed, hchunks⟩ :=
    initial_querier_reachable.exists_of_run
      ([flushRow] ++ tailPass ++
        [.startQuery {}, .readPersisted 0, foldRow, .raiseHighWater, .dropFiles, .readTail 0])
      (fun querier => ∃ answer ∈ querier.answers, answer.owed.length = 1 ∧
        answer.chunks.isEmpty = true) (by decide)
  rw [List.isEmpty_iff] at hchunks
  refine ⟨querier, hreachable, ⟨answer, hanswer, howed, hchunks⟩, fun hsight => ?_⟩
  obtain ⟨row, hrow⟩ := exists_mem_of_length_pos (by omega : 0 < answer.owed.length)
  obtain ⟨chunk, hchunk, _⟩ := hsight answer hanswer row hrow
  rw [hchunks] at hchunk
  exact not_mem_nil hchunk

end Example

end Querier

end RefluxDb.Write
