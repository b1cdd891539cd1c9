import Mathlib.Algebra.Group.Int.Defs
import Mathlib.Data.List.Induction
import Mathlib.Data.Set.Lattice
import Mathlib.Order.MinMax
import RefluxDb.Library.Assoc
import RefluxDb.Library.Truncation

/-! The buffer of one WAL file: writes are merged by database name, table and chunk time.

A write brings the rows of one database, already sorted into tables and chunks. The buffer keeps
one batch for each database name, under the id of the first write that had the name. Rows keep
their table, chunk time and order whatever else is written; they keep their database id just when
it is that first one. -/

namespace RefluxDb.Wal

open List RefluxDb.Library

/-- A row, with whatever its fields are. -/
structure Row (ρ : Type*) where
  time : Int
  fields : ρ
  time_mem : i64Min ≤ time ∧ time ≤ i64Max

structure TableChunks (ρ : Type*) where
  minTime : Int := i64Max
  maxTime : Int := i64Min
  chunkTimeToChunk : AList (fun _ : Int => List (Row ρ)) := ∅

structure WriteBatch (ρ : Type*) where
  catalogSequence : Nat
  databaseId : Nat
  databaseName : String
  tableChunks : AList fun _ : Nat => TableChunks ρ
  minTimeNs : Int
  maxTimeNs : Int

inductive WalOp (ρ : Type*) where
  | write (batch : WriteBatch ρ)
  | noop (timestampNs : Int)

inductive WalBufferState where
  | acceptingWrites
  | shuttingDown
  | walAlreadyWrittenTo
deriving DecidableEq

inductive WalError where
  | shutdown
  | bufferFull (opCount : Nat)

structure WalBuffer (ρ : Type*) where
  state : WalBufferState
  opLimit : Nat
  opCount : Nat
  databaseToWriteBatch : AList (fun _ : String => WriteBatch ρ) := ∅
  noOp : Option Int := none

/-- What is flushed, without the file number and the snapshot. -/
structure FlushedContents (ρ : Type*) where
  minTimestampNs : Int
  maxTimestampNs : Int
  ops : List (WalOp ρ)

variable {ρ : Type*}

namespace TableChunks

variable (chunks : TableChunks ρ)

def pushRow (chunkTime : Int) (row : Row ρ) : TableChunks ρ where
  minTime := min chunks.minTime row.time
  maxTime := max chunks.maxTime row.time
  chunkTimeToChunk := chunks.chunkTimeToChunk.insert chunkTime
    ((chunks.chunkTimeToChunk.lookup chunkTime).getD [] ++ [row])

/-- Adds the chunks that a later write has for the same table. -/
def extend (new : TableChunks ρ) : TableChunks ρ :=
  let rows := new.chunkTimeToChunk.entries.flatMap (·.2)
  { minTime := rows.foldl (fun time row => min time row.time) chunks.minTime
    maxTime := rows.foldl (fun time row => max time row.time) chunks.maxTime
    chunkTimeToChunk := mergeWith (· ++ ·) [] chunks.chunkTimeToChunk new.chunkTimeToChunk }

def rowsAt (chunkTime : Int) : List (Row ρ) :=
  (chunks.chunkTimeToChunk.lookup chunkTime).getD []

end TableChunks

namespace WriteBatch

def new (catalogSequence databaseId : Nat) (databaseName : String)
    (tableChunks : AList fun _ : Nat => TableChunks ρ) : WriteBatch ρ :=
  let bounds := tableChunks.entries.foldl
    (fun bounds entry => (min bounds.1 entry.2.minTime, max bounds.2 entry.2.maxTime))
    (i64Max, i64Min)
  { catalogSequence := catalogSequence
    databaseId := databaseId
    databaseName := databaseName
    tableChunks := tableChunks
    minTimeNs := bounds.1
    maxTimeNs := bounds.2 }

variable (batch : WriteBatch ρ)

def addWriteBatch (newTableChunks : AList fun _ : Nat => TableChunks ρ)
    (minTimeNs maxTimeNs : Int) : WriteBatch ρ :=
  { batch with
    minTimeNs := min batch.minTimeNs minTimeNs
    maxTimeNs := max batch.maxTimeNs maxTimeNs
    tableChunks := mergeWith TableChunks.extend {} batch.tableChunks newTableChunks }

/-- The rows a batch has for a table and chunk time. -/
def rowsAt (tableId : Nat) (chunkTime : Int) : List (Row ρ) :=
  ((batch.tableChunks.lookup tableId).getD {}).rowsAt chunkTime

end WriteBatch

namespace WalBuffer

variable (buffer : WalBuffer ρ)

/-- The batch that writes under a database name go to. -/
def batchFor (first : WriteBatch ρ) : WriteBatch ρ :=
  (buffer.databaseToWriteBatch.lookup first.databaseName).getD
    { catalogSequence := first.catalogSequence
      databaseId := first.databaseId
      databaseName := first.databaseName
      tableChunks := ∅
      minTimeNs := i64Max
      maxTimeNs := i64Min }

def writeOp : WalOp ρ → WalBuffer ρ
  | .write batch => { buffer with
      databaseToWriteBatch := buffer.databaseToWriteBatch.insert batch.databaseName
        ((buffer.batchFor batch).addWriteBatch batch.tableChunks batch.minTimeNs
          batch.maxTimeNs) }
  | .noop _ => buffer

def writeOpsUnconfirmed (ops : List (WalOp ρ)) : Except WalError (WalBuffer ρ) :=
  if buffer.state ≠ .acceptingWrites then .error .shutdown
  else if buffer.opLimit ≤ buffer.opCount then .error (.bufferFull buffer.opCount)
  else .ok (ops.foldl writeOp buffer)

/-- Sorting the operations leaves their order: all of them compare as equal. -/
def intoWalContents (forcedSnapshot : Bool) : FlushedContents ρ :=
  let batches := buffer.databaseToWriteBatch.entries.map (·.2)
  let bounds := batches.foldl
    (fun bounds batch => (min bounds.1 batch.minTimeNs, max bounds.2 batch.maxTimeNs))
    (i64Max, i64Min)
  match batches.isEmpty && forcedSnapshot, buffer.noOp with
  | true, some time => ⟨time, time + 1, [.noop time]⟩
  | _, _ => ⟨bounds.1, bounds.2, batches.map .write⟩

end WalBuffer

/-- The rows flushed for a database id, table and chunk time. -/
def FlushedContents.rowsAt (contents : FlushedContents ρ) (databaseId tableId : Nat)
    (chunkTime : Int) : List (Row ρ) :=
  contents.ops.flatMap fun op => match op with
    | .write batch => if batch.databaseId = databaseId then batch.rowsAt tableId chunkTime else []
    | .noop _ => []

/-- A write to one database: rows with their table and chunk time, in order. -/
structure Write (ρ : Type*) where
  catalogSequence : Nat
  databaseId : Nat
  rows : List (Nat × Int × Row ρ)

namespace Write

variable (write : Write ρ)

/-- The rows sorted into tables and chunks, as the validation of the write does it. -/
def tableChunks : AList fun _ : Nat => TableChunks ρ :=
  write.rows.foldl (fun tables row => tables.insert row.1
    (((tables.lookup row.1).getD {}).pushRow row.2.1 row.2.2)) ∅

def toBatch (nameOf : Nat → String) : WriteBatch ρ :=
  .new write.catalogSequence write.databaseId (nameOf write.databaseId) write.tableChunks

def rowsAt (tableId : Nat) (chunkTime : Int) : List (Row ρ) :=
  (write.rows.filter fun row => row.1 = tableId && row.2.1 = chunkTime).map (·.2.2)

def times : Set Int := {time | ∃ row ∈ write.rows, row.2.2.time = time}

end Write

/-- What clients and the server do to the buffer between two flushes. -/
inductive BufferAction (ρ : Type*) where
  | writeOps (ops : List (Write ρ ⊕ Int))
  | setState (state : WalBufferState)
  | addNoOp (now : Int)

/-- The buffer and the writes it has accepted. -/
structure BufferRun (ρ : Type*) where
  buffer : WalBuffer ρ
  accepted : List (Write ρ) := []

def toWalOp (nameOf : Nat → String) : Write ρ ⊕ Int → WalOp ρ
  | .inl write => .write (write.toBatch nameOf)
  | .inr timestampNs => .noop timestampNs

def BufferRun.act (nameOf : Nat → String) (run : BufferRun ρ) : BufferAction ρ → BufferRun ρ
  | .writeOps ops =>
    match run.buffer.writeOpsUnconfirmed (ops.map (toWalOp nameOf)) with
    | .ok buffer => ⟨buffer, run.accepted ++ ops.filterMap Sum.getLeft?⟩
    | .error _ => run
  | .setState state => { run with buffer := { run.buffer with state := state } }
  | .addNoOp now => { run with buffer := { run.buffer with noOp := some now } }

/-- The rows submitted for a database id, table and chunk time, in order. -/
def submittedRows (writes : List (Write ρ)) (databaseId tableId : Nat) (chunkTime : Int) :
    List (Row ρ) :=
  (writes.filter fun write => write.databaseId = databaseId).flatMap (·.rowsAt tableId chunkTime)

def timesOf (writes : List (Write ρ)) : Set Int := {time | ∃ write ∈ writes, time ∈ write.times}

/-- The flushed contents are the submitted rows under their keys in their order, and the bounds
are the least and the greatest row time. -/
structure Conserves (writes : List (Write ρ)) (contents : FlushedContents ρ) : Prop where
  rows : ∀ databaseId tableId chunkTime,
    contents.rowsAt databaseId tableId chunkTime =
      submittedRows writes databaseId tableId chunkTime
  bounds : (timesOf writes).Nonempty →
    contents.minTimestampNs ∈ timesOf writes ∧ contents.maxTimestampNs ∈ timesOf writes ∧
      ∀ time ∈ timesOf writes,
        contents.minTimestampNs ≤ time ∧ time ≤ contents.maxTimestampNs

/-- Every write that has rows has the id of the first write under its database name. -/
def FirstIds (nameOf : Nat → String) (writes : List (Write ρ)) : Prop :=
  ∀ write ∈ writes, write.rows ≠ [] →
    ∀ first ∈ writes.find? fun other => nameOf other.databaseId = nameOf write.databaseId,
      write.databaseId = first.databaseId

section Spans

/-- The bounds of a set of 64-bit times, as they are kept: the far ends for the empty set. -/
structure Spans (times : Set Int) (lo hi : Int) : Prop where
  within : ∀ time ∈ times, i64Min ≤ time ∧ time ≤ i64Max
  between : ∀ time ∈ times, lo ≤ time ∧ time ≤ hi
  attained : times.Nonempty → lo ∈ times ∧ hi ∈ times
  far : times = ∅ → lo = i64Max ∧ hi = i64Min

variable {first second : Set Int} {lo hi lo' hi' : Int}

theorem spans_empty : Spans ∅ i64Max i64Min where
  within := by simp
  between := by simp
  attained := by simp
  far _ := ⟨rfl, rfl⟩

theorem spans_singleton (row : Row ρ) : Spans {row.time} row.time row.time where
  within := by simpa using row.time_mem
  between := by simp
  attained := by simp
  far := by simp

theorem Spans.union (hfirst : Spans first lo hi) (hsecond : Spans second lo' hi') :
    Spans (first ∪ second) (min lo lo') (max hi hi') := by
  rcases first.eq_empty_or_nonempty with rfl | hleft
  · obtain ⟨rfl, rfl⟩ := hfirst.far rfl
    rcases second.eq_empty_or_nonempty with rfl | hright
    · obtain ⟨rfl, rfl⟩ := hsecond.far rfl
      simpa using spans_empty
    · obtain ⟨hlo, hhi⟩ := hsecond.attained hright
      rw [Set.empty_union, min_eq_right (hsecond.within _ hlo).2,
        max_eq_right (hsecond.within _ hhi).1]
      exact hsecond
  · obtain ⟨hlo, hhi⟩ := hfirst.attained hleft
    rcases second.eq_empty_or_nonempty with rfl | hright
    · obtain ⟨rfl, rfl⟩ := hsecond.far rfl
      rw [Set.union_empty, min_eq_left (hfirst.within _ hlo).2,
        max_eq_left (hfirst.within _ hhi).1]
      exact hfirst
    · obtain ⟨hlo', hhi'⟩ := hsecond.attained hright
      refine ⟨?_, ?_, fun _ => ⟨?_, ?_⟩, fun hempty => ?_⟩
      · rintro time (hmem | hmem)
        · exact hfirst.within time hmem
        · exact hsecond.within time hmem
      · rintro time (hmem | hmem)
        · have := hfirst.between time hmem
          omega
        · have := hsecond.between time hmem
          omega
      · rcases min_choice lo lo' with hmin | hmin
        · rw [hmin]
          exact .inl hlo
        · rw [hmin]
          exact .inr hlo'
      · rcases max_choice hi hi' with hmax | hmax
        · rw [hmax]
          exact .inl hhi
        · rw [hmax]
          exact .inr hhi'
      · exact absurd hempty (hleft.mono Set.subset_union_left).ne_empty

/-- Bounds of several sets, taken together one after the other. -/
theorem Spans.foldl {α : Type*} {items : List α} {times : α → Set Int} {loOf hiOf : α → Int}
    (start : Set Int) (bounds : Int × Int) (hstart : Spans start bounds.1 bounds.2)
    (hitems : ∀ item ∈ items, Spans (times item) (loOf item) (hiOf item)) :
    Spans (start ∪ {time | ∃ item ∈ items, time ∈ times item})
      (items.foldl (fun bounds item => (min bounds.1 (loOf item), max bounds.2 (hiOf item)))
        bounds).1
      (items.foldl (fun bounds item => (min bounds.1 (loOf item), max bounds.2 (hiOf item)))
        bounds).2 := by
  induction items generalizing start bounds with
  | nil => simpa using hstart
  | cons item rest ih =>
    rw [forall_mem_cons] at hitems
    have hnext := ih (start ∪ times item) (min bounds.1 (loOf item), max bounds.2 (hiOf item))
      (hstart.union hitems.1) hitems.2
    have hset : start ∪ {time | ∃ other ∈ item :: rest, time ∈ times other} =
        start ∪ times item ∪ {time | ∃ other ∈ rest, time ∈ times other} := by
      ext time
      simp [or_assoc]
    rw [hset]
    exact hnext

end Spans

section Batches

variable {chunks new : TableChunks ρ} {batch : WriteBatch ρ} {write : Write ρ}
variable {nameOf : Nat → String} {tableId other : Nat} {chunkTime : Int}

@[simp] theorem rowsAt_default : ({} : TableChunks ρ).rowsAt chunkTime = [] := rfl

theorem rowsAt_pushRow (time : Int) (row : Row ρ) :
    (chunks.pushRow time row).rowsAt chunkTime =
      chunks.rowsAt chunkTime ++ if time = chunkTime then [row] else [] := by
  unfold TableChunks.rowsAt TableChunks.pushRow
  by_cases htime : time = chunkTime
  · subst htime
    simp
  · rw [if_neg htime, append_nil, AList.lookup_insert_ne (Ne.symm htime)]

theorem rowsAt_extend :
    (chunks.extend new).rowsAt chunkTime = chunks.rowsAt chunkTime ++ new.rowsAt chunkTime := by
  simp only [TableChunks.rowsAt, TableChunks.extend, lookup_mergeWith]
  cases new.chunkTimeToChunk.lookup chunkTime <;> simp

theorem rowsAt_addWriteBatch {tables : AList fun _ : Nat => TableChunks ρ} {lo hi : Int} :
    (batch.addWriteBatch tables lo hi).rowsAt tableId chunkTime =
      batch.rowsAt tableId chunkTime ++ ((tables.lookup tableId).getD {}).rowsAt chunkTime := by
  simp only [WriteBatch.rowsAt, WriteBatch.addWriteBatch, lookup_mergeWith]
  cases tables.lookup tableId with
  | none => simp
  | some new => simp [rowsAt_extend]

/-- Sorting rows into tables: each chunk gets its rows in order, and each table the bounds of its
row times. -/
theorem foldl_pushRow (rows : List (Nat × Int × Row ρ)) (tableId : Nat) :
    let chunks := ((rows.foldl (fun tables row => tables.insert row.1
      (((tables.lookup row.1).getD {}).pushRow row.2.1 row.2.2))
      (∅ : AList fun _ : Nat => TableChunks ρ)).lookup tableId).getD {}
    (∀ chunkTime, chunks.rowsAt chunkTime =
      (rows.filter fun row => row.1 = tableId && row.2.1 = chunkTime).map (·.2.2)) ∧
    Spans {time | ∃ row ∈ rows, row.1 = tableId ∧ row.2.2.time = time}
      chunks.minTime chunks.maxTime := by
  induction rows using reverseRecOn with
  | nil =>
    refine ⟨fun chunkTime => by simp, ?_⟩
    simpa using spans_empty
  | append_singleton rows row ih =>
    obtain ⟨hrows, hspans⟩ := ih
    simp only [foldl_append, foldl_cons, foldl_nil]
    by_cases htable : row.1 = tableId
    · subst htable
      simp only [AList.lookup_insert, Option.getD_some]
      constructor
      · intro chunkTime
        rw [rowsAt_pushRow, hrows, filter_append]
        by_cases htime : row.2.1 = chunkTime <;> simp [htime]
      · have hset : {time | ∃ other ∈ rows ++ [row], other.1 = row.1 ∧ other.2.2.time = time} =
            {time | ∃ other ∈ rows, other.1 = row.1 ∧ other.2.2.time = time} ∪
              {row.2.2.time} := by
          ext time
          simp only [mem_append, mem_singleton, Set.mem_union, Set.mem_ofPred_eq,
            Set.mem_singleton_iff]
          constructor
          · rintro ⟨other, hother | rfl, htable, htime⟩
            · exact .inl ⟨other, hother, htable, htime⟩
            · exact .inr htime.symm
          · rintro (⟨other, hother, htable, htime⟩ | htime)
            · exact ⟨other, .inl hother, htable, htime⟩
            · exact ⟨row, .inr rfl, rfl, htime.symm⟩
        rw [hset]
        exact hspans.union (spans_singleton row.2.2)
    · rw [AList.lookup_insert_ne (Ne.symm htable)]
      constructor
      · intro chunkTime
        rw [hrows, filter_append]
        simp [htable]
      · have hset : {time | ∃ other ∈ rows ++ [row], other.1 = tableId ∧ other.2.2.time = time} =
            {time | ∃ other ∈ rows, other.1 = tableId ∧ other.2.2.time = time} := by
          ext time
          simp [or_and_right, exists_or, htable]
        rw [hset]
        exact hspans

theorem rowsAt_tableChunks :
    ((write.tableChunks.lookup tableId).getD {}).rowsAt chunkTime =
      write.rowsAt tableId chunkTime :=
  (foldl_pushRow write.rows tableId).1 chunkTime

/-- The tables of a write's batch are those of its rows. -/
theorem mem_tableChunks {row : Nat × Int × Row ρ} (hrow : row ∈ write.rows) :
    row.1 ∈ write.tableChunks := by
  by_contra habsent
  have hnone := AList.lookup_eq_none.mpr habsent
  have hrows : ((write.tableChunks.lookup row.1).getD {}).rowsAt row.2.1 =
      write.rowsAt row.1 row.2.1 := rowsAt_tableChunks
  rw [hnone] at hrows
  have hmem : row.2.2 ∈ write.rowsAt row.1 row.2.1 :=
    mem_map.mpr ⟨row, mem_filter.mpr ⟨hrow, by simp⟩, rfl⟩
  rw [← hrows] at hmem
  simp at hmem

theorem spans_toBatch :
    Spans write.times (write.toBatch nameOf).minTimeNs (write.toBatch nameOf).maxTimeNs := by
  have htables : ∀ entry ∈ write.tableChunks.entries,
      Spans {time | ∃ row ∈ write.rows, row.1 = entry.1 ∧ row.2.2.time = time}
        entry.2.minTime entry.2.maxTime := by
    intro entry hentry
    have hlookup : write.tableChunks.lookup entry.1 = some entry.2 :=
      AList.mem_lookup_iff.mpr hentry
    have hspans := (foldl_pushRow write.rows entry.1).2
    change Spans _ ((write.tableChunks.lookup entry.1).getD {}).minTime
      ((write.tableChunks.lookup entry.1).getD {}).maxTime at hspans
    rw [hlookup] at hspans
    exact hspans
  have hall := Spans.foldl ∅ (i64Max, i64Min) spans_empty htables
  have hset : (∅ : Set Int) ∪ {time | ∃ entry ∈ write.tableChunks.entries,
      time ∈ {time | ∃ row ∈ write.rows, row.1 = entry.1 ∧ row.2.2.time = time}} =
      write.times := by
    ext time
    simp only [Set.empty_union, Set.mem_ofPred_eq, Write.times]
    constructor
    · rintro ⟨_, _, row, hrow, _, htime⟩
      exact ⟨row, hrow, htime⟩
    · rintro ⟨row, hrow, htime⟩
      obtain ⟨chunks, hchunks⟩ := mem_iff_exists_lookup.mp (mem_tableChunks hrow)
      exact ⟨⟨row.1, chunks⟩, AList.mem_lookup_iff.mp hchunks, row, hrow, rfl, htime⟩
  rw [hset] at hall
  exact hall

end Batches

section Buffer

variable {batch : WriteBatch ρ} {writes : List (Write ρ)} {write : Write ρ}
variable {nameOf : Nat → String} {map : AList fun _ : String => WriteBatch ρ}
variable {buffer : WalBuffer ρ} {run : BufferRun ρ}

def named (nameOf : Nat → String) (writes : List (Write ρ)) (name : String) : List (Write ρ) :=
  writes.filter fun write => nameOf write.databaseId = name

/-- A batch has the rows of some writes, their bounds and the id of the first. -/
structure BatchOf (batch : WriteBatch ρ) (writes : List (Write ρ)) : Prop where
  first : ∀ write ∈ writes.head?, batch.databaseId = write.databaseId
  rows : ∀ tableId chunkTime,
    batch.rowsAt tableId chunkTime = writes.flatMap (·.rowsAt tableId chunkTime)
  spans : Spans (timesOf writes) batch.minTimeNs batch.maxTimeNs

/-- Each database name with a write has the batch of its writes. -/
def Holds (nameOf : Nat → String) (writes : List (Write ρ))
    (map : AList fun _ : String => WriteBatch ρ) : Prop :=
  ∀ name, match map.lookup name with
    | none => named nameOf writes name = []
    | some batch => named nameOf writes name ≠ [] ∧ BatchOf batch (named nameOf writes name)

theorem timesOf_append_singleton :
    timesOf (writes ++ [write]) = timesOf writes ∪ write.times := by
  ext time
  simp [timesOf, or_and_right, exists_or]

theorem BatchOf.addWriteBatch (hbatch : BatchOf batch writes)
    (hfirst : writes = [] → batch.databaseId = write.databaseId) :
    BatchOf (batch.addWriteBatch (write.toBatch nameOf).tableChunks
      (write.toBatch nameOf).minTimeNs (write.toBatch nameOf).maxTimeNs) (writes ++ [write]) where
  first := by
    cases writes with
    | nil => simpa [WriteBatch.addWriteBatch] using hfirst rfl
    | cons earlier rest => simpa [WriteBatch.addWriteBatch] using hbatch.first earlier rfl
  rows tableId chunkTime := by
    rw [rowsAt_addWriteBatch, hbatch.rows, flatMap_append, flatMap_singleton]
    congr 1
    exact rowsAt_tableChunks
  spans := by
    rw [timesOf_append_singleton]
    exact hbatch.spans.union spans_toBatch

theorem named_append_singleton (name : String) :
    named nameOf (writes ++ [write]) name =
      named nameOf writes name ++ if nameOf write.databaseId = name then [write] else [] := by
  by_cases hname : nameOf write.databaseId = name <;> simp [named, filter_append, hname]

theorem Holds.batchFor (hholds : Holds nameOf writes buffer.databaseToWriteBatch) :
    BatchOf (buffer.batchFor (write.toBatch nameOf))
        (named nameOf writes (nameOf write.databaseId)) ∧
      (named nameOf writes (nameOf write.databaseId) = [] →
        (buffer.batchFor (write.toBatch nameOf)).databaseId = write.databaseId) := by
  have hname := hholds (nameOf write.databaseId)
  change BatchOf ((buffer.databaseToWriteBatch.lookup (nameOf write.databaseId)).getD _) _ ∧
    (_ → ((buffer.databaseToWriteBatch.lookup (nameOf write.databaseId)).getD _).databaseId = _)
  cases hlookup : buffer.databaseToWriteBatch.lookup (nameOf write.databaseId) with
  | none =>
    simp only [hlookup] at hname
    rw [hname]
    have hspans : Spans (timesOf ([] : List (Write ρ))) i64Max i64Min := by
      simpa [timesOf] using spans_empty
    exact ⟨⟨by simp, fun _ _ => rfl, hspans⟩, fun _ => rfl⟩
  | some batch =>
    simp only [hlookup] at hname
    exact ⟨hname.2, fun hempty => absurd hempty hname.1⟩

theorem Holds.writeOp (write : Write ρ) (hholds : Holds nameOf writes buffer.databaseToWriteBatch) :
    Holds nameOf (writes ++ [write])
      (buffer.writeOp (.write (write.toBatch nameOf))).databaseToWriteBatch := by
  obtain ⟨hbatch, hfirst⟩ := hholds.batchFor
  intro name
  rw [named_append_singleton]
  simp only [WalBuffer.writeOp]
  by_cases hname : nameOf write.databaseId = name
  · subst hname
    rw [show (write.toBatch nameOf).databaseName = nameOf write.databaseId from rfl,
      AList.lookup_insert, if_pos rfl]
    exact ⟨by simp, hbatch.addWriteBatch hfirst⟩
  · rw [show (write.toBatch nameOf).databaseName = nameOf write.databaseId from rfl,
      AList.lookup_insert_ne (Ne.symm hname), if_neg hname, append_nil]
    exact hholds name

theorem Holds.foldl_writeOp (ops : List (Write ρ ⊕ Int))
    (hholds : Holds nameOf writes buffer.databaseToWriteBatch) :
    Holds nameOf (writes ++ ops.filterMap Sum.getLeft?)
      ((ops.map (toWalOp nameOf)).foldl WalBuffer.writeOp buffer).databaseToWriteBatch := by
  induction ops generalizing writes buffer with
  | nil => simpa using hholds
  | cons op rest ih =>
    cases op with
    | inl write =>
      have hnext := ih (hholds.writeOp write)
      rw [append_assoc] at hnext
      exact hnext
    | inr timestampNs => exact ih hholds

theorem Holds.act (action : BufferAction ρ)
    (hholds : Holds nameOf run.accepted run.buffer.databaseToWriteBatch) :
    Holds nameOf (run.act nameOf action).accepted
      (run.act nameOf action).buffer.databaseToWriteBatch := by
  cases action with
  | setState state => exact hholds
  | addNoOp now => exact hholds
  | writeOps ops =>
    simp only [BufferRun.act, WalBuffer.writeOpsUnconfirmed]
    by_cases hstate : run.buffer.state ≠ .acceptingWrites
    · rw [if_pos hstate]
      exact hholds
    · rw [if_neg hstate]
      by_cases hfull : run.buffer.opLimit ≤ run.buffer.opCount
      · rw [if_pos hfull]
        exact hholds
      · rw [if_neg hfull]
        exact hholds.foldl_writeOp ops

theorem holds_foldl_act (run : BufferRun ρ) (actions : List (BufferAction ρ))
    (hholds : Holds nameOf run.accepted run.buffer.databaseToWriteBatch) :
    Holds nameOf (actions.foldl (·.act nameOf) run).accepted
      (actions.foldl (·.act nameOf) run).buffer.databaseToWriteBatch := by
  induction actions generalizing run with
  | nil => exact hholds
  | cons action rest ih => exact ih _ (hholds.act action)

end Buffer

section Contents

variable {writes : List (Write ρ)} {nameOf : Nat → String} {buffer : WalBuffer ρ}
variable {forcedSnapshot : Bool} {databaseId tableId : Nat} {chunkTime : Int}

theorem rowsAt_intoWalContents :
    (buffer.intoWalContents forcedSnapshot).rowsAt databaseId tableId chunkTime =
      buffer.databaseToWriteBatch.entries.flatMap fun entry =>
        if entry.2.databaseId = databaseId then entry.2.rowsAt tableId chunkTime else [] := by
  unfold WalBuffer.intoWalContents FlushedContents.rowsAt
  dsimp only
  split
  · rename_i hempty _
    simp only [Bool.and_eq_true, List.isEmpty_iff, map_eq_nil_iff] at hempty
    simp [hempty.1]
  · simp [flatMap_map]

def firstNamed (nameOf : Nat → String) (writes : List (Write ρ)) (databaseId : Nat) :
    Option (Write ρ) :=
  (named nameOf writes (nameOf databaseId)).head?

/-- A database id has the rows of all writes under its name if it is the id of the first of them,
and no rows otherwise. -/
theorem Holds.rowsAt (hholds : Holds nameOf writes buffer.databaseToWriteBatch) :
    (buffer.intoWalContents forcedSnapshot).rowsAt databaseId tableId chunkTime =
      if (firstNamed nameOf writes databaseId).any (·.databaseId = databaseId) then
        (named nameOf writes (nameOf databaseId)).flatMap (·.rowsAt tableId chunkTime)
      else [] := by
  have hbatches : ∀ name batch, buffer.databaseToWriteBatch.lookup name = some batch →
      ∃ first, (named nameOf writes name).head? = some first ∧
        batch.databaseId = first.databaseId ∧ nameOf first.databaseId = name ∧
        BatchOf batch (named nameOf writes name) := by
    intro name batch hlookup
    have hname := hholds name
    simp only [hlookup] at hname
    obtain ⟨first, hfirst⟩ := Option.isSome_iff_exists.mp (isSome_head?.mpr hname.1)
    have hmem := (mem_filter.mp (mem_of_mem_head? hfirst)).2
    exact ⟨first, hfirst, hname.2.first first hfirst, of_decide_eq_true hmem, hname.2⟩
  -- a batch under another name has an id of that name
  have hother : ∀ entry ∈ buffer.databaseToWriteBatch.entries, entry.1 ≠ nameOf databaseId →
      (if entry.2.databaseId = databaseId then entry.2.rowsAt tableId chunkTime else []) = [] := by
    intro entry hentry hne
    obtain ⟨first, _, hid, hname, _⟩ :=
      hbatches entry.1 entry.2 (AList.mem_lookup_iff.mpr hentry)
    rw [if_neg]
    intro heq
    exact hne (by rw [← hname, ← hid, heq])
  rw [rowsAt_intoWalContents, flatMap_entries hother]
  cases hlookup : buffer.databaseToWriteBatch.lookup (nameOf databaseId) with
  | none =>
    have hname := hholds (nameOf databaseId)
    simp only [hlookup] at hname
    simp [firstNamed, hname]
  | some batch =>
    obtain ⟨first, hfirst, hid, _, hbatch⟩ := hbatches _ batch hlookup
    simp [firstNamed, hfirst, hid, hbatch.rows]

theorem Holds.bounds (forcedSnapshot : Bool)
    (hholds : Holds nameOf writes buffer.databaseToWriteBatch)
    (hsome : (timesOf writes).Nonempty) :
    Spans (timesOf writes) (buffer.intoWalContents forcedSnapshot).minTimestampNs
      (buffer.intoWalContents forcedSnapshot).maxTimestampNs := by
  have hspans : ∀ entry ∈ buffer.databaseToWriteBatch.entries,
      Spans (timesOf (named nameOf writes entry.1)) entry.2.minTimeNs entry.2.maxTimeNs := by
    intro entry hentry
    have hname := hholds entry.1
    have hlookup : buffer.databaseToWriteBatch.lookup entry.1 = some entry.2 :=
      AList.mem_lookup_iff.mpr hentry
    simp only [hlookup] at hname
    exact hname.2.spans
  have hall := Spans.foldl ∅ (i64Max, i64Min) spans_empty hspans
  have hset : (∅ : Set Int) ∪ {time | ∃ entry ∈ buffer.databaseToWriteBatch.entries,
      time ∈ timesOf (named nameOf writes entry.1)} = timesOf writes := by
    ext time
    simp only [Set.empty_union, Set.mem_ofPred_eq, timesOf]
    constructor
    · rintro ⟨_, _, write, hwrite, htime⟩
      exact ⟨write, (mem_filter.mp hwrite).1, htime⟩
    · rintro ⟨write, hwrite, htime⟩
      have hnamed : write ∈ named nameOf writes (nameOf write.databaseId) :=
        mem_filter.mpr ⟨hwrite, by simp⟩
      have hname := hholds (nameOf write.databaseId)
      cases hlookup : buffer.databaseToWriteBatch.lookup (nameOf write.databaseId) with
      | none =>
        simp only [hlookup] at hname
        simp [hname] at hnamed
      | some batch =>
        exact ⟨⟨_, batch⟩, AList.mem_lookup_iff.mp hlookup, write, hnamed, htime⟩
  rw [hset] at hall
  have hentries : buffer.databaseToWriteBatch.entries ≠ [] := by
    rintro hnil
    obtain ⟨time, htime⟩ := hsome
    rw [← hset] at htime
    simp [hnil] at htime
  unfold WalBuffer.intoWalContents
  dsimp only
  split
  · rename_i hempty _
    simp [hentries] at hempty
  · simpa [foldl_map] using hall

end Contents

section Conservation

variable {writes : List (Write ρ)} {nameOf : Nat → String} {write : Write ρ}

theorem firstNamed_eq_find? (databaseId : Nat) :
    firstNamed nameOf writes databaseId =
      writes.find? fun other => nameOf other.databaseId = nameOf databaseId := by
  unfold firstNamed named
  rw [head?_filter]

theorem flatMap_filter_congr {α β : Type*} {p q : α → Bool} {f : α → List β} {items : List α}
    (hsame : ∀ item ∈ items, f item ≠ [] → p item = q item) :
    (items.filter p).flatMap f = (items.filter q).flatMap f := by
  induction items with
  | nil => rfl
  | cons item rest ih =>
    rw [forall_mem_cons] at hsame
    have hrest := ih hsame.2
    by_cases hnil : f item = []
    · simp only [filter_cons]
      split <;> split <;> simp [hnil, hrest]
    · simp only [filter_cons, hsame.1 hnil]
      split <;> simp [hrest]

/-- Where the rows all have the first id of their name, the rows under a name are those of that
id. -/
theorem FirstIds.rows (hids : FirstIds nameOf writes) (databaseId tableId : Nat)
    (chunkTime : Int) :
    (if (firstNamed nameOf writes databaseId).any (·.databaseId = databaseId) then
        (named nameOf writes (nameOf databaseId)).flatMap (·.rowsAt tableId chunkTime)
      else []) = submittedRows writes databaseId tableId chunkTime := by
  have hfirst : ∀ write ∈ writes, nameOf write.databaseId = nameOf databaseId →
      write.rowsAt tableId chunkTime ≠ [] →
      ∃ first, firstNamed nameOf writes databaseId = some first ∧
        write.databaseId = first.databaseId := by
    intro write hwrite hname hsome
    have hrows : write.rows ≠ [] := fun hnil =>
      hsome (by simp [Write.rowsAt, hnil])
    have hfind := hids write hwrite hrows
    rw [hname, ← firstNamed_eq_find?] at hfind
    cases hnamed : firstNamed nameOf writes databaseId with
    | none =>
      rw [firstNamed_eq_find?, find?_eq_none] at hnamed
      exact absurd hname (by simpa using hnamed write hwrite)
    | some first => exact ⟨first, rfl, hfind first hnamed⟩
  split
  case isTrue hany =>
    apply flatMap_filter_congr
    intro write hwrite hsome
    rw [decide_eq_decide]
    constructor
    · intro hname
      obtain ⟨first, hnamed, hid⟩ := hfirst write hwrite hname hsome
      rw [hid]
      simpa [hnamed] using hany
    · intro hid
      rw [hid]
  case isFalse hany =>
    symm
    rw [submittedRows, flatMap_eq_nil_iff]
    intro write hwrite
    obtain ⟨hmem, hid⟩ := mem_filter.mp hwrite
    rw [decide_eq_true_eq] at hid
    by_contra hsome
    obtain ⟨first, hnamed, hsame⟩ := hfirst write hmem (by rw [hid]) hsome
    exact hany (by simp [hnamed, ← hsame, hid])

/-- Rows whose write has another id than the first under its name are not flushed under theirs. -/
theorem firstIds_of_rows (hrows : ∀ databaseId tableId chunkTime,
      (if (firstNamed nameOf writes databaseId).any (·.databaseId = databaseId) then
          (named nameOf writes (nameOf databaseId)).flatMap (·.rowsAt tableId chunkTime)
        else []) = submittedRows writes databaseId tableId chunkTime) :
    FirstIds nameOf writes := by
  intro write hwrite hsome first hfirst
  by_contra hne
  rw [← firstNamed_eq_find?] at hfirst
  obtain ⟨row, hrow⟩ := exists_mem_of_ne_nil _ hsome
  have hflushed := hrows write.databaseId row.1 row.2.1
  rw [hfirst, if_neg (by simpa using Ne.symm hne)] at hflushed
  have hsubmitted : row.2.2 ∈ submittedRows writes write.databaseId row.1 row.2.1 := by
    refine mem_flatMap.mpr ⟨write, mem_filter.mpr ⟨hwrite, by simp⟩, ?_⟩
    exact mem_map.mpr ⟨row, mem_filter.mpr ⟨hrow, by simp⟩, rfl⟩
  rw [← hflushed] at hsubmitted
  cases hsubmitted

end Conservation

/-- The buffer after some actions since the last flush. -/
def bufferRun (nameOf : Nat → String) (state : WalBufferState) (opLimit opCount : Nat)
    (actions : List (BufferAction ρ)) : BufferRun ρ :=
  actions.foldl (·.act nameOf)
    { buffer := { state := state, opLimit := opLimit, opCount := opCount } }

/-- A flush conserves the accepted rows just when every write that has rows has the id of the
first write under its database name. -/
theorem conserves_iff (nameOf : Nat → String) (state : WalBufferState) (opLimit opCount : Nat)
    (actions : List (BufferAction ρ)) (forcedSnapshot : Bool) :
    Conserves (bufferRun nameOf state opLimit opCount actions).accepted
        ((bufferRun nameOf state opLimit opCount actions).buffer.intoWalContents
          forcedSnapshot) ↔
      FirstIds nameOf (bufferRun nameOf state opLimit opCount actions).accepted := by
  have hempty : Holds nameOf ([] : List (Write ρ)) ∅ := fun name => by simp [named]
  have hholds := holds_foldl_act
    { buffer := { state := state, opLimit := opLimit, opCount := opCount } } actions hempty
  change Holds nameOf (bufferRun nameOf state opLimit opCount actions).accepted _ at hholds
  constructor
  · intro hconserves
    refine firstIds_of_rows fun databaseId tableId chunkTime => ?_
    rw [← hconserves.rows]
    exact hholds.rowsAt.symm
  · intro hids
    constructor
    · intro databaseId tableId chunkTime
      rw [← hids.rows]
      exact hholds.rowsAt
    · intro hsome
      have hspans := hholds.bounds forcedSnapshot hsome
      exact ⟨(hspans.attained hsome).1, (hspans.attained hsome).2, hspans.between⟩

/-- A database is dropped and created again under its name between two writes: the row of the
second is flushed under the id of the first. -/
theorem recreated_database_rows_relabelled :
    ∃ actions : List (BufferAction Unit),
      ¬Conserves (bufferRun (fun _ => "db") .acceptingWrites 100000 0 actions).accepted
        ((bufferRun (fun _ => "db") .acceptingWrites 100000 0 actions).buffer.intoWalContents
          false) := by
  let row : Row Unit := ⟨0, (), by decide⟩
  refine ⟨[.writeOps [.inl ⟨1, 1, [(1, 0, row)]⟩], .writeOps [.inl ⟨3, 2, [(2, 0, row)]⟩]], ?_⟩
  intro hconserves
  have hlength := congrArg length (hconserves.rows 2 2 0)
  revert hlength
  decide

end RefluxDb.Wal
