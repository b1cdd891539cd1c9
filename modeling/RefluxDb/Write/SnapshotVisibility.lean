import RefluxDb.Write.Visibility

/-! Whether rows stay visible while a snapshot is persisted.

A snapshot moves the old chunks of each table aside and gives each to a persist job. A job adds
its file and then clears the chunks that were moved aside, all those of its table and not only its
own. Only one snapshot is persisted at a time: the next one waits for the permit of the running
one. A chunk that was moved aside has the columns its table had then, and a query that asks it for a
column added since fails. -/

namespace RefluxDb.Write

open List RefluxDb.Library RefluxDb.Query

variable {Id Tags Field Value : Type*} [DecidableEq Tags]

/-- Rows of one chunk time that a WAL file brings to a table. `exceedsLimit` is whether they do not
fit the last chunk of their time. -/
structure ChunkWrite (Tags Field Value : Type*) where
  key : TableKey
  chunk : BufferedChunk Tags Field Value
  exceedsLimit : Bool

/-- The buffers of all tables, the jobs of the running snapshot and the files. `columns` are those
of the catalog, `snapshotColumns` those of the chunks that were moved aside last, `acknowledged` the
rows that were buffered. -/
structure QueryableBuffer (Tags Field Value : Type*) where
  columns : TableKey → List String := fun _ => []
  buffers : TableKey → TableBuffer Tags Field Value := fun _ => {}
  snapshotColumns : TableKey → List String := fun _ => []
  persistJobs : List (TableKey × BufferedChunk Tags Field Value) := []
  persistedFiles : List (TableKey × StoredFile Tags Field Value) := []
  acknowledged : List (TableKey × Row Tags Field Value) := []

inductive BufferAction (Tags Field Value : Type*) where
  | addColumn (key : TableKey) (name : String)
  | notify (writes : List (ChunkWrite Tags Field Value))
  | notifyAndSnapshot (writes : List (ChunkWrite Tags Field Value)) (tables : List TableKey)
      (endTimeMarker : Int)
  | persist (index : Nat) (path : String) (id sizeBytes : Nat)

namespace QueryableBuffer

variable (state : QueryableBuffer Tags Field Value)

def addWrite (write : ChunkWrite Tags Field Value) : QueryableBuffer Tags Field Value :=
  { state with
    buffers := Function.update state.buffers write.key
      ((state.buffers write.key).bufferChunk write.chunk write.exceedsLimit)
    acknowledged := state.acknowledged ++ write.chunk.rows.map (write.key, ·) }

def bufferWriteOps (writes : List (ChunkWrite Tags Field Value)) :
    QueryableBuffer Tags Field Value :=
  writes.foldl addWrite state

/-- Snapshots one table: its old chunks become jobs. -/
def snapshotTable (endTimeMarker : Int) (key : TableKey) : QueryableBuffer Tags Field Value :=
  let buffer := (state.buffers key).snapshot endTimeMarker
  { state with
    buffers := Function.update state.buffers key buffer
    snapshotColumns := Function.update state.snapshotColumns key (state.columns key)
    persistJobs := state.persistJobs ++ buffer.snapshottingChunks.map (key, ·) }

/-- A job is done: its file is added and the chunks its table had moved aside are cleared. -/
def finishJob (index : Nat) (job : TableKey × BufferedChunk Tags Field Value) (path : String)
    (id sizeBytes : Nat) : QueryableBuffer Tags Field Value :=
  { state with
    persistJobs := state.persistJobs.eraseIdx index
    persistedFiles :=
      state.persistedFiles ++ [(job.1, Table.persistedFile job.2 path id sizeBytes)]
    buffers := Function.update state.buffers job.1 (state.buffers job.1).clearSnapshots }

/-- `tables` are the buffered tables that the catalog does not mark as deleted. -/
def step : BufferAction Tags Field Value → Option (QueryableBuffer Tags Field Value)
  | .addColumn key name =>
    some { state with
      columns := Function.update state.columns key (state.columns key ++ [name]) }
  | .notify writes => some (state.bufferWriteOps writes)
  | .notifyAndSnapshot writes tables endTimeMarker =>
    if state.persistJobs.isEmpty ∧ tables.Nodup then
      some (tables.foldl (snapshotTable · endTimeMarker) (state.bufferWriteOps writes))
    else none
  | .persist index path id sizeBytes =>
    state.persistJobs[index]?.map fun job => state.finishJob index job path id sizeBytes

def machine : Machine (QueryableBuffer Tags Field Value) (BufferAction Tags Field Value) where
  initial state := state = {}
  step := step

/-- One table of the buffer, as a query sees it. -/
def table (key : TableKey) : Table Tags Field Value where
  buffer := state.buffers key
  persistJobs := (state.persistJobs.filter (·.1 = key)).map Prod.snd
  persisted := (state.persistedFiles.filter (·.1 = key)).map Prod.snd

/-- The first column of the table that a chunk aside, if the query reads one, does not have. -/
def missingColumn (key : TableKey) (filter : ChunkFilter) : Option String :=
  if (state.buffers key).snapshottingChunks.any fun chunk =>
      filter.testTimeStampMinMax chunk.timestampMinMax.1 chunk.timestampMinMax.2 then
    (state.columns key).find? fun name => !(state.snapshotColumns key).contains name
  else none

def getTableChunks (config : TableConfig Id) (key : TableKey) (filter : ChunkFilter) :
    Except String (List (QueryChunk Id Tags Field Value)) :=
  match state.missingColumn key filter with
  | some name => .error s!"error getting batches Field not found in table buffer: {name}"
  | none => .ok ((state.table key).getTableChunks config filter)

/-- The steps that finish no job while another one of the same table runs, and add no column to a
table that has chunks aside. -/
def PersistsAlone (state : QueryableBuffer Tags Field Value) :
    BufferAction Tags Field Value → Prop
  | .addColumn key _ => (state.buffers key).snapshottingChunks.isEmpty
  | .persist index _ _ _ => ∀ job ∈ state.persistJobs[index]?,
      ∀ other ∈ state.persistJobs.eraseIdx index, other.1 ≠ job.1
  | _ => True

instance (action : BufferAction Tags Field Value) : Decidable (PersistsAlone state action) := by
  cases action <;> unfold PersistsAlone <;> infer_instance

/-- Where a buffered row is. -/
inductive Located (key : TableKey) (row : Row Tags Field Value) : Prop
  | buffered (chunk : BufferedChunk Tags Field Value)
      (hchunk : chunk ∈ (state.buffers key).snapshottingChunks ++ (state.buffers key).chunks)
      (hrow : row ∈ chunk.rows)
  | persisted (stored : StoredFile Tags Field Value)
      (hstored : (key, stored) ∈ state.persistedFiles) (hshown : ShownIn stored.rows row)

/-- Every buffered row is somewhere, and what is moved aside has a job that still runs and all the
columns of its table. -/
structure Keeps : Prop where
  located : ∀ key row, (key, row) ∈ state.acknowledged → state.Located key row
  running : ∀ key, ∀ chunk ∈ (state.buffers key).snapshottingChunks,
    (key, chunk) ∈ state.persistJobs
  columns : ∀ key, (state.buffers key).snapshottingChunks ≠ [] →
    state.columns key ⊆ state.snapshotColumns key

variable {state} {next : QueryableBuffer Tags Field Value}

omit [DecidableEq Tags] in
theorem buffers_addWrite (write : ChunkWrite Tags Field Value) :
    (state.addWrite write).buffers = Function.update state.buffers write.key
      ((state.buffers write.key).bufferChunk write.chunk write.exceedsLimit) := rfl

omit [DecidableEq Tags] in
theorem snapshottingChunks_addWrite (write : ChunkWrite Tags Field Value) (key : TableKey) :
    ((state.addWrite write).buffers key).snapshottingChunks =
      (state.buffers key).snapshottingChunks := by
  rw [buffers_addWrite]
  by_cases hkey : key = write.key
  · subst hkey
    rw [Function.update_self, TableBuffer.bufferChunk]
  · rw [Function.update_of_ne hkey]

omit [DecidableEq Tags] in
theorem buffers_snapshotTable (endTimeMarker : Int) (key : TableKey) :
    (state.snapshotTable endTimeMarker key).buffers =
      Function.update state.buffers key ((state.buffers key).snapshot endTimeMarker) := rfl

theorem buffers_finishJob (index : Nat) (job : TableKey × BufferedChunk Tags Field Value)
    (path : String) (id sizeBytes : Nat) :
    (state.finishJob index job path id sizeBytes).buffers =
      Function.update state.buffers job.1 (state.buffers job.1).clearSnapshots := rfl

variable {key : TableKey} {row : Row Tags Field Value}

section

omit [DecidableEq Tags]

theorem Keeps.getTableChunks (hkeeps : state.Keeps) (config : TableConfig Id) (key : TableKey)
    (filter : ChunkFilter) : state.getTableChunks config key filter =
      .ok ((state.table key).getTableChunks config filter) := by
  have hnone : state.missingColumn key filter = none := by
    rw [missingColumn]
    split
    case isFalse => rfl
    case isTrue haside =>
      obtain ⟨chunk, hchunk, _⟩ := any_eq_true.mp haside
      have hcolumns := hkeeps.columns key (ne_nil_of_mem hchunk)
      exact find?_eq_none.mpr fun name hname => by simpa using hcolumns hname
  rw [QueryableBuffer.getTableChunks, hnone]

theorem exists_mem_appendRows {added : BufferedChunk Tags Field Value}
    {chunks : List (BufferedChunk Tags Field Value)}
    (hrow : (∃ chunk ∈ chunks, row ∈ chunk.rows) ∨ row ∈ added.rows) :
    ∃ kept ∈ TableBuffer.appendRows added chunks, row ∈ kept.rows := by
  induction chunks with
  | nil =>
    rcases hrow with ⟨_, hchunk, _⟩ | hrow
    · simp at hchunk
    · exact ⟨added, by simp [TableBuffer.appendRows], hrow⟩
  | cons first rest ih =>
    simp only [exists_mem_cons_iff, or_assoc] at hrow
    rw [TableBuffer.appendRows]
    split
    case isTrue =>
      rcases hrow with hfirst | ⟨chunk, hchunk, hrow⟩ | hnew
      · exact ⟨_, mem_cons_self, mem_append_left _ hfirst⟩
      · exact ⟨chunk, mem_cons_of_mem _ hchunk, hrow⟩
      · exact ⟨_, mem_cons_self, mem_append_right _ hnew⟩
    case isFalse =>
      rcases hrow with hfirst | hrest
      · exact ⟨first, mem_cons_self, hfirst⟩
      · obtain ⟨kept, hkept, hin⟩ := ih hrest
        exact ⟨kept, mem_cons_of_mem _ hkept, hin⟩

theorem exists_mem_bufferChunk {buffer : TableBuffer Tags Field Value}
    (added : BufferedChunk Tags Field Value) (exceedsLimit : Bool)
    (hrow : (∃ chunk ∈ buffer.chunks, row ∈ chunk.rows) ∨ row ∈ added.rows) :
    ∃ kept ∈ (buffer.bufferChunk added exceedsLimit).chunks, row ∈ kept.rows := by
  cases exceedsLimit with
  | false => exact exists_mem_appendRows hrow
  | true =>
    rcases hrow with ⟨chunk, hchunk, hrow⟩ | hrow
    · exact ⟨chunk, mem_append_left _ hchunk, hrow⟩
    · exact ⟨added, mem_concat_self, hrow⟩

theorem Located.addWrite {write : ChunkWrite Tags Field Value}
    (hrow : state.Located key row ∨ key = write.key ∧ row ∈ write.chunk.rows) :
    (state.addWrite write).Located key row := by
  rcases hrow with hlocated | ⟨rfl, hnew⟩
  · cases hlocated with
    | persisted stored hstored hshown => exact .persisted stored hstored hshown
    | buffered chunk hchunk hrow =>
      by_cases hkey : key = write.key
      · subst hkey
        rcases mem_append.mp hchunk with haside | hmutable
        · refine .buffered chunk (mem_append_left _ ?_) hrow
          rw [buffers_addWrite, Function.update_self]
          exact haside
        · obtain ⟨kept, hkept, hin⟩ :=
            exists_mem_bufferChunk write.chunk write.exceedsLimit (.inl ⟨chunk, hmutable, hrow⟩)
          refine .buffered kept (mem_append_right _ ?_) hin
          rw [buffers_addWrite, Function.update_self]
          exact hkept
      · refine .buffered chunk ?_ hrow
        rwa [buffers_addWrite, Function.update_of_ne hkey]
  · obtain ⟨kept, hkept, hin⟩ :=
      exists_mem_bufferChunk write.chunk write.exceedsLimit (.inr hnew)
    refine .buffered kept (mem_append_right _ ?_) hin
    rw [buffers_addWrite, Function.update_self]
    exact hkept

theorem Keeps.addWrite (hkeeps : state.Keeps) (write : ChunkWrite Tags Field Value) :
    (state.addWrite write).Keeps := by
  constructor
  · intro key row hrow
    refine Located.addWrite ?_
    rcases mem_append.mp hrow with hold | hnew
    · exact .inl (hkeeps.located key row hold)
    · obtain ⟨_, hin, hentry⟩ := mem_map.mp hnew
      obtain ⟨rfl, rfl⟩ := Prod.mk.inj hentry
      exact .inr ⟨rfl, hin⟩
  · intro key chunk hchunk
    rw [snapshottingChunks_addWrite] at hchunk
    exact hkeeps.running key chunk hchunk
  · intro key haside
    rw [snapshottingChunks_addWrite] at haside
    exact hkeeps.columns key haside

theorem Keeps.bufferWriteOps (hkeeps : state.Keeps) (writes : List (ChunkWrite Tags Field Value)) :
    (state.bufferWriteOps writes).Keeps ∧
      (state.bufferWriteOps writes).persistJobs = state.persistJobs := by
  induction writes generalizing state with
  | nil => exact ⟨hkeeps, rfl⟩
  | cons write rest ih => exact ih (hkeeps.addWrite write)

/-- A snapshot of a table that has nothing aside loses nothing, and leaves other tables alone. -/
theorem Keeps.snapshotTable (hkeeps : state.Keeps) (endTimeMarker : Int)
    (haside : (state.buffers key).snapshottingChunks = []) :
    (state.snapshotTable endTimeMarker key).Keeps := by
  constructor
  · intro other row hrow
    cases hkeeps.located other row hrow with
    | persisted stored hstored hshown => exact .persisted stored hstored hshown
    | buffered chunk hchunk hrow =>
      refine .buffered chunk ?_ hrow
      by_cases hkey : other = key
      · subst hkey
        rw [haside] at hchunk
        rw [buffers_snapshotTable, Function.update_self, mem_append]
        by_cases hold : chunk.chunkTime < endTimeMarker
        · exact .inl (mem_filter.mpr ⟨hchunk, by simpa using hold⟩)
        · exact .inr (mem_filter.mpr ⟨hchunk, by simpa using hold⟩)
      · rwa [buffers_snapshotTable, Function.update_of_ne hkey]
  · intro other chunk hchunk
    by_cases hkey : other = key
    · subst hkey
      rw [buffers_snapshotTable, Function.update_self] at hchunk
      exact mem_append_right _ (mem_map_of_mem hchunk)
    · rw [buffers_snapshotTable, Function.update_of_ne hkey] at hchunk
      exact mem_append_left _ (hkeeps.running other chunk hchunk)
  · intro other haside
    simp only [QueryableBuffer.snapshotTable]
    by_cases hkey : other = key
    · subst hkey
      rw [Function.update_self]
      exact Subset.refl _
    · rw [buffers_snapshotTable, Function.update_of_ne hkey] at haside
      rw [Function.update_of_ne hkey]
      exact hkeeps.columns other haside

end

variable {tables : List TableKey}

omit [DecidableEq Tags] in
theorem Keeps.snapshotTables (hkeeps : state.Keeps) (endTimeMarker : Int)
    (hnodup : tables.Nodup) (haside : ∀ key ∈ tables, (state.buffers key).snapshottingChunks = []) :
    (tables.foldl (QueryableBuffer.snapshotTable · endTimeMarker) state).Keeps := by
  induction tables generalizing state with
  | nil => exact hkeeps
  | cons key rest ih =>
    obtain ⟨hfresh, hrest⟩ := nodup_cons.mp hnodup
    refine ih (hkeeps.snapshotTable endTimeMarker (haside key mem_cons_self)) hrest ?_
    intro other hother
    have hne : other ≠ key := fun heq => hfresh (heq ▸ hother)
    rw [buffers_snapshotTable, Function.update_of_ne hne]
    exact haside other (mem_cons_of_mem _ hother)

theorem Keeps.notifyAndSnapshot (hkeeps : state.Keeps) {writes : List (ChunkWrite Tags Field Value)}
    {endTimeMarker : Int}
    (hstep : state.step (.notifyAndSnapshot writes tables endTimeMarker) = some next) :
    next.Keeps := by
  simp only [step, Option.ite_none_right_eq_some, Option.some.injEq, List.isEmpty_iff] at hstep
  obtain ⟨⟨hidle, hnodup⟩, rfl⟩ := hstep
  obtain ⟨hbuffered, hjobs⟩ := hkeeps.bufferWriteOps writes
  refine hbuffered.snapshotTables endTimeMarker hnodup fun key _ => ?_
  rw [eq_nil_iff_forall_not_mem]
  intro chunk hchunk
  have hjob := hbuffered.running key chunk hchunk
  rw [hjobs, hidle] at hjob
  exact not_mem_nil hjob

/-- The chunk of the job that finishes is the only one its table has aside, and its rows are in the
new file. -/
theorem Keeps.persist (hkeeps : state.Keeps) {index : Nat} {path : String} {id sizeBytes : Nat}
    (hallowed : PersistsAlone state (.persist index path id sizeBytes))
    (hstep : state.step (.persist index path id sizeBytes) = some next) : next.Keeps := by
  obtain ⟨job, hjob, rfl⟩ := Option.map_eq_some_iff.mp hstep
  have halone := hallowed job hjob
  have hmem (chunk : BufferedChunk Tags Field Value)
      (hchunk : chunk ∈ (state.buffers job.1).snapshottingChunks) : chunk = job.2 := by
    have hrunning := hkeeps.running job.1 chunk hchunk
    by_contra hne
    refine halone (job.1, chunk) ?_ rfl
    obtain ⟨position, hposition⟩ := mem_iff_getElem?.mp hrunning
    rw [mem_eraseIdx_iff_getElem?]
    refine ⟨position, ?_, hposition⟩
    rintro rfl
    rw [hjob] at hposition
    exact hne (congrArg Prod.snd (Option.some.inj hposition)).symm
  constructor
  · intro key row hacknowledged
    cases hkeeps.located key row hacknowledged with
    | persisted stored hstored hshown =>
      exact .persisted stored (mem_append_left _ hstored) hshown
    | buffered chunk hchunk hrow =>
      by_cases hkey : key = job.1
      · subst hkey
        rcases mem_append.mp hchunk with haside | hmutable
        · rw [hmem chunk haside] at hrow
          exact .persisted _ (mem_concat_self)
            (shownIn_deduplicate hrow)
        · refine .buffered chunk (mem_append_right _ ?_) hrow
          rw [buffers_finishJob, Function.update_self]
          exact hmutable
      · refine .buffered chunk ?_ hrow
        rwa [buffers_finishJob, Function.update_of_ne hkey]
  · intro key chunk hchunk
    by_cases hkey : key = job.1
    · subst hkey
      rw [buffers_finishJob] at hchunk
      simp [TableBuffer.clearSnapshots] at hchunk
    · rw [buffers_finishJob, Function.update_of_ne hkey] at hchunk
      have hrunning := hkeeps.running key chunk hchunk
      obtain ⟨position, hposition⟩ := mem_iff_getElem?.mp hrunning
      refine mem_eraseIdx_iff_getElem?.mpr ⟨position, ?_, hposition⟩
      rintro rfl
      rw [hjob] at hposition
      exact hkey (congrArg Prod.fst (Option.some.inj hposition)).symm
  · intro key haside
    by_cases hkey : key = job.1
    · subst hkey
      rw [buffers_finishJob, Function.update_self] at haside
      exact absurd rfl haside
    · rw [buffers_finishJob, Function.update_of_ne hkey] at haside
      exact hkeeps.columns key haside

/-- A column is only added to a table that has nothing aside. -/
theorem Keeps.addColumn (hkeeps : state.Keeps) {name : String}
    (hallowed : PersistsAlone state (.addColumn key name))
    (hstep : state.step (.addColumn key name) = some next) : next.Keeps := by
  obtain rfl := Option.some.inj hstep
  have hnone : (state.buffers key).snapshottingChunks = [] := isEmpty_iff.mp hallowed
  constructor
  · intro other row hrow
    cases hkeeps.located other row hrow with
    | persisted stored hstored hshown => exact .persisted stored hstored hshown
    | buffered chunk hchunk hrow => exact .buffered chunk hchunk hrow
  · exact hkeeps.running
  · intro other haside
    have hne : other ≠ key := fun heq => haside (heq ▸ hnone)
    simp only [Function.update_of_ne hne]
    exact hkeeps.columns other haside

theorem Keeps.step {action : BufferAction Tags Field Value} (hkeeps : state.Keeps)
    (hallowed : PersistsAlone state action) (hstep : state.step action = some next) :
    next.Keeps := by
  cases action with
  | addColumn key name => exact hkeeps.addColumn hallowed hstep
  | notify writes =>
    obtain rfl := Option.some.inj hstep
    exact (hkeeps.bufferWriteOps writes).1
  | notifyAndSnapshot writes tables endTimeMarker => exact hkeeps.notifyAndSnapshot hstep
  | persist index path id sizeBytes => exact hkeeps.persist hallowed hstep

section Example

/-- A write of one row at the start of a gen1 chunk of the first table. -/
def rowAt (chunkTime : Int) : ChunkWrite Nat Unit Nat where
  key := ⟨1, 1⟩
  chunk := ⟨chunkTime, [⟨⟨1, chunkTime⟩, fun _ => some 1⟩], by simp⟩
  exceedsLimit := false

/-- A table gets a column while its chunk is aside: the query fails until the job is done. -/
theorem query_fails_on_new_column :
    ∃ state : QueryableBuffer Nat Unit Nat, machine.Reachable Machine.Unrestricted state ∧
      state.getTableChunks Table.tenMinutes ⟨1, 1⟩ ⟨none, none⟩ =
        .error "error getting batches Field not found in table buffer: humidity" := by
  obtain ⟨state, hreachable, hcolumn⟩ :
      ∃ state : QueryableBuffer Nat Unit Nat, machine.Reachable Machine.Unrestricted state ∧
        state.missingColumn ⟨1, 1⟩ ⟨none, none⟩ = some "humidity" :=
    (Machine.Reachable.initial rfl).exists_of_exec
      [.notifyAndSnapshot [rowAt 0] [⟨1, 1⟩] 600000000000, .addColumn ⟨1, 1⟩ "humidity"]
      _ (Machine.meets_unrestricted _ _ _) (by decide)
  refine ⟨state, hreachable, ?_⟩
  rw [getTableChunks, hcolumn]
  rfl

end Example

end QueryableBuffer

end RefluxDb.Write
