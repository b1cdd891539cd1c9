import RefluxDb.Write.Visibility

/-! A WAL file replayed into a buffer of the tail.

A query skips a whole file of the tail by the time range of its buffer. That range is folded over
the chunks in such a way that its upper bound is the end of the last chunk and not the latest end:
it covers the rows when there is one chunk for each chunk time, which is so unless a column
outgrew the limit of a chunk. -/

namespace RefluxDb.Write

open List RefluxDb.Library RefluxDb.Query RefluxDb.Wal

variable {Id Tags Field Value : Type*}

/-- What a WAL file of a writer holds of the table. Each write has a flag for whether it does not
fit the last chunk of its chunk time. -/
structure WalContents (Tags Field Value : Type*) where
  writerNodeId : String
  walFileNumber : Nat
  ops : List (BufferedChunk Tags Field Value × Bool)

namespace WalContents

variable (contents : WalContents Tags Field Value)

def buffer : TableBuffer Tags Field Value :=
  contents.ops.foldl (fun buffer op => buffer.bufferChunk op.1 op.2) {}

def tailFile : TailFile Tags Field Value :=
  ⟨contents.writerNodeId, contents.walFileNumber, contents.buffer⟩

def rows : List (Row Tags Field Value) := contents.ops.flatMap (·.1.rows)

/-- The rows are those of their gen1 chunk, with times that the machine has. -/
def WellTimed (config : TableConfig Id) : Prop :=
  ∀ op ∈ contents.ops, Table.HaveChunkTime config op.1.chunkTime op.1.rows ∧
    ∀ row ∈ op.1.rows, i64Min ≤ row.key.time
deriving Decidable

/-- No column of a chunk outgrew its limit. -/
def FitsChunks : Prop := ∀ op ∈ contents.ops, op.2 = false

end WalContents

section Range

structure OneChunkEach (config : TableConfig Id) (chunks : List (BufferedChunk Tags Field Value)) :
    Prop where
  distinct : (chunks.map (·.chunkTime)).Nodup
  timed : ∀ chunk ∈ chunks, Table.HaveChunkTime config chunk.chunkTime chunk.rows ∧
    ∀ row ∈ chunk.rows, i64Min ≤ row.key.time

variable {config : TableConfig Id} {chunks : List (BufferedChunk Tags Field Value)}
variable {added chunk : BufferedChunk Tags Field Value} {buffer : TableBuffer Tags Field Value}

theorem mem_chunkTimes_appendRows {chunkTime : Int}
    (hmem : chunkTime ∈ (TableBuffer.appendRows added chunks).map (·.chunkTime)) :
    chunkTime = added.chunkTime ∨ chunkTime ∈ chunks.map (·.chunkTime) := by
  obtain ⟨chunk, hchunk, rfl⟩ := mem_map.mp hmem
  obtain ⟨row, hrow⟩ := exists_mem_of_ne_nil _ chunk.rows_ne
  rcases Table.mem_appendRows hchunk hrow with ⟨old, hold, htime, _⟩ | ⟨htime, _⟩
  · exact .inr (mem_map.mpr ⟨old, hold, htime⟩)
  · exact .inl htime.symm

theorem nodup_appendRows (hnodup : (chunks.map (·.chunkTime)).Nodup) :
    ((TableBuffer.appendRows added chunks).map (·.chunkTime)).Nodup := by
  induction chunks with
  | nil => simp [TableBuffer.appendRows]
  | cons first rest ih =>
    rw [map_cons, nodup_cons] at hnodup
    rw [TableBuffer.appendRows]
    split
    case isTrue => exact nodup_cons.mpr hnodup
    case isFalse hother =>
      refine nodup_cons.mpr ⟨fun hmem => ?_, ih hnodup.2⟩
      rcases mem_chunkTimes_appendRows hmem with htime | hold
      · refine hother ⟨htime, fun later hlater hsame => hnodup.1 ?_⟩
        exact mem_map.mpr ⟨later, hlater, hsame.trans htime.symm⟩
      · exact hnodup.1 hold

theorem OneChunkEach.appendRows (hone : OneChunkEach config chunks)
    (hadded : Table.HaveChunkTime config added.chunkTime added.rows ∧
      ∀ row ∈ added.rows, i64Min ≤ row.key.time) :
    OneChunkEach config (TableBuffer.appendRows added chunks) := by
  refine ⟨nodup_appendRows hone.distinct, fun chunk hchunk => ?_⟩
  have hrow (row : Row Tags Field Value) (hrow : row ∈ chunk.rows) :
      config.gen1Duration.chunkTimeForTimestamp row.key.time = chunk.chunkTime ∧
        i64Min ≤ row.key.time := by
    rcases Table.mem_appendRows hchunk hrow with ⟨old, hold, htime, hin⟩ | ⟨htime, hin⟩
    · exact ⟨((hone.timed old hold).1 row hin).trans htime, (hone.timed old hold).2 row hin⟩
    · exact ⟨(hadded.1 row hin).trans htime, hadded.2 row hin⟩
  exact ⟨fun row h => (hrow row h).1, fun row h => (hrow row h).2⟩

variable {ops : List (BufferedChunk Tags Field Value × Bool)}

theorem OneChunkEach.foldl_bufferChunk (hone : OneChunkEach config buffer.chunks)
    (htimed : ∀ op ∈ ops, Table.HaveChunkTime config op.1.chunkTime op.1.rows ∧
      ∀ row ∈ op.1.rows, i64Min ≤ row.key.time) (hfits : ∀ op ∈ ops, op.2 = false) :
    OneChunkEach config
      (ops.foldl (fun buffer op => buffer.bufferChunk op.1 op.2) buffer).chunks := by
  induction ops generalizing buffer with
  | nil => exact hone
  | cons op rest ih =>
    rw [forall_mem_cons] at htimed hfits
    refine ih ?_ htimed.2 hfits.2
    dsimp only
    rw [hfits.1]
    exact hone.appendRows htimed.1

theorem snapshottingChunks_foldl_bufferChunk (ops : List (BufferedChunk Tags Field Value × Bool)) :
    (ops.foldl (fun buffer op => buffer.bufferChunk op.1 op.2) buffer).snapshottingChunks =
      buffer.snapshottingChunks := by
  induction ops generalizing buffer with
  | nil => rfl
  | cons op rest ih =>
    rw [foldl_cons, ih]
    rfl

variable {row : Row Tags Field Value}

theorem mem_foldl_bufferChunk
    (hchunk : chunk ∈ (ops.foldl (fun buffer op => buffer.bufferChunk op.1 op.2) buffer).chunks)
    (hrow : row ∈ chunk.rows) :
    (∃ old ∈ buffer.chunks, row ∈ old.rows) ∨ row ∈ ops.flatMap (·.1.rows) := by
  induction ops generalizing buffer with
  | nil => exact .inl ⟨chunk, hchunk, hrow⟩
  | cons op rest ih =>
    rw [flatMap_cons, mem_append]
    rcases ih hchunk with ⟨old, hold, hin⟩ | hrest
    · rcases Table.mem_bufferChunk hold hin with ⟨older, holder, _, hin'⟩ | ⟨_, hnew⟩
      · exact .inl ⟨older, holder, hin'⟩
      · exact .inr (.inl hnew)
    · exact .inr (.inr hrest)

theorem WalContents.snapshottingChunks_buffer (contents : WalContents Tags Field Value) :
    contents.buffer.snapshottingChunks = [] :=
  snapshottingChunks_foldl_bufferChunk contents.ops

theorem WalContents.mem_rows {contents : WalContents Tags Field Value}
    (hchunk : chunk ∈ contents.buffer.chunks) (hrow : row ∈ chunk.rows) : row ∈ contents.rows := by
  rcases mem_foldl_bufferChunk hchunk hrow with ⟨_, hempty, _⟩ | hin
  · simp at hempty
  · exact hin

/-- The fold gives the least time of the machine, and the end of the last chunk. -/
theorem foldl_timestampMinMax (hchunks : chunks ≠ []) :
    (chunks.map (·.timestampMinMax)).foldl
        (fun acc range => (min acc.1 acc.2, max range.1 range.2)) (i64Max, i64Min) =
      (i64Min, (chunks.getLast hchunks).timestampMinMax.2) := by
  induction chunks using List.reverseRecOn with
  | nil => exact absurd rfl hchunks
  | append_singleton earlier last ih =>
    simp only [map_append, map_cons, map_nil, foldl_append, foldl_cons,
      foldl_nil, getLast_append_singleton]
    rw [max_eq_right last.covers.1]
    by_cases hearlier : earlier = []
    · subst hearlier
      rfl
    · rw [ih hearlier]
      exact congrArg (·, _) (min_eq_left (foldl_rangeUnion_le (.inl rfl)).2)

/-- Chunk times grow with time, so the chunk with the last chunk time ends last. -/
theorem OneChunkEach.le_of_chunkTime_le (hone : OneChunkEach config chunks)
    {last : BufferedChunk Tags Field Value} (hchunk : chunk ∈ chunks) (hlast : last ∈ chunks)
    (hle : chunk.chunkTime ≤ last.chunkTime)
    (hrow : row ∈ chunk.rows) : row.key.time ≤ last.timestampMinMax.2 := by
  rcases hle.eq_or_lt with heq | hlt
  · rw [inj_on_of_nodup_map hone.distinct hchunk hlast heq] at hrow
    exact (last.covers.2 row hrow).2
  · obtain ⟨later, hlater⟩ := exists_mem_of_ne_nil _ last.rows_ne
    refine le_trans ?_ (last.covers.2 later hlater).2
    by_contra hafter
    have hmono : config.gen1Duration.chunkTimeForTimestamp later.key.time ≤
        config.gen1Duration.chunkTimeForTimestamp row.key.time :=
      truncateTo_mono config.gen1Duration.asNanos_pos (le_of_not_ge hafter)
    rw [(hone.timed chunk hchunk).1 row hrow, (hone.timed last hlast).1 later hlater] at hmono
    exact absurd hlt (not_lt_of_ge hmono)

/-- With one chunk for each chunk time, the time range of a file of the tail covers its rows. -/
theorem OneChunkEach.within_timestampMinMax (hone : OneChunkEach config buffer.chunks)
    (haside : buffer.snapshottingChunks = []) (hchunk : chunk ∈ buffer.chunks)
    (hrow : row ∈ chunk.rows) :
    buffer.timestampMinMax.1 ≤ row.key.time ∧ row.key.time ≤ buffer.timestampMinMax.2 := by
  have hsorted := pairwise_insertionSort
    (fun a b : BufferedChunk Tags Field Value => a.chunkTime ≤ b.chunkTime) buffer.chunks
  have hin : chunk ∈ buffer.chunksByTime := (mem_insertionSort _).mpr hchunk
  have hne : buffer.chunksByTime ≠ [] := ne_nil_of_mem hin
  have hle := hsorted.rel_getLast hin
  have hlast := (mem_insertionSort _).mp (getLast_mem hne)
  have hnonempty : buffer.chunks.isEmpty = false := by
    simpa using ne_nil_of_mem hchunk
  rw [TableBuffer.timestampMinMax, haside, hnonempty]
  exact foldl_timestampMinMax hne ▸
    ⟨(hone.timed chunk hchunk).2 row hrow, hone.le_of_chunkTime_le hchunk hlast hle hrow⟩

/-- The least and the greatest time of a set. -/
def IsRange (times : Set Int) (range : Int × Int) : Prop :=
  IsLeast times range.1 ∧ IsGreatest times range.2

theorem IsRange.foldl_rangeUnion {α : Type*} {items : List α} {range : α → Int × Int}
    {timesOf : α → Set Int} {init : Int × Int} {times : Set Int} (hinit : IsRange times init)
    (hitems : ∀ item ∈ items, IsRange (timesOf item) (range item)) :
    IsRange (times ∪ {time | ∃ item ∈ items, time ∈ timesOf item})
      ((items.map range).foldl rangeUnion init) := by
  induction items generalizing init times with
  | nil => simpa using hinit
  | cons first rest ih =>
    rw [forall_mem_cons] at hitems
    have hunion : IsRange (times ∪ timesOf first) (rangeUnion init (range first)) :=
      ⟨hinit.1.union hitems.1.1, hinit.2.union hitems.1.2⟩
    have hcons : {time | ∃ item ∈ first :: rest, time ∈ timesOf item} =
        timesOf first ∪ {time | ∃ item ∈ rest, time ∈ timesOf item} := by
      ext time
      simp
    rw [hcons, ← Set.union_assoc]
    exact ih hunion hitems.2

section

variable {times reported : Set Int} {range : Int × Int} {bound : Int}

/-- A range that is made with one time too many is still right if that time is between others. -/
theorem IsRange.insert_iff (hrange : IsRange (insert bound times) range) :
    IsRange times range ↔ (∃ time ∈ times, time ≤ bound) ∧ ∃ time ∈ times, bound ≤ time := by
  have hbound := Set.mem_insert bound times
  have hwithin (time : Int) (htime : time ∈ times) := Set.mem_insert_of_mem bound htime
  constructor
  · exact fun hright => ⟨⟨_, hright.1.1, hrange.1.2 hbound⟩, _, hright.2.1, hrange.2.2 hbound⟩
  · rintro ⟨⟨low, hlow, hle⟩, high, hhigh, hge⟩
    refine ⟨⟨?_, fun time htime => hrange.1.2 (hwithin time htime)⟩, ?_,
      fun time htime => hrange.2.2 (hwithin time htime)⟩
    · rcases hrange.1.1 with heq | hmem
      · exact (hle.trans_eq heq.symm).antisymm (hrange.1.2 (hwithin low hlow)) ▸ hlow
      · exact hmem
    · rcases hrange.2.1 with heq | hmem
      · exact (heq.trans_le hge).antisymm (hrange.2.2 (hwithin high hhigh)) ▸ hhigh
      · exact hmem

/-- A range that is made of a lower bound and of some of the times is right if the bound is a time
and no time is later than those. -/
theorem IsRange.insert_lower_iff (hrange : IsRange (insert bound reported) range)
    (hsubset : reported ⊆ times) (hne : reported.Nonempty) (hlower : bound ∈ lowerBounds times) :
    IsRange times range ↔ bound ∈ times ∧ ∀ time ∈ times, ∃ later ∈ reported, time ≤ later := by
  have hleast : range.1 = bound := by
    refine (hrange.1.2 (Set.mem_insert _ _)).antisymm ?_
    rcases hrange.1.1 with heq | hmem
    · exact heq.ge
    · exact hlower (hsubset hmem)
  have hgreatest : range.2 ∈ reported := by
    rcases hrange.2.1 with heq | hmem
    · obtain ⟨time, htime⟩ := hne
      have hle := hrange.2.2 (Set.mem_insert_of_mem _ htime)
      have hge := hlower (hsubset htime)
      exact hle.antisymm (heq.trans_le hge) ▸ htime
    · exact hmem
  constructor
  · exact fun hright => ⟨hleast ▸ hright.1.1, fun time htime =>
      ⟨_, hgreatest, hright.2.2 htime⟩⟩
  · rintro ⟨hmem, hlater⟩
    refine ⟨hleast ▸ ⟨hmem, hlower⟩, hsubset hgreatest, fun time htime => ?_⟩
    obtain ⟨later, hlater, hle⟩ := hlater time htime
    exact hle.trans (hrange.2.2 (Set.mem_insert_of_mem _ hlater))

end

def BufferedChunk.times (chunk : BufferedChunk Tags Field Value) : Set Int :=
  {time | ∃ row ∈ chunk.rows, time = row.key.time}

theorem BufferedChunk.isRange_timestampMinMax (htimes : ∀ time ∈ chunk.times, IsI64 time) :
    IsRange chunk.times chunk.timestampMinMax := by
  obtain ⟨chunkTime, rows, hne⟩ := chunk
  obtain ⟨first, rest, rfl⟩ := exists_cons_of_ne_nil hne
  have hfirst : IsI64 first.key.time := htimes _ ⟨first, mem_cons_self, rfl⟩
  have hstart : rangeUnion (i64Max, i64Min) (first.key.time, first.key.time) =
      (first.key.time, first.key.time) := by
    simp [rangeUnion, hfirst.1, hfirst.2]
  have hsingle (time : Int) : IsRange {time} (time, time) :=
    ⟨isLeast_singleton, isGreatest_singleton⟩
  have hfold := (hsingle first.key.time).foldl_rangeUnion
    fun (row : Row Tags Field Value) (_ : row ∈ rest) => hsingle row.key.time
  rw [timestampMinMax, map_cons, foldl_cons, hstart]
  convert hfold using 1
  ext time
  simp [times]

namespace TableBuffer

variable (buffer)

def times : Set Int :=
  {time | ∃ chunk ∈ buffer.chunks ++ buffer.snapshottingChunks, time ∈ chunk.times}

/-- The times of the mutable chunk that is last in the order of chunk times, and those of the
snapshotting chunks. -/
def lastTimes : Set Int :=
  {time | ∃ chunk ∈ buffer.chunksByTime.getLast?.toList ++ buffer.snapshottingChunks,
    time ∈ chunk.times}

variable {buffer}

theorem isRange_timestampMinMax_of_isEmpty (hempty : buffer.chunks = [])
    (htimes : ∀ time ∈ buffer.times, IsI64 time) :
    IsRange (insert 0 buffer.times) buffer.timestampMinMax := by
  have hzero : IsRange {0} (0, 0) := ⟨isLeast_singleton, isGreatest_singleton⟩
  have hfold := hzero.foldl_rangeUnion fun chunk (hchunk : chunk ∈ buffer.snapshottingChunks) =>
    chunk.isRange_timestampMinMax fun time htime =>
      htimes time ⟨chunk, mem_append_right _ hchunk, htime⟩
  rw [timestampMinMax, times, hempty]
  exact hfold

theorem mem_chunks_of_mem_chunksByTime (hchunk : chunk ∈ buffer.chunksByTime) :
    chunk ∈ buffer.chunks := (mem_insertionSort _).mp hchunk

theorem isRange_timestampMinMax_of_ne_nil (hne : buffer.chunks ≠ [])
    (htimes : ∀ time ∈ buffer.times, IsI64 time) :
    IsRange (insert i64Min buffer.lastTimes) buffer.timestampMinMax ∧
      buffer.lastTimes ⊆ buffer.times ∧ buffer.lastTimes.Nonempty := by
  have hsorted : buffer.chunksByTime ≠ [] := by
    simpa [chunksByTime, ← length_eq_zero_iff] using hne
  have hsome := getLast?_eq_some_getLast hsorted
  set last := buffer.chunksByTime.getLast hsorted
  have hlast : last ∈ buffer.chunks := mem_chunks_of_mem_chunksByTime (getLast_mem hsorted)
  have hin (chunk) (hchunk : chunk ∈ buffer.chunks ++ buffer.snapshottingChunks) :
      ∀ time ∈ chunk.times, IsI64 time := fun time htime => htimes time ⟨chunk, hchunk, htime⟩
  have hrange := last.isRange_timestampMinMax (hin last (mem_append_left _ hlast))
  have hmutable : IsRange (insert i64Min last.times) (i64Min, last.timestampMinMax.2) := by
    refine ⟨⟨Set.mem_insert _ _, ?_⟩, Set.mem_insert_of_mem _ hrange.2.1, ?_⟩
    · rintro time (rfl | htime)
      · exact le_rfl
      · exact (hin last (mem_append_left _ hlast) time htime).1
    · rintro time (rfl | htime)
      · exact (hin last (mem_append_left _ hlast) _ hrange.2.1).1
      · exact hrange.2.2 htime
  have hfold := hmutable.foldl_rangeUnion
    fun chunk (hchunk : chunk ∈ buffer.snapshottingChunks) =>
      chunk.isRange_timestampMinMax (hin chunk (mem_append_right _ hchunk))
  have hlastTimes : buffer.lastTimes = last.times ∪
      {time | ∃ chunk ∈ buffer.snapshottingChunks, time ∈ chunk.times} := by
    ext time
    simp [lastTimes, hsome]
  refine ⟨?_, ?_, ?_⟩
  · have hchunks : buffer.chunks.isEmpty = false := by simpa using hne
    rw [timestampMinMax, hchunks, hlastTimes, ← Set.insert_union, foldl_timestampMinMax hsorted]
    exact hfold
  · rw [hlastTimes]
    rintro time (htime | ⟨chunk, hchunk, htime⟩)
    · exact ⟨last, mem_append_left _ hlast, htime⟩
    · exact ⟨chunk, mem_append_right _ hchunk, htime⟩
  · rw [hlastTimes]
    exact ⟨_, .inl hrange.2.1⟩

/-- The reported range is that of the rows if and only if, without mutable chunks, there are rows on
both sides of zero; and with mutable chunks, there is a row at the least time of the machine and
no row is later than all of the last mutable chunk and of the snapshotting ones. -/
theorem isRange_timestampMinMax_iff (htimes : ∀ time ∈ buffer.times, IsI64 time) :
    (buffer.chunks = [] → (IsRange buffer.times buffer.timestampMinMax ↔
      (∃ time ∈ buffer.times, time ≤ 0) ∧ ∃ time ∈ buffer.times, 0 ≤ time)) ∧
    (buffer.chunks ≠ [] → (IsRange buffer.times buffer.timestampMinMax ↔
      i64Min ∈ buffer.times ∧
        ∀ time ∈ buffer.times, ∃ later ∈ buffer.lastTimes, time ≤ later)) := by
  refine ⟨fun hempty => (isRange_timestampMinMax_of_isEmpty hempty htimes).insert_iff, ?_⟩
  intro hne
  obtain ⟨hrange, hsubset, hnonempty⟩ := isRange_timestampMinMax_of_ne_nil hne htimes
  exact hrange.insert_lower_iff hsubset hnonempty fun time htime => (htimes time htime).1

def atTimes (first : Int) (rest : List Int) : TableBuffer Unit Unit Unit :=
  bufferChunk {} ⟨0, (first :: rest).map fun time => ⟨⟨(), time⟩, fun _ => none⟩, cons_ne_nil _ _⟩
    false

section

variable {time first : Int} {rest : List Int}

theorem mem_times_atTimes : time ∈ (atTimes first rest).times ↔ time ∈ first :: rest := by
  simp [times, atTimes, bufferChunk, appendRows, BufferedChunk.times]

theorem mem_lastTimes_atTimes : time ∈ (atTimes first rest).lastTimes ↔ time ∈ first :: rest := by
  simp [lastTimes, chunksByTime, atTimes, bufferChunk, appendRows, BufferedChunk.times]

theorem mem_times_snapshot_atTimes :
    time ∈ ((atTimes first rest).snapshot 1).times ↔ time ∈ first :: rest := by
  simp [times, atTimes, bufferChunk, appendRows, snapshot, BufferedChunk.times]

end

/-- A mutable chunk with a row at the least time, and a snapshotting one with rows on both sides of
zero. -/
theorem isRange_timestampMinMax_iff_exact :
    IsRange (atTimes i64Min [5]).times (atTimes i64Min [5]).timestampMinMax ∧
      IsRange ((atTimes (-1) [1]).snapshot 1).times
        ((atTimes (-1) [1]).snapshot 1).timestampMinMax := by
  constructor
  · refine ((isRange_timestampMinMax_iff ?_).2 (cons_ne_nil _ _)).mpr ⟨?_, ?_⟩
    all_goals simp only [mem_times_atTimes, mem_lastTimes_atTimes]; decide
  · refine ((isRange_timestampMinMax_iff ?_).1 rfl).mpr ⟨?_, ?_⟩
    all_goals simp only [mem_times_snapshot_atTimes]; decide

/-- With one row the range begins at the least time of the machine. -/
theorem oneRow_not_isRange : ¬IsRange (atTimes 5 []).times (atTimes 5 []).timestampMinMax := by
  intro hrange
  have hfive := mem_times_atTimes.mp hrange.1.1
  exact absurd hfive (by decide)

end TableBuffer

end Range

end RefluxDb.Write
