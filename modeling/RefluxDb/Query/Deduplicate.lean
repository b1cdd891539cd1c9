import Mathlib.Algebra.GroupWithZero.Nat
import RefluxDb.Library.Fallible
import RefluxDb.Library.LastValue
import RefluxDb.Library.Runs

/-! The streaming de-duplication of sorted record batches.

`RecordBatchDeduplicator` receives batches that are sorted on the sort key, sends one row for each
key, and keeps back the rows of the last key, which the next batch may continue. A batch is a list
of rows and the Arrow kernels (`partition`, `take`, `slice`, `concat_batches`) are the list
operations they specify; dictionaries and the metric of removed duplicates are left out. -/

namespace RefluxDb.Query.Deduplicate

open List Option RefluxDb.Library

structure SortOptions where
  descending : Bool
  nullsFirst : Bool

/-- The sort key: columns with their options, at least one. -/
structure LexOrdering where
  exprs : List (String × SortOptions)
  nonempty : exprs ≠ []

/-- The values of a row's columns, by name; `none` is null. -/
abbrev Row (Value : Type) := String → Option Value

abbrev RecordBatch (Value : Type) := List (Row Value)

inductive DataFusionError where
  | execution (message : String)
deriving DecidableEq

structure DuplicateRanges where
  isSortKey : String → Bool
  ranges : List (Nat × Nat)

/-- `isTimestamp` is the part of the batches' schema that the computation of ranges looks at. -/
structure RecordBatchDeduplicator (Value : Type) where
  sortKeys : LexOrdering
  isTimestamp : String → Bool
  lastBatch : Option (RecordBatch Value) := none

variable {Value : Type}

section Kernels

variable [LinearOrder Value]

def makeComparator (options : SortOptions) : Option Value → Option Value → Ordering
  | none, none => .eq
  | none, some _ => if options.nullsFirst then .lt else .gt
  | some _, none => if options.nullsFirst then .gt else .lt
  | some a, some b => if options.descending then (compare a b).swap else compare a b

/-- The place and length of each run, from a first place on. -/
def rangesFrom (start : Nat) : List Nat → List (Nat × Nat)
  | [] => []
  | length :: lengths => (start, start + length) :: rangesFrom (start + length) lengths

/-- The ranges of neighbouring rows that agree on the columns, nulls being equal. -/
def partition (columns : List String) (batch : RecordBatch Value) : List (Nat × Nat) :=
  rangesFrom 0 ((runs (fun row => columns.map row) batch).map length)

end Kernels

def valueAt (batch : RecordBatch Value) (i : Nat) (column : String) : Option Value :=
  batch[i]?.bind fun row => row column

def sliceRecordBatch (batch : RecordBatch Value) (offset len : Nat) : RecordBatch Value :=
  (batch.drop offset).take len

/-- The index of the last non-null value in the range, or its start. -/
def computeFieldIndex (batch : RecordBatch Value) (column : String) (range : Nat × Nat) : Nat :=
  ((range' range.1 (range.2 - range.1)).reverse.find? fun i =>
    (valueAt batch i column).isSome).getD range.1

/-- One row for each range. When no range has duplicates the rows themselves are sent. -/
def outputFromRanges (batch : RecordBatch Value) (dupeRanges : DuplicateRanges) :
    RecordBatch Value :=
  let numDupes := (dupeRanges.ranges.map fun range => range.2 - range.1 - 1).sum
  if numDupes = 0 then sliceRecordBatch batch 0 dupeRanges.ranges.length
  else dupeRanges.ranges.map fun range column =>
    if dupeRanges.isSortKey column then valueAt batch range.1 column
    else valueAt batch (computeFieldIndex batch column range) column

namespace RecordBatchDeduplicator

variable [LinearOrder Value] (self : RecordBatchDeduplicator Value)

def keyColumns : List String := self.sortKeys.exprs.map Prod.fst

def isSortKey (column : String) : Bool := self.keyColumns.contains column

/-- The key columns from high to low cardinality: reversed, and a final time column swapped with
the one before it. -/
def partitionColumns : List String :=
  match self.keyColumns.reverse with
  | last :: previous :: rest =>
    if self.isTimestamp last then previous :: last :: rest else last :: previous :: rest
  | columns => columns

def computeRanges (batch : RecordBatch Value) : DuplicateRanges :=
  ⟨self.isSortKey, partition self.partitionColumns batch⟩

/-- The rows to send, and the deduplicator that keeps the rows of the last key. -/
def push (batch : RecordBatch Value) : RecordBatch Value × RecordBatchDeduplicator Value :=
  let batch := match self.lastBatch with
    | some lastBatch => lastBatch ++ batch
    | none => batch
  let dupeRanges := self.computeRanges batch
  let lastRange := dupeRanges.ranges.getLast?
  (outputFromRanges batch { dupeRanges with ranges := dupeRanges.ranges.dropLast },
    { self with lastBatch := lastRange.map fun range =>
      sliceRecordBatch batch range.1 (range.2 - range.1) })

/-- Compares two rows column by column; a row that is greater than its successor is an error. -/
def sameSortKey : List (String × SortOptions) → Row Value → Row Value →
    Fallible DataFusionError Bool
  | [], _, _ => pure true
  | (column, options) :: rest, last, first =>
    match makeComparator options (last column) (first column) with
    | .eq => sameSortKey rest last first
    | .gt => throw (.error (.execution ("attempted to execute invalid plan, deduplication " ++
        "should not occur on unsorted batch stream")))
    | .lt => pure false

/-- The rows kept back, for sending, if the batch does not continue them. -/
def lastBatchWithNoSameSortKey (batch : RecordBatch Value) :
    Fallible DataFusionError (Option (RecordBatch Value) × RecordBatchDeduplicator Value) :=
  match self.lastBatch with
  | none => pure (none, self)
  | some lastBatch => do
      let name := (self.sortKeys.exprs.head self.sortKeys.nonempty).1
      let last ← Fallible.expect ("Key column, " ++ name ++ ", of last_batch has no data")
        lastBatch.getLast?
      let first ← Fallible.expect ("Key column, " ++ name ++ ", of current batch has no data")
        batch.head?
      let same ← sameSortKey self.sortKeys.exprs last first
      if same then pure (none, self)
      else pure (some (outputFromRanges lastBatch ⟨self.isSortKey, [(0, lastBatch.length)]⟩),
        { self with lastBatch := none })

/-- The rows still kept back at the end of the stream. -/
def finish : Option (RecordBatch Value) :=
  self.lastBatch.map fun lastBatch => outputFromRanges lastBatch (self.computeRanges lastBatch)

end RecordBatchDeduplicator

section Stream

variable [LinearOrder Value]

/-- Sends a batch downstream unless it is empty. -/
def send (sent : List (RecordBatch Value)) (batch : Option (RecordBatch Value)) :
    List (RecordBatch Value) :=
  match batch with
  | some batch => if 0 < batch.length then sent ++ [batch] else sent
  | none => sent

/-- One round of the loop over the input stream. -/
def deduplicateBatch
    (state : RecordBatchDeduplicator Value × List (RecordBatch Value)) (batch : RecordBatch Value) :
    Fallible DataFusionError (RecordBatchDeduplicator Value × List (RecordBatch Value)) := do
  let (lastBatch, deduplicator) ← state.1.lastBatchWithNoSameSortKey batch
  let sent := send state.2 lastBatch
  let (outputBatch, deduplicator) := deduplicator.push batch
  pure (deduplicator, send sent (some outputBatch))

/-- The batches sent downstream for a stream of input batches. -/
def deduplicate (sortKeys : LexOrdering) (isTimestamp : String → Bool)
    (inputStream : List (RecordBatch Value)) :
    Fallible DataFusionError (List (RecordBatch Value)) := do
  let (deduplicator, sent) ← inputStream.foldlM deduplicateBatch (⟨sortKeys, isTimestamp, none⟩, [])
  pure (send sent deduplicator.finish)

end Stream

section Specification

variable [LinearOrder Value]

/-- The order of rows under the sort key. -/
def compareRows : List (String × SortOptions) → Row Value → Row Value → Ordering
  | [], _, _ => .eq
  | (column, options) :: rest, row, other =>
    (makeComparator options (row column) (other column)).then (compareRows rest row other)

def sortKey (sortKeys : LexOrdering) (row : Row Value) : List (Option Value) :=
  sortKeys.exprs.map fun expr => row expr.1

def Sorted (sortKeys : LexOrdering) (rows : List (Row Value)) : Prop :=
  rows.Pairwise fun row other => (compareRows sortKeys.exprs row other).isLE

/-- One row for each sort key of the input, in the same order, with the last non-null value of
each other column. -/
structure Deduplicated (sortKeys : LexOrdering) (rows output : List (Row Value)) : Prop where
  ascending : output.Pairwise fun row other => compareRows sortKeys.exprs row other = .lt
  keys : ∀ key, key ∈ output.map (sortKey sortKeys) ↔ key ∈ rows.map (sortKey sortKeys)
  values : ∀ row ∈ output, ∀ column, column ∉ sortKeys.exprs.map Prod.fst →
    row column = lastValue (fun other => other column)
      (rows.filter fun other => sortKey sortKeys other = sortKey sortKeys row)

end Specification

section Comparison

variable [LinearOrder Value]

theorem compare_swap (a b : Value) : compare a b = (compare b a).swap := Std.OrientedOrd.eq_swap

theorem makeComparator_swap (options : SortOptions) (a b : Option Value) :
    makeComparator options a b = (makeComparator options b a).swap := by
  obtain ⟨descending, nullsFirst⟩ := options
  cases a with
  | none => cases b <;> cases nullsFirst <;> rfl
  | some a =>
    cases b with
    | none => cases nullsFirst <;> rfl
    | some b =>
      cases descending
      · exact compare_swap a b
      · exact congrArg Ordering.swap (compare_swap a b)

theorem makeComparator_eq_iff (options : SortOptions) (a b : Option Value) :
    makeComparator options a b = .eq ↔ a = b := by
  obtain ⟨descending, nullsFirst⟩ := options
  cases a with
  | none => cases b <;> cases nullsFirst <;> simp [makeComparator]
  | some a =>
    cases b with
    | none => cases nullsFirst <;> simp [makeComparator]
    | some b =>
      cases descending
      · simp [makeComparator]
      · simp [makeComparator, ← compare_swap, eq_comm (a := a)]

theorem makeComparator_trans {options : SortOptions} {a b c : Option Value}
    (hab : (makeComparator options a b).isLE) (hbc : (makeComparator options b c).isLE) :
    (makeComparator options a c).isLE := by
  obtain ⟨descending, nullsFirst⟩ := options
  cases a with
  | none => cases b <;> cases c <;> cases nullsFirst <;> simp_all [makeComparator]
  | some a =>
    cases b with
    | none => cases c <;> cases nullsFirst <;> simp_all [makeComparator]
    | some b =>
      cases c with
      | none => cases nullsFirst <;> simp_all [makeComparator]
      | some c =>
        cases descending
        · exact Std.TransOrd.isLE_trans (α := Value) hab hbc
        · simp only [makeComparator, if_true, ← compare_swap] at hab hbc ⊢
          exact Std.TransOrd.isLE_trans (α := Value) hbc hab

instance transCmp_compareRows (keys : List (String × SortOptions)) :
    Std.TransCmp (compareRows keys : Row Value → Row Value → Ordering) := by
  induction keys with
  | nil => exact { eq_swap := rfl, isLE_trans := fun _ _ => rfl }
  | cons expr rest ih =>
    have hcolumn : Std.TransCmp fun row other : Row Value =>
        makeComparator expr.2 (row expr.1) (other expr.1) :=
      { eq_swap := makeComparator_swap expr.2 _ _, isLE_trans := makeComparator_trans }
    exact inferInstanceAs (Std.TransCmp (compareLex (fun row other : Row Value =>
      makeComparator expr.2 (row expr.1) (other expr.1)) (compareRows rest)))

variable {sortKeys : LexOrdering}

variable {row other : Row Value}

theorem compareRows_eq_iff :
    compareRows sortKeys.exprs row other = .eq ↔ sortKey sortKeys row = sortKey sortKeys other := by
  unfold sortKey
  induction sortKeys.exprs with
  | nil => simp [compareRows]
  | cons expr rest ih =>
    rw [compareRows, Ordering.then_eq_eq, makeComparator_eq_iff, ih, map_cons,
      map_cons, cons.injEq]

theorem sortKey_eq_of_isLE
    (hrow : (compareRows sortKeys.exprs row other).isLE)
    (hother : (compareRows sortKeys.exprs other row).isLE) :
    sortKey sortKeys row = sortKey sortKeys other :=
  compareRows_eq_iff.mp (Std.OrientedCmp.isLE_antisymm hrow hother)

theorem isLE_of_sortKey_eq
    (hkey : sortKey sortKeys row = sortKey sortKeys other) :
    (compareRows sortKeys.exprs row other).isLE := by
  rw [compareRows_eq_iff.mpr hkey]
  rfl

/-- The comparison of neighbours in a sorted stream does not fail. -/
theorem sameSortKey_of_isLE {keys : List (String × SortOptions)}
    (hle : (compareRows keys row other).isLE) :
    RecordBatchDeduplicator.sameSortKey keys row other =
      .ok (decide (compareRows keys row other = .eq)) := by
  induction keys with
  | nil => rfl
  | cons expr rest ih =>
    rw [compareRows] at hle ⊢
    cases hcolumn : makeComparator expr.2 (row expr.1) (other expr.1) with
    | lt => simp [RecordBatchDeduplicator.sameSortKey, hcolumn, pure, Except.pure]
    | eq =>
      rw [hcolumn] at hle
      simpa [RecordBatchDeduplicator.sameSortKey, hcolumn] using ih hle
    | gt => simp [hcolumn] at hle

end Comparison

section Output

variable {isSortKey : String → Bool} {before run after : RecordBatch Value} {column : String}

/-- The row of a run of equal keys: its key, and the last non-null value of each other column. -/
def mergeRun (isSortKey : String → Bool) (run : RecordBatch Value) : Row Value := fun column =>
  if isSortKey column then run.head?.bind fun row => row column
  else lastValue (fun row => row column) run

theorem mergeRun_singleton (row : Row Value) : mergeRun isSortKey [row] = row := by
  funext column
  unfold mergeRun
  split
  · rfl
  · cases hvalue : row column <;> simp [lastValue, hvalue]

theorem valueAt_append_cons (before after : RecordBatch Value) (row : Row Value) (column : String) :
    valueAt (before ++ row :: after) before.length column = row column := by
  simp [valueAt]

theorem lastValue_concat {value : Row Value → Option Value} (row : Row Value) :
    lastValue value (run ++ [row]) = (value row).or (lastValue value run) := by
  cases hvalue : value row <;> simp [lastValue, hvalue]

/-- The search from the end of a run finds its last non-null value. -/
theorem find_valueAt (before run after : RecordBatch Value) (column : String) :
    ((range' before.length run.length).reverse.find? fun i =>
      (valueAt (before ++ run ++ after) i column).isSome).bind (fun i =>
        valueAt (before ++ run ++ after) i column) = lastValue (fun row => row column) run := by
  induction run using reverseRecOn generalizing after with
  | nil => rfl
  | append_singleton run row ih =>
    have hbatch : before ++ (run ++ [row]) ++ after = before ++ run ++ row :: after := by simp
    have hlast : valueAt (before ++ run ++ row :: after) (before.length + run.length) column =
        row column := by
      rw [← length_append]
      exact valueAt_append_cons (before ++ run) after row column
    rw [hbatch, length_append, length_singleton, range'_1_concat,
      reverse_append, reverse_singleton, singleton_append, find?_cons,
      lastValue_concat, hlast]
    cases hvalue : row column with
    | none => exact ih (row :: after)
    | some value =>
      rw [hvalue] at hlast
      exact hlast

/-- The index taken for a column leads to the last non-null value of the run. -/
theorem valueAt_computeFieldIndex (hne : run ≠ []) :
    valueAt (before ++ run ++ after) (computeFieldIndex (before ++ run ++ after) column
      (before.length, before.length + run.length)) column =
        lastValue (fun row => row column) run := by
  have hfind := find_valueAt before run after column
  unfold computeFieldIndex
  simp only [Nat.add_sub_cancel_left]
  cases hfound : (range' before.length run.length).reverse.find? fun i =>
      (valueAt (before ++ run ++ after) i column).isSome with
  | some i =>
    rw [hfound] at hfind
    exact hfind
  | none =>
    have hstart : before.length ∈ (range' before.length run.length).reverse := by
      rw [mem_reverse, mem_range'_1]
      have := length_pos_iff.mpr hne
      omega
    rw [hfound] at hfind
    rw [← hfind]
    simpa using find?_eq_none.mp hfound before.length hstart

@[simp]
theorem length_rangesFrom (start : Nat) (lengths : List Nat) :
    (rangesFrom start lengths).length = lengths.length := by
  induction lengths generalizing start with
  | nil => rfl
  | cons length lengths ih => rw [rangesFrom, length_cons, ih, length_cons]

theorem map_rangesFrom_dupes (start : Nat) (lengths : List Nat) :
    (rangesFrom start lengths).map (fun range => range.2 - range.1 - 1) =
      lengths.map (· - 1) := by
  induction lengths generalizing start with
  | nil => rfl
  | cons length lengths ih =>
    rw [rangesFrom, map_cons, ih, map_cons, Nat.add_sub_cancel_left]

variable {groups : List (RecordBatch Value)}

theorem eq_map_singleton (hne : ∀ run ∈ groups, run ≠ [])
    (hnone : (groups.map fun run => run.length - 1).sum = 0) :
    ∃ rows : List (Row Value), groups = rows.map fun row => [row] := by
  induction groups with
  | nil => exact ⟨[], rfl⟩
  | cons run groups ih =>
    rw [map_cons, sum_cons, Nat.add_eq_zero_iff] at hnone
    obtain ⟨rows, rfl⟩ := ih (fun g hg => hne g (mem_cons_of_mem run hg)) hnone.2
    have hpos := length_pos_iff.mpr (hne run (by simp))
    obtain ⟨row, rfl⟩ := length_eq_one_iff.mp (show run.length = 1 by omega)
    exact ⟨row :: rows, rfl⟩

/-- The rows sent for a list of runs at the front of the batch. -/
theorem outputFromRanges_runs (isSortKey : String → Bool)
    (hne : ∀ run ∈ groups, run ≠ []) (after : RecordBatch Value) :
    outputFromRanges (groups.flatten ++ after) ⟨isSortKey, rangesFrom 0 (groups.map length)⟩ =
      groups.map (mergeRun isSortKey) := by
  unfold outputFromRanges
  simp only
  split
  case isTrue hnone =>
    rw [map_rangesFrom_dupes, List.map_map] at hnone
    obtain ⟨rows, rfl⟩ := eq_map_singleton hne hnone
    simp [sliceRecordBatch, mergeRun_singleton, ← flatMap_def, Function.comp_def]
  case isFalse =>
    have hmap : ∀ (before : RecordBatch Value) (groups : List (RecordBatch Value)),
        (∀ run ∈ groups, run ≠ []) →
        (rangesFrom before.length (groups.map length)).map (fun range column =>
          if isSortKey column then valueAt (before ++ groups.flatten ++ after) range.1 column
          else valueAt (before ++ groups.flatten ++ after) (computeFieldIndex
            (before ++ groups.flatten ++ after) column range) column) =
          groups.map (mergeRun isSortKey) := by
      intro before groups
      induction groups generalizing before with
      | nil => simp [rangesFrom]
      | cons run groups ih =>
        intro hne
        have hrun := hne run (by simp)
        have hbatch : before ++ (run :: groups).flatten ++ after =
            before ++ run ++ (groups.flatten ++ after) := by simp
        have htail := ih (before ++ run) fun g hg => hne g (mem_cons_of_mem run hg)
        rw [length_append, append_assoc (before ++ run)] at htail
        rw [hbatch, map_cons, rangesFrom, map_cons, htail]
        congr 1
        funext column
        rw [valueAt_computeFieldIndex hrun]
        cases run with
        | nil => exact absurd rfl hrun
        | cons row rest =>
          rw [append_assoc, cons_append, valueAt_append_cons]
          rfl
    have hall := hmap [] groups hne
    simpa using hall

theorem outputFromRanges_run (isSortKey : String → Bool) (hne : run ≠ []) :
    outputFromRanges run ⟨isSortKey, [(0, run.length)]⟩ = [mergeRun isSortKey run] := by
  have hgroups : ∀ group ∈ [run], group ≠ [] := by simp [hne]
  have houtput := outputFromRanges_runs isSortKey hgroups []
  rwa [flatten_singleton, append_nil, map_singleton, rangesFrom,
    Nat.zero_add, rangesFrom] at houtput

end Output

section Push

variable [LinearOrder Value] {sortKeys : LexOrdering} {isTimestamp : String → Bool}
  {rows rest run : List (Row Value)} {lastBatch : Option (RecordBatch Value)}

omit [LinearOrder Value] in
theorem keyColumns_perm (self : RecordBatchDeduplicator Value) :
    self.partitionColumns.Perm self.keyColumns := by
  refine List.Perm.trans ?_ (reverse_perm _)
  unfold RecordBatchDeduplicator.partitionColumns
  split
  case h_1 last previous rest heq =>
    rw [heq]
    split
    · exact .swap _ _ _
    · exact .refl _
  case h_2 => exact .refl _

/-- Rows that agree on the columns of the partition have one sort key. -/
theorem runs_partitionColumns (self : RecordBatchDeduplicator Value) (rows : List (Row Value)) :
    runs (fun row => self.partitionColumns.map row) rows = runs (sortKey self.sortKeys) rows := by
  refine runs_congr ?_ rows
  intro row other
  simp only [map_inj_left, sortKey, (keyColumns_perm self).mem_iff,
    RecordBatchDeduplicator.keyColumns, List.forall_mem_map]

theorem rangesFrom_append (start : Nat) (lengths later : List Nat) :
    rangesFrom start (lengths ++ later) =
      rangesFrom start lengths ++ rangesFrom (start + lengths.sum) later := by
  induction lengths generalizing start with
  | nil => simp [rangesFrom]
  | cons length lengths ih =>
    rw [cons_append, rangesFrom, ih, rangesFrom, cons_append, sum_cons,
      Nat.add_assoc]

/-- A push sends a row for each run but the last, which is kept back. -/
theorem push_eq {self : RecordBatchDeduplicator Value} {batch : RecordBatch Value}
    {front : List (RecordBatch Value)}
    (hruns : runs (sortKey self.sortKeys) (self.lastBatch.getD [] ++ batch) = front ++ [run]) :
    self.push batch =
      (front.map (mergeRun self.isSortKey), { self with lastBatch := some run }) := by
  have hbatch : (match self.lastBatch with
      | some lastBatch => lastBatch ++ batch
      | none => batch) = self.lastBatch.getD [] ++ batch := by
    cases self.lastBatch <;> rfl
  have hrows : self.lastBatch.getD [] ++ batch = front.flatten ++ run := by
    rw [← flatten_runs (sortKey self.sortKeys) (self.lastBatch.getD [] ++ batch), hruns]
    simp
  have hne : ∀ group ∈ front, group ≠ [] := fun group hgroup => by
    have hmem : group ∈ runs (sortKey self.sortKeys) (self.lastBatch.getD [] ++ batch) := by
      simp [hruns, hgroup]
    exact ne_nil_of_mem_runs hmem
  have hranges : (self.computeRanges (front.flatten ++ run)).ranges =
      rangesFrom 0 (front.map length) ++
        [(front.flatten.length, front.flatten.length + run.length)] := by
    simp only [RecordBatchDeduplicator.computeRanges, partition, runs_partitionColumns]
    rw [← hrows, hruns, map_append, rangesFrom_append, length_flatten, Nat.zero_add]
    rfl
  have houtput := outputFromRanges_runs self.isSortKey hne run
  simp only [RecordBatchDeduplicator.push, hbatch, hrows]
  rw [hranges, dropLast_concat, getLast?_concat]
  simp only [map_some, Prod.mk.injEq]
  refine ⟨houtput, ?_⟩
  simp [sliceRecordBatch]

end Push

section Loop

variable [LinearOrder Value] {sortKeys : LexOrdering} {isTimestamp : String → Bool}
  {self : RecordBatchDeduplicator Value} {sent : List (RecordBatch Value)}
  {batch rest : RecordBatch Value}

def mergeRuns (sortKeys : LexOrdering) (rows : List (Row Value)) : List (Row Value) :=
  (runs (sortKey sortKeys) rows).map
    (mergeRun fun column => (sortKeys.exprs.map Prod.fst).contains column)

/-- The rows kept back have one sort key. -/
def Kept (self : RecordBatchDeduplicator Value) : Prop :=
  ∀ lastBatch, self.lastBatch = some lastBatch → lastBatch ≠ [] ∧
    ∀ row ∈ lastBatch, ∀ other ∈ lastBatch,
      sortKey self.sortKeys row = sortKey self.sortKeys other

omit [LinearOrder Value] in
@[simp]
theorem flatten_send (sent : List (RecordBatch Value)) (batch : Option (RecordBatch Value)) :
    (send sent batch).flatten = sent.flatten ++ batch.getD [] := by
  cases batch with
  | none => simp [send]
  | some batch =>
    simp only [send]
    split
    · simp
    · simp_all

/-- A push sends the runs that are complete and keeps the last one back. -/
theorem push_spec (self : RecordBatchDeduplicator Value) (batch : RecordBatch Value)
    (hne : self.lastBatch.getD [] ++ batch ≠ []) :
    ∃ output run, self.push batch = (output, { self with lastBatch := some run }) ∧
      Kept { self with lastBatch := some run } ∧ run.Sublist (self.lastBatch.getD [] ++ batch) ∧
      ∀ rest, output ++ mergeRuns self.sortKeys (run ++ rest) =
        mergeRuns self.sortKeys (self.lastBatch.getD [] ++ batch ++ rest) := by
  have hruns : runs (sortKey self.sortKeys) (self.lastBatch.getD [] ++ batch) ≠ [] :=
    splitBy_ne_nil.mpr hne
  obtain ⟨front, run, hsplit⟩ := (eq_nil_or_concat _).resolve_left hruns
  rw [concat_eq_append] at hsplit
  have hmem : run ∈ runs (sortKey self.sortKeys) (self.lastBatch.getD [] ++ batch) := by
    simp [hsplit]
  refine ⟨_, run, push_eq hsplit, ?_, ?_, ?_⟩
  · rintro lastBatch ⟨⟩
    exact ⟨ne_nil_of_mem_runs hmem,
      fun row hrow other hother => key_eq_of_mem_runs hmem hrow hother⟩
  · rw [← flatten_runs (sortKey self.sortKeys) (self.lastBatch.getD [] ++ batch)]
    exact sublist_flatten_of_mem hmem
  · intro rest
    rw [mergeRuns, mergeRuns, runs_append_of_runs hsplit, map_append]
    rfl

/-- The rows kept back are sent before the batch if it has another sort key. -/
theorem lastBatchWithNoSameSortKey_spec (hkept : Kept self) (hbatch : batch ≠ [])
    (hsorted : Sorted self.sortKeys (self.lastBatch.getD [] ++ batch)) :
    ∃ output lastBatch, self.lastBatchWithNoSameSortKey batch =
        .ok (output, { self with lastBatch := lastBatch }) ∧
      (lastBatch.getD []).Sublist (self.lastBatch.getD []) ∧
      ∀ rest, output.getD [] ++ mergeRuns self.sortKeys (lastBatch.getD [] ++ (batch ++ rest)) =
        mergeRuns self.sortKeys (self.lastBatch.getD [] ++ (batch ++ rest)) := by
  cases hlast : self.lastBatch with
  | none =>
    refine ⟨none, none, ?_, .refl _, fun rest => rfl⟩
    cases self
    simp_all [RecordBatchDeduplicator.lastBatchWithNoSameSortKey, pure, Except.pure]
  | some run =>
    obtain ⟨hrun, hsame⟩ := hkept run hlast
    rw [hlast] at hsorted
    have hfirst : batch.head? = some (batch.head hbatch) := head?_eq_some_head hbatch
    have hfinal : run.getLast? = some (run.getLast hrun) := getLast?_eq_some_getLast hrun
    have hle : (compareRows self.sortKeys.exprs (run.getLast hrun) (batch.head hbatch)).isLE :=
      (pairwise_append.mp hsorted).2.2 _ (getLast_mem hrun) _ (head_mem hbatch)
    by_cases hequal : compareRows self.sortKeys.exprs (run.getLast hrun) (batch.head hbatch) = .eq
    · refine ⟨none, some run, ?_, .refl _, fun rest => rfl⟩
      cases self
      simp_all [RecordBatchDeduplicator.lastBatchWithNoSameSortKey, sameSortKey_of_isLE hle,
        Fallible.expect, bind, Except.bind, pure, Except.pure]
    · refine ⟨some [mergeRun self.isSortKey run], none, ?_, by simp, ?_⟩
      · simp [RecordBatchDeduplicator.lastBatchWithNoSameSortKey, hlast, hfirst, hfinal,
          sameSortKey_of_isLE hle, hequal, outputFromRanges_run self.isSortKey hrun,
          Fallible.expect, bind, Except.bind, pure, Except.pure]
      · intro rest
        have hruns : runs (sortKey self.sortKeys) (run ++ (batch ++ rest)) =
            [run] ++ runs (sortKey self.sortKeys) (batch ++ rest) := by
          rw [← runs_eq_singleton hrun hsame]
          refine runs_append ?_
          intro row hrow other hother hkey
          rw [head?_append_of_ne_nil _ hbatch, hfirst, mem_some_iff] at hother
          rw [hfinal, mem_some_iff] at hrow
          rw [← hrow, ← hother, ← compareRows_eq_iff] at hkey
          exact hequal hkey
        simp only [mergeRuns, getD_none, getD_some, nil_append, hruns,
          map_append, map_singleton]
        rfl

/-- A round of the loop: what was sent and what is kept back stand for the rows received. -/
theorem deduplicateBatch_spec (sent : List (RecordBatch Value)) (hkept : Kept self)
    (hbatch : batch ≠ []) (hsorted : Sorted self.sortKeys (self.lastBatch.getD [] ++ batch)) :
    ∃ run sent', deduplicateBatch (self, sent) batch =
        .ok ({ self with lastBatch := some run }, sent') ∧
      Kept { self with lastBatch := some run } ∧
      run.Sublist (self.lastBatch.getD [] ++ batch) ∧
      ∀ rest, sent'.flatten ++ mergeRuns self.sortKeys (run ++ rest) =
        sent.flatten ++ mergeRuns self.sortKeys (self.lastBatch.getD [] ++ (batch ++ rest)) := by
  obtain ⟨earlier, lastBatch, hcheck, hkeep, hearlier⟩ :=
    lastBatchWithNoSameSortKey_spec hkept hbatch hsorted
  obtain ⟨output, run, hpush, hkept', hsublist, hmerge⟩ :=
    push_spec { self with lastBatch := lastBatch } batch (by simp [hbatch])
  refine ⟨run, send (send sent earlier) (some output), ?_, hkept', ?_, ?_⟩
  · simp [deduplicateBatch, hcheck, hpush, bind, Except.bind, pure, Except.pure]
  · exact hsublist.trans (hkeep.append_right batch)
  · intro rest
    rw [flatten_send, flatten_send, append_assoc, getD_some, hmerge rest,
      append_assoc, append_assoc, hearlier rest]

variable {batches : List (RecordBatch Value)}

theorem foldlM_deduplicateBatch
    (sent : List (RecordBatch Value)) (hkept : Kept self) (hbatches : ∀ batch ∈ batches, batch ≠ [])
    (hsorted : Sorted self.sortKeys (self.lastBatch.getD [] ++ batches.flatten)) :
    ∃ lastBatch sent', batches.foldlM deduplicateBatch (self, sent) =
        .ok ({ self with lastBatch := lastBatch }, sent') ∧
          Kept { self with lastBatch := lastBatch } ∧
      sent'.flatten ++ mergeRuns self.sortKeys (lastBatch.getD []) =
        sent.flatten ++ mergeRuns self.sortKeys (self.lastBatch.getD [] ++ batches.flatten) := by
  induction batches generalizing self sent with
  | nil => exact ⟨self.lastBatch, sent, rfl, hkept, by simp⟩
  | cons batch batches ih =>
    rw [flatten_cons, ← append_assoc] at hsorted
    have hfront := (pairwise_append.mp hsorted).1
    obtain ⟨run, sent', hround, hkept', hsublist, hmerge⟩ :=
      deduplicateBatch_spec sent hkept (hbatches batch (by simp)) hfront
    have hsorted' : Sorted self.sortKeys (run ++ batches.flatten) :=
      List.Pairwise.sublist (hsublist.append_right _) hsorted
    obtain ⟨lastBatch, sent'', hfold, hkept'', hmerge'⟩ :=
      ih sent' hkept' (fun b hb => hbatches b (mem_cons_of_mem batch hb)) hsorted'
    refine ⟨lastBatch, sent'', ?_, hkept'', ?_⟩
    · rw [foldlM_cons, hround]
      exact hfold
    · rw [hmerge', flatten_cons, ← hmerge batches.flatten]
      rfl

theorem finish_eq (hkept : Kept self) :
    self.finish.getD [] = mergeRuns self.sortKeys (self.lastBatch.getD []) := by
  cases hlast : self.lastBatch with
  | none => simp [RecordBatchDeduplicator.finish, hlast, mergeRuns, runs]
  | some run =>
    obtain ⟨hrun, hsame⟩ := hkept run hlast
    have hruns := runs_eq_singleton hrun hsame
    simp only [RecordBatchDeduplicator.finish, hlast, map_some, getD_some,
      RecordBatchDeduplicator.computeRanges, partition, runs_partitionColumns, hruns, mergeRuns,
      map_singleton, rangesFrom, Nat.zero_add, outputFromRanges_run self.isSortKey hrun]
    rfl

/-- The stream's output depends on the rows alone, not on the batches they came in. -/
theorem flatten_deduplicate
    (hbatches : ∀ batch ∈ batches, batch ≠ []) (hsorted : Sorted sortKeys batches.flatten) :
    ∃ sent, deduplicate sortKeys isTimestamp batches = .ok sent ∧
      sent.flatten = mergeRuns sortKeys batches.flatten := by
  have hkept : Kept (⟨sortKeys, isTimestamp, none⟩ : RecordBatchDeduplicator Value) := by
    rintro lastBatch ⟨⟩
  obtain ⟨lastBatch, sent, hfold, hkept', hmerge⟩ :=
      foldlM_deduplicateBatch [] hkept hbatches hsorted
  refine ⟨send sent (RecordBatchDeduplicator.finish ⟨sortKeys, isTimestamp, lastBatch⟩), ?_, ?_⟩
  · simp [deduplicate, hfold, bind, Except.bind, pure, Except.pure]
  · rw [flatten_send, finish_eq hkept']
    exact hmerge

end Loop

section Correctness

variable [LinearOrder Value] {sortKeys : LexOrdering} {rows : List (Row Value)}

omit [LinearOrder Value] in
theorem sortKey_mergeRun {run : RecordBatch Value} {row : Row Value}
    (hsame : ∀ row ∈ run, ∀ other ∈ run, sortKey sortKeys row = sortKey sortKeys other)
    (hrow : row ∈ run) :
    sortKey sortKeys (mergeRun (fun column => (sortKeys.exprs.map Prod.fst).contains column) run) =
      sortKey sortKeys row := by
  cases run with
  | nil => simp at hrow
  | cons first rest =>
    rw [hsame row hrow first (by simp)]
    refine map_congr_left ?_
    intro expr hexpr
    have hkey : (sortKeys.exprs.map Prod.fst).contains expr.1 = true := by
      rw [contains_iff_mem]
      exact mem_map_of_mem hexpr
    simp only [mergeRun, hkey, if_true]
    rfl

theorem deduplicated_mergeRuns (hsorted : Sorted sortKeys rows) :
    Deduplicated sortKeys rows (mergeRuns sortKeys rows) := by
  have htrans : ∀ a b c : Row Value, (compareRows sortKeys.exprs a b).isLE →
      (compareRows sortKeys.exprs b c).isLE → (compareRows sortKeys.exprs a c).isLE :=
    fun a b c => Std.TransCmp.isLE_trans
  have hpairwise := pairwise_runs htrans (fun a b => sortKey_eq_of_isLE)
    (fun a b => isLE_of_sortKey_eq) hsorted
  have hsame : ∀ run ∈ runs (sortKey sortKeys) rows, ∀ row ∈ run, ∀ other ∈ run,
      sortKey sortKeys row = sortKey sortKeys other := fun run hrun row hrow other hother =>
    key_eq_of_mem_runs hrun hrow hother
  have hfirst : ∀ run ∈ runs (sortKey sortKeys) rows, ∃ row, row ∈ run := fun run hrun =>
    exists_mem_of_ne_nil run (ne_nil_of_mem_runs hrun)
  refine ⟨?_, ?_, ?_⟩
  · refine List.Pairwise.map _ (fun _ _ h => h) (hpairwise.imp_of_mem ?_)
    intro run later hrun hlater hbefore
    obtain ⟨row, hrow⟩ := hfirst run hrun
    obtain ⟨other, hother⟩ := hfirst later hlater
    obtain ⟨hle, hne⟩ := hbefore row hrow other hother
    rw [Std.TransCmp.congr_left
        (compareRows_eq_iff.mpr (sortKey_mergeRun (hsame run hrun) hrow)),
      Std.TransCmp.congr_right
        (compareRows_eq_iff.mpr (sortKey_mergeRun (hsame later hlater) hother))]
    exact (Ordering.isLE_iff_eq_lt_or_eq_eq.mp hle).resolve_right fun heq =>
      hne (compareRows_eq_iff.mp heq)
  · intro key
    simp only [mergeRuns, List.map_map, List.mem_map, Function.comp_apply]
    constructor
    · rintro ⟨run, hrun, rfl⟩
      obtain ⟨row, hrow⟩ := hfirst run hrun
      exact ⟨row, subset_of_mem_runs hrun hrow, (sortKey_mergeRun (hsame run hrun) hrow).symm⟩
    · rintro ⟨row, hrow, rfl⟩
      rw [← flatten_runs (sortKey sortKeys) rows] at hrow
      obtain ⟨run, hrun, hin⟩ := mem_flatten.mp hrow
      exact ⟨run, hrun, sortKey_mergeRun (hsame run hrun) hin⟩
  · intro merged hmerged column hcolumn
    obtain ⟨run, hrun, rfl⟩ := mem_map.mp hmerged
    obtain ⟨row, hrow⟩ := hfirst run hrun
    rw [sortKey_mergeRun (hsame run hrun) hrow, filter_eq_of_mem_runs htrans
      (fun a b => sortKey_eq_of_isLE) (fun a b => isLE_of_sortKey_eq) hsorted hrun hrow]
    have hnot : (sortKeys.exprs.map Prod.fst).contains column = false := by
      simpa using hcolumn
    simp only [mergeRun, hnot, Bool.false_eq_true, if_false]

/-- For rows sorted by the sort key there is one output, whatever non-empty batches the rows come
in: one row for each sort key, with the last non-null values. -/
theorem deduplicate_independent_of_batches (sortKeys : LexOrdering) (isTimestamp : String → Bool)
    (rows : List (Row Value)) (hsorted : Sorted sortKeys rows) :
    ∃ output, Deduplicated sortKeys rows output ∧
      ∀ batches : List (RecordBatch Value), batches.flatten = rows →
        (∀ batch ∈ batches, batch ≠ []) →
          ∃ sent, deduplicate sortKeys isTimestamp batches = .ok sent ∧ sent.flatten = output := by
  refine ⟨mergeRuns sortKeys rows, deduplicated_mergeRuns hsorted, ?_⟩
  rintro batches rfl hbatches
  exact flatten_deduplicate hbatches hsorted

/-- Two rows at one time, the later one without a value. -/
def rowsAtOneTime : List (Row Nat) :=
  [fun column => if column = "time" then some 1 else some 7,
    fun column => if column = "time" then some 1 else none]

theorem deduplicate_independent_of_batches_one_time :
    ∃ output, Deduplicated ⟨[("time", ⟨false, false⟩)], by simp⟩ rowsAtOneTime output ∧
      ∀ batches : List (RecordBatch Nat), batches.flatten = rowsAtOneTime →
        (∀ batch ∈ batches, batch ≠ []) →
          ∃ sent, deduplicate ⟨[("time", ⟨false, false⟩)], by simp⟩ (fun _ => true) batches =
            .ok sent ∧ sent.flatten = output :=
  deduplicate_independent_of_batches _ _ rowsAtOneTime (by
    simp [Sorted, rowsAtOneTime, compareRows, makeComparator])

end Correctness

end RefluxDb.Query.Deduplicate
