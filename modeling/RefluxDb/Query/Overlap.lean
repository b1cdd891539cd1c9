import RefluxDb.Library.Fallible
import RefluxDb.Query.SplitDedup

/-! The sweep that groups chunks by overlapping time range, with its expectations.

`Overlap.groupPotentialDuplicates` follows the source record by record and fails where the source
would panic. It never does when every chunk has a time range, it computes the groups
`SplitDedup` works with, and these are the classes of chunks connected by chains of intersecting
time ranges. The source counts open ranges in a 32-bit integer; the count never exceeds the number
of chunks. -/

namespace RefluxDb.Query.Overlap

open List RefluxDb.Library

inductive StartEnd where
  | start
  | finish
deriving DecidableEq

def StartEnd.rank : StartEnd → Nat
  | start => 0
  | finish => 1

/-- An end of a time range; the record of a finish carries the chunk. -/
structure GrouperRecord (Chunk : Type*) where
  value : Int
  startEnd : StartEnd
  chunk : Option Chunk

/-- The order of the sort key `(value, start_end)`. -/
def GrouperRecord.Le {Chunk : Type*} (gr gr' : GrouperRecord Chunk) : Prop :=
  gr.value < gr'.value ∨ gr.value = gr'.value ∧ gr.startEnd.rank ≤ gr'.startEnd.rank
deriving Decidable

variable {Id Tags Field Value : Type*}

/-- Two records for each chunk. -/
def grouper (chunks : Group Id Tags Field Value) (ts : List (Option (Int × Int))) :
    Fallible Empty (List (GrouperRecord (QueryChunk Id Tags Field Value))) :=
  (chunks.zip ts).foldlM (fun grouper (chunk, ts) => do
    let records ← Fallible.expect "Time range should have value" (ts.map fun timeRange =>
      [⟨timeRange.1, .start, none⟩, ⟨timeRange.2, .finish, some chunk⟩])
    pure (grouper ++ records)) []

/-- One round of the loop over the sorted records. -/
def sweepStep (sweep : Sweep (QueryChunk Id Tags Field Value))
    (gr : GrouperRecord (QueryChunk Id Tags Field Value)) :
    Fallible Empty (Sweep (QueryChunk Id Tags Field Value)) :=
  match gr.startEnd with
  | .start =>
    let cumulativeSum := sweep.cumulativeSum + 1
    pure ⟨cumulativeSum, if cumulativeSum = 1 then sweep.groups ++ [[]] else sweep.groups⟩
  | .finish => do
      let last ← Fallible.expect "a start should have pushed at least one empty group"
        sweep.groups.getLast?
      let chunk ← Fallible.expect "Must have chunk value" gr.chunk
      pure ⟨sweep.cumulativeSum - 1, sweep.groups.dropLast ++ [last ++ [chunk]]⟩

def groupPotentialDuplicates (chunks : Group Id Tags Field Value) :
    Fallible Empty (List (Group Id Tags Field Value)) := do
  let ts := chunks.map (·.timestampMinMax)
  if ts.any (·.isNone) then return [chunks]
  let grouper ← grouper chunks ts
  let sweep ← (grouper.insertionSort GrouperRecord.Le).foldlM sweepStep {}
  return sweep.groups

section Refinement

/-- The ends of a chunk's time range, where it has one. -/
def minTime (chunk : QueryChunk Id Tags Field Value) : Int := (chunk.timestampMinMax.getD (0, 0)).1

def maxTime (chunk : QueryChunk Id Tags Field Value) : Int := (chunk.timestampMinMax.getD (0, 0)).2

/-- Every chunk has a time range that is not empty. -/
def Ranged (chunks : Group Id Tags Field Value) : Prop :=
  ∀ chunk ∈ chunks, ∃ range, chunk.timestampMinMax = some range ∧ range.1 ≤ range.2

variable {chunks : Group Id Tags Field Value} {chunk other : QueryChunk Id Tags Field Value}

theorem Ranged.timestampMinMax (hranged : Ranged chunks) (hchunk : chunk ∈ chunks) :
    chunk.timestampMinMax = some (minTime chunk, maxTime chunk) := by
  obtain ⟨range, hrange, _⟩ := hranged chunk hchunk
  simp [minTime, maxTime, hrange]

theorem Ranged.le (hranged : Ranged chunks) : ∀ chunk ∈ chunks, minTime chunk ≤ maxTime chunk := by
  intro chunk hchunk
  obtain ⟨range, hrange, hle⟩ := hranged chunk hchunk
  simpa [minTime, maxTime, hrange] using hle

def recordOf : Endpoint (QueryChunk Id Tags Field Value) →
    GrouperRecord (QueryChunk Id Tags Field Value)
  | .start chunk => ⟨minTime chunk, .start, none⟩
  | .finish chunk => ⟨maxTime chunk, .finish, some chunk⟩

theorem grouper_of_ranged (hranged : Ranged chunks) :
    grouper chunks (chunks.map (·.timestampMinMax)) =
      .ok ((Sweep.endpoints chunks).map recordOf) := by
  have hfold : ∀ (done rest : Group Id Tags Field Value), Ranged rest →
      (rest.zip (rest.map (·.timestampMinMax))).foldlM (fun grouper (chunk, ts) => do
        let records ← Fallible.expect "Time range should have value" (ts.map fun timeRange =>
          [⟨timeRange.1, .start, none⟩, ⟨timeRange.2, .finish, some chunk⟩])
        pure (grouper ++ records))
        ((Sweep.endpoints done).map recordOf) =
          (.ok ((Sweep.endpoints (done ++ rest)).map recordOf) : Fallible Empty _) := by
    intro done rest hrest
    induction rest generalizing done with
    | nil => simp [pure, Except.pure]
    | cons chunk rest ih =>
      have htail : Ranged rest := fun c hc => hrest c (mem_cons_of_mem chunk hc)
      have hnext := ih (done ++ [chunk]) htail
      rw [append_assoc, singleton_append] at hnext
      rw [← hnext, map_cons, zip_cons_cons]
      simp [hrest.timestampMinMax mem_cons_self, Fallible.expect, bind, Except.bind,
        pure, Except.pure, Sweep.endpoints, recordOf]
  exact hfold [] chunks hranged

variable {sweep : Sweep (QueryChunk Id Tags Field Value)}
variable {event : Endpoint (QueryChunk Id Tags Field Value)}

theorem sweepStep_recordOf (hgroups : sweep.groups ≠ [] ∨ ∃ chunk, event = .start chunk) :
    sweepStep sweep (recordOf event) = .ok (sweep.step event) := by
  cases event with
  | start chunk => rfl
  | finish chunk =>
    have hne : sweep.groups ≠ [] := by simpa using hgroups
    have hlast := getLast?_eq_some_getLast hne
    simp [sweepStep, recordOf, Sweep.step, Sweep.pushLast, hlast, Fallible.expect, bind,
      Except.bind, pure, Except.pure]

theorem foldlM_sweepStep
    (events : List (Endpoint (QueryChunk Id Tags Field Value))) (hgroups : sweep.groups ≠ []) :
    (events.map recordOf).foldlM sweepStep sweep = .ok (events.foldl Sweep.step sweep) := by
  induction events generalizing sweep with
  | nil => rfl
  | cons event rest ih =>
    have hnext : (sweep.step event).groups ≠ [] := by
      cases event with
      | start chunk =>
        simp only [Sweep.step]
        split
        · simp
        · exact hgroups
      | finish chunk =>
        have hlast := getLast?_eq_some_getLast hgroups
        simp [Sweep.step, Sweep.pushLast, hlast]
    rw [map_cons, foldlM_cons, sweepStep_recordOf (.inl hgroups), foldl_cons,
      ← ih hnext]
    rfl

/-- The first of the sorted endpoints is a start, which makes the first group. -/
theorem exists_start_of_sorted (hranged : Ranged chunks)
    {rest : List (Endpoint (QueryChunk Id Tags Field Value))}
    (hsorted : (Sweep.endpoints chunks).insertionSort (Endpoint.Le minTime maxTime) =
      event :: rest) : ∃ chunk, event = .start chunk := by
  cases event with
  | start chunk => exact ⟨chunk, rfl⟩
  | finish chunk =>
    exfalso
    have hmem : ∀ e, e ∈ Endpoint.finish chunk :: rest ↔ e ∈ Sweep.endpoints chunks := by
      intro e
      rw [← hsorted, mem_insertionSort]
    obtain ⟨c, hc, heq⟩ := Sweep.mem_endpoints.mp ((hmem (.finish chunk)).mp (by simp))
    obtain rfl : chunk = c := by simpa using heq
    have hstart := (hmem (.start chunk)).mpr (Sweep.mem_endpoints.mpr ⟨chunk, hc, .inl rfl⟩)
    have hpairwise := pairwise_insertionSort (Endpoint.Le minTime maxTime)
      (Sweep.endpoints chunks)
    rw [hsorted] at hpairwise
    have hlater := (mem_cons.mp hstart).resolve_left (by simp)
    exact Endpoint.not_finish_le_start (hranged.le chunk hc)
      (rel_of_pairwise_cons hpairwise hlater)

/-- The sweep never fails, and computes the groups by overlapping time range. -/
theorem groupPotentialDuplicates_of_ranged (hranged : Ranged chunks) :
    groupPotentialDuplicates chunks = .ok (overlapGroups minTime maxTime chunks) := by
  have hsome : (chunks.map (·.timestampMinMax)).any (·.isNone) = false := by
    rw [any_eq_false]
    intro ts hts
    obtain ⟨chunk, hchunk, rfl⟩ := mem_map.mp hts
    simp [hranged.timestampMinMax hchunk]
  have hsort := map_insertionSort (Endpoint.Le minTime maxTime) GrouperRecord.Le recordOf
    (Sweep.endpoints chunks) fun e _ e' _ => by cases e <;> cases e' <;> rfl
  have hfold : (((Sweep.endpoints chunks).insertionSort (Endpoint.Le minTime maxTime)).map
      recordOf).foldlM sweepStep {} = .ok (((Sweep.endpoints chunks).insertionSort
        (Endpoint.Le minTime maxTime)).foldl Sweep.step {}) := by
    cases hsorted : (Sweep.endpoints chunks).insertionSort (Endpoint.Le minTime maxTime) with
    | nil => rfl
    | cons event rest =>
      obtain ⟨chunk, rfl⟩ := exists_start_of_sorted hranged hsorted
      rw [map_cons, foldlM_cons,
        foldl_cons, ← foldlM_sweepStep rest (by simp [Sweep.step])]
      rfl
  simp [groupPotentialDuplicates, hsome, grouper_of_ranged hranged, ← hsort, hfold, bind,
    Except.bind, pure, Except.pure, overlapGroups]

/-- The groups of the rule `SplitDedup`. -/
theorem overlapGroups_eq_groupPotentialDuplicates (hranged : Ranged chunks) :
    overlapGroups minTime maxTime chunks = Query.groupPotentialDuplicates chunks := by
  have hsome : ¬chunks.any (·.timestampMinMax.isNone) = true := by
    rw [any_eq_true]
    rintro ⟨chunk, hchunk, hnone⟩
    simp [hranged.timestampMinMax hchunk] at hnone
  rw [Query.groupPotentialDuplicates, if_neg hsome]
  rfl

end Refinement

section Grouping

variable {chunks : Group Id Tags Field Value} {chunk other : QueryChunk Id Tags Field Value}

/-- The closed time range of the chunk holds the time. -/
def Covers (chunk : QueryChunk Id Tags Field Value) (time : Int) : Prop :=
  ∃ range, chunk.timestampMinMax = some range ∧ range.1 ≤ time ∧ time ≤ range.2

def Intersect (chunk other : QueryChunk Id Tags Field Value) : Prop :=
  ∃ time, Covers chunk time ∧ Covers other time

/-- A chain of chunks of the list leads from one to the other, each intersecting the next. -/
def Connected (chunks : Group Id Tags Field Value) :
    QueryChunk Id Tags Field Value → QueryChunk Id Tags Field Value → Prop :=
  Relation.ReflTransGen fun chunk other => chunk ∈ chunks ∧ other ∈ chunks ∧ Intersect chunk other

/-- The groups partition the chunks into the classes of connected time ranges. -/
structure ExactGrouping (chunks : Group Id Tags Field Value)
    (groups : List (Group Id Tags Field Value)) : Prop where
  partitions : groups.flatten.Perm chunks
  together : ∀ chunk ∈ chunks, ∀ other ∈ chunks, Intersect chunk other →
    ∃ group ∈ groups, chunk ∈ group ∧ other ∈ group
  disjoint : ∀ (i j : Nat) (group later : Group Id Tags Field Value), groups[i]? = some group →
    groups[j]? = some later → i ≠ j → ∀ chunk ∈ group, ∀ other ∈ later, ¬Intersect chunk other
  connected : ∀ chunk ∈ chunks, ∀ other ∈ chunks,
    (∃ group ∈ groups, chunk ∈ group ∧ other ∈ group) ↔ Connected chunks chunk other

theorem intersect_iff_meets (hranged : Ranged chunks) (hchunk : chunk ∈ chunks)
    (hother : other ∈ chunks) :
      Intersect chunk other ↔ Sweep.Meets minTime maxTime chunk other := by
  have hle := hranged.le chunk hchunk
  have hle' := hranged.le other hother
  simp only [Intersect, Covers, hranged.timestampMinMax hchunk, hranged.timestampMinMax hother,
    Option.some.injEq, exists_eq_left']
  constructor
  · rintro ⟨time, ⟨hlo, hhi⟩, hlo', hhi'⟩
    exact ⟨hlo.trans hhi', hlo'.trans hhi⟩
  · rintro ⟨hlo, hhi⟩
    exact ⟨max (minTime chunk) (minTime other), ⟨by omega, by omega⟩, by omega, by omega⟩

theorem connected_iff_linked (hranged : Ranged chunks) :
    Connected chunks chunk other ↔ Sweep.Linked minTime maxTime chunks chunk other := by
  constructor
  · intro hconnected
    refine hconnected.lift id ?_
    rintro c d ⟨hc, hd, hintersect⟩
    exact ⟨hc, hd, (intersect_iff_meets hranged hc hd).mp hintersect⟩
  · intro hlinked
    refine hlinked.lift id ?_
    rintro c d ⟨hc, hd, hmeets⟩
    exact ⟨hc, hd, (intersect_iff_meets hranged hc hd).mpr hmeets⟩

/-- Chunks that all have a time range are grouped, without a panic, into the classes of connected
time ranges. -/
theorem groupPotentialDuplicates_exact (chunks : Group Id Tags Field Value)
    (hranged : Ranged chunks) :
    ∃ groups, groupPotentialDuplicates chunks = .ok groups ∧ ExactGrouping chunks groups := by
  have hperm := flatten_overlapGroups_perm hranged.le
  have hmem : ∀ group ∈ overlapGroups minTime maxTime chunks, group ⊆ chunks :=
    fun group hgroup chunk hchunk =>
      hperm.mem_iff.mp (mem_flatten.mpr ⟨group, hgroup, hchunk⟩)
  refine ⟨_, groupPotentialDuplicates_of_ranged hranged, hperm, ?_, ?_, ?_⟩
  · intro chunk hchunk other hother hintersect
    exact exists_group_of_meets hranged.le hchunk hother
      ((intersect_iff_meets hranged hchunk hother).mp hintersect)
  · intro i j group later hi hj hne chunk hchunk other hother hintersect
    have hin := hmem group (mem_of_getElem? hi) hchunk
    have hin' := hmem later (mem_of_getElem? hj) hother
    exact not_meets_of_apart hranged.le hi hj hne hchunk hother
      ((intersect_iff_meets hranged hin hin').mp hintersect)
  · intro chunk hchunk other _
    rw [connected_iff_linked hranged]
    exact exists_group_iff_linked hranged.le hchunk

def touchingChunks : Group Nat Unit Unit Unit :=
  [⟨0, 0, 0, some (0, 5), false, []⟩, ⟨0, 1, 1, some (5, 9), false, []⟩]

theorem groupPotentialDuplicates_exact_touching : ∃ groups,
    groupPotentialDuplicates touchingChunks = .ok groups ∧ ExactGrouping touchingChunks groups :=
  groupPotentialDuplicates_exact touchingChunks (by
    intro chunk hchunk
    simp only [touchingChunks, mem_cons, not_mem_nil, or_false] at hchunk
    rcases hchunk with rfl | rfl
    · exact ⟨(0, 5), rfl, by decide⟩
    · exact ⟨(5, 9), rfl, by decide⟩)

end Grouping

end RefluxDb.Query.Overlap
