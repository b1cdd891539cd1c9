import Mathlib.Data.List.TakeWhile
import RefluxDb.Library.Lists
import RefluxDb.Library.Machine
import RefluxDb.Library.Truncation

/-! When the WAL is snapshotted, and which buffered rows a snapshot persists.

`SnapshotTracker` decides from the WAL periods it was given which snapshot to issue. The
snapshot's time marker then decides which chunks `TableBuffer::snapshot` moves out of the write
buffer, and its last WAL file number which WAL files may be deleted afterwards. The model keeps
both sides: the tracker, the buffered rows under their chunk times, and which snapshot moved
which row. Timestamps are integers, so no arithmetic overflows; the write buffer is the list of
its rows with the key of the chunk each is in, over all tables. -/

namespace RefluxDb.Wal

open List Option RefluxDb.Library

/-- The gen1 duration in nanoseconds. -/
structure Gen1Duration where
  asNanos : Int
  asNanos_pos : 0 < asNanos
deriving DecidableEq

def Gen1Duration.new1m : Gen1Duration := ⟨60000000000, by decide⟩

def Gen1Duration.new10m : Gen1Duration := ⟨600000000000, by decide⟩

def Gen1Duration.chunkTimeForTimestamp (duration : Gen1Duration) (t : Int) : Int :=
  t - t.tmod duration.asNanos

structure WalPeriod where
  walFileNumber : Nat
  minTime : Int
  maxTime : Int
deriving DecidableEq

structure SnapshotDetails where
  snapshotSequenceNumber : Nat
  endTimeMarker : Int
  firstWalSequenceNumber : Nat
  lastWalSequenceNumber : Nat
  forced : Bool
deriving DecidableEq

structure SnapshotTracker where
  lastSnapshotSequenceNumber : Nat
  lastWalSequenceNumber : Nat
  walPeriods : List WalPeriod
  snapshotSize : Nat
  gen1Duration : Gen1Duration

namespace SnapshotTracker

def new (snapshotSize : Nat) (gen1Duration : Gen1Duration)
    (lastSnapshotSequenceNumber : Option Nat) : SnapshotTracker where
  lastSnapshotSequenceNumber := lastSnapshotSequenceNumber.getD 0
  lastWalSequenceNumber := 0
  walPeriods := []
  snapshotSize := snapshotSize
  gen1Duration := gen1Duration

variable (tracker : SnapshotTracker)

/-- `none` is the panic on a period that does not come after the last one. -/
def addWalPeriod (period : WalPeriod) : Option SnapshotTracker :=
  if tracker.walPeriods.getLast?.all (·.walFileNumber < period.walFileNumber) then
    some { tracker with
      lastWalSequenceNumber := period.walFileNumber
      walPeriods := tracker.walPeriods ++ [period] }
  else none

def numberOfPeriodsToSnapshotAfter : Nat :=
  tracker.snapshotSize + tracker.snapshotSize / 2

/-- There are periods, and as many as the threshold if the snapshot is not forced. -/
def reaches (threshold : Nat) (forceSnapshot : Bool) : Bool :=
  !tracker.walPeriods.isEmpty && (forceSnapshot || decide (threshold ≤ tracker.walPeriods.length))

def shouldRunSnapshot (forceSnapshot : Bool) : Bool :=
  tracker.reaches tracker.numberOfPeriodsToSnapshotAfter forceSnapshot

/-- The marker of an in-order snapshot whose last period has the given maximum time. -/
def inOrderMarker (maxTime : Int) : Int :=
  maxTime - maxTime.tmod tracker.gen1Duration.asNanos

/-- The longest run of first periods that lie before the marker `t`. -/
def periodsBefore (t : Int) : List WalPeriod :=
  tracker.walPeriods.takeWhile fun period => decide (period.maxTime < t)

def snapshotInOrderWalPeriods : Option (SnapshotDetails × SnapshotTracker) := do
  let t := tracker.inOrderMarker (← tracker.walPeriods.getLast?).maxTime
  let first ← (tracker.periodsBefore t).head?
  let last ← (tracker.periodsBefore t).getLast?
  let number := tracker.lastSnapshotSequenceNumber + 1
  pure
    ({ snapshotSequenceNumber := number
       endTimeMarker := t
       firstWalSequenceNumber := first.walFileNumber
       lastWalSequenceNumber := last.walFileNumber
       forced := false },
     { tracker with
       lastSnapshotSequenceNumber := number
       walPeriods := tracker.walPeriods.filter fun period =>
         decide (last.walFileNumber < period.walFileNumber) })

def snapshotAll : Option (SnapshotDetails × SnapshotTracker) := do
  let maxTime ← (tracker.walPeriods.map (·.maxTime)).max?
  let t := maxTime - maxTime.tmod tracker.gen1Duration.asNanos + tracker.gen1Duration.asNanos
  let first ← tracker.walPeriods.head?
  let last ← tracker.walPeriods.getLast?
  let number := tracker.lastSnapshotSequenceNumber + 1
  pure
    ({ snapshotSequenceNumber := number
       endTimeMarker := t
       firstWalSequenceNumber := first.walFileNumber
       lastWalSequenceNumber := last.walFileNumber
       forced := true },
     { tracker with lastSnapshotSequenceNumber := number, walPeriods := [] })

/-- `none` when no snapshot is issued; the tracker is then unchanged. -/
def snapshot (forceSnapshot : Bool) : Option (SnapshotDetails × SnapshotTracker) :=
  if !tracker.shouldRunSnapshot forceSnapshot then none
  else if forceSnapshot || decide (3 * tracker.snapshotSize ≤ tracker.walPeriods.length) then
    tracker.snapshotAll
  else tracker.snapshotInOrderWalPeriods

/-- The periods come in the order of their file numbers, as `add_wal_period` asserts. -/
def InOrder : Prop :=
  tracker.walPeriods.Pairwise fun earlier later => earlier.walFileNumber < later.walFileNumber

/-- The in-order snapshots whose marker separates what it takes: the marker is after time zero,
or every period taken ends a whole gen1 duration before it. -/
def MarkerSeparates (forceSnapshot : Bool) : Prop :=
  forceSnapshot = true ∨ 3 * tracker.snapshotSize ≤ tracker.walPeriods.length ∨
    ∀ last ∈ tracker.walPeriods.getLast?,
      0 < tracker.inOrderMarker last.maxTime ∨
        ∀ period ∈ tracker.periodsBefore (tracker.inOrderMarker last.maxTime),
          period.maxTime ≤ tracker.inOrderMarker last.maxTime - tracker.gen1Duration.asNanos
deriving Decidable

/-- What a snapshot does when it is issued: it takes the next sequence number, covers the periods
up to its last WAL file, of which there is at least one, and keeps the periods after it. -/
structure Issues (details : SnapshotDetails) (next : SnapshotTracker) : Prop where
  number : details.snapshotSequenceNumber = tracker.lastSnapshotSequenceNumber + 1
  next_number : next.lastSnapshotSequenceNumber = details.snapshotSequenceNumber
  next_gen1Duration : next.gen1Duration = tracker.gen1Duration
  next_walPeriods : next.walPeriods = tracker.walPeriods.filter fun period =>
    decide (details.lastWalSequenceNumber < period.walFileNumber)
  last_mem : ∃ period ∈ tracker.walPeriods, period.walFileNumber = details.lastWalSequenceNumber

variable {tracker} {details : SnapshotDetails} {next : SnapshotTracker}

variable {period : WalPeriod}

private theorem le_last_of_inOrder {periods : List WalPeriod} {last : WalPeriod}
    (hordered : periods.Pairwise fun earlier later => earlier.walFileNumber < later.walFileNumber)
    (hlast : periods.getLast? = some last) (hperiod : period ∈ periods) :
    period.walFileNumber ≤ last.walFileNumber := by
  obtain ⟨front, rfl⟩ := getLast?_eq_some_iff.mp hlast
  rcases mem_concat.mp hperiod with hfront | hself
  · have hpairs := (pairwise_append.mp hordered).2.2 period hfront last (by simp)
    omega
  · rw [hself]

/-- In file order, the periods up to the last one before the marker are the ones before it. -/
private theorem mem_periodsBefore_of_le {t : Int} {last : WalPeriod}
    (hordered : tracker.InOrder) (hlast : (tracker.periodsBefore t).getLast? = some last)
    (hperiod : period ∈ tracker.walPeriods) (hle : period.walFileNumber ≤ last.walFileNumber) :
    period ∈ tracker.periodsBefore t := by
  have hsplit := takeWhile_append_dropWhile
    (p := fun period : WalPeriod => decide (period.maxTime < t)) (l := tracker.walPeriods)
  have hlastmem : last ∈ tracker.periodsBefore t := mem_of_getLast? hlast
  unfold InOrder at hordered
  rw [← hsplit] at hordered hperiod
  rcases mem_append.mp hperiod with hbefore | hafter
  · exact hbefore
  · have hlt := (pairwise_append.mp hordered).2.2 last hlastmem period hafter
    omega

theorem issues_of_snapshotInOrderWalPeriods
    (hsnapshot : tracker.snapshotInOrderWalPeriods = some (details, next)) :
    tracker.Issues details next ∧
      ∃ last ∈ tracker.walPeriods.getLast?,
        details.endTimeMarker = tracker.inOrderMarker last.maxTime ∧
        ∃ taken ∈ (tracker.periodsBefore details.endTimeMarker).getLast?,
          taken.walFileNumber = details.lastWalSequenceNumber := by
  simp only [snapshotInOrderWalPeriods, bind_eq_bind, Option.pure_def,
    bind_eq_some_iff, some.injEq, Prod.mk.injEq] at hsnapshot
  obtain ⟨last, hlast, _, _, taken, htaken, rfl, rfl⟩ := hsnapshot
  refine ⟨⟨rfl, rfl, rfl, rfl, taken, ?_, rfl⟩, last, hlast, rfl, taken, htaken, rfl⟩
  exact takeWhile_subset _ (mem_of_getLast? htaken)

theorem issues_of_snapshotAll (hordered : tracker.InOrder)
    (hsnapshot : tracker.snapshotAll = some (details, next)) :
    tracker.Issues details next ∧
      ∃ maxTime ∈ (tracker.walPeriods.map (·.maxTime)).max?,
        details.endTimeMarker =
          truncateTo tracker.gen1Duration.asNanos maxTime + tracker.gen1Duration.asNanos := by
  simp only [snapshotAll, bind_eq_bind, Option.pure_def, bind_eq_some_iff,
    some.injEq, Prod.mk.injEq] at hsnapshot
  obtain ⟨maxTime, hmax, _, _, last, hlast, rfl, rfl⟩ := hsnapshot
  refine ⟨⟨rfl, rfl, rfl, ?_, last, mem_of_getLast? hlast, rfl⟩, maxTime, hmax, rfl⟩
  symm
  rw [filter_eq_nil_iff]
  intro period hperiod
  simpa using le_last_of_inOrder hordered hlast hperiod

variable {forceSnapshot : Bool}

/-- Every issued snapshot is one of the two kinds, and takes the next number. -/
theorem issues_of_snapshot (hordered : tracker.InOrder)
    (hsnapshot : tracker.snapshot forceSnapshot = some (details, next)) :
    tracker.Issues details next := by
  unfold snapshot at hsnapshot
  split at hsnapshot
  · simp at hsnapshot
  · split at hsnapshot
    · exact (issues_of_snapshotAll hordered hsnapshot).1
    · exact (issues_of_snapshotInOrderWalPeriods hsnapshot).1

/-- The rounded end of every period a snapshot covers is before its marker. -/
theorem truncateTo_lt_endTimeMarker (hordered : tracker.InOrder)
    (hseparates : tracker.MarkerSeparates forceSnapshot)
    (hsnapshot : tracker.snapshot forceSnapshot = some (details, next))
    (hperiod : period ∈ tracker.walPeriods)
    (hcovered : period.walFileNumber ≤ details.lastWalSequenceNumber) :
    truncateTo tracker.gen1Duration.asNanos period.maxTime < details.endTimeMarker := by
  have hpos := tracker.gen1Duration.asNanos_pos
  unfold snapshot at hsnapshot
  split at hsnapshot
  · simp at hsnapshot
  split at hsnapshot
  case isTrue hall =>
    obtain ⟨_, maxTime, hmax, hmarker⟩ := issues_of_snapshotAll hordered hsnapshot
    have hle : period.maxTime ≤ maxTime :=
      (max?_eq_some_iff.mp hmax).2 _ (List.mem_map_of_mem hperiod)
    have hmono := truncateTo_mono hpos hle
    omega
  case isFalse hinorder =>
    obtain ⟨_, last, hlast, hmarker, taken, htaken, hnumber⟩ :=
      issues_of_snapshotInOrderWalPeriods hsnapshot
    have hbefore : period ∈ tracker.periodsBefore details.endTimeMarker :=
      mem_periodsBefore_of_le hordered htaken hperiod (by omega)
    have hlt : period.maxTime < details.endTimeMarker := by
      simpa using mem_takeWhile_imp hbefore
    simp only [Bool.or_eq_true, decide_eq_true_eq, not_or] at hinorder
    rw [hmarker] at hlt hbefore ⊢
    refine truncateTo_lt_truncateTo hpos hlt ?_
    rcases hseparates with hforce | hmany | hside
    · exact absurd hforce hinorder.1
    · exact absurd hmany hinorder.2
    · exact (hside last hlast).imp_right fun hfar => hfar period hbefore

theorem addWalPeriod_eq_some {added : SnapshotTracker}
    (hadded : tracker.addWalPeriod period = some added) :
    added = { tracker with
      lastWalSequenceNumber := period.walFileNumber
      walPeriods := tracker.walPeriods ++ [period] } := by
  unfold addWalPeriod at hadded
  split at hadded
  · exact (some.inj hadded).symm
  · cases hadded

section Kinds

variable {forceSnapshot : Bool}

/-- Which of the two kinds of snapshot was issued, and when each is. -/
theorem snapshot_eq_some (hsnapshot : tracker.snapshot forceSnapshot = some (details, next)) :
    (details.forced = true ∧ tracker.snapshotAll = some (details, next)) ∨
      (details.forced = false ∧ forceSnapshot = false ∧
        tracker.numberOfPeriodsToSnapshotAfter ≤ tracker.walPeriods.length ∧
        tracker.walPeriods.length < 3 * tracker.snapshotSize ∧
        tracker.snapshotInOrderWalPeriods = some (details, next)) := by
  unfold snapshot at hsnapshot
  split at hsnapshot
  · cases hsnapshot
  rename_i hrun
  split at hsnapshot
  · left
    refine ⟨?_, hsnapshot⟩
    simp only [snapshotAll, bind_eq_bind, Option.pure_def, bind_eq_some_iff,
      some.injEq, Prod.mk.injEq] at hsnapshot
    obtain ⟨_, _, _, _, _, _, rfl, _⟩ := hsnapshot
    rfl
  · rename_i hinorder
    right
    simp only [Bool.or_eq_true, decide_eq_true_eq, not_or, not_le] at hinorder
    simp only [shouldRunSnapshot, reaches, Bool.not_eq_true', Bool.not_eq_false,
      Bool.and_eq_true, Bool.or_eq_true, decide_eq_true_eq] at hrun
    have hforce : forceSnapshot = false := by simpa using hinorder.1
    refine ⟨?_, hforce, ?_, hinorder.2, hsnapshot⟩
    · simp only [snapshotInOrderWalPeriods, bind_eq_bind, Option.pure_def,
        bind_eq_some_iff, some.injEq, Prod.mk.injEq] at hsnapshot
      obtain ⟨_, _, _, _, _, _, rfl, _⟩ := hsnapshot
      rfl
    · exact hrun.2.resolve_left hinorder.1

theorem snapshot_keeps_config (hsnapshot : tracker.snapshot forceSnapshot = some (details, next)) :
    next.snapshotSize = tracker.snapshotSize ∧ next.gen1Duration = tracker.gen1Duration := by
  rcases snapshot_eq_some hsnapshot with ⟨-, hall⟩ | ⟨-, -, -, -, hinorder⟩
  · simp only [snapshotAll, bind_eq_bind, Option.pure_def, bind_eq_some_iff,
      some.injEq, Prod.mk.injEq] at hall
    obtain ⟨_, _, _, _, _, _, _, rfl⟩ := hall
    exact ⟨rfl, rfl⟩
  · simp only [snapshotInOrderWalPeriods, bind_eq_bind, Option.pure_def,
      bind_eq_some_iff, some.injEq, Prod.mk.injEq] at hinorder
    obtain ⟨_, _, _, _, _, _, _, rfl⟩ := hinorder
    exact ⟨rfl, rfl⟩

theorem snapshot_of_inOrder
    (hmany : tracker.numberOfPeriodsToSnapshotAfter ≤ tracker.walPeriods.length)
    (hfew : tracker.walPeriods.length < 3 * tracker.snapshotSize) :
    tracker.snapshot false = tracker.snapshotInOrderWalPeriods := by
  have hrun : tracker.shouldRunSnapshot false = true := by
    simp only [shouldRunSnapshot, reaches, Bool.false_or, Bool.and_eq_true, decide_eq_true_eq,
      Bool.not_eq_true', isEmpty_eq_false_iff]
    refine ⟨?_, hmany⟩
    rintro hnil
    simp only [hnil, length_nil, numberOfPeriodsToSnapshotAfter] at hmany hfew
    omega
  simp [snapshot, hrun, Nat.not_le.mpr hfew]

theorem snapshot_true (hperiods : tracker.walPeriods ≠ []) :
    tracker.snapshot true = tracker.snapshotAll := by
  simp [snapshot, shouldRunSnapshot, reaches, hperiods]

variable {last : WalPeriod}

/-- A snapshot of everything exists as soon as there is a period, and ends with the last one. -/
theorem exists_snapshotAll (hlast : tracker.walPeriods.getLast? = some last) :
    ∃ details next, tracker.snapshotAll = some (details, next) ∧
      details.lastWalSequenceNumber = last.walFileNumber := by
  have hperiods : tracker.walPeriods ≠ [] := by
    rintro hnil
    simp [hnil] at hlast
  obtain ⟨maxTime, hmax⟩ : ∃ maxTime, (tracker.walPeriods.map (·.maxTime)).max? = some maxTime := by
    rw [← isSome_iff_exists]
    simpa using hperiods
  have hhead := head?_eq_some_head hperiods
  simp [snapshotAll, hmax, hhead, hlast]

/-- No in-order snapshot is issued when the first period does not end before the marker. -/
theorem snapshotInOrderWalPeriods_eq_none {first : WalPeriod}
    (hfirst : tracker.walPeriods.head? = some first)
    (hlast : tracker.walPeriods.getLast? = some last)
    (hle : tracker.inOrderMarker last.maxTime ≤ first.maxTime) :
    tracker.snapshotInOrderWalPeriods = none := by
  obtain ⟨rest, hperiods⟩ := head?_eq_some_iff.mp hfirst
  have hnone : tracker.periodsBefore (tracker.inOrderMarker last.maxTime) = [] := by
    simp [periodsBefore, hperiods, not_lt.mpr hle]
  simp [snapshotInOrderWalPeriods, hlast, hnone]

theorem exists_snapshotInOrderWalPeriods {first : WalPeriod}
    (hfirst : tracker.walPeriods.head? = some first)
    (hlast : tracker.walPeriods.getLast? = some last)
    (hlt : first.maxTime < tracker.inOrderMarker last.maxTime) :
    ∃ details next, tracker.snapshotInOrderWalPeriods = some (details, next) := by
  obtain ⟨rest, hperiods⟩ := head?_eq_some_iff.mp hfirst
  have hbefore : tracker.periodsBefore (tracker.inOrderMarker last.maxTime) ≠ [] := by
    simp [periodsBefore, hperiods, hlt]
  simp [snapshotInOrderWalPeriods, hlast, head?_eq_some_head hbefore,
    getLast?_eq_some_getLast hbefore]

/-- In file order, the periods after the last one before the marker are those not before it. -/
theorem filter_eq_dropWhile {t : Int} (hordered : tracker.InOrder)
    (hlast : (tracker.periodsBefore t).getLast? = some last) :
    tracker.walPeriods.filter (fun period => decide (last.walFileNumber < period.walFileNumber)) =
      tracker.walPeriods.dropWhile fun period => decide (period.maxTime < t) := by
  have hsplit := takeWhile_append_dropWhile
    (p := fun period : WalPeriod => decide (period.maxTime < t)) (l := tracker.walPeriods)
  have hlastmem : last ∈ tracker.periodsBefore t := mem_of_getLast? hlast
  unfold InOrder at hordered
  rw [← hsplit] at hordered
  nth_rewrite 1 [← hsplit]
  rw [filter_append]
  obtain ⟨hbefore, -, hacross⟩ := pairwise_append.mp hordered
  have hnone : (tracker.walPeriods.takeWhile fun period => decide (period.maxTime < t)).filter
      (fun period => decide (last.walFileNumber < period.walFileNumber)) = [] := by
    rw [filter_eq_nil_iff]
    intro period hperiod
    simpa using le_last_of_inOrder hbefore hlast hperiod
  have hall : (tracker.walPeriods.dropWhile fun period => decide (period.maxTime < t)).filter
      (fun period => decide (last.walFileNumber < period.walFileNumber)) =
      tracker.walPeriods.dropWhile fun period => decide (period.maxTime < t) := by
    rw [filter_eq_self]
    intro period hperiod
    simpa using hacross last hlastmem period hperiod
  rw [hnone, hall, nil_append]

/-- The first period an in-order snapshot keeps does not end before its marker, and those it
takes do. -/
theorem inOrder_marker (hordered : tracker.InOrder)
    (hsnapshot : tracker.snapshotInOrderWalPeriods = some (details, next)) :
    (∀ period ∈ next.walPeriods.head?, details.endTimeMarker ≤ period.maxTime) ∧
      ∀ period ∈ tracker.walPeriods, period.walFileNumber ≤ details.lastWalSequenceNumber →
        period.maxTime < details.endTimeMarker := by
  obtain ⟨hissues, last, hlast, hmarker, taken, htaken, hnumber⟩ :=
    issues_of_snapshotInOrderWalPeriods hsnapshot
  constructor
  · intro period hperiod
    rw [hissues.next_walPeriods, ← hnumber, filter_eq_dropWhile hordered htaken] at hperiod
    have hnot := head?_dropWhile_not (fun period : WalPeriod =>
      decide (period.maxTime < details.endTimeMarker)) tracker.walPeriods
    rw [hperiod] at hnot
    simpa using hnot
  · intro period hperiod hle
    have hbefore := mem_periodsBefore_of_le hordered htaken hperiod (by omega)
    simpa using mem_takeWhile_imp hbefore

end Kinds

end SnapshotTracker

end RefluxDb.Wal
