import Mathlib.Algebra.Order.Ring.Nat

/-! Triggers that run periodically.

Times are nanoseconds since the epoch. The first trigger time is computed in whole milliseconds, the
others from it with the whole duration. -/

namespace RefluxDb.Processing

/-- The duration of a year as durations are parsed. -/
def year : Nat := 31557600 * 1000000000

/-- The end of the times that have a date. -/
def endOfTime : Nat := 8210266876800000 * 1000000

/-- An accepted specification. A runner compares with the same bound again. -/
structure Every where
  duration : Nat
  accepted : duration ≤ year

namespace Every

variable (every : Every) (now : Nat)

def durationMillis : Nat := every.duration / 1000000

/-- Durations from the epoch to the first trigger, as counted in milliseconds. -/
def periods : Nat := now / 1000000 / every.durationMillis + 1

def nextTriggerTime : Nat := every.periods now * every.durationMillis * 1000000

/-- `none` is a panic. The product fits the machine's integers. -/
def newEvery : Option Nat :=
  if every.durationMillis = 0 then none
  else if every.nextTriggerTime now < endOfTime then some (every.nextTriggerTime now)
  else none

def advanceTime (time : Nat) : Option Nat :=
  if time + every.duration < endOfTime then some (time + every.duration) else none

/-- The trigger time after so many advances. -/
def triggerTime : Nat → Option Nat
  | 0 => every.newEvery now
  | count + 1 => (triggerTime count).bind every.advanceTime

/-- What a schedule is for, over so many advances. -/
structure Exact (count : Nat) : Prop where
  first : ∃ time, every.triggerTime now 0 = some time ∧ now < time ∧ time ≤ now + every.duration
  multiple : ∀ k ≤ count, ∃ time, every.triggerTime now k = some time ∧ every.duration ∣ time
  step : ∀ k < count, ∃ time, every.triggerTime now k = some time ∧
    every.triggerTime now (k + 1) = some (time + every.duration)

theorem durationMillis_eq_zero : every.durationMillis = 0 ↔ ¬1000000 ≤ every.duration := by
  unfold durationMillis
  omega

theorem triggerTime_eq (count : Nat) : every.triggerTime now count =
    if 1000000 ≤ every.duration ∧ every.nextTriggerTime now + count * every.duration < endOfTime
    then some (every.nextTriggerTime now + count * every.duration) else none := by
  induction count with
  | zero =>
    by_cases hlong : 1000000 ≤ every.duration
    · simp [triggerTime, newEvery, durationMillis_eq_zero, hlong]
    · simp [triggerTime, newEvery, durationMillis_eq_zero, hlong]
  | succ count ih =>
    rw [triggerTime, ih, Nat.succ_mul, ← Nat.add_assoc]
    by_cases hlong : 1000000 ≤ every.duration ∧
      every.nextTriggerTime now + count * every.duration < endOfTime
    · rw [if_pos hlong, Option.bind_some, advanceTime]
      simp only [hlong.1, true_and]
    · rw [if_neg hlong, if_neg (by omega)]
      rfl

/-- The first time is later than now, by a duration at most. -/
theorem nextTriggerTime_bounds (hlong : 1000000 ≤ every.duration) :
    now < every.nextTriggerTime now ∧ every.nextTriggerTime now ≤ now + every.duration := by
  have hmod := Nat.mod_lt (now / 1000000) (Nat.pos_of_ne_zero
    (mt every.durationMillis_eq_zero.mp (not_not_intro hlong)))
  have hnow := Nat.div_add_mod' (now / 1000000) every.durationMillis
  have hmillis : every.durationMillis * 1000000 ≤ every.duration := Nat.div_mul_le_self _ _
  rw [nextTriggerTime, periods, Nat.succ_mul]
  omega

/-- The first time is a multiple of the duration if what the milliseconds leave out of it adds
up to such a multiple. -/
theorem dvd_nextTriggerTime_iff : every.duration ∣ every.nextTriggerTime now ↔
    every.duration ∣ every.periods now * (every.duration % 1000000) := by
  have hsum : every.nextTriggerTime now + every.periods now * (every.duration % 1000000) =
      every.periods now * every.duration := by
    rw [nextTriggerTime, Nat.mul_assoc, ← Nat.mul_add, durationMillis, Nat.div_add_mod']
  have htotal := Nat.dvd_mul_left every.duration (every.periods now)
  rw [← hsum] at htotal
  exact ⟨fun h => (Nat.dvd_add_right h).mp htotal, fun h => (Nat.dvd_add_left h).mp htotal⟩

/-- A schedule is exact if and only if its duration has a millisecond, what the milliseconds leave
out of it adds up to whole durations, and the last trigger has a date. -/
theorem exact_iff (count : Nat) : every.Exact now count ↔
    1000000 ≤ every.duration ∧
      every.duration ∣
        (now / 1000000 / (every.duration / 1000000) + 1) * (every.duration % 1000000) ∧
      (now / 1000000 / (every.duration / 1000000) + 1) * (every.duration / 1000000) * 1000000 +
        count * every.duration < endOfTime := by
  rw [← durationMillis, ← periods, ← nextTriggerTime, ← dvd_nextTriggerTime_iff]
  constructor
  · intro hexact
    obtain ⟨last, hlast, -⟩ := hexact.multiple count le_rfl
    obtain ⟨first, hfirst, hdvd⟩ := hexact.multiple 0 count.zero_le
    rw [triggerTime_eq, Option.ite_none_right_eq_some] at hfirst hlast
    obtain rfl := Option.some.inj hfirst.2
    exact ⟨hlast.1.1, by simpa using hdvd, hlast.1.2⟩
  · rintro ⟨hlong, hdvd, hend⟩
    have htime (k : Nat) (hk : k ≤ count) :
        every.triggerTime now k = some (every.nextTriggerTime now + k * every.duration) := by
      have hle := Nat.mul_le_mul_right every.duration hk
      rw [triggerTime_eq, if_pos ⟨hlong, by omega⟩]
    refine ⟨⟨_, htime 0 count.zero_le, ?_⟩, fun k hk => ⟨_, htime k hk, ?_⟩, fun k hk =>
      ⟨_, htime k hk.le, ?_⟩⟩
    · simpa using every.nextTriggerTime_bounds now hlong
    · exact Nat.dvd_add hdvd (Nat.dvd_mul_left _ _)
    · rw [htime (k + 1) hk, Nat.succ_mul, Nat.add_assoc]

/-- A duration below a millisecond panics. -/
theorem submillisecond_not_exact : ¬(Every.mk 1000 (by decide)).Exact 0 0 := by
  rintro ⟨⟨_, hfirst, _⟩, _⟩
  cases hfirst

end Every

end RefluxDb.Processing
