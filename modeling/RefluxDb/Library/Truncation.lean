import Mathlib.Tactic.Linarith

/-! The range of a 64-bit integer, and rounding an integer to a multiple of a width with truncating
division.

The rounding is that of the machine's own division and remainder: toward zero, so down for
nonnegative numbers and up for negative ones. -/

namespace RefluxDb.Library

def i64Min : Int := -2 ^ 63

def i64Max : Int := 2 ^ 63 - 1

/-- The numbers that a 64-bit integer can hold. -/
def IsI64 (x : Int) : Prop := i64Min ≤ x ∧ x ≤ i64Max
deriving Decidable

/-- `x` without its truncated remainder. -/
def truncateTo (width x : Int) : Int := x - x.tmod width

variable {width x y : Int}

theorem truncateTo_eq_mul (width x : Int) : truncateTo width x = width * x.tdiv width := by
  have := Int.mul_tdiv_add_tmod x width
  unfold truncateTo
  omega

theorem truncateTo_mono (hwidth : 0 < width) (hle : x ≤ y) :
    truncateTo width x ≤ truncateTo width y := by
  rw [truncateTo_eq_mul, truncateTo_eq_mul]
  exact Int.mul_le_mul_of_nonneg_left (Int.tdiv_le_tdiv hwidth hle) hwidth.le

theorem truncateTo_le_self (hx : 0 ≤ x) : truncateTo width x ≤ x := by
  have := Int.tmod_nonneg width hx
  unfold truncateTo
  omega

theorem truncateTo_zero (width : Int) : truncateTo width 0 = 0 := by
  simp [truncateTo]

section

variable (hwidth : 0 < width)
include hwidth

theorem truncateTo_nonpos (hx : x ≤ 0) : truncateTo width x ≤ 0 := by
  simpa [truncateTo_zero] using truncateTo_mono hwidth hx

theorem truncateTo_truncateTo_sub (x : Int) :
    truncateTo width (truncateTo width x - width) = truncateTo width x - width := by
  have hmultiple : truncateTo width x - width = width * (x.tdiv width - 1) := by
    rw [truncateTo_eq_mul, mul_sub, mul_one]
  rw [hmultiple, truncateTo_eq_mul, Int.mul_tdiv_cancel_left _ hwidth.ne']

/-- A number below a rounded one rounds to something below it when the rounded one is positive,
or when the number is a whole width below it. -/
theorem truncateTo_lt_truncateTo (hlt : x < truncateTo width y)
    (hside : 0 < truncateTo width y ∨ x ≤ truncateTo width y - width) :
    truncateTo width x < truncateTo width y := by
  rcases hside with hpos | hfar
  · rcases le_total 0 x with hx | hx
    · exact (truncateTo_le_self hx).trans_lt hlt
    · exact (truncateTo_nonpos hwidth hx).trans_lt hpos
  · have hle := truncateTo_mono hwidth hfar
    rw [truncateTo_truncateTo_sub hwidth] at hle
    omega

theorem truncateTo_truncateTo (x : Int) :
    truncateTo width (truncateTo width x) = truncateTo width x := by
  rw [truncateTo_eq_mul width x, truncateTo_eq_mul, Int.mul_tdiv_cancel_left _ hwidth.ne']

/-- Rounding brings a number closer to zero. -/
theorem truncateTo_between (x : Int) :
    (0 ≤ truncateTo width x ∧ truncateTo width x ≤ x) ∨
      (x ≤ truncateTo width x ∧ truncateTo width x ≤ 0) := by
  rcases le_total 0 x with hx | hx
  · have hmono := truncateTo_mono hwidth hx
    rw [truncateTo_zero] at hmono
    exact .inl ⟨hmono, truncateTo_le_self hx⟩
  · have hrem : x.tmod width ≤ 0 := by
      have hopposite := Int.tmod_nonneg width (Int.neg_nonneg.mpr hx)
      rw [Int.neg_tmod] at hopposite
      omega
    refine .inr ⟨?_, truncateTo_nonpos hwidth hx⟩
    unfold truncateTo
    omega

/-- There is room for a whole width above a rounded number just when the number is below the
rounded limit. -/
theorem truncateTo_add_le_iff {top : Int} (htop : width ≤ top) :
    truncateTo width x + width ≤ top ↔ x < truncateTo width top := by
  constructor
  · intro hroom
    by_contra hge
    have hmono := truncateTo_mono hwidth (not_lt.mp hge)
    rw [truncateTo_truncateTo hwidth] at hmono
    have hrem : top.tmod width < width := Int.tmod_lt_of_pos _ hwidth
    have hdef : truncateTo width top = top - top.tmod width := rfl
    omega
  · intro hlt
    have hpos : 0 < truncateTo width top := by
      have hmono := truncateTo_mono hwidth htop
      rw [truncateTo_eq_mul width width, Int.tdiv_self hwidth.ne'] at hmono
      omega
    have hstrict := truncateTo_lt_truncateTo hwidth hlt (.inl hpos)
    rw [truncateTo_eq_mul, truncateTo_eq_mul] at hstrict
    have hquot : x.tdiv width + 1 ≤ top.tdiv width :=
      Int.lt_of_mul_lt_mul_left hstrict hwidth.le
    calc truncateTo width x + width = width * (x.tdiv width + 1) := by
          rw [truncateTo_eq_mul, mul_add, mul_one]
      _ ≤ width * top.tdiv width := Int.mul_le_mul_of_nonneg_left hquot hwidth.le
      _ = truncateTo width top := (truncateTo_eq_mul _ _).symm
      _ ≤ top := truncateTo_le_self (hwidth.le.trans htop)

end

end RefluxDb.Library
