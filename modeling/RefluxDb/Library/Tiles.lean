import Mathlib.Data.List.Basic

/-! Lists cut into pieces of one length. -/

namespace RefluxDb.Library

open List

variable {α : Type*} (items : List α) (first step : Nat)

/-- The offsets from the first one on, step by step. -/
def offsets (stop : Nat) : List Nat :=
  range' first ((stop - first + step - 1) / step) step

def tiles : List (List α) :=
  (offsets first step items.length).map fun offset => (items.take (offset + step)).drop offset

theorem flatten_map_range' (count : Nat) :
    ((range' first count step).map fun offset => (items.take (offset + step)).drop offset).flatten =
      (items.take (first + count * step)).drop first := by
  induction count generalizing first with
  | zero => simp
  | succ count ih =>
    have hlonger : first + step ≤ first + step + count * step := Nat.le_add_right _ _
    have hsplit := take_append_drop step (drop first (take (first + step + count * step) items))
    rw [take_drop, take_take, drop_drop, Nat.min_eq_left hlonger] at hsplit
    rw [range'_succ, map_cons, flatten_cons, ih, hsplit, Nat.succ_mul, Nat.add_comm (count * step),
      Nat.add_assoc]

theorem flatten_tiles (hstep : 0 < step) : (tiles items first step).flatten = items.drop first := by
  rw [tiles, offsets, flatten_map_range', take_of_length_le]
  have hcount := Nat.lt_mul_div_succ (items.length - first + step - 1) hstep
  rw [Nat.mul_succ, Nat.mul_comm] at hcount
  omega

end RefluxDb.Library
