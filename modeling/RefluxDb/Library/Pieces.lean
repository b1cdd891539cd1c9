import Mathlib.Data.List.Basic
import RefluxDb.Library.Text

/-! Text as pieces between separators, and what a search for a separator and a mark finds.

A search for a separator followed by a mark in joined pieces stops at the first later piece that
begins with the mark, whatever the pieces are. -/

namespace RefluxDb.Library.Text

open List

variable {sep : Char} {mark piece text : List Char} {front later : List (List Char)}

/-- The nonempty pieces between separators. -/
def pieces (sep : Char) (text : List Char) : List (List Char) :=
  (text.splitOn sep).filter fun piece => !piece.isEmpty

/-- The pieces with a separator before each but the first. -/
def joined (sep : Char) : List (List Char) → List Char
  | [] => []
  | first :: later => first ++ later.flatMap (sep :: ·)

theorem pieces_append (before after : List Char) :
    pieces sep (before ++ sep :: after) = pieces sep before ++ pieces sep after := by
  unfold pieces
  rw [splitOn_append_cons_self, filter_append]

theorem pieces_of_notMem (hpiece : sep ∉ piece) (hnonempty : piece ≠ []) :
    pieces sep piece = [piece] := by
  unfold pieces
  rw [splitOn_eq_singleton hpiece]
  simp [hnonempty]

@[simp] theorem pieces_nil : pieces sep [] = [] := by
  simp [pieces]

theorem notMem_of_mem_pieces (hpiece : piece ∈ pieces sep text) : sep ∉ piece := by
  -- The longest front without the separator is one piece; the rest is a shorter text.
  induction hlength : text.length using Nat.strong_induction_on generalizing text with
  | _ length ih =>
    by_cases hmem : sep ∈ text
    · obtain ⟨before, after, rfl⟩ := append_of_mem hmem
      rw [pieces_append, mem_append] at hpiece
      rw [length_append, length_cons] at hlength
      rcases hpiece with hbefore | hafter
      · exact ih before.length (by omega) hbefore rfl
      · exact ih after.length (by omega) hafter rfl
    · by_cases hempty : text = []
      · simp [hempty] at hpiece
      · rw [pieces_of_notMem hmem hempty, mem_singleton] at hpiece
        rwa [hpiece]

theorem ne_nil_of_mem_pieces (hpiece : piece ∈ pieces sep text) : piece ≠ [] := by
  simpa using (mem_filter.mp hpiece).2

/-- A piece without separators is passed over. -/
theorem afterFirst_append (hpiece : sep ∉ piece) :
    afterFirst (sep :: mark) (piece ++ text) = afterFirst (sep :: mark) text := by
  induction piece with
  | nil => rfl
  | cons c piece ih =>
    simp only [mem_cons, not_or] at hpiece
    have hhead : (sep :: mark).isPrefixOf (c :: (piece ++ text)) = false := by
      simp [List.isPrefixOf, hpiece.1]
    rw [cons_append, afterFirst, hhead, if_neg Bool.false_ne_true, ih hpiece.2]

/-- A mark without separators at the front of joined text is at the front of its first piece. -/
theorem prefix_append_flatMap (hmark : sep ∉ mark) :
    mark <+: piece ++ later.flatMap (sep :: ·) ↔ mark <+: piece := by
  constructor
  · intro hfront
    cases later with
    | nil => simpa using hfront
    | cons next later =>
      refine prefix_of_prefix_length_le hfront (prefix_append _ _) ?_
      by_contra hlonger
      -- A longer mark would reach the separator after the piece.
      have hwhole : piece ++ [sep] <+: piece ++ (next :: later).flatMap (sep :: ·) := by
        simp
      have hreach : piece ++ [sep] <+: mark := by
        refine prefix_of_prefix_length_le hwhole hfront ?_
        rw [length_append, length_singleton]
        omega
      exact hmark (hreach.subset (by simp))
  · intro hfront
    exact hfront.trans (prefix_append _ _)

/-- Pieces that do not begin with the mark are passed over. -/
theorem afterFirst_flatMap_append (hmark : sep ∉ mark)
    (hfront : ∀ piece ∈ front, sep ∉ piece ∧ ¬mark <+: piece) :
    afterFirst (sep :: mark) ((front ++ later).flatMap (sep :: ·)) =
      afterFirst (sep :: mark) (later.flatMap (sep :: ·)) := by
  induction front with
  | nil => rfl
  | cons piece front ih =>
    obtain ⟨⟨hpiece, hother⟩, hrest⟩ := forall_mem_cons.mp hfront
    have hhead : (sep :: mark).isPrefixOf
        (sep :: (piece ++ (front ++ later).flatMap (sep :: ·))) = false := by
      rw [Bool.eq_false_iff, ne_eq, isPrefixOf_iff_prefix, cons_prefix_cons,
        prefix_append_flatMap hmark]
      exact fun hfront => hother hfront.2
    rw [cons_append, flatMap_cons, cons_append, afterFirst, hhead,
      if_neg Bool.false_ne_true, afterFirst_append hpiece, ih hrest]

/-- The search stops at the first piece that begins with the mark. -/
theorem afterFirst_flatMap_cons (hpiece : mark <+: piece) :
    afterFirst (sep :: mark) ((piece :: later).flatMap (sep :: ·)) =
      some (piece.drop mark.length ++ later.flatMap (sep :: ·)) := by
  have hhead : (sep :: mark).isPrefixOf (sep :: (piece ++ later.flatMap (sep :: ·))) = true := by
    rw [List.isPrefixOf_iff_prefix, cons_prefix_cons]
    exact ⟨rfl, hpiece.trans (prefix_append _ _)⟩
  rw [flatMap_cons, cons_append, afterFirst, hhead, if_pos rfl, length_cons,
    drop_succ_cons, drop_append_of_le_length hpiece.length_le]

/-- A byte numeral is digits after an optional plus sign. -/
theorem parseU8_eq_none_of_mem {c : Char} (hc : c ∈ text) (hdigit : c.isDigit = false)
    (hplus : c ≠ '+') : parseU8 text = none := by
  have hnotdigits : ∀ digits : List Char, c ∈ digits → allDigits digits = false := by
    intro digits hmem
    simp only [allDigits, Bool.and_eq_false_iff, all_eq_false]
    exact .inr ⟨c, hmem, by simp [hdigit]⟩
  unfold parseU8
  split
  · next rest =>
    have hrest : c ∈ rest := (mem_cons.mp hc).resolve_left hplus
    simp [hnotdigits rest hrest]
  · simp [hnotdigits text hc]

theorem parseU8_padded {width n : Nat} (hn : n < 2 ^ 8) : parseU8 (padded width n) = some n := by
  unfold parseU8
  split
  · next rest heq =>
    have hplus : '+' ∈ padded width n := by simp [heq]
    exact absurd hplus (notMem_padded (by decide))
  · simpa [allDigits_padded, ofDigitChars_padded] using hn

end RefluxDb.Library.Text
