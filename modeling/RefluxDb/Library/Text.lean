import Mathlib.Data.List.TakeWhile
import Mathlib.Data.Nat.Digits.Defs

/-! Cutting text at separators, as lists of characters.

The pieces before the first separator, after the last one and on both sides of the first one,
and decimal numerals padded with zeros. -/

namespace RefluxDb.Library.Text

open List

variable {sep : Char} {front piece rest : List Char}

def firstPiece (sep : Char) (text : List Char) : List Char :=
  text.takeWhile fun c => c != sep

def lastPiece (sep : Char) (text : List Char) : List Char :=
  (text.reverse.takeWhile fun c => c != sep).reverse

/-- The text on both sides of the first separator, if there is one. -/
def splitOnce (sep : Char) (text : List Char) : Option (List Char × List Char) :=
  match text.dropWhile fun c => c != sep with
  | [] => none
  | _ :: after => some (firstPiece sep text, after)

def stripSuffix (suffix text : List Char) : Option (List Char) :=
  if suffix.isSuffixOf text then some (text.take (text.length - suffix.length)) else none

/-- A nonempty text of decimal digits. -/
def allDigits (text : List Char) : Bool :=
  !text.isEmpty && text.all Char.isDigit

/-- The text after the first occurrence of a pattern. -/
def afterFirst (pattern : List Char) : List Char → Option (List Char)
  | [] => if pattern.isEmpty then some [] else none
  | c :: text =>
    if pattern.isPrefixOf (c :: text) then some ((c :: text).drop pattern.length)
    else afterFirst pattern text

/-- An unsigned byte as a decimal numeral, with an optional plus sign. -/
def parseU8 (text : List Char) : Option Nat :=
  let digits := match text with
    | '+' :: rest => rest
    | _ => text
  if allDigits digits && decide (Nat.ofDigitChars 10 digits 0 < 2 ^ 8) then
    some (Nat.ofDigitChars 10 digits 0)
  else none

/-- A decimal numeral with at least `width` digits. -/
def padded (width n : Nat) : List Char :=
  List.replicate (width - (Nat.toDigits 10 n).length) '0' ++ Nat.toDigits 10 n

section

variable (hpiece : sep ∉ piece)
include hpiece

private theorem takeWhile_piece :
    (piece ++ sep :: rest).takeWhile (fun c => c != sep) = piece := by
  rw [takeWhile_append_of_pos]
  · simp
  · intro c hc
    simp only [bne_iff_ne]
    rintro rfl
    exact hpiece hc

theorem firstPiece_append :
    firstPiece sep (piece ++ sep :: rest) = piece :=
  takeWhile_piece hpiece

theorem lastPiece_append :
    lastPiece sep (front ++ sep :: piece) = piece := by
  unfold lastPiece
  rw [reverse_append, reverse_cons, append_assoc, singleton_append,
    takeWhile_piece (by simpa using hpiece), reverse_reverse]

theorem splitOnce_append :
    splitOnce sep (piece ++ sep :: rest) = some (piece, rest) := by
  have hdrop : (piece ++ sep :: rest).dropWhile (fun c => c != sep) = sep :: rest := by
    have hsplit := takeWhile_append_dropWhile
      (p := fun c => c != sep) (l := piece ++ sep :: rest)
    rw [takeWhile_piece hpiece] at hsplit
    exact append_cancel_left hsplit
  simp only [splitOnce, hdrop, firstPiece_append hpiece]

theorem splitOnce_of_notMem : splitOnce sep piece = none := by
  have hdrop : piece.dropWhile (fun c => c != sep) = [] := by
    rw [dropWhile_eq_nil_iff]
    intro c hc
    simp only [bne_iff_ne]
    rintro rfl
    exact hpiece hc
  simp only [splitOnce, hdrop]

end

theorem stripSuffix_append (suffix : List Char) :
    stripSuffix suffix (front ++ suffix) = some front := by
  have hsuffix : suffix.isSuffixOf (front ++ suffix) = true := by simp
  rw [stripSuffix, if_pos hsuffix, length_append, Nat.add_sub_cancel,
    take_left]

theorem isDigit_of_mem_padded {width n : Nat} {c : Char} (hc : c ∈ padded width n) :
    c.isDigit = true := by
  rcases mem_append.mp hc with hzero | hdigit
  · rw [eq_of_mem_replicate hzero]
    decide
  · exact Nat.isDigit_of_mem_toDigits (by decide) (by decide) hdigit

theorem allDigits_padded (width n : Nat) : allDigits (padded width n) = true := by
  have hne : padded width n ≠ [] := by
    simp [padded, Nat.toDigits_ne_nil]
  simp only [allDigits, Bool.and_eq_true, Bool.not_eq_true', isEmpty_eq_false_iff,
    all_eq_true]
  exact ⟨hne, fun c hc => isDigit_of_mem_padded hc⟩

theorem notMem_padded {width n : Nat} (hsep : sep.isDigit = false) : sep ∉ padded width n := by
  intro hmem
  rw [isDigit_of_mem_padded hmem] at hsep
  exact Bool.noConfusion hsep

theorem ofDigitChars_padded (width n : Nat) : Nat.ofDigitChars 10 (padded width n) 0 = n := by
  rw [padded, Nat.ofDigitChars_append, Nat.ofDigitChars_replicate_zero, Nat.mul_zero,
    Nat.ofDigitChars_toDigits (by decide) (by decide)]

end RefluxDb.Library.Text
