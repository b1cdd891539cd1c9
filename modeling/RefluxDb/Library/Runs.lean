import Mathlib.Data.List.SplitBy

/-! The runs of equal keys in a list.

A list splits into maximal runs of neighbours with one key. What follows a list can only extend its
last run, so the runs can be computed piece by piece, carrying the last run over. In a sorted list
each key has one run, which holds all items of the key. -/

namespace RefluxDb.Library

open List

variable {α K : Type*} [DecidableEq K] {key : α → K} {l rest run : List α} {a b : α}

/-- The maximal runs of neighbours with equal keys. -/
def runs (key : α → K) (l : List α) : List (List α) := l.splitBy fun a b => key a == key b

theorem runs_congr {K' : Type*} [DecidableEq K'] {key' : α → K'}
    (hkey : ∀ a b, key a = key b ↔ key' a = key' b) (l : List α) : runs key l = runs key' l := by
  unfold runs
  congr 1
  funext a b
  rw [Bool.eq_iff_iff, beq_iff_eq, beq_iff_eq, hkey]

theorem flatten_runs (key : α → K) (l : List α) : (runs key l).flatten = l :=
  flatten_splitBy _ _

theorem ne_nil_of_mem_runs (hrun : run ∈ runs key l) : run ≠ [] := ne_nil_of_mem_splitBy hrun

theorem subset_of_mem_runs (hrun : run ∈ runs key l) : run ⊆ l := by
  intro a ha
  rw [← flatten_runs key l]
  exact mem_flatten.mpr ⟨run, hrun, ha⟩

theorem key_eq_of_mem_runs (hrun : run ∈ runs key l) (ha : a ∈ run) (hb : b ∈ run) :
    key a = key b := by
  have hchain : run.IsChain fun a b => key a = key b := by
    simpa using isChain_of_mem_splitBy hrun
  have hpairwise : (run.map key).Pairwise (· = ·) :=
    isChain_iff_pairwise.mp ((isChain_map key).mpr hchain)
  exact hpairwise.forall_of_forall (fun _ _ => rfl) (mem_map_of_mem ha)
    (mem_map_of_mem hb)

theorem runs_eq_singleton (hne : l ≠ []) (hsame : ∀ a ∈ l, ∀ b ∈ l, key a = key b) :
    runs key l = [l] := by
  refine splitBy_of_isChain hne (List.Pairwise.isChain ?_)
  refine pairwise_of_forall_mem_list ?_
  intro a ha b hb
  simpa using hsame a ha b hb

theorem runs_append (hapart : ∀ a ∈ l.getLast?, ∀ b ∈ rest.head?, key a ≠ key b) :
    runs key (l ++ rest) = runs key l ++ runs key rest := by
  refine splitBy_append ?_
  intro a ha b hb
  simpa using hapart a ha b hb

/-- What follows a list extends its last run at most. -/
theorem runs_append_of_runs {front : List (List α)} (hruns : runs key l = front ++ [run]) :
    runs key (l ++ rest) = front ++ runs key (run ++ rest) := by
  have hchain := isChain_getLast_head_splitBy (fun a b => key a == key b) l
  rw [show l.splitBy (fun a b => key a == key b) = front ++ [run] from hruns,
    isChain_append] at hchain
  have hmem : ∀ g ∈ front, g ∈ runs key l := fun g hg => hruns ▸ mem_append_left _ hg
  have hrun : run ∈ runs key l := by simp [hruns]
  have hrunne : run ≠ [] := ne_nil_of_mem_runs hrun
  have hfront : runs key front.flatten = front :=
    splitBy_flatten (fun hnil => ne_nil_of_mem_runs (hmem [] hnil) rfl)
      (fun g hg => isChain_of_mem_splitBy (hmem g hg)) hchain.1
  have hl : l = front.flatten ++ run := by
    rw [← flatten_runs key l, hruns]
    simp
  rw [hl, append_assoc, runs_append, hfront]
  intro a ha b hb
  rcases eq_nil_or_concat front with rfl | ⟨before, last, rfl⟩
  · simp at ha
  · obtain ⟨hlast, _, hdiffer⟩ := hchain.2.2 last (by simp) run (by simp)
    have hlastEq : a = last.getLast hlast := by
      rw [concat_eq_append, flatten_append, flatten_singleton,
        getLast?_append_of_ne_nil _ hlast, getLast?_eq_some_getLast hlast] at ha
      exact (Option.mem_some_iff.mp ha).symm
    have hheadEq : b = run.head hrunne := by
      rw [head?_append_of_ne_nil _ hrunne, head?_eq_some_head hrunne] at hb
      exact (Option.mem_some_iff.mp hb).symm
    rw [hlastEq, hheadEq]
    simpa using hdiffer

section Sorted

variable {r : α → α → Prop}

/-- In a sorted list the runs have ascending, different keys. -/
theorem pairwise_runs (htrans : ∀ a b c, r a b → r b c → r a c)
    (hanti : ∀ a b, r a b → r b a → key a = key b) (hrefl : ∀ a b, key a = key b → r a b)
    (hsorted : l.Pairwise r) :
    (runs key l).Pairwise fun run later => ∀ a ∈ run, ∀ b ∈ later, r a b ∧ key a ≠ key b := by
  have hbetween : (runs key l).Pairwise fun run later => ∀ a ∈ run, ∀ b ∈ later, r a b := by
    rw [← flatten_runs key l] at hsorted
    exact (pairwise_flatten.mp hsorted).2
  have hsame : ∀ run ∈ runs key l, run ≠ [] ∧ ∀ a ∈ run, ∀ b ∈ run, key a = key b :=
    fun run hrun => ⟨ne_nil_of_mem_runs hrun, fun a ha b hb => key_eq_of_mem_runs hrun ha hb⟩
  have hchain : (runs key l).IsChain fun run later =>
      ∃ a ∈ run, ∃ b ∈ later, key a ≠ key b := by
    refine (isChain_getLast_head_splitBy _ l).imp ?_
    rintro run later ⟨hrun, hlater, hdiffer⟩
    exact ⟨_, getLast_mem hrun, _, head_mem hlater, by simpa using hdiffer⟩
  generalize runs key l = groups at hbetween hsame hchain
  induction groups with
  | nil => exact .nil
  | cons run groups ih =>
    rw [pairwise_cons] at hbetween
    have htail := ih hbetween.2 (fun g hg => hsame g (mem_cons_of_mem run hg)) hchain.tail
    refine pairwise_cons.mpr ⟨?_, htail⟩
    intro later hlater a ha b hb
    refine ⟨hbetween.1 later hlater a ha b hb, ?_⟩
    cases groups with
    | nil => simp at hlater
    | cons next groups =>
      obtain ⟨c, hc, d, hd, hne⟩ := isChain_cons_cons.mp hchain |>.1
      have hnext : ∀ e ∈ next, key a ≠ key e := by
        intro e he hkey
        rw [(hsame run (by simp)).2 a ha c hc,
          (hsame next (by simp)).2 e he d hd] at hkey
        exact hne hkey
      rcases mem_cons.mp hlater with rfl | hlater'
      · exact hnext b hb
      · intro hkey
        have hdb := (rel_of_pairwise_cons htail hlater' d hd b hb).1
        have hda := htrans d b a hdb (hrefl b a hkey.symm)
        exact hnext d hd (hanti a d (hbetween.1 next (by simp) a ha d hd) hda)

/-- In a sorted list a run holds all items of its key, in their order. -/
theorem filter_eq_of_mem_runs (htrans : ∀ a b c, r a b → r b c → r a c)
    (hanti : ∀ a b, r a b → r b a → key a = key b) (hrefl : ∀ a b, key a = key b → r a b)
    (hsorted : l.Pairwise r) (hrun : run ∈ runs key l) (ha : a ∈ run) :
    l.filter (fun b => key b = key a) = run := by
  have hpairwise := pairwise_runs htrans hanti hrefl hsorted
  obtain ⟨before, after, hsplit⟩ := append_of_mem hrun
  have hl : l = before.flatten ++ (run ++ after.flatten) := by
    rw [← flatten_runs key l, hsplit]
    simp
  rw [hsplit, pairwise_append, pairwise_cons] at hpairwise
  obtain ⟨_, ⟨hafter, _⟩, hbefore⟩ := hpairwise
  have hnone : before.flatten.filter (fun b => key b = key a) = [] := by
    rw [filter_eq_nil_iff]
    intro b hb
    obtain ⟨g, hg, hbg⟩ := mem_flatten.mp hb
    simpa using (hbefore g hg run (by simp) b hbg a ha).2
  have hnone' : after.flatten.filter (fun b => key b = key a) = [] := by
    rw [filter_eq_nil_iff]
    intro b hb
    obtain ⟨g, hg, hbg⟩ := mem_flatten.mp hb
    simpa using (hafter g hg a ha b hbg).2.symm
  have hall : run.filter (fun b => key b = key a) = run := by
    rw [filter_eq_self]
    intro b hb
    simpa using key_eq_of_mem_runs hrun hb ha
  rw [hl, filter_append, filter_append, hnone, hnone', hall]
  simp

end Sorted

end RefluxDb.Library
