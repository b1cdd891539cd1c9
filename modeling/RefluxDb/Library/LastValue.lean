import Mathlib.Data.List.Sort

/-! The last value in a list, and who holds it after a stable sort.

Where several items may hold a value for one key, the one that comes last in some order of the
items wins. When that order is a stable sort of a list, the winner is described by the sort's
relation and, among items the relation does not tell apart, by their places in the list. -/

namespace RefluxDb.Library

open List

variable {α V : Type*} {l : List α} {a b c : α}

/-- `a` comes before `b` in the list. -/
def Precedes (l : List α) (a b : α) : Prop := [a, b].Sublist l

theorem Precedes.mem_right (hab : Precedes l a b) : b ∈ l := hab.subset (by simp)

theorem precedes_cons_iff : Precedes (c :: l) a b ↔ Precedes l a b ∨ a = c ∧ b ∈ l := by
  unfold Precedes
  rw [sublist_cons_iff]
  simp only [List.cons.injEq]
  constructor
  · rintro (hrest | ⟨_, ⟨rfl, rfl⟩, hb⟩)
    · exact .inl hrest
    · exact .inr ⟨rfl, singleton_sublist.mp hb⟩
  · rintro (hrest | ⟨rfl, hb⟩)
    · exact .inl hrest
    · exact .inr ⟨[b], ⟨rfl, rfl⟩, singleton_sublist.mpr hb⟩

theorem precedes_or_precedes (ha : a ∈ l) (hb : b ∈ l) (hne : a ≠ b) :
    Precedes l a b ∨ Precedes l b a := by
  induction l with
  | nil => simp at ha
  | cons c rest ih =>
    simp only [precedes_cons_iff]
    rcases mem_cons.mp ha with rfl | harest
    · rcases mem_cons.mp hb with rfl | hbrest
      · exact absurd rfl hne
      · exact .inl (.inr ⟨rfl, hbrest⟩)
    · rcases mem_cons.mp hb with rfl | hbrest
      · exact .inr (.inr ⟨rfl, harest⟩)
      · rcases ih harest hbrest with hab | hba
        · exact .inl (.inl hab)
        · exact .inr (.inl hba)

theorem Precedes.asymm (hnodup : l.Nodup) (hab : Precedes l a b) : ¬Precedes l b a := by
  induction l with
  | nil => simp [Precedes] at hab
  | cons c rest ih =>
    obtain ⟨hfresh, hrest⟩ := nodup_cons.mp hnodup
    intro hba
    rw [precedes_cons_iff] at hab hba
    rcases hab with hab | ⟨rfl, hb⟩
    · rcases hba with hba | ⟨rfl, _⟩
      · exact ih hrest hab hba
      · exact hfresh hab.mem_right
    · rcases hba with hba | ⟨rfl, ha⟩
      · exact hfresh hba.mem_right
      · exact hfresh hb

/-- A sublist keeps the order of its items. -/
theorem precedes_sublist_iff {s : List α} (hsublist : s.Sublist l) (hnodup : l.Nodup)
    (ha : a ∈ s) (hb : b ∈ s) (hne : a ≠ b) : Precedes s a b ↔ Precedes l a b := by
  constructor
  · intro hab
    exact List.Sublist.trans hab hsublist
  · intro hab
    rcases precedes_or_precedes ha hb hne with hs | hs
    · exact hs
    · exact absurd (List.Sublist.trans hs hsublist) (hab.asymm hnodup)

/-- What comes first in a stable sort: what the relation puts first, and among items it does not
tell apart, what came first before. -/
theorem precedes_insertionSort_iff {r : α → α → Prop} [DecidableRel r] [Std.Total r]
    [IsTrans α r] (hnodup : l.Nodup) (ha : a ∈ l) (hb : b ∈ l) (hne : a ≠ b) :
    Precedes (l.insertionSort r) a b ↔ r a b ∧ (r b a → Precedes l a b) := by
  have hsorted := pairwise_insertionSort r l
  have hnodup' : (l.insertionSort r).Nodup := (l.perm_insertionSort r).nodup_iff.mpr hnodup
  have hrel : ∀ {x y}, Precedes (l.insertionSort r) x y → r x y := fun hxy =>
    pairwise_pair.mp (hsorted.sublist hxy)
  have hstable : ∀ {x y}, r x y → Precedes l x y → Precedes (l.insertionSort r) x y :=
    fun hxy h => pair_sublist_insertionSort hxy h
  constructor
  · intro hab
    refine ⟨hrel hab, fun hba => ?_⟩
    rcases precedes_or_precedes ha hb hne with h | h
    · exact h
    · exact absurd (hstable hba h) (hab.asymm hnodup')
  · rintro ⟨hab, htie⟩
    rcases precedes_or_precedes ((mem_insertionSort r).mpr ha)
        ((mem_insertionSort r).mpr hb) hne with h | h
    · exact h
    · exact hstable hab (htie (hrel h))

/-- The value of the last item that holds one. -/
def lastValue (value : α → Option V) (l : List α) : Option V := (l.filterMap value).getLast?

/-- `a` holds a value, and every other item that holds one comes before it. -/
structure LastHolder (value : α → Option V) (l : List α) (a : α) : Prop where
  mem : a ∈ l
  holds : (value a).isSome
  last : ∀ b ∈ l, (value b).isSome → b = a ∨ Precedes l b a

variable {value : α → Option V} {v : V}

theorem LastHolder.unique (hnodup : l.Nodup) (ha : LastHolder value l a)
    (hb : LastHolder value l b) : a = b := by
  rcases hb.last a ha.mem ha.holds with heq | hab
  · exact heq
  · rcases ha.last b hb.mem hb.holds with heq | hba
    · exact heq.symm
    · exact absurd hba (hab.asymm hnodup)

/-- A list in which some item holds a value has a last holder, whose value it gives. -/
theorem exists_lastHolder (hb : b ∈ l) (hholds : (value b).isSome) :
    ∃ a, LastHolder value l a ∧ lastValue value l = value a := by
  induction l generalizing b with
  | nil => simp at hb
  | cons c rest ih =>
    by_cases hrest : ∃ d ∈ rest, (value d).isSome
    · obtain ⟨d, hd, hdholds⟩ := hrest
      obtain ⟨a, ha, hvalue⟩ := ih hd hdholds
      refine ⟨a, ⟨mem_cons_of_mem c ha.mem, ha.holds, ?_⟩, ?_⟩
      · intro x hx hxholds
        rw [precedes_cons_iff]
        rcases mem_cons.mp hx with rfl | hx
        · exact .inr (.inr ⟨rfl, ha.mem⟩)
        · rcases ha.last x hx hxholds with heq | hprecedes
          · exact .inl heq
          · exact .inr (.inl hprecedes)
      · obtain ⟨v, hv⟩ := Option.isSome_iff_exists.mp ha.holds
        rw [← hvalue, lastValue, lastValue, filterMap_cons]
        rw [hv] at hvalue
        unfold lastValue at hvalue
        cases value c with
        | none => rfl
        | some w => simp [getLast?_cons, hvalue]
    · push Not at hrest
      obtain rfl : b = c := by
        rcases mem_cons.mp hb with heq | hmem
        · exact heq
        · exact absurd hholds (hrest b hmem)
      refine ⟨b, ⟨mem_cons_self, hholds, ?_⟩, ?_⟩
      · intro x hx hxholds
        rcases mem_cons.mp hx with heq | hmem
        · exact .inl heq
        · exact absurd hxholds (hrest x hmem)
      · have hnone : rest.filterMap value = [] := by
          rw [filterMap_eq_nil_iff]
          intro x hx
          simpa using hrest x hx
        obtain ⟨v, hv⟩ := Option.isSome_iff_exists.mp hholds
        simp [lastValue, hv, hnone]

theorem isSome_lastValue (hb : b ∈ l) (hholds : (value b).isSome) : (lastValue value l).isSome := by
  obtain ⟨a, ha, hvalue⟩ := exists_lastHolder hb hholds
  rw [hvalue]
  exact ha.holds

theorem lastValue_eq_none (hnone : ∀ b ∈ l, value b = none) : lastValue value l = none := by
  rw [lastValue, filterMap_eq_nil_iff.mpr hnone, getLast?_nil]

theorem LastHolder.lastValue_eq (hnodup : l.Nodup) (ha : LastHolder value l a) :
    lastValue value l = value a := by
  obtain ⟨b, hb, hvalue⟩ := exists_lastHolder ha.mem ha.holds
  rwa [ha.unique hnodup hb]

end RefluxDb.Library
