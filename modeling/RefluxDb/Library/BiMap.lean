import Mathlib.Data.Finset.Basic

/-! Bidirectional maps: finite sets of pairs no two of which share a left or a right side.

Inserting a pair drops every pair that shares a side with it. Maps are equal when they hold the
same pairs. -/

namespace RefluxDb.Library

structure BiMap (α β : Type*) where
  pairs : Finset (α × β) := ∅
  left_unique : ∀ p ∈ pairs, ∀ q ∈ pairs, p.1 = q.1 → p = q := by simp
  right_unique : ∀ p ∈ pairs, ∀ q ∈ pairs, p.2 = q.2 → p = q := by simp
deriving DecidableEq

namespace BiMap

variable {α β : Type*}

def empty : BiMap α β := {}

@[simp]
theorem pairs_empty : (empty : BiMap α β).pairs = ∅ := rfl

variable {m : BiMap α β} {a : α} {b : β}

section Left

variable [DecidableEq α]

def removeByLeft (m : BiMap α β) (a : α) : BiMap α β where
  pairs := m.pairs.filter fun p => p.1 ≠ a
  left_unique := fun p hp q hq =>
    m.left_unique p (Finset.mem_filter.mp hp).1 q (Finset.mem_filter.mp hq).1
  right_unique := fun p hp q hq =>
    m.right_unique p (Finset.mem_filter.mp hp).1 q (Finset.mem_filter.mp hq).1

def containsLeft (m : BiMap α β) (a : α) : Bool := decide (∃ p ∈ m.pairs, p.1 = a)

theorem mem_pairs_removeByLeft {p : α × β} :
    p ∈ (m.removeByLeft a).pairs ↔ p ∈ m.pairs ∧ p.1 ≠ a := by
  simp [removeByLeft]

theorem containsLeft_iff : m.containsLeft a = true ↔ ∃ b, (a, b) ∈ m.pairs := by
  simp [containsLeft]

end Left

section Right

variable [DecidableEq β]

def containsRight (m : BiMap α β) (b : β) : Bool := decide (∃ p ∈ m.pairs, p.2 = b)

def getByRight (m : BiMap α β) (b : β) : Option α :=
  if h : ∃ p ∈ m.pairs, p.2 = b then
    some (m.pairs.choose (fun p => p.2 = b) (by
      obtain ⟨p, hp, rfl⟩ := h
      exact ⟨p, ⟨hp, rfl⟩, fun q hq => m.right_unique q hq.1 p hp hq.2⟩)).1
  else none

theorem containsRight_iff : m.containsRight b = true ↔ ∃ a, (a, b) ∈ m.pairs := by
  simp [containsRight]

theorem getByRight_eq_some : m.getByRight b = some a ↔ (a, b) ∈ m.pairs := by
  unfold getByRight
  split
  · rename_i h
    obtain ⟨p, hp, rfl⟩ := h
    have hunique : ∃! q, q ∈ m.pairs ∧ q.2 = p.2 :=
      ⟨p, ⟨hp, rfl⟩, fun q hq => m.right_unique q hq.1 p hp hq.2⟩
    have hchosen := m.pairs.choose_spec (fun q => q.2 = p.2) hunique
    rw [m.right_unique _ hchosen.1 p hp hchosen.2, Option.some.injEq]
    constructor
    · rintro rfl
      exact hp
    · intro hmem
      exact congrArg Prod.fst (m.right_unique p hp _ hmem rfl)
  · rename_i h
    simp only [reduceCtorEq, false_iff]
    exact fun hmem => h ⟨_, hmem, rfl⟩

theorem getByRight_eq_none : m.getByRight b = none ↔ ∀ a, (a, b) ∉ m.pairs := by
  rw [Option.eq_none_iff_forall_ne_some]
  exact forall_congr' fun a => not_congr getByRight_eq_some

end Right

variable [DecidableEq α] [DecidableEq β]

/-- Adds a pair and evicts those that overlap with it. -/
def insert (m : BiMap α β) (a : α) (b : β) : BiMap α β where
  pairs := Insert.insert (a, b) (m.pairs.filter fun p => p.1 ≠ a ∧ p.2 ≠ b)
  left_unique := by
    intro p hp q hq hside
    simp only [Finset.mem_insert, Finset.mem_filter] at hp hq
    have hold := m.left_unique p
    grind
  right_unique := by
    intro p hp q hq hside
    simp only [Finset.mem_insert, Finset.mem_filter] at hp hq
    have hold := m.right_unique p
    grind

variable {p : α × β}

theorem mem_pairs_insert :
    p ∈ (m.insert a b).pairs ↔ p = (a, b) ∨ p ∈ m.pairs ∧ p.1 ≠ a ∧ p.2 ≠ b := by
  simp [insert]

theorem mem_pairs_insert_of_mem (h : (a, b) ∈ m.pairs) :
    p ∈ (m.insert a b).pairs ↔ p ∈ m.pairs := by
  rw [mem_pairs_insert]
  constructor
  · rintro (rfl | ⟨hp, _⟩)
    · exact h
    · exact hp
  · intro hp
    by_cases hself : p = (a, b)
    · exact .inl hself
    · exact .inr ⟨hp, fun hleft => hself (m.left_unique p hp _ h hleft),
        fun hright => hself (m.right_unique p hp _ h hright)⟩

end BiMap

end RefluxDb.Library
