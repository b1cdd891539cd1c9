import Mathlib.Data.Finset.Basic

/-! Sets ordered by a key of their elements, in which two elements with one key are the same.

An element is not inserted when its key is there already, so that the first one stays. A set that
is collected from a list has the last element of each key instead. -/

namespace RefluxDb.Library

open List

variable {α κ : Type*} [LinearOrder κ] {key : α → κ}

structure KeySet (key : α → κ) where
  items : List α := []
  sorted : items.Pairwise fun a b => key a < key b := by decide

namespace KeySet

instance [DecidableEq α] : DecidableEq (KeySet key) := fun s t =>
  decidable_of_iff (s.items = t.items) ⟨fun h => by cases s; cases t; congr, fun h => h ▸ rfl⟩

instance : EmptyCollection (KeySet key) := ⟨⟨[], .nil⟩⟩

instance : Membership α (KeySet key) := ⟨fun s a => a ∈ s.items⟩

theorem mem_items {s : KeySet key} {a : α} : a ∈ s.items ↔ a ∈ s := Iff.rfl

section Insert

def insertItem (key : α → κ) (a : α) : List α → List α
  | [] => [a]
  | b :: rest =>
    if key a < key b then a :: b :: rest
    else if key b < key a then b :: insertItem key a rest
    else b :: rest

variable {items : List α}

theorem mem_of_mem_insertItem {a b : α} (h : b ∈ insertItem key a items) :
    b = a ∨ b ∈ items := by
  induction items with
  | nil => exact .inl (mem_singleton.mp h)
  | cons first rest ih =>
    unfold insertItem at h
    split_ifs at h
    · exact mem_cons.mp h
    · rcases mem_cons.mp h with hfirst | hrest
      · exact .inr (mem_cons.mpr (.inl hfirst))
      · exact (ih hrest).imp_right (mem_cons_of_mem _)
    · exact .inr h

theorem sorted_insertItem {a : α}
    (h : items.Pairwise fun a b => key a < key b) :
    (insertItem key a items).Pairwise fun a b => key a < key b := by
  induction items with
  | nil => exact pairwise_singleton _ _
  | cons first rest ih =>
    obtain ⟨hfirst, hrest⟩ := pairwise_cons.mp h
    unfold insertItem
    split_ifs with hbefore hafter
    · refine pairwise_cons.mpr ⟨fun b hb => ?_, h⟩
      rcases mem_cons.mp hb with rfl | hlater
      · exact hbefore
      · exact hbefore.trans (hfirst b hlater)
    · refine pairwise_cons.mpr ⟨fun b hb => ?_, ih hrest⟩
      rcases mem_of_mem_insertItem hb with rfl | hold
      · exact hafter
      · exact hfirst b hold
    · exact h

theorem perm_insertItem {a : α} (hnew : ∀ b ∈ items, key b ≠ key a) :
    (insertItem key a items).Perm (a :: items) := by
  induction items with
  | nil => exact .refl _
  | cons first rest ih =>
    have hrest := ih fun b hb => hnew b (mem_cons_of_mem _ hb)
    unfold insertItem
    split_ifs with hbefore hafter
    · exact .refl _
    · exact (hrest.cons first).trans (.swap a first rest)
    · exact absurd (le_antisymm (not_lt.mp hbefore) (not_lt.mp hafter)) (hnew first (by simp))

theorem insertItem_eq_self {a b : α}
    (hsorted : items.Pairwise fun a b => key a < key b) (hb : b ∈ items) (hkey : key b = key a) :
    insertItem key a items = items := by
  induction items with
  | nil => exact absurd hb not_mem_nil
  | cons first rest ih =>
    obtain ⟨hfirst, hrest⟩ := pairwise_cons.mp hsorted
    unfold insertItem
    rcases mem_cons.mp hb with rfl | hlater
    · rw [if_neg hkey.not_gt, if_neg hkey.not_lt]
    · have hlt : key first < key a := hkey ▸ hfirst b hlater
      rw [if_neg hlt.not_gt, if_pos hlt, ih hrest hlater]

end Insert

section Operations

variable (s : KeySet key)

def insert (a : α) : KeySet key where
  items := insertItem key a s.items
  sorted := sorted_insertItem s.sorted

/-- The elements of the list are inserted one after another. -/
def extend (items : List α) : KeySet key := items.foldl insert s

/-- The set of a list, with the last element of each key. -/
def collect (key : α → κ) (items : List α) : KeySet key := extend ∅ items.reverse

def retain (keep : α → Bool) : KeySet key where
  items := s.items.filter keep
  sorted := s.sorted.filter _

variable {s}

variable {a : α}

@[simp]
theorem mem_retain {keep : α → Bool} : a ∈ s.retain keep ↔ a ∈ s ∧ keep a = true :=
  mem_filter

theorem perm_insert (hnew : ∀ b ∈ s, key b ≠ key a) :
    (s.insert a).items.Perm (a :: s.items) := perm_insertItem hnew

theorem insert_eq_self {b : α} (hb : b ∈ s) (hkey : key b = key a) : s.insert a = s := by
  have hitems := insertItem_eq_self s.sorted hb hkey
  cases s
  simp only [insert, hitems]

theorem mem_of_mem_insert {b : α} (h : b ∈ s.insert a) : b = a ∨ b ∈ s :=
  mem_of_mem_insertItem h

theorem mem_insert_of_mem {b : α} (h : b ∈ s) : b ∈ s.insert a := by
  by_cases hnew : ∀ c ∈ s, key c ≠ key a
  · exact (perm_insert hnew).mem_iff.mpr (mem_cons_of_mem _ h)
  · push Not at hnew
    obtain ⟨c, hc, hkey⟩ := hnew
    rwa [insert_eq_self hc hkey]

theorem exists_mem_insert (a : α) : ∃ b ∈ s.insert a, key b = key a := by
  by_cases hnew : ∀ c ∈ s, key c ≠ key a
  · exact ⟨a, (perm_insert hnew).mem_iff.mpr mem_cons_self, rfl⟩
  · push Not at hnew
    obtain ⟨c, hc, hkey⟩ := hnew
    exact ⟨c, mem_insert_of_mem hc, hkey⟩

variable {items : List α}

theorem mem_of_mem_extend (h : a ∈ s.extend items) :
    a ∈ s ∨ a ∈ items := by
  induction items generalizing s with
  | nil => exact .inl h
  | cons first rest ih =>
    rcases ih (s := s.insert first) h with hinserted | hrest
    · rcases mem_of_mem_insert hinserted with rfl | hold
      · exact .inr mem_cons_self
      · exact .inl hold
    · exact .inr (mem_cons_of_mem _ hrest)

theorem mem_extend_of_mem (items : List α) (h : a ∈ s) : a ∈ s.extend items := by
  induction items generalizing s with
  | nil => exact h
  | cons first rest ih => exact ih (s := s.insert first) (mem_insert_of_mem h)

theorem exists_mem_extend (h : a ∈ items) :
    ∃ b ∈ s.extend items, key b = key a := by
  induction items generalizing s with
  | nil => exact absurd h not_mem_nil
  | cons first rest ih =>
    rcases mem_cons.mp h with rfl | hrest
    · obtain ⟨b, hb, hkey⟩ := exists_mem_insert (s := s) a
      exact ⟨b, (mem_extend_of_mem rest hb : b ∈ (s.insert a).extend rest), hkey⟩
    · exact ih (s := s.insert first) hrest

/-- Elements with new and different keys are all added. -/
theorem perm_extend (hnodup : (items.map key).Nodup)
    (hnew : ∀ a ∈ items, ∀ b ∈ s, key b ≠ key a) :
    (s.extend items).items.Perm (s.items ++ items) := by
  induction items generalizing s with
  | nil => simp [extend]
  | cons first rest ih =>
    obtain ⟨hfirst, hrest⟩ := nodup_cons.mp hnodup
    have hinserted := perm_insert (hnew first mem_cons_self)
    have hextended := ih (s := s.insert first) hrest fun a ha b hb => by
      rcases mem_of_mem_insert hb with rfl | hold
      · exact fun hkey => hfirst (hkey ▸ mem_map_of_mem ha)
      · exact hnew a (mem_cons_of_mem _ ha) b hold
    have hfront : (s.extend (first :: rest)).items.Perm (first :: s.items ++ rest) :=
      hextended.trans (hinserted.append_right rest)
    exact hfront.trans perm_middle.symm

theorem perm_collect (hnodup : (items.map key).Nodup) :
    (collect key items).items.Perm items := by
  have hreversed : (items.reverse.map key).Nodup := by
    rw [map_reverse]
    exact nodup_reverse.mpr hnodup
  have hperm := perm_extend (s := (∅ : KeySet key)) hreversed fun _ _ _ hb =>
    absurd hb not_mem_nil
  exact hperm.trans (reverse_perm items)

theorem mem_of_mem_collect (h : a ∈ collect key items) :
    a ∈ items := by
  rcases mem_of_mem_extend (s := ∅) h with hempty | hmem
  · exact absurd hempty not_mem_nil
  · exact mem_reverse.mp hmem

theorem exists_mem_collect (h : a ∈ items) :
    ∃ b ∈ collect key items, key b = key a :=
  exists_mem_extend (s := ∅) (mem_reverse.mpr h)

end Operations

end KeySet

end RefluxDb.Library
