import Mathlib.Data.List.Sort

/-! Maps that keep the order in which their keys were first inserted.

An entry that is overwritten keeps its place; a key that is erased and inserted again goes to the
end. Equal maps have equal entries in the same order. -/

namespace RefluxDb.Library

open List

/-- An insertion-ordered map, each key once. -/
structure IndexMap (κ ν : Type*) where
  entries : List (κ × ν) := []
  nodup_keys : (entries.map Prod.fst).Nodup := by simp
deriving DecidableEq

namespace IndexMap

variable {κ ν : Type*}

def empty : IndexMap κ ν := {}

@[simp]
theorem entries_empty : (empty : IndexMap κ ν).entries = [] := rfl

variable {m : IndexMap κ ν}

@[ext]
theorem ext_entries {n : IndexMap κ ν} (h : m.entries = n.entries) : m = n := by
  cases m
  cases n
  cases h
  rfl

def keys (m : IndexMap κ ν) : List κ := m.entries.map Prod.fst

def values (m : IndexMap κ ν) : List ν := m.entries.map Prod.snd

variable {k : κ}

theorem mem_keys : k ∈ m.keys ↔ ∃ v, (k, v) ∈ m.entries := by
  simp [keys]

theorem mem_keys_of_mem {entry : κ × ν} (h : entry ∈ m.entries) :
    entry.1 ∈ m.keys :=
  mem_map_of_mem h

theorem value_unique {v w : ν} (hv : (k, v) ∈ m.entries)
    (hw : (k, w) ∈ m.entries) : v = w := by
  have hsame := inj_on_of_nodup_map m.nodup_keys hv hw rfl
  exact (Prod.mk.inj hsame).2

variable [DecidableEq κ]

def contains (m : IndexMap κ ν) (k : κ) : Bool := decide (k ∈ m.keys)

def get (m : IndexMap κ ν) (k : κ) : Option ν :=
  (m.entries.find? fun entry => entry.1 = k).map Prod.snd

/-- The entries after a key got a value: in place when the key is there, at the end otherwise. -/
def upsert (k : κ) (v : ν) (entries : List (κ × ν)) : List (κ × ν) :=
  if k ∈ entries.map Prod.fst then
    entries.map fun entry => if entry.1 = k then (k, v) else entry
  else entries ++ [(k, v)]

theorem keys_upsert {v : ν} {entries : List (κ × ν)} :
    (upsert k v entries).map Prod.fst =
      if k ∈ entries.map Prod.fst then entries.map Prod.fst else entries.map Prod.fst ++ [k] := by
  unfold upsert
  split
  · rw [map_map]
    apply map_congr_left
    intro entry _
    simp only [Function.comp_apply]
    split
    · symm
      assumption
    · rfl
  · simp

/-- Gives a key a value. -/
def insert (m : IndexMap κ ν) (k : κ) (v : ν) : IndexMap κ ν where
  entries := upsert k v m.entries
  nodup_keys := by
    rw [keys_upsert]
    split
    · exact m.nodup_keys
    · rename_i hk
      exact nodup_append.mpr ⟨m.nodup_keys, nodup_singleton k, by
        rintro a ha b hb rfl
        exact hk (mem_singleton.mp hb ▸ ha)⟩

/-- Drops a key and keeps the order of the others. -/
def erase (m : IndexMap κ ν) (k : κ) : IndexMap κ ν where
  entries := m.entries.filter fun entry => entry.1 ≠ k
  nodup_keys := m.nodup_keys.sublist (filter_sublist.map _)

variable {m : IndexMap κ ν} {k : κ} {v : ν} {entry : κ × ν}

@[simp]
theorem contains_iff : m.contains k = true ↔ k ∈ m.keys := by
  simp [contains]

@[simp]
theorem contains_eq_false_iff : m.contains k = false ↔ k ∉ m.keys := by
  simp [contains]

theorem get_eq_some : m.get k = some v ↔ (k, v) ∈ m.entries := by
  unfold get
  rw [Option.map_eq_some_iff]
  constructor
  · rintro ⟨entry, hfind, rfl⟩
    have hkey : entry.1 = k := by simpa using find?_some hfind
    exact hkey ▸ mem_of_find?_eq_some hfind
  · intro hmem
    have hsome : (m.entries.find? fun entry => entry.1 = k).isSome := by
      rw [find?_isSome]
      exact ⟨(k, v), hmem, by simp⟩
    obtain ⟨entry, hfind⟩ := Option.isSome_iff_exists.mp hsome
    have hkey : entry.1 = k := by simpa using find?_some hfind
    have hentry : (k, entry.2) ∈ m.entries := hkey ▸ mem_of_find?_eq_some hfind
    exact ⟨entry, hfind, value_unique hentry hmem⟩

theorem get_eq_none : m.get k = none ↔ k ∉ m.keys := by
  rw [mem_keys, not_exists, Option.eq_none_iff_forall_ne_some]
  exact forall_congr' fun v => not_congr get_eq_some

theorem mem_entries_insert :
    entry ∈ (m.insert k v).entries ↔ entry = (k, v) ∨ entry ∈ m.entries ∧ entry.1 ≠ k := by
  simp only [insert, upsert]
  split
  · rename_i hk
    rw [mem_map]
    constructor
    · rintro ⟨old, hold, rfl⟩
      split
      · exact .inl rfl
      · exact .inr ⟨hold, by assumption⟩
    · rintro (rfl | ⟨hmem, hne⟩)
      · obtain ⟨old, hold, hkey⟩ := mem_map.mp hk
        exact ⟨old, hold, by rw [if_pos hkey]⟩
      · exact ⟨entry, hmem, by rw [if_neg hne]⟩
  · rename_i hk
    rw [mem_append, mem_singleton, or_comm]
    refine or_congr_right ⟨fun hmem => ⟨hmem, ?_⟩, And.left⟩
    rintro rfl
    exact hk (mem_map_of_mem hmem)

theorem mem_entries_insert_self : (k, v) ∈ (m.insert k v).entries :=
  mem_entries_insert.mpr (.inl rfl)

theorem forall_entries_insert {P : κ × ν → Prop} (hnew : P (k, v))
    (hold : ∀ entry ∈ m.entries, P entry) : ∀ entry ∈ (m.insert k v).entries, P entry := by
  intro entry hentry
  rcases mem_entries_insert.mp hentry with rfl | ⟨hmem, _⟩
  · exact hnew
  · exact hold entry hmem

theorem mem_entries_insert_of_notMem (hk : k ∉ m.keys) :
    entry ∈ (m.insert k v).entries ↔ entry = (k, v) ∨ entry ∈ m.entries := by
  rw [mem_entries_insert]
  refine or_congr_right ⟨And.left, fun hmem => ⟨hmem, ?_⟩⟩
  rintro rfl
  exact hk (mem_keys_of_mem hmem)

theorem mem_entries_erase :
    entry ∈ (m.erase k).entries ↔ entry ∈ m.entries ∧ entry.1 ≠ k := by
  simp [erase]

variable {j : κ}

theorem mem_keys_insert : j ∈ (m.insert k v).keys ↔ j = k ∨ j ∈ m.keys := by
  simp only [keys, insert, keys_upsert]
  split
  · rename_i hk
    refine ⟨.inr, ?_⟩
    rintro (rfl | hj)
    · exact hk
    · exact hj
  · rw [mem_append, mem_singleton, or_comm]

theorem mem_keys_erase : j ∈ (m.erase k).keys ↔ j ∈ m.keys ∧ j ≠ k := by
  simp only [mem_keys, mem_entries_erase, exists_and_right]

theorem entries_insert_of_notMem (hk : k ∉ m.keys) :
    (m.insert k v).entries = m.entries ++ [(k, v)] :=
  if_neg hk

theorem keys_insert_of_notMem (hk : k ∉ m.keys) : (m.insert k v).keys = m.keys ++ [k] := by
  simp only [keys, insert, keys_upsert]
  exact if_neg hk

theorem entries_insert_of_mem (hk : k ∈ m.keys) :
    (m.insert k v).entries = m.entries.map fun entry => if entry.1 = k then (k, v) else entry :=
  if_pos hk

/-- Adding a new key leaves the earlier entries alone, so it can be exchanged with overwriting
one of them. -/
theorem insert_insert_comm {w : ν} (hk : k ∈ m.keys) (hj : j ∉ m.keys) :
    (m.insert j w).insert k v = (m.insert k v).insert j w := by
  have hne : j ≠ k := fun h => hj (h ▸ hk)
  have hj' : j ∉ (m.insert k v).keys := by
    rw [mem_keys_insert, not_or]
    exact ⟨hne, hj⟩
  apply ext_entries
  rw [entries_insert_of_notMem hj', entries_insert_of_mem (mem_keys_insert.mpr (.inr hk)),
    entries_insert_of_notMem hj, entries_insert_of_mem hk]
  simp [hne]

section Sorting

variable {σ : Type*} [LinearOrder σ] {key : ν → σ}

section

omit [DecidableEq κ]

/-- The entries ordered by a key of their values. -/
def sortByKey (m : IndexMap κ ν) (key : ν → σ) : IndexMap κ ν where
  entries := m.entries.insertionSort fun a b => key a.2 ≤ key b.2
  nodup_keys := ((m.entries.perm_insertionSort _).map Prod.fst).nodup_iff.mpr m.nodup_keys

theorem perm_sortByKey (m : IndexMap κ ν) (key : ν → σ) :
    (m.sortByKey key).entries.Perm m.entries :=
  perm_insertionSort _ _

@[simp]
theorem mem_entries_sortByKey : entry ∈ (m.sortByKey key).entries ↔ entry ∈ m.entries :=
  (m.perm_sortByKey key).mem_iff

end

end Sorting

end IndexMap

end RefluxDb.Library
