import Mathlib.Data.List.AList

/-! Maps as association lists: keeping only the entries a test accepts, and merging the entries of
one map into another. -/

namespace RefluxDb.Library

open List

variable {α β : Type*}

/-- The entries for which `keep` holds. -/
def retain (keep : α → β → Bool) (map : AList fun _ : α => β) : AList fun _ : α => β where
  entries := map.entries.filter fun entry => keep entry.1 entry.2
  nodupKeys := map.nodupKeys.sublist filter_sublist

variable [DecidableEq α] {keep : α → β → Bool} {map : AList fun _ : α => β} {key : α}

theorem mem_lookup_retain {value : β} :
    value ∈ (retain keep map).lookup key ↔ value ∈ map.lookup key ∧ keep key value = true := by
  rw [AList.mem_lookup_iff, AList.mem_lookup_iff]
  simp [retain]

theorem mem_iff_exists_lookup : key ∈ map ↔ ∃ value, value ∈ map.lookup key := by
  rw [← AList.lookup_isSome, Option.isSome_iff_exists]
  rfl

theorem mem_retain :
    key ∈ retain keep map ↔ ∃ value, value ∈ map.lookup key ∧ keep key value = true := by
  rw [mem_iff_exists_lookup]
  simp only [mem_lookup_retain]

theorem mem_of_mem_retain (hmem : key ∈ retain keep map) : key ∈ map := by
  obtain ⟨value, hvalue, _⟩ := mem_retain.mp hmem
  exact mem_iff_exists_lookup.mpr ⟨value, hvalue⟩

section Merge

variable {γ δ : Type*}

/-- Merges each entry of `new` into the value its key has in `map`, or into `start`. -/
def mergeWith (merge : β → γ → β) (start : β) (map : AList fun _ : α => β)
    (new : AList fun _ : α => γ) : AList fun _ : α => β :=
  new.entries.foldl
    (fun map entry => map.insert entry.1 (merge ((map.lookup entry.1).getD start) entry.2)) map

variable {merge : β → γ → β}

theorem lookup_foldl_merge {start : β}
    (entries : List (Sigma fun _ : α => γ)) (hnodup : entries.NodupKeys)
    (map : AList fun _ : α => β) :
    (entries.foldl
      (fun map entry => map.insert entry.1 (merge ((map.lookup entry.1).getD start) entry.2))
      map).lookup key =
      ((entries.dlookup key).map (merge ((map.lookup key).getD start))).or (map.lookup key) := by
  induction entries generalizing map with
  | nil => simp
  | cons entry rest ih =>
    obtain ⟨entryKey, value⟩ := entry
    obtain ⟨hnew, hrest⟩ := nodupKeys_cons.mp hnodup
    rw [foldl_cons, ih hrest]
    by_cases hkey : key = entryKey
    · subst hkey
      have hnone : rest.dlookup key = none := dlookup_eq_none.mpr hnew
      simp [hnone]
    · rw [AList.lookup_insert_ne hkey, dlookup_cons_ne _ _ hkey]

/-- A key of a merged map has the merged value, and every other key the old one. -/
theorem lookup_mergeWith {start : β} {new : AList fun _ : α => γ} :
    (mergeWith merge start map new).lookup key =
      ((new.lookup key).map (merge ((map.lookup key).getD start))).or (map.lookup key) :=
  lookup_foldl_merge new.entries new.nodupKeys map

/-- Where only the entry of one key gives anything, the entries give what that one does. -/
theorem flatMap_entries {f : (Sigma fun _ : α => β) → List δ}
    (hother : ∀ entry ∈ map.entries, entry.1 ≠ key → f entry = []) :
    map.entries.flatMap f = ((map.lookup key).map fun value => f ⟨key, value⟩).getD [] := by
  obtain ⟨entries, hnodup⟩ := map
  change entries.flatMap f = ((entries.dlookup key).map fun value => f ⟨key, value⟩).getD []
  induction entries with
  | nil => simp
  | cons entry rest ih =>
    obtain ⟨entryKey, value⟩ := entry
    obtain ⟨hnew, hrest⟩ := nodupKeys_cons.mp hnodup
    rw [forall_mem_cons] at hother
    have htail := ih hrest hother.2
    rw [flatMap_cons, htail]
    by_cases hkey : entryKey = key
    · subst hkey
      have hnone : rest.dlookup entryKey = none := dlookup_eq_none.mpr hnew
      simp [hnone]
    · rw [hother.1 hkey, dlookup_cons_ne _ _ (Ne.symm hkey), nil_append]

end Merge

end RefluxDb.Library
