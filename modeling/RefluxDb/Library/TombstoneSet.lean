import Mathlib.Data.Set.BooleanAlgebra
import Mathlib.Order.CompletePartialOrder
import Mathlib.Data.List.Perm.Basic

/-! Sets folded from changes that may arrive out of order.

A change adds some items and removes others. A removal that finds its item present takes it out
and is forgotten; one that finds nothing may bury the item, and a buried item is not added any
more. Which removals bury is a property of the change. What the fold is for is the set of all
added items without all removed ones, in whatever order the changes come. -/

namespace RefluxDb.Library

/-- Items to add, items to remove, and the removed items that are buried when absent. -/
structure Change (Item : Type*) where
  adds : Set Item
  removes : Set Item
  buries : Set Item

/-- The items present, and the items whose later additions are suppressed. -/
@[ext] structure TombstoneSet (Item : Type*) where
  live : Set Item
  buried : Set Item

namespace TombstoneSet

variable {Item : Type*} {set : TombstoneSet Item} {change : Change Item} {item : Item}
variable {changes : List (Change Item)}

def empty : TombstoneSet Item := ⟨∅, ∅⟩

/-- What is present between the additions and the removals of a change. -/
def present (set : TombstoneSet Item) (change : Change Item) : Set Item :=
  set.live ∪ (change.adds \ set.buried)

def apply (set : TombstoneSet Item) (change : Change Item) : TombstoneSet Item where
  live := set.present change \ change.removes
  buried := set.buried ∪ ((change.removes ∩ change.buries) \ set.present change)

def applyAll (set : TombstoneSet Item) (changes : List (Change Item)) : TombstoneSet Item :=
  changes.foldl apply set

def added (changes : List (Change Item)) : Set Item := {item | ∃ c ∈ changes, item ∈ c.adds}

def removed (changes : List (Change Item)) : Set Item := {item | ∃ c ∈ changes, item ∈ c.removes}

/-- The items some change removes for good. -/
def buriable (changes : List (Change Item)) : Set Item :=
  {item | ∃ c ∈ changes, item ∈ c.removes ∧ item ∈ c.buries}

theorem mem_apply_live : item ∈ (set.apply change).live ↔
    (item ∈ set.live ∨ item ∈ change.adds ∧ item ∉ set.buried) ∧ item ∉ change.removes :=
  Iff.rfl

theorem mem_apply_buried : item ∈ (set.apply change).buried ↔
    item ∈ set.buried ∨ (item ∈ change.removes ∧ item ∈ change.buries) ∧
      ¬(item ∈ set.live ∨ item ∈ change.adds ∧ item ∉ set.buried) :=
  Iff.rfl

@[simp] theorem applyAll_nil : set.applyAll [] = set := rfl

@[simp] theorem applyAll_cons :
    set.applyAll (change :: changes) = (set.apply change).applyAll changes := rfl

theorem applyAll_append (earlier later : List (Change Item)) :
    set.applyAll (earlier ++ later) = (set.applyAll earlier).applyAll later :=
  List.foldl_append

@[simp] theorem mem_added_cons :
    item ∈ added (change :: changes) ↔ item ∈ change.adds ∨ item ∈ added changes := by
  simp [added]

@[simp] theorem mem_removed_cons :
    item ∈ removed (change :: changes) ↔ item ∈ change.removes ∨ item ∈ removed changes := by
  simp [removed]

variable {earlier later : List (Change Item)}

@[simp] theorem mem_added_append :
    item ∈ added (earlier ++ later) ↔ item ∈ added earlier ∨ item ∈ added later := by
  simp [added, or_and_right, exists_or]

@[simp] theorem mem_removed_append :
    item ∈ removed (earlier ++ later) ↔ item ∈ removed earlier ∨ item ∈ removed later := by
  simp [removed, or_and_right, exists_or]

@[simp] theorem notMem_added_nil : item ∉ added [] := by simp [added]

@[simp] theorem notMem_removed_nil : item ∉ removed [] := by simp [removed]

variable {changes' : List (Change Item)}

theorem added_perm (hperm : changes.Perm changes') :
    added changes = added changes' := by
  ext item
  simp [added, hperm.mem_iff]

theorem removed_perm (hperm : changes.Perm changes') :
    removed changes = removed changes' := by
  ext item
  simp [removed, hperm.mem_iff]

/-- A buried item stays present only as long as no change removes it. -/
theorem mem_live_of_buried (hburied : item ∈ set.buried) (changes : List (Change Item)) :
    item ∈ (set.applyAll changes).live ↔ item ∈ set.live ∧ item ∉ removed changes := by
  induction changes generalizing set with
  | nil => simp
  | cons change rest ih =>
    rw [applyAll_cons, ih (mem_apply_buried.mpr (.inl hburied)), mem_apply_live,
      mem_removed_cons]
    grind

/-- Changes that do not add an item keep it as long as none removes it. -/
theorem mem_live_of_notMem_added (hadded : item ∉ added changes) :
    item ∈ (set.applyAll changes).live ↔ item ∈ set.live ∧ item ∉ removed changes := by
  induction changes generalizing set with
  | nil => simp
  | cons change rest ih =>
    simp only [mem_added_cons, not_or] at hadded
    rw [applyAll_cons, ih hadded.2, mem_apply_live, mem_removed_cons]
    grind

/-- Before an item is added, it is buried by the first removal that buries. -/
theorem mem_buried_of_notMem_added (hlive : item ∉ set.live) (hadded : item ∉ added changes) :
    item ∈ (set.applyAll changes).buried ↔ item ∈ set.buried ∨ item ∈ buriable changes := by
  induction changes generalizing set with
  | nil => simp [buriable]
  | cons change rest ih =>
    simp only [mem_added_cons, not_or] at hadded
    have hnext : item ∉ (set.apply change).live := by
      rw [mem_apply_live]
      grind
    rw [applyAll_cons, ih hnext hadded.2, mem_apply_buried]
    simp only [buriable, Set.mem_ofPred_eq, List.mem_cons, exists_eq_or_imp]
    grind

/-- Where one change adds an item: it ends up present exactly when nothing buried it before and
nothing removes it from there on. -/
theorem mem_live_split (hlive : item ∉ set.live)
    (hburied : item ∉ set.buried) (hadds : item ∈ change.adds) (hearlier : item ∉ added earlier)
    (hlater : item ∉ added later) :
    item ∈ (set.applyAll (earlier ++ change :: later)).live ↔
      item ∉ buriable earlier ∧ item ∉ change.removes ∧ item ∉ removed later := by
  have habsent : item ∉ (set.applyAll earlier).live := by
    rw [mem_live_of_notMem_added hearlier]
    exact fun h => hlive h.1
  have hbefore : item ∈ (set.applyAll earlier).buried ↔ item ∈ buriable earlier := by
    rw [mem_buried_of_notMem_added hlive hearlier]
    exact or_iff_right hburied
  rw [applyAll_append, applyAll_cons, mem_live_of_notMem_added hlater, mem_apply_live]
  grind

/-- Where no change adds an item that one before it removes, the item is present once it is added
unless some change removes it. -/
theorem mem_live_of_ordered (hburied : item ∉ set.buried)
    (hordered : changes.Pairwise fun c d => item ∈ d.adds → item ∉ c.removes) :
    item ∈ (set.applyAll changes).live ↔
      (item ∈ set.live ∨ item ∈ added changes) ∧ item ∉ removed changes := by
  induction changes generalizing set with
  | nil => simp
  | cons change rest ih =>
    obtain ⟨hfirst, hrest⟩ := List.pairwise_cons.mp hordered
    rw [applyAll_cons, mem_added_cons, mem_removed_cons]
    by_cases hremoves : item ∈ change.removes
    · have hlater : item ∉ added rest := fun ⟨d, hd, hadds⟩ => hfirst d hd hadds hremoves
      rw [mem_live_of_notMem_added hlater, mem_apply_live]
      grind
    · have hnext : item ∉ (set.apply change).buried := by
        rw [mem_apply_buried]
        grind
      rw [ih hnext hrest, mem_apply_live]
      grind

/-- An item that is neither buried nor removed is present once it is added. -/
theorem mem_live_of_notMem_removed (hburied : item ∉ set.buried)
    (hremoved : item ∉ removed changes) :
    item ∈ (set.applyAll changes).live ↔ item ∈ set.live ∨ item ∈ added changes := by
  rw [mem_live_of_ordered hburied, and_iff_left hremoved]
  exact List.pairwise_of_forall_mem_list fun c hc _ _ _ hremoves => hremoved ⟨c, hc, hremoves⟩

/-- Where every removal of an item buries it and it is added at most once, it is present once it is
added unless some change removes it. -/
theorem mem_live_of_buries (hburied : item ∉ set.buried)
    (hburies : ∀ c ∈ changes, item ∈ c.removes → item ∈ c.buries)
    (honce : changes.Pairwise fun c d => item ∈ c.adds → item ∉ d.adds)
    (hlive : item ∈ set.live → item ∉ added changes) :
    item ∈ (set.applyAll changes).live ↔
      (item ∈ set.live ∨ item ∈ added changes) ∧ item ∉ removed changes := by
  induction changes generalizing set with
  | nil => simp
  | cons change rest ih =>
    obtain ⟨hfirst, hrest⟩ := List.pairwise_cons.mp honce
    rw [List.forall_mem_cons] at hburies
    have hadds : item ∈ change.adds → item ∉ added rest :=
      fun hadds ⟨d, hd, hagain⟩ => hfirst d hd hadds hagain
    simp only [mem_added_cons, not_or] at hlive
    rw [applyAll_cons, mem_added_cons, mem_removed_cons]
    by_cases hremoves : item ∈ change.removes
    · have hgone : item ∉ (set.apply change).live := by
        rw [mem_apply_live]
        grind
      by_cases hpresent : item ∈ set.live ∨ item ∈ change.adds
      · have hlater : item ∉ added rest := hpresent.elim (fun h => (hlive h).2) hadds
        rw [mem_live_of_notMem_added hlater]
        grind
      · have hnext : item ∈ (set.apply change).buried :=
          mem_apply_buried.mpr (.inr ⟨⟨hremoves, hburies.1 hremoves⟩, by grind⟩)
        rw [mem_live_of_buried hnext]
        grind
    · have hnext : item ∉ (set.apply change).buried := by
        rw [mem_apply_buried]
        grind
      have hkept : item ∈ (set.apply change).live → item ∉ added rest := by
        rw [mem_apply_live]
        grind
      rw [ih hnext hburies.2 hrest hkept, mem_apply_live]
      grind

theorem buried_applyAll_subset (set : TombstoneSet Item) (changes : List (Change Item)) :
    (set.applyAll changes).buried ⊆ set.buried ∪ removed changes := by
  induction changes generalizing set with
  | nil => exact Set.subset_union_left
  | cons change rest ih =>
    intro item hitem
    rcases ih (set.apply change) hitem with hfirst | hrest
    · rcases mem_apply_buried.mp hfirst with hold | hremoved
      · exact .inl hold
      · exact .inr (mem_removed_cons.mpr (.inl hremoved.1.1))
    · exact .inr (mem_removed_cons.mpr (.inr hrest))

theorem notMem_live_of_notMem_added (hadded : item ∉ added changes) :
    item ∉ (empty.applyAll changes).live := by
  rw [mem_live_of_notMem_added hadded]
  exact fun h => Set.notMem_empty item h.1

/-- Each item is added by at most one of the changes. -/
def AddedOnce (changes : List (Change Item)) : Prop :=
  changes.Pairwise fun c d => Disjoint c.adds d.adds

theorem AddedOnce.perm (honce : AddedOnce changes)
    (hperm : changes.Perm changes') : AddedOnce changes' :=
  hperm.pairwise honce fun hdisjoint => hdisjoint.symm

/-- Around the change that adds an item, no other change adds it. -/
theorem AddedOnce.notMem_added
    (honce : AddedOnce (earlier ++ change :: later)) (hadds : item ∈ change.adds) :
    item ∉ added earlier ∧ item ∉ added later := by
  obtain ⟨_, hcons, hacross⟩ := List.pairwise_append.mp honce
  constructor
  · rintro ⟨c, hc, hcadds⟩
    exact Set.disjoint_left.mp (hacross c hc change (by simp)) hcadds hadds
  · rintro ⟨c, hc, hcadds⟩
    exact Set.disjoint_left.mp ((List.pairwise_cons.mp hcons).1 c hc) hadds hcadds

/-- The fold gives the added items without the removed ones in every order exactly when each
added item that some change removes is also removed by the change that adds it, or by a change
whose removal buries it. -/
theorem live_perm_iff (honce : AddedOnce changes) :
    (∀ changes', changes.Perm changes' →
      (empty.applyAll changes').live = added changes \ removed changes) ↔
    ∀ c ∈ changes, ∀ item ∈ c.adds, item ∈ removed changes →
      item ∈ c.removes ∨ item ∈ buriable changes := by
  constructor
  · intro hall c hc item hadds hremoved
    by_contra hnot
    simp only [not_or] at hnot
    obtain ⟨earlier, later, rfl⟩ := List.append_of_mem hc
    obtain ⟨hearlier, hlater⟩ := honce.notMem_added hadds
    have hperm : (earlier ++ c :: later).Perm ((earlier ++ later) ++ [c]) := by
      rw [List.append_assoc]
      exact (List.perm_append_singleton c later).symm.append_left earlier
    have hlive : item ∈ (empty.applyAll ((earlier ++ later) ++ [c])).live := by
      rw [mem_live_split (Set.notMem_empty item) (Set.notMem_empty item) hadds
        (by simp [hearlier, hlater]) notMem_added_nil]
      refine ⟨?_, hnot.1, notMem_removed_nil⟩
      rintro ⟨b, hb, hburies⟩
      refine hnot.2 ⟨b, ?_, hburies⟩
      rcases List.mem_append.mp hb with h | h <;> simp [h]
    rw [hall _ hperm] at hlive
    exact hlive.2 hremoved
  · intro hcondition changes' hperm
    ext item
    rw [added_perm hperm, removed_perm hperm]
    by_cases hadded : item ∈ added changes'
    case neg => simp [hadded, notMem_live_of_notMem_added hadded]
    obtain ⟨c, hc, hadds⟩ := id hadded
    have hburied := hcondition c (hperm.mem_iff.mpr hc) item hadds
    rw [removed_perm hperm] at hburied
    obtain ⟨earlier, later, rfl⟩ := List.append_of_mem hc
    obtain ⟨hearlier, hlater⟩ := (honce.perm hperm).notMem_added hadds
    rw [mem_live_split (Set.notMem_empty item) (Set.notMem_empty item) hadds hearlier hlater]
    constructor
    · rintro ⟨hburiable, hremoves, hremoved⟩
      refine ⟨hadded, fun hgone => ?_⟩
      rcases hburied hgone with hself | ⟨b, hb, hbremoves, hbburies⟩
      · exact hremoves hself
      · rcases List.mem_append.mp (hperm.mem_iff.mp hb) with hbefore | hafter
        · exact hburiable ⟨b, hbefore, hbremoves, hbburies⟩
        · rcases List.mem_cons.mp hafter with rfl | hlast
          · exact hremoves hbremoves
          · exact hremoved ⟨b, hlast, hbremoves⟩
    · rintro ⟨_, hkept⟩
      simp only [mem_removed_append, mem_removed_cons, not_or] at hkept
      refine ⟨?_, hkept.2.1, hkept.2.2⟩
      rintro ⟨b, hb, hbremoves, _⟩
      exact hkept.1 ⟨b, hb, hbremoves⟩

/-- Every required item that is not gone is present, and only items that are gone are buried. -/
structure Keeps (required gone : Set Item) (set : TombstoneSet Item) : Prop where
  kept : ∀ item ∈ required, item ∉ gone → item ∈ set.live
  buried : ∀ item ∈ set.buried, item ∈ gone

/-- One more change keeps what it adds too, if what it removes counts as gone. -/
theorem Keeps.apply {required gone gone' : Set Item} (hkeeps : Keeps required gone set)
    (hgone : gone ⊆ gone') (hremoves : change.removes ⊆ gone') :
    Keeps (required ∪ change.adds) gone' (set.apply change) where
  kept item hitem hpresent := by
    rw [mem_apply_live]
    refine ⟨?_, fun h => hpresent (hremoves h)⟩
    rcases hitem with hrequired | hadds
    · exact .inl (hkeeps.kept item hrequired fun h => hpresent (hgone h))
    · exact .inr ⟨hadds, fun h => hpresent (hgone (hkeeps.buried item h))⟩
  buried item hitem := by
    rcases mem_apply_buried.mp hitem with hold | ⟨⟨hitem, _⟩, _⟩
    · exact hgone (hkeeps.buried item hold)
    · exact hremoves hitem

variable {set' : TombstoneSet Item}

/-- Burying less, and less being present that is gone, keeps what is kept. -/
theorem Keeps.forget {required gone : Set Item}
    (hkeeps : Keeps required gone set) (hlive : set.live \ gone ⊆ set'.live)
    (hburied : set'.buried ⊆ set.buried ∪ gone) : Keeps required gone set' where
  kept item hitem hpresent := hlive ⟨hkeeps.kept item hitem hpresent, hpresent⟩
  buried item hitem := (hburied hitem).elim (hkeeps.buried item) id

theorem added_append_singleton : added (changes ++ [change]) = added changes ∪ change.adds := by
  ext item
  simp

theorem removed_append_singleton :
    removed (changes ++ [change]) = removed changes ∪ change.removes := by
  ext item
  simp

/-- The set keeps what the changes folded so far add and do not remove. -/
theorem Keeps.apply_changes (hkeeps : Keeps (added changes) (removed changes) set) :
    Keeps (added (changes ++ [change])) (removed (changes ++ [change])) (set.apply change) := by
  rw [added_append_singleton, removed_append_singleton]
  exact hkeeps.apply Set.subset_union_left Set.subset_union_right

/-- The set is what the changes folded so far settle to, and only removed items are buried. -/
structure Settles (changes : List (Change Item)) (set : TombstoneSet Item) : Prop extends
    Keeps (added changes) (removed changes) set where
  settled : ∀ item ∈ set.live, item ∈ added changes ∧ item ∉ removed changes

theorem Settles.live (hsettles : Settles changes set) (item : Item) :
    item ∈ set.live ↔ item ∈ added changes ∧ item ∉ removed changes :=
  ⟨hsettles.settled item, fun h => hsettles.kept item h.1 h.2⟩

theorem settles_empty : Settles [] (empty : TombstoneSet Item) where
  kept _ hadded := absurd hadded notMem_added_nil
  buried item hburied := absurd hburied (Set.notMem_empty item)
  settled item hlive := absurd hlive (Set.notMem_empty item)

/-- One more change keeps the set settled if every item it adds that was removed before is still
buried, or goes with the change itself. -/
theorem Settles.apply (hsettles : Settles changes set)
    (hburied : ∀ item ∈ change.adds, item ∈ removed changes →
      item ∈ set.buried ∨ item ∈ change.removes) :
    Settles (changes ++ [change]) (set.apply change) where
  toKeeps := hsettles.toKeeps.apply_changes
  settled item hlive := by
    have hsettled := hsettles.settled item
    rw [mem_apply_live] at hlive
    simp only [mem_added_append, mem_removed_append, mem_added_cons, mem_removed_cons,
      notMem_added_nil, notMem_removed_nil, or_false]
    grind

theorem Settles.forget (hsettles : Settles changes set)
    (hlive : set'.live = set.live) (hburied : set'.buried ⊆ set.buried) :
    Settles changes set' where
  toKeeps := hsettles.toKeeps.forget (fun _ hitem => hlive ▸ hitem.1)
    (hburied.trans Set.subset_union_left)
  settled item hitem := hsettles.settled item (hlive ▸ hitem)

end TombstoneSet

end RefluxDb.Library
