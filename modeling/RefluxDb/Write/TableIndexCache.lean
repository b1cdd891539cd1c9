import RefluxDb.Library.Machine
import RefluxDb.Write.TableIndex

/-! The cache of table indexes, and what it evicts when it is full.

An entry has the number that the code keeps as its last access time, and beside it the time of its
last use: `new` keeps nanoseconds and `touch` milliseconds, in one field. An eviction reads the
clock anew for each entry, in the order in which it goes through the map. Calls come one after
another; `get_or_load` evicts after it has inserted, `update_from_object_store` before, and an
update of all tables is a sequence of those calls with an eviction at its end. Times are in
nanoseconds since the start, below `2 ^ 64`; the indexes themselves are left out. -/

namespace RefluxDb.Write

open List Option RefluxDb.Library

structure CachedTableIndex where
  table : TableIndexId
  lastAccessTimeSinceStartNs : Nat
  used : Nat
deriving DecidableEq

namespace CachedTableIndex

def new (table : TableIndexId) (now : Nat) : CachedTableIndex where
  table := table
  lastAccessTimeSinceStartNs := now
  used := now

def touch (cached : CachedTableIndex) (now : Nat) : CachedTableIndex :=
  { cached with lastAccessTimeSinceStartNs := now / 1000000, used := now }

def staleDurationNs (cached : CachedTableIndex) (now : Nat) : Nat :=
  now - cached.lastAccessTimeSinceStartNs

end CachedTableIndex

namespace TableIndexCache

/-- Where the call that is going on is: it has inserted and evicts, or evicts and has to insert. -/
inductive Phase where
  | idle
  | loaded
  | updating (cached : CachedTableIndex)
  | inserting (cached : CachedTableIndex)
deriving DecidableEq

/-- `evicted` and `kept` are the entries that the last eviction removed, and those it left. -/
structure Cache where
  entries : List CachedTableIndex := []
  clock : Nat := 0
  phase : Phase := .idle
  evicted : List CachedTableIndex := []
  kept : List CachedTableIndex := []

/-- An eviction has the entries with the times at which each was looked at, as they are sorted. -/
inductive Action where
  | hit (table : TableIndexId)
  | load (table : TableIndexId) (now : Nat)
  | access (table : TableIndexId) (now : Nat)
  | update (table : TableIndexId) (now : Nat)
  | evict (sorted : List (CachedTableIndex × Nat))
  | insert

variable (maxEntries : Nat) (cache : Cache)

def Cache.has (table : TableIndexId) : Prop := table ∈ cache.entries.map (·.table)
deriving Decidable

def Cache.touch (table : TableIndexId) (now : Nat) : Cache :=
  { cache with
    entries := cache.entries.map fun cached =>
      if cached.table = table then cached.touch now else cached
    clock := now }

/-- The entries in the order of their stale durations, each looked at after the last use. -/
def Sorts (sorted : List (CachedTableIndex × Nat)) : Prop :=
  (sorted.map Prod.fst).Perm cache.entries ∧ (∀ reading ∈ sorted, cache.clock ≤ reading.2) ∧
    sorted.Pairwise fun a b => a.1.staleDurationNs a.2 ≤ b.1.staleDurationNs b.2
deriving Decidable

/-- The entries with the longest stale durations go, down to the maximum. -/
def Cache.evictIfFull (sorted : List (CachedTableIndex × Nat)) : Cache :=
  if cache.entries.length < maxEntries then cache
  else
    { cache with
      entries := (sorted.take maxEntries).map Prod.fst
      clock := sorted.foldl (fun clock reading => max clock reading.2) cache.clock
      evicted := (sorted.drop maxEntries).map Prod.fst
      kept := (sorted.take maxEntries).map Prod.fst }

def step : Action → Option Cache
  | .hit table => if cache.phase = .idle ∧ cache.has table then some cache else none
  | .load table now =>
    if cache.phase = .idle ∧ cache.clock < now ∧ ¬ cache.has table then
      some { cache with
        entries := cache.entries ++ [.new table now], clock := now, phase := .loaded }
    else none
  | .access table now =>
    if cache.phase = .idle ∧ cache.clock < now then some (cache.touch table now) else none
  | .update table now =>
    if cache.phase = .idle ∧ cache.clock < now then
      if cache.has table then some (cache.touch table now)
      else some { cache with clock := now, phase := .updating (.new table now) }
    else none
  | .evict sorted =>
    if Sorts cache sorted then
      match cache.phase with
      | .idle | .loaded =>
        some { cache.evictIfFull maxEntries sorted with phase := .idle }
      | .updating cached =>
        some { cache.evictIfFull maxEntries sorted with phase := .inserting cached }
      | .inserting _ => none
    else none
  | .insert =>
    match cache.phase with
    | .inserting cached =>
      some { cache with entries := cache.entries ++ [cached], phase := .idle }
    | _ => none

def machine : Machine Cache Action where
  initial cache := cache = {}
  step := step maxEntries

section Properties

/-- What was evicted last was used before all that was kept. -/
def EvictsOldest : Prop :=
    ∀ removed ∈ cache.evicted, ∀ other ∈ cache.kept, removed.used < other.used

/-- Of any two entries, the one that was used later has a last access time that is later by more
than the clock goes on from the look at the one to the look at the other. -/
def ShowsUse (sorted : List (CachedTableIndex × Nat)) : Prop :=
  ∀ a ∈ sorted, ∀ b ∈ sorted, a.1.used < b.1.used →
    b.2 + a.1.lastAccessTimeSinceStartNs < a.2 + b.1.lastAccessTimeSinceStartNs
deriving Decidable

/-- An eviction that removes something sees the order of the uses, and an entry that is not in the
cache is updated only while there is room for it. -/
def Allowed : Action → Prop
  | .update table _ => cache.has table ∨ cache.entries.length < maxEntries
  | .evict sorted => cache.entries.length ≤ maxEntries ∨ ShowsUse sorted
  | .hit _ | .load _ _ | .access _ _ | .insert => True

instance : (action : Action) → Decidable (Allowed maxEntries cache action)
  | .update _ _ => inferInstanceAs (Decidable (_ ∨ _))
  | .evict _ => inferInstanceAs (Decidable (_ ∨ _))
  | .hit _ | .load _ _ | .access _ _ | .insert => .isTrue trivial

end Properties

variable {maxEntries cache} {next : Cache} {action : Action}

section Uses

/-- The entries, and the one that is still to be inserted. -/
def Cache.all (cache : Cache) : List CachedTableIndex :=
  match cache.phase with
  | .updating cached | .inserting cached => cached :: cache.entries
  | .idle | .loaded => cache.entries

/-- How many entries there may be. -/
def Fits (maxEntries : Nat) (cache : Cache) : Prop :=
  match cache.phase with
  | .idle => cache.entries.length ≤ maxEntries
  | .loaded => cache.entries.length ≤ maxEntries + 1
  | .updating _ | .inserting _ => cache.entries.length < maxEntries

/-- Entries of different tables that were used at different times, none of them after the given
one, and whose last access times are not after their uses. -/
structure Uses (entries : List CachedTableIndex) (clock : Nat) : Prop where
  tables : (entries.map (·.table)).Nodup
  distinct : (entries.map (·.used)).Nodup
  past : ∀ cached ∈ entries, cached.used ≤ clock
  access : ∀ cached ∈ entries, cached.lastAccessTimeSinceStartNs ≤ cached.used

namespace Uses

variable {entries more : List CachedTableIndex} {clock now : Nat}

theorem perm (h : Uses entries clock) (hperm : entries.Perm more) : Uses more clock where
  tables := (hperm.map _).nodup_iff.mp h.tables
  distinct := (hperm.map _).nodup_iff.mp h.distinct
  past := fun cached hmem => h.past cached (hperm.mem_iff.mpr hmem)
  access := fun cached hmem => h.access cached (hperm.mem_iff.mpr hmem)

theorem sublist (h : Uses entries clock) (hsub : more.Sublist entries) : Uses more clock where
  tables := h.tables.sublist (hsub.map _)
  distinct := h.distinct.sublist (hsub.map _)
  past := fun cached hmem => h.past cached (hsub.subset hmem)
  access := fun cached hmem => h.access cached (hsub.subset hmem)

theorem mono (h : Uses entries clock) (hle : clock ≤ now) : Uses entries now :=
  { h with past := fun cached hmem => (h.past cached hmem).trans hle }

/-- A use now is later than all others. -/
theorem cons {cached : CachedTableIndex} (h : Uses entries clock) (hlt : clock < now)
    (hnew : cached.table ∉ entries.map (·.table)) (hused : cached.used = now)
    (haccess : cached.lastAccessTimeSinceStartNs ≤ now) : Uses (cached :: entries) now where
  tables := nodup_cons.mpr ⟨hnew, h.tables⟩
  distinct := by
    refine nodup_cons.mpr ⟨fun hmem => ?_, h.distinct⟩
    obtain ⟨other, hother, hsame⟩ := mem_map.mp hmem
    have hsame : other.used = now := hsame.trans hused
    have hpast := h.past other hother
    omega
  past := by
    intro other hmem
    rcases mem_cons.mp hmem with rfl | hold
    · exact hused.le
    · exact (h.past other hold).trans hlt.le
  access := by
    intro other hmem
    rcases mem_cons.mp hmem with rfl | hold
    · exact hused ▸ haccess
    · exact h.access other hold

theorem map_touch_eq_self {table : TableIndexId} (now : Nat)
    (hother : ∀ cached ∈ entries, cached.table ≠ table) :
    (entries.map fun cached => if cached.table = table then cached.touch now else cached) =
      entries := by
  have hsame : ∀ cached ∈ entries,
      (if cached.table = table then cached.touch now else cached) = id cached :=
    fun cached hmem => if_neg (hother cached hmem)
  rw [map_congr_left hsame, List.map_id]

theorem touch (table : TableIndexId) (h : Uses entries clock) (hlt : clock < now) :
    Uses (entries.map fun cached => if cached.table = table then cached.touch now else cached)
      now := by
  by_cases hthere : ∃ cached ∈ entries, cached.table = table
  · obtain ⟨cached, hcached, rfl⟩ := hthere
    obtain ⟨front, back, rfl⟩ := append_of_mem hcached
    have hmiddle : Uses (cached :: (front ++ back)) clock := h.perm perm_middle
    obtain ⟨hfresh, _⟩ := nodup_cons.mp hmiddle.tables
    have hothers : ∀ other ∈ front ++ back, other.table ≠ cached.table := by
      intro other hother hsame
      exact hfresh (mem_map.mpr ⟨other, hother, hsame⟩)
    have hfront := map_touch_eq_self now
      fun other hother => hothers other (mem_append_left back hother)
    have hback := map_touch_eq_self now
      fun other hother => hothers other (mem_append_right front hother)
    have htouched : Uses (cached.touch now :: (front ++ back)) now := by
      refine (hmiddle.sublist (sublist_cons_self _ _)).cons hlt hfresh rfl ?_
      exact Nat.div_le_self now 1000000
    rw [map_append, map_cons, hfront, hback, if_pos rfl]
    exact htouched.perm perm_middle.symm
  · push Not at hthere
    rw [map_touch_eq_self now hthere]
    exact h.mono hlt.le

end Uses

structure Inv (maxEntries : Nat) (cache : Cache) : Prop where
  uses : Uses cache.all cache.clock
  fits : Fits maxEntries cache
  evictsOldest : EvictsOldest cache

end Uses

section Eviction

variable {sorted : List (CachedTableIndex × Nat)}

/-- What has the longest stale durations was used before the rest. -/
theorem used_lt_of_showsUse (h : Uses cache.entries cache.clock) (hsorts : Sorts cache sorted)
    (hshows : ShowsUse sorted) {removed other : CachedTableIndex}
    (hremoved : removed ∈ (sorted.drop maxEntries).map Prod.fst)
    (hother : other ∈ (sorted.take maxEntries).map Prod.fst) : removed.used < other.used := by
  obtain ⟨hperm, hafter, hstale⟩ := hsorts
  obtain ⟨⟨removed, late⟩, hdropped, rfl⟩ := mem_map.mp hremoved
  obtain ⟨⟨other, early⟩, htaken, rfl⟩ := mem_map.mp hother
  have huses : Uses (sorted.map Prod.fst) cache.clock := h.perm hperm.symm
  have hsplit := take_append_drop maxEntries sorted
  have horder : other.staleDurationNs early ≤ removed.staleDurationNs late := by
    rw [← hsplit] at hstale
    exact (pairwise_append.mp hstale).2.2 _ htaken _ hdropped
  have hdistinct : other.used ≠ removed.used := by
    have hnodup := huses.distinct
    rw [← hsplit, map_append, map_append] at hnodup
    have hdisjoint := (nodup_append.mp hnodup).2.2
    exact hdisjoint _ (mem_map_of_mem (mem_map_of_mem htaken)) _
      (mem_map_of_mem (mem_map_of_mem hdropped))
  have hdroppedMem := mem_of_mem_drop hdropped
  have htakenMem := mem_of_mem_take htaken
  by_contra hle
  have hlater := hshows _ htakenMem _ hdroppedMem (lt_of_le_of_ne (not_lt.mp hle) hdistinct)
  have hreading : cache.clock ≤ late := hafter _ hdroppedMem
  have haccess := huses.access removed (mem_map_of_mem hdroppedMem)
  have hpast := huses.past removed (mem_map_of_mem hdroppedMem)
  unfold CachedTableIndex.staleDurationNs at horder
  dsimp only at hlater
  omega

theorem clock_le_foldl (clock : Nat) :
    clock ≤ sorted.foldl (fun clock reading => max clock reading.2) clock := by
  induction sorted generalizing clock with
  | nil => exact le_rfl
  | cons reading rest ih => exact (le_max_left _ _).trans (ih _)

/-- What is left after an eviction: a part of the entries, no more than the maximum, and the right
ones if the times show the uses. -/
theorem evictIfFull_spec (h : Uses cache.entries cache.clock) (holdest : EvictsOldest cache)
    (hsorts : Sorts cache sorted)
    (hshows : cache.entries.length ≤ maxEntries ∨ ShowsUse sorted) :
    (cache.evictIfFull maxEntries sorted).entries.length ≤ maxEntries ∧
      cache.clock ≤ (cache.evictIfFull maxEntries sorted).clock ∧
      (∃ part, part.Sublist (sorted.map Prod.fst) ∧
        (cache.evictIfFull maxEntries sorted).entries.Perm part) ∧
      EvictsOldest (cache.evictIfFull maxEntries sorted) := by
  have hlength : sorted.length = cache.entries.length := by
    rw [← hsorts.1.length_eq, length_map]
  unfold Cache.evictIfFull
  split
  · rename_i hroom
    exact ⟨hroom.le, le_rfl, ⟨_, .refl _, hsorts.1.symm⟩, holdest⟩
  · refine ⟨?_, clock_le_foldl _, ⟨_, (take_sublist _ _).map _, .refl _⟩, ?_⟩
    · simp only [length_map, length_take]
      exact min_le_left _ _
    · intro removed hremoved other hother
      rcases hshows with hfew | hshows
      · have hnone : sorted.drop maxEntries = [] :=
          drop_eq_nil_of_le (by omega)
        simp [hnone] at hremoved
      · exact used_lt_of_showsUse h hsorts hshows hremoved hother

end Eviction

namespace Inv

variable {table : TableIndexId} {now : Nat} {sorted : List (CachedTableIndex × Nat)}

theorem of_idle (hidle : cache.phase = .idle) (huses : Uses cache.entries cache.clock)
    (hlength : cache.entries.length ≤ maxEntries) (holdest : EvictsOldest cache) :
    Inv maxEntries cache := by
  refine ⟨?_, ?_, holdest⟩
  · rwa [Cache.all, hidle]
  · rwa [Fits, hidle]

section

variable (h : Inv maxEntries cache)
include h

theorem uses_entries : Uses cache.entries cache.clock := by
  have huses := h.uses
  unfold Cache.all at huses
  cases hphase : cache.phase with
  | idle => simpa [hphase] using huses
  | loaded => simpa [hphase] using huses
  | updating cached =>
    simp only [hphase] at huses
    exact huses.sublist (sublist_cons_self _ _)
  | inserting cached =>
    simp only [hphase] at huses
    exact huses.sublist (sublist_cons_self _ _)

theorem length_of_idle (hidle : cache.phase = .idle) :
    cache.entries.length ≤ maxEntries := by
  have hfits := h.fits
  rwa [Fits, hidle] at hfits

theorem touch (hidle : cache.phase = .idle) (hlt : cache.clock < now) :
    Inv maxEntries (cache.touch table now) := by
  refine .of_idle hidle (h.uses_entries.touch table hlt) ?_ h.evictsOldest
  simpa [Cache.touch] using h.length_of_idle hidle

theorem load (hidle : cache.phase = .idle) (hlt : cache.clock < now)
    (hnew : ¬ cache.has table) :
    Inv maxEntries { cache with
      entries := cache.entries ++ [.new table now], clock := now, phase := .loaded } where
  uses := by
    have hcons : Uses (.new table now :: cache.entries) now :=
      h.uses_entries.cons hlt hnew rfl le_rfl
    exact hcons.perm (perm_append_singleton _ _).symm
  fits := by
    have hlength := h.length_of_idle hidle
    simpa [Fits] using hlength
  evictsOldest := h.evictsOldest

theorem update (hlt : cache.clock < now) (hnew : ¬ cache.has table)
    (hroom : cache.entries.length < maxEntries) :
    Inv maxEntries { cache with clock := now, phase := .updating (.new table now) } where
  uses := h.uses_entries.cons hlt hnew rfl le_rfl
  fits := hroom
  evictsOldest := h.evictsOldest

theorem evict (hsorts : Sorts cache sorted)
    (hshows : cache.entries.length ≤ maxEntries ∨ ShowsUse sorted) :
    Inv maxEntries { cache.evictIfFull maxEntries sorted with phase := .idle } := by
  obtain ⟨hlength, hclock, ⟨part, hpart, hperm⟩, holdest⟩ :=
    evictIfFull_spec h.uses_entries h.evictsOldest hsorts hshows
  have huses : Uses part cache.clock := (h.uses_entries.perm hsorts.1.symm).sublist hpart
  exact .of_idle rfl ((huses.perm hperm.symm).mono hclock) hlength holdest

end

variable {cached : CachedTableIndex}

/-- An update of an entry that is not there evicts nothing if there is room. -/
theorem evict_updating (h : Inv maxEntries cache)
    (hphase : cache.phase = .updating cached) :
    Inv maxEntries { cache.evictIfFull maxEntries sorted with phase := .inserting cached } := by
  have hfits := h.fits
  have huses := h.uses
  rw [Fits, hphase] at hfits
  rw [Cache.all, hphase] at huses
  have hsame : cache.evictIfFull maxEntries sorted = cache := if_pos hfits
  rw [hsame]
  exact ⟨huses, hfits, h.evictsOldest⟩

theorem insert (h : Inv maxEntries cache)
    (hphase : cache.phase = .inserting cached) :
    Inv maxEntries { cache with entries := cache.entries ++ [cached], phase := .idle } := by
  have hfits := h.fits
  have huses := h.uses
  rw [Fits, hphase] at hfits
  rw [Cache.all, hphase] at huses
  refine .of_idle rfl (huses.perm (perm_append_singleton _ _).symm) ?_ h.evictsOldest
  rw [length_append]
  exact hfits

theorem step (h : Inv maxEntries cache) (hallowed : Allowed maxEntries cache action)
    (hstep : TableIndexCache.step maxEntries cache action = some next) : Inv maxEntries next := by
  cases action with
  | hit table =>
    simp only [TableIndexCache.step, ite_none_right_eq_some] at hstep
    exact some.inj hstep.2 ▸ h
  | load table now =>
    simp only [TableIndexCache.step, ite_none_right_eq_some] at hstep
    obtain ⟨⟨hidle, hlt, hnew⟩, hnext⟩ := hstep
    exact some.inj hnext ▸ h.load hidle hlt hnew
  | access table now =>
    simp only [TableIndexCache.step, ite_none_right_eq_some] at hstep
    obtain ⟨⟨hidle, hlt⟩, hnext⟩ := hstep
    exact some.inj hnext ▸ h.touch hidle hlt
  | update table now =>
    simp only [TableIndexCache.step, ite_none_right_eq_some] at hstep
    obtain ⟨⟨hidle, hlt⟩, hnext⟩ := hstep
    split at hnext
    · exact some.inj hnext ▸ h.touch hidle hlt
    · rename_i hnew
      exact some.inj hnext ▸ h.update hlt hnew (hallowed.resolve_left hnew)
  | evict sorted =>
    simp only [TableIndexCache.step, ite_none_right_eq_some] at hstep
    obtain ⟨hsorts, hnext⟩ := hstep
    cases hphase : cache.phase with
    | idle =>
      rw [hphase] at hnext
      exact some.inj hnext ▸ h.evict hsorts hallowed
    | loaded =>
      rw [hphase] at hnext
      exact some.inj hnext ▸ h.evict hsorts hallowed
    | updating cached =>
      rw [hphase] at hnext
      exact some.inj hnext ▸ h.evict_updating hphase
    | inserting cached =>
      rw [hphase] at hnext
      exact nomatch hnext
  | insert =>
    simp only [TableIndexCache.step] at hstep
    split at hstep
    · rename_i hphase
      exact some.inj hstep ▸ h.insert hphase
    · exact nomatch hstep

theorem initially : Inv maxEntries {} :=
  .of_idle rfl ⟨nodup_nil, nodup_nil, by simp, by simp⟩ (Nat.zero_le _)
    (by simp [EvictsOldest])

end Inv

theorem initial_reachable (maxEntries : Nat) (allowed : Cache → Action → Prop) :
    (machine maxEntries).Reachable allowed {} := .initial rfl

end TableIndexCache

end RefluxDb.Write
