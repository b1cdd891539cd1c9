import Mathlib.Data.Set.Insert
import Mathlib.Data.List.Perm.Basic

/-! Reading a growing feed behind a cursor.

A consumer lists the feed, keeps the entries its cursor has not passed, and takes them one after
the other, moving the cursor over each entry it takes. The cursor stands for everything at or
behind some entries of the feed, so it passes entries the consumer has never seen. Whether
nothing is missed depends on how the feed grows and on what is left out of a listing. -/

namespace RefluxDb.Library

open List

/-- The entries of a feed, with what lies at or behind an entry, and cursors over them. -/
structure CursorFeed (Entry Cursor : Type*) where
  behind : Entry → Entry → Prop
  passed : Cursor → Entry → Prop
  advance : Cursor → Entry → Cursor
  behind_self : ∀ entry, behind entry entry
  passed_advance : ∀ {cursor entry other}, ¬passed cursor entry →
    (passed (advance cursor entry) other ↔ passed cursor other ∨ behind other entry)

namespace CursorFeed

variable {Entry Cursor : Type*} {feed : CursorFeed Entry Cursor} {cursor : Cursor}
variable {published taken : Set Entry} {pending rest : List Entry} {entry : Entry}

/-- The entries to take are ahead of the cursor, each ahead of the ones before it. -/
structure Ahead (feed : CursorFeed Entry Cursor) (cursor : Cursor) (pending : List Entry) :
    Prop where
  unpassed : ∀ entry ∈ pending, ¬feed.passed cursor entry
  ascending : pending.Pairwise fun earlier later => ¬feed.behind later earlier

/-- Nothing is missed: what the cursor has passed was taken, and what the entries to take would
make it pass was taken or will be. -/
structure Complete (feed : CursorFeed Entry Cursor) (published taken : Set Entry)
    (cursor : Cursor) (pending : List Entry) : Prop where
  passed_taken : ∀ entry ∈ published, feed.passed cursor entry → entry ∈ taken
  closed : ∀ next ∈ pending, ∀ entry ∈ published, feed.behind entry next →
    entry ∈ taken ∨ entry ∈ pending

/-- The consumer takes only published entries, and its cursor passes what it takes and, among the
entries that may ever be published, only what is behind something it took. -/
structure Grounded (feed : CursorFeed Entry Cursor) (publishable published taken : Set Entry)
    (cursor : Cursor) (pending : List Entry) : Prop where
  pending_published : ∀ entry ∈ pending, entry ∈ published
  taken_published : ∀ entry ∈ taken, entry ∈ published
  taken_passed : ∀ entry ∈ taken, feed.passed cursor entry
  passed_behind : ∀ entry ∈ publishable, feed.passed cursor entry →
    ∃ last ∈ taken, feed.behind entry last

theorem Ahead.nil : feed.Ahead cursor [] := ⟨by simp, List.Pairwise.nil⟩

theorem Ahead.take (hahead : feed.Ahead cursor (entry :: rest)) :
    feed.Ahead (feed.advance cursor entry) rest := by
  obtain ⟨hunpassed, hascending⟩ := hahead
  simp only [forall_mem_cons, pairwise_cons] at hunpassed hascending
  refine ⟨fun later hlater hpassed => ?_, hascending.2⟩
  rcases (feed.passed_advance hunpassed.1).mp hpassed with hold | hbehind
  · exact hunpassed.2 later hlater hold
  · exact hascending.1 later hlater hbehind

/-- Taking the next entry misses nothing. -/
theorem Complete.take (hcomplete : feed.Complete published taken cursor (entry :: rest))
    (hahead : feed.Ahead cursor (entry :: rest)) :
    feed.Complete published (insert entry taken) (feed.advance cursor entry) rest := by
  obtain ⟨hunpassed, hascending⟩ := hahead
  simp only [forall_mem_cons, pairwise_cons] at hunpassed hascending
  have hsettle : ∀ next ∈ entry :: rest, ∀ other ∈ published, feed.behind other next →
      other ∈ insert entry taken ∨ other ∈ rest := by
    intro next hnext other hother hbehind
    rcases hcomplete.closed next hnext other hother hbehind with htaken | hpending
    · exact .inl (Set.mem_insert_of_mem _ htaken)
    · rcases mem_cons.mp hpending with rfl | hrest
      · exact .inl (Set.mem_insert _ _)
      · exact .inr hrest
  constructor
  · intro other hother hpassed
    rcases (feed.passed_advance hunpassed.1).mp hpassed with hold | hbehind
    · exact Set.mem_insert_of_mem _ (hcomplete.passed_taken other hother hold)
    · rcases hsettle entry (by simp) other hother hbehind with htaken | hrest
      · exact htaken
      · exact absurd hbehind (hascending.1 other hrest)
  · intro next hnext
    exact hsettle next (mem_cons_of_mem _ hnext)

variable {publishable : Set Entry}

theorem Grounded.take (hgrounded : feed.Grounded publishable published taken cursor (entry :: rest))
    (hunpassed : ¬feed.passed cursor entry) :
    feed.Grounded publishable published (insert entry taken) (feed.advance cursor entry) rest := by
  constructor
  · intro other hother
    exact hgrounded.pending_published other (mem_cons_of_mem _ hother)
  · rintro other (rfl | hother)
    · exact hgrounded.pending_published other (by simp)
    · exact hgrounded.taken_published other hother
  · rintro other (rfl | hother)
    · exact (feed.passed_advance hunpassed).mpr (.inr (feed.behind_self other))
    · exact (feed.passed_advance hunpassed).mpr (.inl (hgrounded.taken_passed other hother))
  · intro other hother hpassed
    rcases (feed.passed_advance hunpassed).mp hpassed with hold | hbehind
    · obtain ⟨last, hlast, hbehind⟩ := hgrounded.passed_behind other hother hold
      exact ⟨last, Set.mem_insert_of_mem _ hlast, hbehind⟩
    · exact ⟨entry, Set.mem_insert _ _, hbehind⟩

variable {loaded : List Entry}

section

variable (hgrounded : feed.Grounded publishable published taken cursor pending)
include hgrounded

theorem Grounded.load (hloaded : ∀ entry ∈ loaded, entry ∈ published) :
    feed.Grounded publishable published taken cursor loaded :=
  { hgrounded with pending_published := hloaded }

theorem Grounded.publish (entry : Entry) :
    feed.Grounded publishable (insert entry published) taken cursor pending :=
  { hgrounded with
    pending_published := fun other hother =>
      Set.mem_insert_of_mem _ (hgrounded.pending_published other hother)
    taken_published := fun other hother =>
      Set.mem_insert_of_mem _ (hgrounded.taken_published other hother) }

/-- An entry ahead of every published one is ahead of the cursor and of all entries to take. -/
theorem Grounded.ahead_of_published
    (hpublishable : entry ∈ publishable) (hahead : ∀ other ∈ published, ¬feed.behind entry other) :
    ¬feed.passed cursor entry ∧ ∀ next ∈ pending, ¬feed.behind entry next := by
  constructor
  · intro hpassed
    obtain ⟨last, hlast, hbehind⟩ := hgrounded.passed_behind entry hpublishable hpassed
    exact hahead last (hgrounded.taken_published last hlast) hbehind
  · intro next hnext
    exact hahead next (hgrounded.pending_published next hnext)

end

/-- An entry published ahead of the cursor and of all entries to take is not missed. -/
theorem Complete.publish (hcomplete : feed.Complete published taken cursor pending)
    (hunpassed : ¬feed.passed cursor entry) (hahead : ∀ next ∈ pending, ¬feed.behind entry next) :
    feed.Complete (insert entry published) taken cursor pending := by
  constructor
  · rintro other (rfl | hother) hpassed
    · exact absurd hpassed hunpassed
    · exact hcomplete.passed_taken other hother hpassed
  · rintro next hnext other (rfl | hother) hbehind
    · exact absurd hbehind (hahead next hnext)
    · exact hcomplete.closed next hnext other hother hbehind

/-- A listing that reads no entry beyond one it could not read misses nothing. -/
theorem Complete.load (hcomplete : feed.Complete published taken cursor [])
    (hlisted : ∀ next ∈ pending, ∀ entry ∈ published, ¬feed.passed cursor entry →
      feed.behind entry next → entry ∈ pending) :
    feed.Complete published taken cursor pending := by
  refine ⟨hcomplete.passed_taken, fun next hnext other hother hbehind => ?_⟩
  by_cases hpassed : feed.passed cursor other
  · exact .inl (hcomplete.passed_taken other hother hpassed)
  · exact .inr (hlisted next hnext other hother hpassed hbehind)

theorem Complete.drop (hcomplete : feed.Complete published taken cursor pending) :
    feed.Complete published taken cursor [] :=
  ⟨hcomplete.passed_taken, by simp⟩

/-- An entry that the cursor has passed and that is neither taken nor about to be. -/
structure Missed (feed : CursorFeed Entry Cursor) (taken : Set Entry) (cursor : Cursor)
    (pending : List Entry) (entry : Entry) : Prop where
  passed : feed.passed cursor entry
  notMem_taken : entry ∉ taken
  notMem_pending : entry ∉ pending

/-- A missed entry stays missed when another is taken. -/
theorem Missed.take {next : Entry} (hmissed : feed.Missed taken cursor (next :: rest) entry)
    (hunpassed : ¬feed.passed cursor next) :
    feed.Missed (insert next taken) (feed.advance cursor next) rest entry where
  passed := (feed.passed_advance hunpassed).mpr (.inl hmissed.passed)
  notMem_taken := by
    have hne : entry ≠ next := fun h => hmissed.notMem_pending (by simp [h])
    simp [hne, hmissed.notMem_taken]
  notMem_pending hmem := hmissed.notMem_pending (mem_cons_of_mem _ hmem)

/-- A listing of unpassed entries does not bring a missed one back. -/
theorem Missed.load (hmissed : feed.Missed taken cursor pending entry)
    (hunpassed : ∀ next ∈ loaded, ¬feed.passed cursor next) :
    feed.Missed taken cursor loaded entry where
  passed := hmissed.passed
  notMem_taken := hmissed.notMem_taken
  notMem_pending hmem := hunpassed entry hmem hmissed.passed

end CursorFeed

end RefluxDb.Library
