import RefluxDb.Library.Lists
import RefluxDb.Write.WalTail

/-! Whether the tail has every WAL file that the last successful tick could see.

The cursor of a tick is the largest file in the tail. That is right as long as the tail has no hole
below it: when files come into the store in the order of their numbers, they are read in that order,
and each file that is added has all earlier ones before it. A read whose bytes do not verify is
passed over, and the cursor goes beyond the file for good; so it does when the flush of an earlier
file is slower than that of a later one. -/

namespace RefluxDb.Write.WalTail

open List RefluxDb.Library

section Definitions

/-- A file that is in the store, verifies, and is above the mark. -/
def Due (w : World) (number : Nat) : Prop :=
  ⟨number, true⟩ ∈ w.wal ∧ w.persistedHighWater < number

/-- The tail has every such file that the last successful tick listed. -/
def Complete (w : World) : Prop := ∀ number ∈ w.seen, Due w number → number ∈ w.files

/-- The files that verify and are above the mark. -/
def unpersisted (w : World) : List WalObject :=
  w.wal.filter fun object => object.intact && decide (w.persistedHighWater < object.number)

/-- There are never more such files than the tail may have. -/
def FitsCap (maxFiles : Nat) (w : World) : Action → Prop
  | .putFile _ true => (unpersisted w).length < max maxFiles 1
  | _ => True

/-- Bytes that do not verify are read only of files that never verify. -/
def ReadsIntact (w : World) : Action → Prop
  | .next .unverified => ∀ tick ∈ w.tick,
      match tick with
      | .reading cursor highWater _ (number :: _) =>
        number ≤ cursor ∨ number ≤ highWater ∨ ⟨number, true⟩ ∉ w.wal
      | _ => True
  | _ => True

/-- Files become visible in the order of their numbers, and the oldest are deleted first. -/
def InOrder (w : World) : Action → Prop
  | .putFile number _ => w.lastPut < number
  | .deleteFile number => ∀ object ∈ w.wal, number ≤ object.number
  | _ => True

instance (maxFiles : Nat) (w : World) : (action : Action) → Decidable (FitsCap maxFiles w action)
  | .putFile _ true => inferInstanceAs (Decidable (_ < _))
  | .putFile _ false | .deleteFile _ | .startTick | .readHighWater | .listPaths | .next _
  | .failTick | .endTick | .raise _ | .drop _ => .isTrue trivial

instance (w : World) : (action : Action) → Decidable (ReadsIntact w action)
  | .next .unverified => decidableNext w.tick fun _ _ _ => inferInstanceAs (Decidable (_ ∨ _))
  | .next .verified | .putFile _ _ | .deleteFile _ | .startTick | .readHighWater | .listPaths
  | .failTick | .endTick | .raise _ | .drop _ => .isTrue trivial

instance (w : World) : (action : Action) → Decidable (InOrder w action)
  | .putFile _ _ => inferInstanceAs (Decidable (_ < _))
  | .deleteFile number => inferInstanceAs (Decidable (∀ object ∈ w.wal, number ≤ object.number))
  | .startTick | .readHighWater | .listPaths | .next _ | .failTick | .endTick | .raise _
  | .drop _ => .isTrue trivial

def Allowed (maxFiles : Nat) (w : World) (action : Action) : Prop :=
  (FitsCap maxFiles w action ∧ InOrder w action) ∧ ReadsIntact w action
deriving Decidable

end Definitions

section Cap

variable {files : List Nat} {maxFiles number other : Nat}

theorem sorted_inserted (h : files.Pairwise (· < ·)) :
    ((files.filter (· ≠ number)).orderedInsert (· ≤ ·) number).Pairwise (· < ·) := by
  have hfiltered : (files.filter (· ≠ number)).Pairwise (· < ·) := h.filter _
  have hsorted : (files.filter (· ≠ number)).Pairwise (· ≤ ·) :=
    hfiltered.imp fun hlt => hlt.le
  have hnodup : ((files.filter (· ≠ number)).orderedInsert (· ≤ ·) number).Nodup := by
    rw [(perm_orderedInsert _ _ _).nodup_iff, nodup_cons]
    exact ⟨by simp, hfiltered.imp fun hlt => hlt.ne⟩
  exact (List.Pairwise.orderedInsert _ _ hsorted).and hnodup |>.imp
    fun ⟨hle, hne⟩ => lt_of_le_of_ne hle hne

/-- Of a sorted list cut down to its last `maxFiles`, an element is missing only when more than
that many are at least as large. -/
theorem mem_drop_of_length_le {items : List Nat} (hsorted : items.Pairwise (· < ·))
    (hmem : other ∈ items) (hfew : (items.filter (other ≤ ·)).length ≤ maxFiles) :
    other ∈ items.drop (items.length - maxFiles) := by
  by_contra hdropped
  have hsplit := take_append_drop (items.length - maxFiles) items
  have hfront : other ∈ items.take (items.length - maxFiles) := by
    rw [← hsplit] at hmem
    exact (mem_append.mp hmem).resolve_right hdropped
  have hlater : ∀ later ∈ items.drop (items.length - maxFiles), other < later := by
    rw [← hsplit] at hsorted
    exact (pairwise_append.mp hsorted).2.2 other hfront
  have hnonempty : 0 < items.length - maxFiles := by
    by_contra hzero
    rw [Nat.eq_zero_of_not_pos hzero] at hfront
    exact absurd hfront not_mem_nil
  have hcount : (items.filter (other ≤ ·)).length =
      ((items.take (items.length - maxFiles)).filter (other ≤ ·)).length +
        ((items.drop (items.length - maxFiles)).filter (other ≤ ·)).length := by
    rw [← length_append, ← filter_append, hsplit]
  have hfirst : 0 < ((items.take (items.length - maxFiles)).filter (other ≤ ·)).length :=
    length_pos_of_mem (mem_filter.mpr ⟨hfront, by simp⟩)
  have hrest : (items.drop (items.length - maxFiles)).filter (other ≤ ·) =
      items.drop (items.length - maxFiles) := by
    rw [filter_eq_self]
    intro later hmem
    exact decide_eq_true (hlater later hmem).le
  rw [hrest, length_drop] at hcount
  omega

theorem mem_inserted :
    other ∈ (files.filter (· ≠ number)).orderedInsert (· ≤ ·) number ↔
      other = number ∨ other ∈ files := by
  rw [mem_orderedInsert, mem_filter]
  constructor
  · rintro (hsame | ⟨hold, _⟩)
    · exact .inl hsame
    · exact .inr hold
  · rintro (hsame | hold)
    · exact .inl hsame
    · by_cases hne : other = number
      · exact .inl hne
      · exact .inr ⟨hold, by simpa using hne⟩

end Cap

section Invariant

variable {maxFiles : Nat} {w next : World} {action : Action} {number : Nat}

/-- What a tick that has read the cursor relies on. -/
structure Reads (w : World) (cursor : Nat) : Prop where
  cursor_put : cursor ≤ w.lastPut
  below : ∀ number, Due w number → number ≤ cursor → number ∈ w.files

/-- What a tick that goes through its listing relies on: the files it has passed are in the tail if
they are due, and nothing before a listed file is missing from the listing. -/
structure GoesThrough (w : World) (passed rest : List Nat) : Prop where
  sorted : (passed ++ rest).Pairwise (· < ·)
  put : ∀ number ∈ passed ++ rest, number ≤ w.lastPut
  listed : ∀ object ∈ w.wal, object.number ∈ passed ++ rest ∨
    ∀ number ∈ passed ++ rest, number < object.number
  passed : ∀ number ∈ passed, Due w number → number ∈ w.files

def Runs (w : World) : Tick → Prop
  | .started cursor => Reads w cursor
  | .marked cursor highWater => Reads w cursor ∧ highWater ≤ w.persistedHighWater
  | .reading cursor highWater passed rest =>
    Reads w cursor ∧ highWater ≤ w.persistedHighWater ∧ GoesThrough w passed rest

structure Inv (maxFiles : Nat) (w : World) : Prop where
  sorted : w.wal.Pairwise fun a b => a.number < b.number
  put : ∀ object ∈ w.wal, object.number ≤ w.lastPut
  files_sorted : w.files.Pairwise (· < ·)
  files_put : ∀ number ∈ w.files, number ≤ w.lastPut
  origin : ∀ number ∈ w.files, ⟨number, true⟩ ∈ w.wal ∨ ∀ object ∈ w.wal, number < object.number
  evicting : ∀ seq ∈ w.evicting, seq ≤ w.persistedHighWater
  fits : (unpersisted w).length ≤ maxFiles
  gapless : ∀ number, Due w number → ∀ other ∈ w.files, number ≤ other → number ∈ w.files
  seen_put : ∀ number ∈ w.seen, number ≤ w.lastPut
  complete : Complete w
  tick : ∀ tick ∈ w.tick, Runs w tick

/-- A step that makes nothing due but new files, and keeps what is due in the tail. -/
structure Keeps (w next : World) : Prop where
  lastPut : w.lastPut ≤ next.lastPut
  mark : w.persistedHighWater ≤ next.persistedHighWater
  objects : ∀ object ∈ next.wal, object ∈ w.wal ∨ w.lastPut < object.number
  files : ∀ number, Due next number → number ∈ w.files → number ∈ next.files

namespace Keeps

section

variable (h : Keeps w next)
include h

theorem due (hdue : Due next number) (hput : number ≤ w.lastPut) :
    Due w number := by
  rcases h.objects _ hdue.1 with hold | hnew
  · exact ⟨hold, h.mark.trans_lt hdue.2⟩
  · exact absurd hput (not_le.mpr hnew)

theorem complete (hinv : Inv maxFiles w) (hseen : next.seen = w.seen) :
    Complete next := by
  intro number hnumber hdue
  rw [hseen] at hnumber
  exact h.files number hdue
    (hinv.complete number hnumber (h.due hdue (hinv.seen_put number hnumber)))

theorem gapless (hinv : Inv maxFiles w) (hfiles : next.files = w.files) :
    ∀ number, Due next number → ∀ other ∈ next.files, number ≤ other → number ∈ next.files := by
  rw [hfiles]
  intro number hdue other hother hle
  have hput := hle.trans (hinv.files_put other hother)
  exact hinv.gapless number (h.due hdue hput) other hother hle

theorem reads {cursor : Nat} (hreads : Reads w cursor) : Reads next cursor where
  cursor_put := hreads.cursor_put.trans h.lastPut
  below := by
    intro number hdue hle
    have hput := hle.trans hreads.cursor_put
    exact h.files number hdue (hreads.below number (h.due hdue hput) hle)

theorem goesThrough {passed rest : List Nat}
    (hgoes : GoesThrough w passed rest) : GoesThrough next passed rest where
  sorted := hgoes.sorted
  put := fun number hnumber => (hgoes.put number hnumber).trans h.lastPut
  listed := by
    intro object hobject
    rcases h.objects object hobject with hold | hnew
    · exact hgoes.listed object hold
    · exact .inr fun number hnumber => (hgoes.put number hnumber).trans_lt hnew
  passed := by
    intro number hnumber hdue
    have hput := hgoes.put number (mem_append_left _ hnumber)
    exact h.files number hdue (hgoes.passed number hnumber (h.due hdue hput))

theorem runs {tick : Tick} (hruns : Runs w tick) : Runs next tick := by
  cases tick with
  | started cursor => exact h.reads hruns
  | marked cursor highWater => exact ⟨h.reads hruns.1, hruns.2.trans h.mark⟩
  | reading cursor highWater passed rest =>
    exact ⟨h.reads hruns.1, hruns.2.1.trans h.mark, h.goesThrough hruns.2.2⟩

theorem ticks (hinv : Inv maxFiles w) (htick : next.tick = w.tick) :
    ∀ tick ∈ next.tick, Runs next tick := by
  rw [htick]
  exact fun tick hmem => h.runs (hinv.tick tick hmem)

end

end Keeps

namespace Inv

section

variable (h : Inv maxFiles w)
include h

theorem insertFile_eq {intact : Bool} (hnew : w.lastPut < number) :
    insertFile w number intact = w.wal ++ [⟨number, intact⟩] := by
  have hbefore : ∀ object ∈ w.wal, object.number < number := fun object hobject =>
    (h.put object hobject).trans_lt hnew
  have hfirst : w.wal.filter (·.number < number) = w.wal :=
    filter_eq_self.mpr fun object hobject => decide_eq_true (hbefore object hobject)
  have hlast : w.wal.filter (number < ·.number) = [] :=
    filter_eq_nil_iff.mpr fun object hobject => by simp [(hbefore object hobject).le]
  rw [insertFile, hfirst, hlast]

theorem putFile {intact : Bool} (hnew : w.lastPut < number)
    (hfits : intact = true → (unpersisted w).length < maxFiles) :
    Inv maxFiles { w with wal := w.wal ++ [⟨number, intact⟩], lastPut := number } := by
  have hkeeps : Keeps w { w with wal := w.wal ++ [⟨number, intact⟩], lastPut := number } := by
    refine ⟨hnew.le, le_rfl, ?_, fun _ _ hmem => hmem⟩
    intro object hobject
    rcases mem_concat.mp hobject with hold | hlast
    · exact .inl hold
    · rw [hlast]
      exact .inr hnew
  constructor
  case sorted =>
    refine pairwise_concat.mpr ⟨h.sorted, fun object hobject => ?_⟩
    exact (h.put object hobject).trans_lt hnew
  case put =>
    intro object hobject
    rcases mem_concat.mp hobject with hold | hlast
    · exact (h.put object hold).trans hnew.le
    · rw [hlast]
  case files_sorted => exact h.files_sorted
  case files_put => exact fun other hother => (h.files_put other hother).trans hnew.le
  case origin =>
    intro other hother
    rcases h.origin other hother with hthere | hbefore
    · exact .inl (mem_append_left _ hthere)
    · refine .inr fun object hobject => ?_
      rcases mem_concat.mp hobject with hold | hlast
      · exact hbefore object hold
      · rw [hlast]
        exact (h.files_put other hother).trans_lt hnew
  case evicting => exact h.evicting
  case fits =>
    simp only [unpersisted, filter_append, length_append]
    cases intact with
    | false => simpa [unpersisted] using h.fits
    | true =>
      have hroom := hfits rfl
      have hone : ([⟨number, true⟩].filter fun object : WalObject =>
          object.intact && decide (w.persistedHighWater < object.number)).length ≤ 1 :=
        (length_filter_le _ _)
      unfold unpersisted at hroom
      omega
  case gapless => exact hkeeps.gapless h rfl
  case seen_put => exact fun seen hseen => (h.seen_put seen hseen).trans hnew.le
  case complete => exact hkeeps.complete h rfl
  case tick => exact hkeeps.ticks h rfl

theorem deleteFile (holdest : ∀ object ∈ w.wal, number ≤ object.number) :
    Inv maxFiles { w with wal := w.wal.filter (·.number ≠ number) } := by
  have hsub : ∀ object ∈ w.wal.filter (·.number ≠ number), object ∈ w.wal := fun _ hobject =>
    (mem_filter.mp hobject).1
  have hkeeps : Keeps w { w with wal := w.wal.filter (·.number ≠ number) } :=
    ⟨le_rfl, le_rfl, fun object hobject => .inl (hsub object hobject), fun _ _ hmem => hmem⟩
  have horigin : ∀ other ∈ w.files, ⟨other, true⟩ ∈ w.wal.filter (·.number ≠ number) ∨
      ∀ object ∈ w.wal.filter (·.number ≠ number), other < object.number := by
    intro other hother
    rcases h.origin other hother with hthere | hbefore
    · by_cases hsame : other = number
      · -- a file whose object was the oldest is before all that remain
        subst hsame
        refine .inr fun object hobject => ?_
        obtain ⟨hmem, hne⟩ := mem_filter.mp hobject
        exact lt_of_le_of_ne (holdest object hmem) (Ne.symm (of_decide_eq_true hne))
      · exact .inl (mem_filter.mpr ⟨hthere, decide_eq_true hsame⟩)
    · exact .inr fun object hobject => hbefore object (hsub object hobject)
  exact { h with
    sorted := h.sorted.filter _
    put := fun object hobject => h.put object (hsub object hobject)
    origin := horigin
    fits := (filter_sublist.filter _).length_le.trans h.fits
    gapless := hkeeps.gapless h rfl
    complete := hkeeps.complete h rfl
    tick := hkeeps.ticks h rfl }

/-- The steps that only change the tick. -/
theorem withTick {tick : Option Tick}
    (htick : ∀ running ∈ tick, Runs w running) : Inv maxFiles { w with tick := tick } :=
  { h with
    tick := fun running hrunning => by
      have hkeeps : Keeps w { w with tick := tick } :=
        ⟨le_rfl, le_rfl, fun _ hobject => .inl hobject, fun _ _ hmem => hmem⟩
      exact hkeeps.runs (htick running hrunning) }

/-- What is due and not beyond the cursor is in the tail. -/
theorem reads_cursor : Reads w (cursor w.files) := by
  unfold cursor
  cases hlast : w.files.getLast? with
  | none =>
    refine ⟨Nat.zero_le _, fun number hdue hle => ?_⟩
    have := hdue.2
    simp only [Option.getD_none] at hle
    omega
  | some last =>
    have hmem : last ∈ w.files := mem_of_getLast? hlast
    exact ⟨h.files_put last hmem, fun number hdue hle => h.gapless number hdue last hmem hle⟩

theorem goesThrough_listing :
    GoesThrough w [] (w.wal.map (·.number)) where
  sorted := pairwise_map.mpr h.sorted
  put := by
    intro number hnumber
    obtain ⟨object, hobject, rfl⟩ := mem_map.mp hnumber
    exact h.put object hobject
  listed := fun object hobject => .inl (mem_map_of_mem hobject)
  passed := by simp

theorem raise {seq : Nat} (hlt : w.persistedHighWater < seq) :
    Inv maxFiles { w with persistedHighWater := seq, evicting := seq :: w.evicting } := by
  have hkeeps : Keeps w { w with persistedHighWater := seq, evicting := seq :: w.evicting } :=
    ⟨le_rfl, hlt.le, fun _ hobject => .inl hobject, fun _ _ hmem => hmem⟩
  have hevicting : ∀ other ∈ seq :: w.evicting, other ≤ seq := by
    intro other hother
    rcases mem_cons.mp hother with rfl | hold
    · exact le_rfl
    · exact (h.evicting other hold).trans hlt.le
  have hfewer : (unpersisted { w with
      persistedHighWater := seq, evicting := seq :: w.evicting }).Sublist (unpersisted w) := by
    refine monotone_filter_right w.wal fun object hobject => ?_
    simp only [Bool.and_eq_true, decide_eq_true_eq] at hobject ⊢
    exact ⟨hobject.1, hlt.trans hobject.2⟩
  exact { h with
    evicting := hevicting
    fits := hfewer.length_le.trans h.fits
    gapless := hkeeps.gapless h rfl
    complete := hkeeps.complete h rfl
    tick := hkeeps.ticks h rfl }

theorem drop {index seq : Nat} (hseq : w.evicting[index]? = some seq) :
    Inv maxFiles { w with
      evicting := w.evicting.eraseIdx index
      files := w.files.filter fun number => seq < number } := by
  have hle : seq ≤ w.persistedHighWater := h.evicting seq (mem_of_getElem? hseq)
  have hkeeps : Keeps w { w with
      evicting := w.evicting.eraseIdx index
      files := w.files.filter fun number => seq < number } := by
    refine ⟨le_rfl, le_rfl, fun _ hobject => .inl hobject, ?_⟩
    intro number hdue hmem
    exact mem_filter.mpr ⟨hmem, decide_eq_true (hle.trans_lt hdue.2)⟩
  have hsub : ∀ number ∈ w.files.filter (fun number => seq < number), number ∈ w.files :=
    fun _ hmem => (mem_filter.mp hmem).1
  exact { h with
    files_sorted := h.files_sorted.filter _
    files_put := fun number hmem => h.files_put number (hsub number hmem)
    origin := fun number hmem => h.origin number (hsub number hmem)
    evicting := fun other hother => h.evicting other (mem_of_mem_eraseIdx hother)
    gapless := fun due hdue other hother hle =>
      hkeeps.files due hdue (h.gapless due hdue other (hsub other hother) hle)
    complete := hkeeps.complete h rfl
    tick := hkeeps.ticks h rfl }

/-- A file that is due, and in the tail or just added to it, is not dropped for the cap: the files
from it on are all due, and there are at most `maxFiles` of those. -/
theorem mem_addFile {other : Nat} (hobject : ⟨number, true⟩ ∈ w.wal)
    (hdue : Due w other) (hmem : other = number ∨ other ∈ w.files) :
    other ∈ addFile maxFiles number w.files := by
  set inserted := (w.files.filter (· ≠ number)).orderedInsert (· ≤ ·) number with hinserted
  have hsorted : inserted.Pairwise (· < ·) := sorted_inserted h.files_sorted
  have hlater : inserted.filter (other ≤ ·) ⊆ (unpersisted w).map (·.number) := by
    intro later hmem
    obtain ⟨hlater, hle⟩ := mem_filter.mp hmem
    have hle : other ≤ later := of_decide_eq_true hle
    have hthere : ⟨later, true⟩ ∈ w.wal := by
      rcases mem_inserted.mp hlater with rfl | hold
      · exact hobject
      · rcases h.origin later hold with hthere | hbefore
        · exact hthere
        · have hlt : later < other := hbefore _ hdue.1
          omega
    refine mem_map.mpr ⟨⟨later, true⟩, mem_filter.mpr ⟨hthere, ?_⟩, rfl⟩
    exact decide_eq_true (hdue.2.trans_le hle)
  have hnodup : (inserted.filter (other ≤ ·)).Nodup :=
    (hsorted.filter _).imp fun hlt => hlt.ne
  have hfew : (inserted.filter (other ≤ ·)).length ≤ maxFiles := by
    calc (inserted.filter (other ≤ ·)).length
      _ ≤ ((unpersisted w).map (·.number)).length := (subperm_of_subset hnodup hlater).length_le
      _ = (unpersisted w).length := length_map _
      _ ≤ maxFiles := h.fits
  exact mem_drop_of_length_le hsorted (mem_inserted.mpr hmem) hfew

theorem keeps_add (hobject : ⟨number, true⟩ ∈ w.wal) (tick : Option Tick) :
    Keeps w { w with tick := tick, files := addFile maxFiles number w.files } where
  lastPut := le_rfl
  mark := le_rfl
  objects := fun _ hmem => .inl hmem
  files := fun _ hdue hmem => h.mem_addFile hobject hdue (.inr hmem)

end

variable {passed : List Nat}

variable {rest : List Nat}

/-- Passing a file that is in the tail if it is due. -/
theorem goesThrough_next (hgoes : GoesThrough w passed (number :: rest))
    (hthere : Due w number → number ∈ w.files) : GoesThrough w (passed ++ [number]) rest := by
  have hsame : passed ++ [number] ++ rest = passed ++ number :: rest := by simp
  constructor
  case sorted => exact hsame ▸ hgoes.sorted
  case put => exact hsame ▸ hgoes.put
  case listed => exact hsame ▸ hgoes.listed
  case passed =>
    refine forall_mem_concat.mpr ⟨hgoes.passed, ?_⟩
    intro hdue
    exact hthere hdue

variable {cursor highWater : Nat}

theorem add (h : Inv maxFiles w)
    (htick : w.tick = some (.reading cursor highWater passed (number :: rest)))
    (hobject : ⟨number, true⟩ ∈ w.wal) :
    Inv maxFiles { w with
      tick := some (.reading cursor highWater (passed ++ [number]) rest)
      files := addFile maxFiles number w.files } := by
  obtain ⟨hreads, hmark, hgoes⟩ := h.tick _ htick
  have hkeeps := h.keeps_add hobject (some (.reading cursor highWater (passed ++ [number]) rest))
  refine { h with
    files_sorted := (sorted_inserted h.files_sorted).drop
    files_put := ?files_put
    origin := ?origin
    gapless := ?gapless
    complete := hkeeps.complete h rfl
    tick := ?tick }
  case files_put =>
    intro other hother
    rcases mem_of_mem_addFile hother with rfl | hold
    · exact h.put _ hobject
    · exact h.files_put other hold
  case origin =>
    intro other hother
    rcases mem_of_mem_addFile hother with rfl | hold
    · exact .inl hobject
    · exact h.origin other hold
  case gapless =>
    intro due hdue other hother hle
    refine h.mem_addFile hobject hdue ?_
    rcases mem_of_mem_addFile hother with rfl | hold
    · -- a due file before the added one was listed before it, and has been passed
      rcases hle.eq_or_lt with hsame | hlt
      · exact .inl hsame
      · refine .inr (hgoes.passed due ?_ hdue)
        have hhere : other ∈ passed ++ other :: rest := by simp
        rcases hgoes.listed _ hdue.1 with hlisted | hafter
        · rcases mem_append.mp hlisted with hpassed | hrest
          · exact hpassed
          · have hsorted := (pairwise_append.mp hgoes.sorted).2.1
            rcases mem_cons.mp hrest with hsame | hlater
            · exact absurd hsame hlt.ne
            · exact absurd ((pairwise_cons.mp hsorted).1 due hlater) hlt.not_gt
        · exact absurd (hafter other hhere) hlt.not_gt
    · exact .inr (h.gapless due hdue other hold hle)
  case tick =>
    refine forall_eq_some ?_
    refine ⟨hkeeps.reads hreads, hmark, ?_⟩
    exact goesThrough_next (hkeeps.goesThrough hgoes)
      fun hdue => h.mem_addFile hobject hdue (.inl rfl)

theorem skip (h : Inv maxFiles w)
    (htick : w.tick = some (.reading cursor highWater passed (number :: rest)))
    (hskip : number ≤ cursor ∨ number ≤ highWater ∨ ⟨number, true⟩ ∉ w.wal) :
    Inv maxFiles { w with tick := some (.reading cursor highWater (passed ++ [number]) rest) } := by
  obtain ⟨hreads, hmark, hgoes⟩ := h.tick _ htick
  refine h.withTick fun running hrunning => ?_
  obtain rfl := Option.some.inj hrunning
  refine ⟨hreads, hmark, goesThrough_next hgoes fun hdue => ?_⟩
  rcases hskip with hcursor | hpersisted | hbroken
  · exact hreads.below number hdue hcursor
  · have := hdue.2
    omega
  · exact absurd hdue.1 hbroken

theorem endTick (h : Inv maxFiles w)
    (htick : w.tick = some (.reading cursor highWater passed [])) :
    Inv maxFiles { w with tick := none, seen := passed } := by
  obtain ⟨_, _, hgoes⟩ := h.tick _ htick
  exact { h with
    seen_put := fun number hmem => hgoes.put number (mem_append_left _ hmem)
    complete := hgoes.passed
    tick := fun _ hnone => nomatch hnone }

theorem initially : Inv maxFiles {} := by
  constructor <;> simp [Due, Complete, unpersisted]

theorem step (h : Inv (max maxFiles 1) w) (hallowed : Allowed maxFiles w action)
    (hstep : Step (max maxFiles 1) w action next) : Inv (max maxFiles 1) next := by
  cases hstep with
  | @putFile number intact _ =>
    have hnew : w.lastPut < number := hallowed.1.2
    rw [h.insertFile_eq hnew, max_eq_right hnew.le]
    refine h.putFile hnew fun hintact => ?_
    subst hintact
    exact hallowed.1.1
  | deleteFile => exact h.deleteFile hallowed.1.2
  | startTick _ =>
    refine h.withTick fun running hrunning => ?_
    obtain rfl := Option.some.inj hrunning
    exact h.reads_cursor
  | readHighWater htick =>
    refine h.withTick fun running hrunning => ?_
    obtain rfl := Option.some.inj hrunning
    exact ⟨h.tick _ htick, le_rfl⟩
  | listPaths htick =>
    obtain ⟨hreads, hmark⟩ := h.tick _ htick
    refine h.withTick fun running hrunning => ?_
    obtain rfl := Option.some.inj hrunning
    exact ⟨hreads, hmark, h.goesThrough_listing⟩
  | @skip read cursor highWater number passed rest htick hskip =>
    refine h.skip htick ?_
    rcases hskip with hcursor | hpersisted | rfl
    · exact .inl hcursor
    · exact .inr (.inl hpersisted)
    · exact hallowed.2 _ htick
  | add htick _ _ hobject => exact h.add htick hobject
  | failTick => exact h.withTick fun _ hnone => nomatch hnone
  | endTick htick => exact h.endTick htick
  | raise hlt => exact h.raise hlt
  | stay _ => exact h
  | drop hseq => exact h.drop hseq

end Inv

/-- In every run whose files above the mark fit the cap, become visible in order and are deleted
oldest first, and in which a file that verifies is never read as bytes that do not, the tail is
complete. -/
theorem complete_of_allowed (hreachable : (machine maxFiles).Reachable (Allowed maxFiles) w) :
    Complete w := by
  have hinv : Inv (max maxFiles 1) w := by
    induction hreachable with
    | initial hinitial =>
      obtain rfl : _ = ({} : World) := hinitial
      exact .initially
    | step _ hallowed hstep ih => exact ih.step hallowed (.of_step hstep)
  exact hinv.complete

/-- Two files, of which the first is evicted and deleted, and a broken one between them. -/
theorem complete_after_two_ticks :
    ∃ w, (machine 2).Reachable (Allowed 2) w ∧ w.seen = [1, 2, 3] ∧ w.files = [3] ∧
      Complete w := by
  obtain ⟨w, hreachable, hseen, hfiles⟩ := (initial_reachable 2 (Allowed 2)).exists_of_exec
    [.putFile 1 true, .startTick, .readHighWater, .listPaths, .next .verified, .endTick,
      .putFile 2 false, .putFile 3 true, .startTick, .readHighWater, .listPaths, .next .verified,
      .next .unverified, .next .verified, .endTick, .raise 1, .drop 0, .deleteFile 1]
    (fun w => w.seen = [1, 2, 3] ∧ w.files = [3]) (by decide) (by decide)
  exact ⟨w, hreachable, hseen, hfiles, complete_of_allowed hreachable⟩

/-- One read of the first file that does not verify, and the second file moves the cursor beyond
it: the next tick succeeds and does not read the first file again. -/
theorem transient_read_leaves_hole :
    ∃ w, (machine 4).Reachable (fun w action => FitsCap 4 w action ∧ InOrder w action) w ∧
      ¬ Complete w := by
  obtain ⟨w, hreachable, hseen, hobject, hmark, hmissing⟩ :=
    (initial_reachable 4 fun w action => FitsCap 4 w action ∧ InOrder w action).exists_of_exec
    [.putFile 1 true, .putFile 2 true, .startTick, .readHighWater, .listPaths, .next .unverified,
      .next .verified, .endTick, .startTick, .readHighWater, .listPaths, .next .verified,
      .next .verified, .endTick]
    (fun w => 1 ∈ w.seen ∧ ⟨1, true⟩ ∈ w.wal ∧ w.persistedHighWater < 1 ∧ 1 ∉ w.files)
    (by decide) (by decide)
  exact ⟨w, hreachable, fun hcomplete => hmissing (hcomplete 1 hseen ⟨hobject, hmark⟩)⟩

end Invariant

end RefluxDb.Write.WalTail
