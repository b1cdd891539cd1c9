import Mathlib.Data.List.Sort
import RefluxDb.Library.Machine

/-! The tail of one writer's WAL, as a querier keeps it.

A tick reads the tail's cursor and then the high-water mark of what is persisted, lists the
writer's WAL files and reads them one after another. The poller calls `evict_up_to` for every
snapshot it folds, which raises the mark and then drops files; it returns early when the mark is
not raised. Between any two of these the other side may go on. The writers of a querier do not
touch each other's tails, so one of them is looked at; the rows of a file are left out, and a file
is its number. A tick may fail at any point, also after it is through with this writer. -/

namespace RefluxDb.Write.WalTail

open List Option RefluxDb.Library

section World

/-- A WAL file in the object store. One that is not intact never verifies. -/
structure WalObject where
  number : Nat
  intact : Bool
deriving DecidableEq

/-- How far a tick is. It has read the cursor, then the mark, and then goes through the listing. -/
inductive Tick where
  | started (cursor : Nat)
  | marked (cursor highWater : Nat)
  | reading (cursor highWater : Nat) (passed rest : List Nat)
deriving DecidableEq

/-- `wal` has the files in the store, by number, and `lastPut` the largest number that was put;
`seen` is the listing of the last tick that succeeded, and `evicting` are the evictions that have
raised the mark and not dropped files yet. -/
structure World where
  wal : List WalObject := []
  lastPut : Nat := 0
  files : List Nat := []
  persistedHighWater : Nat := 0
  evicting : List Nat := []
  tick : Option Tick := none
  seen : List Nat := []

/-- What the bytes of a file that was read turn out to be. -/
inductive Read where
  | verified
  | unverified
deriving DecidableEq

inductive Action where
  | putFile (number : Nat) (intact : Bool)
  | deleteFile (number : Nat)
  | startTick
  | readHighWater
  | listPaths
  | next (read : Read)
  | failTick
  | endTick
  | raise (seq : Nat)
  | drop (index : Nat)

/-- Adds a file, and drops the oldest ones while there are too many. -/
def addFile (maxFiles number : Nat) (files : List Nat) : List Nat :=
  let inserted := (files.filter (· ≠ number)).orderedInsert (· ≤ ·) number
  inserted.drop (inserted.length - maxFiles)

def cursor (files : List Nat) : Nat := files.getLast?.getD 0

variable (maxFiles : Nat) (w : World)

/-- The store with one more file, in its place. -/
def insertFile (number : Nat) (intact : Bool) : List WalObject :=
  w.wal.filter (·.number < number) ++ ⟨number, intact⟩ :: w.wal.filter (number < ·.number)

/-- A put creates its file; flushes overlap and deletions are retried, so both may come in any
order. A file that was deleted since the listing fails the tick. -/
def step : Action → Option World
  | .putFile number intact =>
    if ∀ object ∈ w.wal, object.number ≠ number then
      some { w with wal := insertFile w number intact, lastPut := max w.lastPut number }
    else none
  | .deleteFile number => some { w with wal := w.wal.filter (·.number ≠ number) }
  | .startTick =>
    if w.tick.isNone then some { w with tick := some (.started (cursor w.files)) } else none
  | .readHighWater =>
    match w.tick with
    | some (.started cursor) =>
      some { w with tick := some (.marked cursor w.persistedHighWater) }
    | _ => none
  | .listPaths =>
    match w.tick with
    | some (.marked cursor highWater) =>
      some { w with tick := some (.reading cursor highWater [] (w.wal.map (·.number))) }
    | _ => none
  | .next read =>
    match w.tick with
    | some (.reading cursor highWater passed (number :: rest)) =>
      let through : Tick := .reading cursor highWater (passed ++ [number]) rest
      if number ≤ cursor ∨ number ≤ highWater then some { w with tick := some through }
      else
        match read with
        | .verified =>
          if ⟨number, true⟩ ∈ w.wal then
            some { w with tick := some through, files := addFile maxFiles number w.files }
          else none
        | .unverified => some { w with tick := some through }
    | _ => none
  | .failTick => some { w with tick := none }
  | .endTick =>
    match w.tick with
    | some (.reading _ _ passed []) => some { w with tick := none, seen := passed }
    | _ => none
  | .raise seq =>
    if w.persistedHighWater < seq then
      some { w with persistedHighWater := seq, evicting := seq :: w.evicting }
    else some w
  | .drop index =>
    w.evicting[index]?.map fun seq =>
      { w with
        evicting := w.evicting.eraseIdx index
        files := w.files.filter fun number => seq < number }

/-- The cap is at least one. -/
def machine : Machine World Action where
  initial w := w = {}
  step := step (max maxFiles 1)

/-- What each step does, and when it is taken. -/
inductive Step (maxFiles : Nat) (w : World) : Action → World → Prop
  | putFile {number : Nat} {intact : Bool} (hnew : ∀ object ∈ w.wal, object.number ≠ number) :
      Step maxFiles w (.putFile number intact)
        { w with wal := insertFile w number intact, lastPut := max w.lastPut number }
  | deleteFile {number : Nat} : Step maxFiles w (.deleteFile number)
      { w with wal := w.wal.filter (·.number ≠ number) }
  | startTick (htick : w.tick = none) :
      Step maxFiles w .startTick { w with tick := some (.started (cursor w.files)) }
  | readHighWater {cursor : Nat} (htick : w.tick = some (.started cursor)) :
      Step maxFiles w .readHighWater
        { w with tick := some (.marked cursor w.persistedHighWater) }
  | listPaths {cursor highWater : Nat} (htick : w.tick = some (.marked cursor highWater)) :
      Step maxFiles w .listPaths
        { w with tick := some (.reading cursor highWater [] (w.wal.map (·.number))) }
  | skip {read : Read} {cursor highWater number : Nat} {passed rest : List Nat}
      (htick : w.tick = some (.reading cursor highWater passed (number :: rest)))
      (hskip : number ≤ cursor ∨ number ≤ highWater ∨ read = .unverified) :
      Step maxFiles w (.next read)
        { w with tick := some (.reading cursor highWater (passed ++ [number]) rest) }
  | add {cursor highWater number : Nat} {passed rest : List Nat}
      (htick : w.tick = some (.reading cursor highWater passed (number :: rest)))
      (hcursor : cursor < number) (hmark : highWater < number)
      (hobject : ⟨number, true⟩ ∈ w.wal) :
      Step maxFiles w (.next .verified)
        { w with
          tick := some (.reading cursor highWater (passed ++ [number]) rest)
          files := addFile maxFiles number w.files }
  | failTick : Step maxFiles w .failTick { w with tick := none }
  | endTick {cursor highWater : Nat} {passed : List Nat}
      (htick : w.tick = some (.reading cursor highWater passed [])) :
      Step maxFiles w .endTick { w with tick := none, seen := passed }
  | raise {seq : Nat} (hlt : w.persistedHighWater < seq) :
      Step maxFiles w (.raise seq)
        { w with persistedHighWater := seq, evicting := seq :: w.evicting }
  | stay {seq : Nat} (hle : seq ≤ w.persistedHighWater) : Step maxFiles w (.raise seq) w
  | drop {index seq : Nat} (hseq : w.evicting[index]? = some seq) :
      Step maxFiles w (.drop index)
        { w with
          evicting := w.evicting.eraseIdx index
          files := w.files.filter fun number => seq < number }

variable {maxFiles w} {next : World} {action : Action}

theorem Step.of_next {read : Read} (h : step maxFiles w (.next read) = some next) :
    Step maxFiles w (.next read) next := by
  simp only [step] at h
  split at h
  · rename_i cursor highWater passed number rest htick
    split at h
    · rename_i hskip
      obtain rfl := some.inj h
      exact .skip htick (hskip.imp_right .inl)
    · rename_i hread
      obtain ⟨hcursor, hmark⟩ := not_or.mp hread
      cases read with
      | verified =>
        simp only [ite_none_right_eq_some] at h
        obtain ⟨hobject, h⟩ := h
        obtain rfl := some.inj h
        exact .add htick (not_le.mp hcursor) (not_le.mp hmark) hobject
      | unverified =>
        obtain rfl := some.inj h
        exact .skip htick (.inr (.inr rfl))
  · exact nomatch h

theorem Step.of_step (h : step maxFiles w action = some next) : Step maxFiles w action next := by
  cases action with
  | putFile number intact =>
    simp only [step, ite_none_right_eq_some] at h
    exact some.inj h.2 ▸ .putFile h.1
  | deleteFile number => exact some.inj h ▸ .deleteFile
  | startTick =>
    simp only [step, ite_none_right_eq_some, isNone_iff_eq_none] at h
    exact some.inj h.2 ▸ .startTick h.1
  | readHighWater =>
    simp only [step] at h
    split at h
    · rename_i htick
      exact some.inj h ▸ .readHighWater htick
    · exact nomatch h
  | listPaths =>
    simp only [step] at h
    split at h
    · rename_i htick
      exact some.inj h ▸ .listPaths htick
    · exact nomatch h
  | next read => exact .of_next h
  | failTick => exact some.inj h ▸ .failTick
  | endTick =>
    simp only [step] at h
    split at h
    · rename_i htick
      exact some.inj h ▸ .endTick htick
    · exact nomatch h
  | raise seq =>
    simp only [step] at h
    split at h
    · rename_i hlt
      exact some.inj h ▸ .raise hlt
    · rename_i hge
      exact some.inj h ▸ .stay (not_lt.mp hge)
  | drop index =>
    obtain ⟨seq, hseq, rfl⟩ := map_eq_some_iff.mp h
    exact .drop hseq

end World

section Definitions

/-- When neither a tick nor an eviction is in progress, every file of the tail is above the
mark. -/
def NoStaleFile (w : World) : Prop :=
  w.tick = none → w.evicting = [] → ∀ number ∈ w.files, w.persistedHighWater < number

/-- A tick adds a file only while its number is above the mark. -/
def AddsAboveMark (w : World) : Action → Prop
  | .next .verified => ∀ tick ∈ w.tick,
      match tick with
      | .reading cursor highWater _ (number :: _) =>
        number ≤ cursor ∨ number ≤ highWater ∨ w.persistedHighWater < number
      | _ => True
  | _ => True

/-- Whether the next number of a tick has a property. -/
def decidableNext (tick : Option Tick) {P : Nat → Nat → Nat → Prop}
    (decide : ∀ cursor highWater number, Decidable (P cursor highWater number)) :
    Decidable (∀ t ∈ tick, match t with
      | .reading cursor highWater _ (number :: _) => P cursor highWater number
      | _ => True) :=
  match tick with
  | none => .isTrue (by simp)
  | some (.started _) | some (.marked _ _) | some (.reading _ _ _ []) => .isTrue (by simp)
  | some (.reading cursor highWater _ (number :: _)) =>
    @decidable_of_iff _ (P cursor highWater number) (by simp) (decide cursor highWater number)

instance (w : World) : (action : Action) → Decidable (AddsAboveMark w action)
  | .next .verified => decidableNext w.tick fun _ _ _ => inferInstanceAs (Decidable (_ ∨ _))
  | .next .unverified | .putFile _ _ | .deleteFile _ | .startTick | .readHighWater | .listPaths
  | .failTick | .endTick | .raise _ | .drop _ => .isTrue trivial

end Definitions

section Staleness

variable {maxFiles : Nat} {w next : World} {action : Action}

theorem mem_of_mem_addFile {number other : Nat} {files : List Nat}
    (h : other ∈ addFile maxFiles number files) : other = number ∨ other ∈ files := by
  have hinserted := mem_of_mem_drop h
  rcases (mem_orderedInsert _).mp hinserted with hsame | hold
  · exact .inl hsame
  · exact .inr (mem_filter.mp hold).1

/-- Every file is above the mark, or an eviction is about to drop it. -/
def AboveMark (w : World) : Prop :=
  ∀ number ∈ w.files, w.persistedHighWater < number ∨ ∃ seq ∈ w.evicting, number ≤ seq

theorem AboveMark.add {number : Nat} (h : AboveMark w) (habove : w.persistedHighWater < number)
    (hfiles : next.files = addFile maxFiles number w.files)
    (hmark : next.persistedHighWater = w.persistedHighWater)
    (hevicting : next.evicting = w.evicting) : AboveMark next := by
  unfold AboveMark
  rw [hfiles, hmark, hevicting]
  intro other hother
  rcases mem_of_mem_addFile hother with rfl | hold
  · exact .inl habove
  · exact h other hold

theorem AboveMark.raise {seq : Nat} (h : AboveMark w) :
    AboveMark { w with persistedHighWater := seq, evicting := seq :: w.evicting } := by
  intro number hnumber
  rcases Nat.lt_or_ge seq number with hlt | hge
  · rcases h number hnumber with _ | ⟨other, hother, hle⟩
    · exact .inl hlt
    · exact .inr ⟨other, mem_cons_of_mem _ hother, hle⟩
  · exact .inr ⟨seq, mem_cons_self, hge⟩

theorem AboveMark.drop {index seq : Nat} (h : AboveMark w)
    (hseq : w.evicting[index]? = some seq) :
    AboveMark { w with
      evicting := w.evicting.eraseIdx index
      files := w.files.filter fun number => seq < number } := by
  intro number hnumber
  obtain ⟨hold, hkept⟩ := mem_filter.mp hnumber
  have hkept : seq < number := of_decide_eq_true hkept
  rcases h number hold with habove | ⟨other, hother, hle⟩
  · exact .inl habove
  · -- the eviction that is done is not the one that would drop this file
    obtain ⟨place, hplace⟩ := getElem?_of_mem hother
    refine .inr ⟨other, mem_eraseIdx_iff_getElem?.mpr ⟨place, ?_, hplace⟩, hle⟩
    rintro rfl
    obtain rfl := some.inj (hseq.symm.trans hplace)
    omega

theorem AboveMark.step (h : AboveMark w) (hadds : AddsAboveMark w action)
    (hstep : Step maxFiles w action next) : AboveMark next := by
  cases hstep with
  | putFile _ => exact h
  | deleteFile => exact h
  | startTick _ => exact h
  | readHighWater _ => exact h
  | listPaths _ => exact h
  | skip _ _ => exact h
  | add htick hcursor hmark _ =>
    have habove := hadds _ htick
    exact h.add (by omega) rfl rfl rfl
  | failTick => exact h
  | endTick _ => exact h
  | raise _ => exact h.raise
  | stay _ => exact h
  | drop hseq => exact h.drop hseq

/-- In every run whose ticks add files only above the mark, no stale file stays in the tail. -/
theorem noStaleFile_of_addsAboveMark (hreachable : (machine maxFiles).Reachable AddsAboveMark w) :
    NoStaleFile w := by
  have habove : AboveMark w := by
    induction hreachable with
    | initial hinitial =>
      obtain rfl : _ = ({} : World) := hinitial
      simp [AboveMark]
    | step _ hadds hstep ih => exact ih.step hadds (.of_step hstep)
  intro _ hidle number hnumber
  rcases habove number hnumber with hlt | ⟨seq, hseq, _⟩
  · exact hlt
  · rw [hidle] at hseq
    exact absurd hseq not_mem_nil

theorem initial_reachable (maxFiles : Nat) (allowed : World → Action → Prop) :
    (machine maxFiles).Reachable allowed {} := .initial rfl

/-- A tick with one file, and an eviction up to it after the tick. -/
theorem noStaleFile_after_eviction :
    ∃ w, (machine 4).Reachable AddsAboveMark w ∧ w.persistedHighWater = 1 ∧ w.files = [2] ∧
      NoStaleFile w := by
  obtain ⟨w, hreachable, hmark, hfiles⟩ := (initial_reachable 4 AddsAboveMark).exists_of_exec
    [.putFile 1 true, .putFile 2 true, .startTick, .readHighWater, .listPaths, .next .verified,
      .next .verified, .endTick, .raise 1, .drop 0]
    (fun w => w.persistedHighWater = 1 ∧ w.files = [2]) (by decide) (by decide)
  exact ⟨w, hreachable, hmark, hfiles, noStaleFile_of_addsAboveMark hreachable⟩

/-- An eviction between the reading of the mark and the reading of a file leaves the file behind,
and another eviction up to the same number does not drop it. -/
theorem stale_file_left :
    ∃ w, (machine 4).Reachable Machine.Unrestricted w ∧ ¬ NoStaleFile w := by
  obtain ⟨w, hreachable, htick, hevicting, hmark, hfiles⟩ := (initial_reachable 4 _).exists_of_run
    [.putFile 1 true, .startTick, .readHighWater, .listPaths, .raise 1, .drop 0, .next .verified,
      .endTick, .raise 1]
    (fun w => w.tick = none ∧ w.evicting = [] ∧ w.persistedHighWater = 1 ∧ w.files = [1])
    (by decide)
  refine ⟨w, hreachable, fun hnone => ?_⟩
  have habove := hnone htick hevicting 1 (by simp [hfiles])
  omega

end Staleness

end RefluxDb.Write.WalTail
