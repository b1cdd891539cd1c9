import Mathlib.Data.List.Sigma
import Mathlib.Data.List.Sort
import Mathlib.Data.List.Perm.Subperm
import RefluxDb.Library.Lists

/-! Grouping intervals that overlap, by a sweep over their endpoints.

The endpoints are visited in order, starts before finishes at one place, while the number of open
intervals is counted. A start that finds none open begins a new group, and an interval joins the
last group at its finish. Intervals of different groups then do not meet, every interval is in one
group, and two intervals of one group are connected by a chain of intervals that meet. -/

namespace RefluxDb.Library

open List

variable {α τ : Type*} [LinearOrder τ]

inductive Endpoint (α : Type*) where
  | start (item : α)
  | finish (item : α)

namespace Endpoint

variable (lo hi : α → τ)

def value : Endpoint α → τ
  | start item => lo item
  | finish item => hi item

def rank : Endpoint α → Nat
  | start _ => 0
  | finish _ => 1

def map {β : Type*} (f : α → β) : Endpoint α → Endpoint β
  | start item => start (f item)
  | finish item => finish (f item)

/-- The order of the sweep. -/
def Le (e f : Endpoint α) : Prop :=
  e.value lo hi < f.value lo hi ∨ e.value lo hi = f.value lo hi ∧ e.rank ≤ f.rank
deriving Decidable

instance : Std.Total (Le lo hi) where
  total e f := by
    rcases lt_trichotomy (e.value lo hi) (f.value lo hi) with hlt | heq | hgt
    · exact .inl (.inl hlt)
    · rcases le_total e.rank f.rank with hle | hle
      · exact .inl (.inr ⟨heq, hle⟩)
      · exact .inr (.inr ⟨heq.symm, hle⟩)
    · exact .inr (.inl hgt)

instance : IsTrans (Endpoint α) (Le lo hi) where
  trans e f g hef hfg := by
    rcases hef with hlt | ⟨heq, hle⟩
    · rcases hfg with hlt' | ⟨heq', _⟩
      · exact .inl (hlt.trans hlt')
      · exact .inl (heq' ▸ hlt)
    · rcases hfg with hlt' | ⟨heq', hle'⟩
      · exact .inl (heq ▸ hlt')
      · exact .inr ⟨heq.trans heq', hle.trans hle'⟩

variable {lo hi} {a b : α}

theorem Le.value_le {e f : Endpoint α} (hle : Le lo hi e f) : e.value lo hi ≤ f.value lo hi := by
  rcases hle with hlt | ⟨heq, _⟩
  · exact hlt.le
  · exact heq.le

theorem Le.finish_lt_start (hle : Le lo hi (finish a) (start b)) : hi a < lo b := by
  rcases hle with hlt | ⟨_, hrank⟩
  · exact hlt
  · simp [rank] at hrank

theorem not_finish_le_start (hrange : lo a ≤ hi a) : ¬Le lo hi (finish a) (start a) :=
  fun hle => absurd hle.finish_lt_start (not_lt.mpr hrange)

end Endpoint

/-- The number of open intervals and the groups so far. -/
structure Sweep (α : Type*) where
  cumulativeSum : Int := 0
  groups : List (List α) := []

namespace Sweep

/-- Puts an item into the last group. -/
def pushLast (groups : List (List α)) (item : α) : List (List α) :=
  match groups.getLast? with
  | some last => groups.dropLast ++ [last ++ [item]]
  | none => groups

def step (sweep : Sweep α) : Endpoint α → Sweep α
  | .start _ =>
    { cumulativeSum := sweep.cumulativeSum + 1
      groups := if sweep.cumulativeSum + 1 = 1 then sweep.groups ++ [[]] else sweep.groups }
  | .finish item =>
    { cumulativeSum := sweep.cumulativeSum - 1
      groups := pushLast sweep.groups item }

def endpoints (items : List α) : List (Endpoint α) :=
  items.flatMap fun item => [.start item, .finish item]

def starts (events : List (Endpoint α)) : List α :=
  events.filterMap fun event => match event with
    | .start item => some item
    | .finish _ => none

def finishes (events : List (Endpoint α)) : List α :=
  events.filterMap fun event => match event with
    | .start _ => none
    | .finish item => some item

variable {events : List (Endpoint α)}

theorem mem_starts {a : α} : a ∈ starts events ↔ .start a ∈ events := by
  unfold starts
  rw [mem_filterMap]
  constructor
  · rintro ⟨event, hmem, hitem⟩
    cases event <;> simp_all
  · intro hmem
    exact ⟨.start a, hmem, rfl⟩

theorem mem_finishes {a : α} :
    a ∈ finishes events ↔ .finish a ∈ events := by
  unfold finishes
  rw [mem_filterMap]
  constructor
  · rintro ⟨event, hmem, hitem⟩
    cases event <;> simp_all
  · intro hmem
    exact ⟨.finish a, hmem, rfl⟩

theorem nodup_finishes (hnodup : events.Nodup) :
    (finishes events).Nodup := by
  refine hnodup.filterMap ?_
  intro e f a he hf
  cases e <;> cases f <;> simp_all

theorem pushLast_append (front : List (List α)) (last : List α) (item : α) :
    pushLast (front ++ [last]) item = front ++ [last ++ [item]] := by
  simp [pushLast]

variable {lo hi : α → τ} {done : List (Endpoint α)} {sweep : Sweep α} {a b : α}

/-- The intervals of the first group end before those of the second begin. -/
def Apart (lo hi : α → τ) (group later : List α) : Prop := ∀ a ∈ group, ∀ b ∈ later, hi a < lo b

/-- What holds after the events `done`. The last group was begun by the start of some `b`; the
groups before it ended before `b`, and whatever is open or in the last group began no earlier. -/
structure Swept (lo hi : α → τ) (done : List (Endpoint α)) (sweep : Sweep α) : Prop where
  sum : sweep.cumulativeSum = (starts done).length - (finishes done).length
  flatten : sweep.groups.flatten = finishes done
  groups : done = [] ∧ sweep.groups = [] ∨
    ∃ b front last, .start b ∈ done ∧ sweep.groups = front ++ [last] ∧
      front.Pairwise (Apart lo hi) ∧ (∀ a ∈ front.flatten, hi a < lo b) ∧
      (∀ a ∈ last, lo b ≤ lo a) ∧ ∀ a, .start a ∈ done → a ∈ front.flatten ∨ lo b ≤ lo a

section

variable (hswept : Swept lo hi done sweep)
include hswept

theorem Swept.apart : sweep.groups.Pairwise (Apart lo hi) := by
  rcases hswept.groups with ⟨_, hnil⟩ | ⟨b, front, last, _, hgroups, hfront, hended, hlast, _⟩
  · rw [hnil]
    exact .nil
  · rw [hgroups, pairwise_concat]
    refine ⟨hfront, fun group hgroup a ha c hc => ?_⟩
    exact (hended a (mem_flatten.mpr ⟨group, hgroup, ha⟩)).trans_le (hlast c hc)

/-- When no interval is open, every interval that has started is in a group. -/
theorem Swept.closed (hnodup : done.Nodup)
    (hpaired : ∀ a, .finish a ∈ done → .start a ∈ done) (hsum : sweep.cumulativeSum = 0)
    (ha : .start a ∈ done) : a ∈ sweep.groups.flatten := by
  have hsubset : finishes done ⊆ starts done := fun a ha =>
    mem_starts.mpr (hpaired a (mem_finishes.mp ha))
  have hsubperm := (nodup_finishes hnodup).subperm hsubset
  have hlength : (starts done).length ≤ (finishes done).length := by
    have := hswept.sum
    omega
  rw [hswept.flatten]
  exact (hsubperm.perm_of_length_le hlength).mem_iff.mpr (mem_starts.mpr ha)

theorem Swept.start (hnodup : done.Nodup)
    (hpaired : ∀ a, .finish a ∈ done → .start a ∈ done)
    (hbefore : ∀ e ∈ done, Endpoint.Le lo hi e (.start b)) :
    Swept lo hi (done ++ [.start b]) (sweep.step (.start b)) := by
  have hsum := hswept.sum
  have hflatten := hswept.flatten
  refine ⟨?_, ?_, .inr ?_⟩
  · simp only [step, starts, finishes, filterMap_append, length_append] at hsum ⊢
    simp
    omega
  · simp only [step]
    split <;> simp [hflatten, finishes]
  · by_cases hopen : sweep.cumulativeSum + 1 = 1
    · refine ⟨b, sweep.groups, [], by simp, by simp [step, hopen], hswept.apart, ?_, by simp, ?_⟩
      · intro a ha
        rw [hflatten] at ha
        exact (hbefore _ (mem_finishes.mp ha)).finish_lt_start
      · intro a ha
        rcases mem_append.mp ha with hold | hself
        · exact .inl (hswept.closed hnodup hpaired (by omega) hold)
        · rw [mem_singleton, Endpoint.start.injEq] at hself
          exact .inr (hself ▸ le_rfl)
    · rcases hswept.groups with ⟨hnil, _⟩ | ⟨c, front, last, hc, hgroups, hfront, hended, hlast,
        hopened⟩
      · rw [hnil] at hsum
        simp [starts, finishes] at hsum
        omega
      · refine ⟨c, front, last, mem_append_left _ hc, by simp [step, hopen, hgroups], hfront,
          hended, hlast, ?_⟩
        intro a ha
        rcases mem_append.mp ha with hold | hself
        · exact hopened a hold
        · rw [mem_singleton, Endpoint.start.injEq] at hself
          exact .inr (hself ▸ (hbefore _ hc).value_le)

theorem Swept.finish (ha : .start a ∈ done)
    (hbefore : ∀ e ∈ done, Endpoint.Le lo hi e (.finish a)) :
    Swept lo hi (done ++ [.finish a]) (sweep.step (.finish a)) := by
  have hsum := hswept.sum
  have hflatten := hswept.flatten
  rcases hswept.groups with ⟨hnil, _⟩ |
    ⟨b, front, last, hb, hgroups, hfront, hended, hlast, hopened⟩
  · simp [hnil] at ha
  · have hstep : (sweep.step (.finish a)).groups = front ++ [last ++ [a]] := by
      simp only [step, hgroups, pushLast_append]
    refine ⟨?_, ?_, .inr ⟨b, front, last ++ [a], mem_append_left _ hb, hstep, hfront, hended,
      ?_, ?_⟩⟩
    · simp only [step, starts, finishes, filterMap_append, length_append] at hsum ⊢
      simp
      omega
    · rw [hstep]
      rw [hgroups] at hflatten
      simp only [flatten_append, flatten_singleton] at hflatten ⊢
      rw [← append_assoc, hflatten]
      simp [finishes]
    · refine forall_mem_concat.mpr ⟨hlast, ?_⟩
      rcases hopened a ha with hfinished | hle
      · exact absurd (hended a hfinished) (not_lt.mpr (hbefore _ hb).value_le)
      · exact hle
    · intro c hc
      rcases mem_append.mp hc with hold | hself
      · exact hopened c hold
      · simp at hself

end

/-- The closed intervals have a point in common. -/
def Meets (lo hi : α → τ) (a b : α) : Prop := lo a ≤ hi b ∧ lo b ≤ hi a

/-- A chain of items leads from one to the other, each meeting the next. -/
def Linked (lo hi : α → τ) (items : List α) : α → α → Prop :=
  Relation.ReflTransGen fun a b => a ∈ items ∧ b ∈ items ∧ Meets lo hi a b

theorem Meets.symm (hmeets : Meets lo hi a b) : Meets lo hi b a := ⟨hmeets.2, hmeets.1⟩

variable {items : List α}

theorem Linked.symm (hlinked : Linked lo hi items a b) :
    Linked lo hi items b a := by
  induction hlinked with
  | refl => exact .refl
  | tail _ hstep ih =>
    obtain ⟨hc, hd, hmeets⟩ := hstep
    exact .head ⟨hd, hc, hmeets.symm⟩ ih

theorem Linked.trans {c : α} (hab : Linked lo hi items a b)
    (hbc : Linked lo hi items b c) : Linked lo hi items a c := Relation.ReflTransGen.trans hab hbc

theorem Linked.mono {items' : List α} (hlinked : Linked lo hi items a b)
    (hsubset : items ⊆ items') : Linked lo hi items' a b := by
  refine hlinked.lift id ?_
  rintro c d ⟨hc, hd, hmeets⟩
  exact ⟨hsubset hc, hsubset hd, hmeets⟩

/-- Started and not finished. -/
def IsOpen (done : List (Endpoint α)) (a : α) : Prop := .start a ∈ done ∧ .finish a ∉ done

/-- Within a group, and between the last group and what is open, all intervals are linked. -/
structure Chained (lo hi : α → τ) (done : List (Endpoint α)) (sweep : Sweep α) : Prop where
  groups : ∀ group ∈ sweep.groups, ∀ a ∈ group, ∀ b ∈ group, Linked lo hi (starts done) a b
  opened : ∀ a b, IsOpen done a → IsOpen done b → Linked lo hi (starts done) a b
  last : ∀ front last, sweep.groups = front ++ [last] → ∀ a ∈ last, ∀ b, IsOpen done b →
    Linked lo hi (starts done) a b

theorem starts_append_subset (done : List (Endpoint α)) (event : Endpoint α) :
    starts done ⊆ starts (done ++ [event]) := by
  intro a ha
  rw [mem_starts] at ha ⊢
  exact mem_append_left _ ha

theorem nodup_starts (hnodup : events.Nodup) :
    (starts events).Nodup := by
  refine hnodup.filterMap ?_
  intro e f a he hf
  cases e <;> cases f <;> simp_all

/-- While the sum is positive some interval is open. -/
theorem Swept.exists_isOpen (hswept : Swept lo hi done sweep) (hnodup : done.Nodup)
    (hsum : 0 < sweep.cumulativeSum) : ∃ a, IsOpen done a := by
  by_contra hnone
  have hsubset : starts done ⊆ finishes done := by
    intro a ha
    rw [mem_finishes]
    by_contra hopen
    exact hnone ⟨a, mem_starts.mp ha, hopen⟩
  have hle := ((nodup_starts hnodup).subperm hsubset).length_le
  have := hswept.sum
  omega

theorem Swept.sum_nonneg (hswept : Swept lo hi done sweep) (hnodup : done.Nodup)
    (hpaired : ∀ a, .finish a ∈ done → .start a ∈ done) : 0 ≤ sweep.cumulativeSum := by
  have hsubset : finishes done ⊆ starts done := fun a ha =>
    mem_starts.mpr (hpaired a (mem_finishes.mp ha))
  have hle := ((nodup_finishes hnodup).subperm hsubset).length_le
  have := hswept.sum
  omega

theorem isOpen_append_start (hb : .start b ∉ done) (hpaired : .finish b ∈ done → .start b ∈ done) :
    IsOpen (done ++ [.start b]) a ↔ IsOpen done a ∨ a = b := by
  simp only [IsOpen, mem_append, mem_singleton, Endpoint.start.injEq, reduceCtorEq,
    or_false]
  constructor
  · rintro ⟨hold | rfl, hnot⟩
    · exact .inl ⟨hold, hnot⟩
    · exact .inr rfl
  · rintro (⟨hold, hnot⟩ | rfl)
    · exact ⟨.inl hold, hnot⟩
    · exact ⟨.inr rfl, fun hfinish => hb (hpaired hfinish)⟩

theorem IsOpen.of_append_finish (hopen : IsOpen (done ++ [.finish a]) b) : IsOpen done b := by
  obtain ⟨hstart, hfinish⟩ := hopen
  simp only [mem_append, mem_singleton, reduceCtorEq, or_false, not_or] at hstart hfinish
  exact ⟨hstart, hfinish.1⟩

theorem Chained.start (hchained : Chained lo hi done sweep) (hswept : Swept lo hi done sweep)
    (hnodup : (done ++ [Endpoint.start b]).Nodup)
    (hpaired : ∀ a, .finish a ∈ done → .start a ∈ done)
    (hmeets : ∀ a, IsOpen done a → Meets lo hi a b) :
    Chained lo hi (done ++ [.start b]) (sweep.step (.start b)) := by
  have hdone := (nodup_append'.mp hnodup).1
  have hfresh : Endpoint.start b ∉ done := fun hin =>
    (nodup_append'.mp hnodup).2.2 hin (by simp)
  have hopen : ∀ a, IsOpen (done ++ [.start b]) a ↔ IsOpen done a ∨ a = b := fun a =>
    isOpen_append_start hfresh (hpaired b)
  have hmono := starts_append_subset done (.start b)
  have hnew : b ∈ starts (done ++ [.start b]) := mem_starts.mpr (by simp)
  -- a new interval is linked to whatever is open
  have hlink : ∀ a, IsOpen done a → Linked lo hi (starts (done ++ [.start b])) a b := fun a ha =>
    .single ⟨hmono (mem_starts.mpr ha.1), hnew, hmeets a ha⟩
  have hopened : ∀ a c, IsOpen (done ++ [.start b]) a → IsOpen (done ++ [.start b]) c →
      Linked lo hi (starts (done ++ [.start b])) a c := by
    intro a c ha hc
    rcases (hopen a).mp ha with ha | ha
    · rcases (hopen c).mp hc with hc | hc
      · exact (hchained.opened a c ha hc).mono hmono
      · exact hc ▸ hlink a ha
    · rcases (hopen c).mp hc with hc | hc
      · exact ha ▸ (hlink c hc).symm
      · rw [ha, hc]
        exact .refl
  by_cases hfirst : sweep.cumulativeSum + 1 = 1
  · have hgroups : (sweep.step (.start b)).groups = sweep.groups ++ [[]] := by
      simp [step, hfirst]
    refine ⟨?_, hopened, ?_⟩
    · intro group hgroup a ha c hc
      rw [hgroups] at hgroup
      rcases mem_concat.mp hgroup with hold | hself
      · exact (hchained.groups group hold a ha c hc).mono hmono
      · simp [hself] at ha
    · intro front last heq a ha
      rw [hgroups] at heq
      rw [← singleton_inj.mp (append_inj' heq rfl).2] at ha
      simp at ha
  · have hgroups : (sweep.step (.start b)).groups = sweep.groups := by
      simp [step, hfirst]
    obtain ⟨c, hc⟩ := hswept.exists_isOpen hdone (by
      have := hswept.sum_nonneg hdone hpaired
      omega)
    refine ⟨?_, hopened, ?_⟩
    · intro group hgroup a ha d hd
      rw [hgroups] at hgroup
      exact (hchained.groups group hgroup a ha d hd).mono hmono
    · intro front last heq a ha d hd
      rw [hgroups] at heq
      rcases (hopen d).mp hd with hd | rfl
      · exact (hchained.last front last heq a ha d hd).mono hmono
      · exact ((hchained.last front last heq a ha c hc).mono hmono).trans (hlink c hc)

theorem Chained.finish (hchained : Chained lo hi done sweep) (hswept : Swept lo hi done sweep)
    (ha : IsOpen done a) : Chained lo hi (done ++ [.finish a]) (sweep.step (.finish a)) := by
  have hmono := starts_append_subset done (.finish a)
  rcases hswept.groups with ⟨hnil, _⟩ | ⟨_, front, last, _, hgroups, _⟩
  · have hstarted := ha.1
    simp [hnil] at hstarted
  · have hstep : (sweep.step (.finish a)).groups = front ++ [last ++ [a]] := by
      simp only [step, hgroups, pushLast_append]
    have hlast : ∀ c ∈ last ++ [a], ∀ d, IsOpen done d ∨ d ∈ last ++ [a] →
        Linked lo hi (starts (done ++ [.finish a])) c d := by
      intro c hc d hd
      have hopen : ∀ d, IsOpen done d → Linked lo hi (starts done) c d := by
        intro d hd
        rcases mem_concat.mp hc with hin | hself
        · exact hchained.last front last hgroups c hin d hd
        · rw [hself]
          exact hchained.opened a d ha hd
      rcases hd with hd | hd
      · exact (hopen d hd).mono hmono
      · rcases mem_concat.mp hd with hin | hself
        · exact ((hopen a ha).trans
            (hchained.last front last hgroups d hin a ha).symm).mono hmono
        · rw [hself]
          exact (hopen a ha).mono hmono
    refine ⟨?_, ?_, ?_⟩
    · intro group hgroup c hc d hd
      rw [hstep] at hgroup
      rcases mem_concat.mp hgroup with hold | hself
      · exact (hchained.groups group (hgroups ▸ mem_append_left _ hold) c hc d hd).mono hmono
      · rw [hself] at hc hd
        exact hlast c hc d (.inr hd)
    · intro c d hc hd
      exact (hchained.opened c d hc.of_append_finish hd.of_append_finish).mono hmono
    · intro front' last' heq c hc d hd
      rw [hstep] at heq
      rw [← singleton_inj.mp (append_inj' heq rfl).2] at hc
      exact hlast c hc d (.inl hd.of_append_finish)

theorem Swept.foldl (hswept : Swept lo hi done sweep) (hchained : Chained lo hi done sweep)
    (rest : List (Endpoint α)) (hsorted : (done ++ rest).Pairwise (Endpoint.Le lo hi))
    (hnodup : (done ++ rest).Nodup)
    (hpaired : ∀ a, .finish a ∈ done ++ rest ↔ .start a ∈ done ++ rest)
    (hrange : ∀ a, .start a ∈ done ++ rest → lo a ≤ hi a) :
    Swept lo hi (done ++ rest) (rest.foldl step sweep) ∧
      Chained lo hi (done ++ rest) (rest.foldl step sweep) := by
  induction rest generalizing done sweep with
  | nil => simpa using ⟨hswept, hchained⟩
  | cons event rest ih =>
    have hbefore : ∀ e ∈ done, Endpoint.Le lo hi e event := fun e he =>
      (pairwise_append.mp hsorted).2.2 e he event (by simp)
    have hafter : ∀ e ∈ rest, Endpoint.Le lo hi event e := fun e he =>
      rel_of_pairwise_cons (pairwise_append.mp hsorted).2.1 he
    have hstarted : ∀ a, .finish a ∈ done ++ [event] → .start a ∈ done := by
      intro a ha
      have hin : Endpoint.finish a ∈ done ++ event :: rest := by
        rcases mem_concat.mp ha with hdone | hself
        · exact mem_append_left _ hdone
        · rw [hself]
          simp
      have hstart := (hpaired a).mp hin
      have hnot := Endpoint.not_finish_le_start (hrange a hstart)
      by_contra hlate
      have hrest := (mem_append.mp hstart).resolve_left hlate
      rcases mem_append.mp ha with hdone | hself
      · exact hnot ((pairwise_append.mp hsorted).2.2 _ hdone _ hrest)
      · rw [mem_singleton] at hself
        rw [← hself] at hafter hrest
        rcases mem_cons.mp hrest with heq | hlater
        · simp at heq
        · exact hnot (hafter _ hlater)
    have hsplit : done ++ event :: rest = (done ++ [event]) ++ rest := by simp
    have hopened : ∀ a, .start a ∈ done ++ event :: rest → .finish a ∉ done → .finish a ≠ event →
        Endpoint.Le lo hi event (.finish a) := by
      intro a ha hdone hself
      have hrest := (mem_append.mp ((hpaired a).mpr ha)).resolve_left hdone
      exact hafter _ ((mem_cons.mp hrest).resolve_left hself)
    have hdone : (done ++ [event]).Nodup := by
      rw [hsplit] at hnodup
      exact (nodup_append'.mp hnodup).1
    have hstarted' : ∀ a, .finish a ∈ done → .start a ∈ done := fun a ha =>
      hstarted a (mem_append_left _ ha)
    rw [foldl_cons, hsplit]
    rw [hsplit] at hsorted hnodup hpaired
    cases event with
    | start b =>
      refine ih (hswept.start (nodup_append'.mp hdone).1 hstarted' hbefore)
        (hchained.start hswept hdone hstarted' ?_) hsorted hnodup hpaired (hsplit ▸ hrange)
      intro a ha
      have hlo : lo a ≤ lo b := (hbefore _ ha.1).value_le
      have hhi : lo b ≤ hi a :=
        (hopened a (mem_append_left _ ha.1) ha.2 (by simp)).value_le
      exact ⟨hlo.trans (hrange b (by simp)), hhi⟩
    | finish a =>
      have ha := hstarted a (by simp)
      have hopen : IsOpen done a :=
        ⟨ha, fun hin => (nodup_append'.mp hdone).2.2 hin (by simp)⟩
      exact ih (hswept.finish ha hbefore) (hchained.finish hswept hopen) hsorted hnodup hpaired
        (hsplit ▸ hrange)

end Sweep

def overlapGroups (lo hi : α → τ) (items : List α) : List (List α) :=
  (((Sweep.endpoints items).insertionSort (Endpoint.Le lo hi)).foldl Sweep.step {}).groups

namespace Sweep

variable {lo hi : α → τ} {items : List α}

theorem mem_endpoints {event : Endpoint α} :
    event ∈ endpoints items ↔ ∃ a ∈ items, event = .start a ∨ event = .finish a := by
  simp [endpoints]

theorem nodup_endpoints (hnodup : items.Nodup) : (endpoints items).Nodup := by
  rw [endpoints, nodup_flatMap]
  refine ⟨fun a _ => by simp, hnodup.imp ?_⟩
  intro a b hne
  simp [Function.onFun, hne.symm]

theorem finishes_endpoints (items : List α) : finishes (endpoints items) = items := by
  induction items with
  | nil => rfl
  | cons a rest ih =>
    rw [endpoints, flatMap_cons, finishes, filterMap_append]
    exact congrArg (a :: ·) ih

theorem swept_overlapGroups (hnodup : items.Nodup) (hrange : ∀ a ∈ items, lo a ≤ hi a) :
    Swept lo hi ((endpoints items).insertionSort (Endpoint.Le lo hi))
        (((endpoints items).insertionSort (Endpoint.Le lo hi)).foldl step {}) ∧
      Chained lo hi ((endpoints items).insertionSort (Endpoint.Le lo hi))
        (((endpoints items).insertionSort (Endpoint.Le lo hi)).foldl step {}) := by
  have hmem : ∀ event, event ∈ (endpoints items).insertionSort (Endpoint.Le lo hi) ↔
      event ∈ endpoints items := fun event => mem_insertionSort _
  have hinitial : Swept lo hi [] ({} : Sweep α) :=
      ⟨by simp [starts, finishes], rfl, .inl ⟨rfl, rfl⟩⟩
  have hchained : Chained lo hi [] ({} : Sweep α) :=
    ⟨by simp, fun a b ha => absurd ha.1 (by simp), by simp⟩
  refine hinitial.foldl hchained ((endpoints items).insertionSort (Endpoint.Le lo hi))
    (pairwise_insertionSort _ _)
    ((perm_insertionSort _ _).nodup_iff.mpr (nodup_endpoints hnodup)) ?_ ?_
  · intro a
    rw [nil_append, hmem, hmem, mem_endpoints, mem_endpoints]
    simp
  · intro a ha
    rw [nil_append, hmem, mem_endpoints] at ha
    obtain ⟨b, hb, heq | heq⟩ := ha
    · rw [Endpoint.start.injEq] at heq
      exact heq ▸ hrange b hb
    · simp at heq

section Map

variable {β : Type*} (f : β → α)

def map (sweep : Sweep β) : Sweep α := ⟨sweep.cumulativeSum, sweep.groups.map (List.map f)⟩

omit [LinearOrder τ] in
theorem step_map (sweep : Sweep β) (event : Endpoint β) :
    (sweep.map f).step (event.map f) = (sweep.step event).map f := by
  cases event with
  | start b =>
    simp only [map, Endpoint.map, step, Sweep.mk.injEq, true_and]
    split
    case isTrue hopen => simp [hopen]
    case isFalse hopen => simp [hopen]
  | finish b =>
    simp only [map, Endpoint.map, step, Sweep.mk.injEq, true_and]
    rcases eq_nil_or_concat sweep.groups with hnil | ⟨front, last, hgroups⟩
    · rw [hnil]
      rfl
    · rw [hgroups, concat_eq_append, pushLast_append, map_append, map_singleton,
        pushLast_append]
      simp

theorem foldl_map (events : List (Endpoint β)) (sweep : Sweep β) :
    (events.map (Endpoint.map f)).foldl step (sweep.map f) = (events.foldl step sweep).map f := by
  induction events generalizing sweep with
  | nil => rfl
  | cons event rest ih => rw [map_cons, foldl_cons, foldl_cons, step_map, ih]

theorem endpoints_map (items : List β) :
    endpoints (items.map f) = (endpoints items).map (Endpoint.map f) := by
  simp only [endpoints, flatMap_map, map_flatMap]
  rfl

end Map

end Sweep

theorem overlapGroups_map {β : Type*} {lo hi : α → τ} (f : β → α) (items : List β) :
    overlapGroups lo hi (items.map f) =
      (overlapGroups (lo ∘ f) (hi ∘ f) items).map (List.map f) := by
  have hsort := map_insertionSort (Endpoint.Le (lo ∘ f) (hi ∘ f)) (Endpoint.Le lo hi)
    (Endpoint.map f) (Sweep.endpoints items) (by
      intro e _ e' _
      cases e <;> cases e' <;> rfl)
  unfold overlapGroups
  rw [Sweep.endpoints_map, ← hsort]
  exact congrArg Sweep.groups (Sweep.foldl_map f _ {})

section Groups

variable {lo hi : α → τ} {items : List α} {a b : α}

/-- The events of a list's places in the order of the sweep. -/
def placedEvents (lo hi : α → τ) (items : List α) : List (Endpoint (α × Nat)) :=
  (Sweep.endpoints items.zipIdx).insertionSort (Endpoint.Le (lo ∘ Prod.fst) (hi ∘ Prod.fst))

/-- Items that occur twice are told apart by their places. -/
theorem overlapGroups_eq_placed : overlapGroups lo hi items =
    ((placedEvents lo hi items).foldl Sweep.step {}).groups.map (List.map Prod.fst) := by
  rw [← zipIdx_map_fst 0 items, overlapGroups_map, zipIdx_map_fst]
  rfl

section

variable (hrange : ∀ a ∈ items, lo a ≤ hi a)
include hrange

theorem swept_placedEvents :
    Sweep.Swept (lo ∘ Prod.fst) (hi ∘ Prod.fst) (placedEvents lo hi items)
        ((placedEvents lo hi items).foldl Sweep.step {}) ∧
      Sweep.Chained (lo ∘ Prod.fst) (hi ∘ Prod.fst) (placedEvents lo hi items)
        ((placedEvents lo hi items).foldl Sweep.step {}) :=
  Sweep.swept_overlapGroups (List.Nodup.of_map Prod.snd (nodup_zipIdx_map_snd items))
    fun a ha => hrange a.1 (fst_mem_of_mem_zipIdx ha)

theorem flatten_overlapGroups_perm :
    (overlapGroups lo hi items).flatten.Perm items := by
  have hflatten := (swept_placedEvents hrange).1.flatten
  have hperm : (Sweep.finishes _).Perm (Sweep.finishes _) := (perm_insertionSort
    (Endpoint.Le (lo ∘ Prod.fst) (hi ∘ Prod.fst)) (Sweep.endpoints items.zipIdx)).filterMap _
  rw [Sweep.finishes_endpoints] at hperm
  rw [overlapGroups_eq_placed, ← map_flatten, hflatten]
  refine (hperm.map Prod.fst).trans (.of_eq ?_)
  rw [zipIdx_map_fst]

/-- Items of different groups do not meet. -/
theorem overlapGroups_apart :
    (overlapGroups lo hi items).Pairwise (Sweep.Apart lo hi) := by
  rw [overlapGroups_eq_placed]
  refine List.Pairwise.map _ ?_ (swept_placedEvents hrange).1.apart
  intro group later hapart a ha b hb
  obtain ⟨a', ha', rfl⟩ := mem_map.mp ha
  obtain ⟨b', hb', rfl⟩ := mem_map.mp hb
  exact hapart a' ha' b' hb'

theorem linked_of_mem_overlapGroups {group : List α}
    (hgroup : group ∈ overlapGroups lo hi items) (ha : a ∈ group) (hb : b ∈ group) :
    Sweep.Linked lo hi items a b := by
  rw [overlapGroups_eq_placed] at hgroup
  obtain ⟨group', hgroup', rfl⟩ := mem_map.mp hgroup
  obtain ⟨a', ha', rfl⟩ := mem_map.mp ha
  obtain ⟨b', hb', rfl⟩ := mem_map.mp hb
  have hlinked := (swept_placedEvents hrange).2.groups group' hgroup' a' ha' b' hb'
  have hstarted : ∀ c, c ∈ Sweep.starts (placedEvents lo hi items) → c.1 ∈ items := by
    intro c hc
    rw [Sweep.mem_starts, placedEvents, mem_insertionSort, Sweep.mem_endpoints] at hc
    obtain ⟨d, hd, heq | heq⟩ := hc
    · rw [Endpoint.start.injEq] at heq
      exact heq ▸ fst_mem_of_mem_zipIdx hd
    · simp at heq
  exact hlinked.lift Prod.fst fun c d ⟨hc, hd, hmeets⟩ => ⟨hstarted c hc, hstarted d hd, hmeets⟩

theorem not_meets_of_apart {i j : Nat} {group later : List α}
    (hi' : (overlapGroups lo hi items)[i]? = some group)
    (hj : (overlapGroups lo hi items)[j]? = some later) (hne : i ≠ j) (ha : a ∈ group)
    (hb : b ∈ later) : ¬Sweep.Meets lo hi a b := by
  have hapart := pairwise_iff_getElem.mp (overlapGroups_apart hrange)
  obtain ⟨hilt, rfl⟩ := List.getElem?_eq_some_iff.mp hi'
  obtain ⟨hjlt, rfl⟩ := List.getElem?_eq_some_iff.mp hj
  intro hmeets
  rcases Nat.lt_or_gt_of_ne hne with hlt | hlt
  · exact absurd (hapart i j hilt hjlt hlt a ha b hb) (not_lt.mpr hmeets.2)
  · exact absurd (hapart j i hjlt hilt hlt b hb a ha) (not_lt.mpr hmeets.1)

theorem exists_group_of_meets (ha : a ∈ items) (hb : b ∈ items)
    (hmeets : Sweep.Meets lo hi a b) :
    ∃ group ∈ overlapGroups lo hi items, a ∈ group ∧ b ∈ group := by
  have hperm := flatten_overlapGroups_perm hrange
  obtain ⟨group, hgroup, hag⟩ := mem_flatten.mp (hperm.mem_iff.mpr ha)
  obtain ⟨later, hlater, hbl⟩ := mem_flatten.mp (hperm.mem_iff.mpr hb)
  obtain ⟨i, hgi⟩ := mem_iff_getElem?.mp hgroup
  obtain ⟨j, hlj⟩ := mem_iff_getElem?.mp hlater
  by_cases hij : i = j
  · subst hij
    rw [hgi, Option.some_inj] at hlj
    exact ⟨group, hgroup, hag, hlj ▸ hbl⟩
  · exact absurd hmeets (not_meets_of_apart hrange hgi hlj hij hag hbl)

/-- The groups are the classes of linked items. -/
theorem exists_group_iff_linked (ha : a ∈ items) :
    (∃ group ∈ overlapGroups lo hi items, a ∈ group ∧ b ∈ group) ↔
      Sweep.Linked lo hi items a b := by
  constructor
  · rintro ⟨group, hgroup, hag, hbg⟩
    exact linked_of_mem_overlapGroups hrange hgroup hag hbg
  · intro hlinked
    induction hlinked with
    | refl => exact exists_group_of_meets hrange ha ha ⟨hrange a ha, hrange a ha⟩
    | @tail c d _ hstep ih =>
      obtain ⟨hc, hd, hmeets⟩ := hstep
      obtain ⟨group, hgroup, hag, hcg⟩ := ih
      obtain ⟨later, hlater, hcl, hdl⟩ := exists_group_of_meets hrange hc hd hmeets
      obtain ⟨i, hgi⟩ := mem_iff_getElem?.mp hgroup
      obtain ⟨j, hlj⟩ := mem_iff_getElem?.mp hlater
      -- `c` is in both groups, and it meets itself
      by_cases hij : i = j
      · subst hij
        rw [hgi, Option.some_inj] at hlj
        exact ⟨group, hgroup, hag, hlj ▸ hdl⟩
      · exact absurd ⟨hrange c hc, hrange c hc⟩
          (not_meets_of_apart hrange hgi hlj hij hcg hcl)

end

end Groups

end RefluxDb.Library
