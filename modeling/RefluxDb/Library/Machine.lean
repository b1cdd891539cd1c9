import Mathlib.Data.List.Basic
import Mathlib.Data.Option.Basic

/-! Labelled machines whose runs are cut down by a condition on each step.

A machine has a set of initial states and a partial step function. Reachability is relative to
a condition `allowed` on the state before a step and the action taken there: a run that is free
of any condition is reachability under `fun _ _ => True`. Runs are also executable, as the
evaluation of a finite schedule of actions, so that a particular run can be computed. -/

namespace RefluxDb.Library

/-- A machine: its initial states and what each action does, if it is enabled. -/
structure Machine (State Action : Type*) where
  initial : State → Prop
  step : State → Action → Option State

namespace Machine

variable {State Action : Type*} {machine : Machine State Action}
variable {allowed weaker : State → Action → Prop}

/-- The states a run reaches when every step it takes meets `allowed`. -/
inductive Reachable (machine : Machine State Action) (allowed : State → Action → Prop) :
    State → Prop
  | initial {state : State} (hinitial : machine.initial state) : Reachable machine allowed state
  | step {state next : State} {action : Action} (hreachable : Reachable machine allowed state)
      (hallowed : allowed state action) (hstep : machine.step state action = some next) :
      Reachable machine allowed next

/-- The condition of a run none of whose steps is excluded. -/
abbrev Unrestricted (_ : State) (_ : Action) : Prop := True

variable {state : State}

/-- The invariant rule: what holds at the start and is kept by each allowed step holds
throughout. -/
theorem Reachable.invariant {inv : State → Prop}
    (hreachable : machine.Reachable allowed state)
    (hinitial : ∀ state, machine.initial state → inv state)
    (hstep : ∀ state next action, inv state → allowed state action →
      machine.step state action = some next → inv next) :
    inv state := by
  induction hreachable with
  | initial h => exact hinitial _ h
  | step _ hallowed hnext ih => exact hstep _ _ _ ih hallowed hnext

theorem Reachable.mono (hreachable : machine.Reachable allowed state)
    (hweaker : ∀ state action, allowed state action → weaker state action) :
    machine.Reachable weaker state := by
  induction hreachable with
  | initial h => exact .initial h
  | step _ hallowed hnext ih => exact .step ih (hweaker _ _ hallowed) hnext

/-- Evaluates a finite schedule; `none` when some action is not enabled. -/
def exec (machine : Machine State Action) : State → List Action → Option State
  | state, [] => some state
  | state, action :: rest => (machine.step state action).bind (machine.exec · rest)

/-- Every step of a schedule meets the condition in the state it is taken from. -/
def Meets (machine : Machine State Action) (allowed : State → Action → Prop) :
    State → List Action → Prop
  | _, [] => True
  | state, action :: rest =>
    allowed state action ∧
      ∀ next ∈ machine.step state action, machine.Meets allowed next rest

instance Meets.decidable (machine : Machine State Action)
    [∀ state action, Decidable (allowed state action)] :
    ∀ (state : State) (schedule : List Action), Decidable (machine.Meets allowed state schedule)
  | _, [] => inferInstanceAs (Decidable True)
  | state, action :: rest =>
    let later : Decidable (∀ next ∈ machine.step state action,
        machine.Meets allowed next rest) :=
      match machine.step state action with
      | none => .isTrue (by simp)
      | some next =>
        match Meets.decidable machine next rest with
        | .isTrue h => .isTrue (by simpa using h)
        | .isFalse h => .isFalse (by simpa using h)
    inferInstanceAs (Decidable (_ ∧ _))

variable {schedule : List Action}

theorem Reachable.exec {last : State}
    (hreachable : machine.Reachable allowed state)
    (hmeets : machine.Meets allowed state schedule)
    (hexec : machine.exec state schedule = some last) :
    machine.Reachable allowed last := by
  induction schedule generalizing state with
  | nil =>
    simp only [Machine.exec, Option.some.injEq] at hexec
    exact hexec ▸ hreachable
  | cons action rest ih =>
    obtain ⟨hallowed, hlater⟩ := hmeets
    simp only [Machine.exec, Option.bind_eq_some_iff] at hexec
    obtain ⟨next, hnext, hrest⟩ := hexec
    exact ih (.step hreachable hallowed hnext) (hlater next hnext) hrest

/-- What every step keeps holds at the end of every schedule. -/
theorem exec_keeps (keeps : State → Prop) {last : State}
    (hstep : ∀ state next action, keeps state → machine.step state action = some next →
      keeps next)
    (hstate : keeps state) (hexec : machine.exec state schedule = some last) : keeps last := by
  induction schedule generalizing state with
  | nil =>
    simp only [Machine.exec, Option.some.injEq] at hexec
    exact hexec ▸ hstate
  | cons action rest ih =>
    simp only [Machine.exec, Option.bind_eq_some_iff] at hexec
    obtain ⟨next, hnext, hrest⟩ := hexec
    exact ih (hstep state next action hstate hnext) hrest

theorem meets_unrestricted (machine : Machine State Action) (state : State)
    (schedule : List Action) : machine.Meets Unrestricted state schedule := by
  induction schedule generalizing state with
  | nil => trivial
  | cons action rest ih => exact ⟨trivial, fun next _ => ih next⟩

/-- A state with a decidable property is reachable when a schedule evaluates to one. -/
theorem Reachable.exists_of_exec (hreachable : machine.Reachable allowed state)
    (schedule : List Action) (holds : State → Prop) [DecidablePred holds]
    (hmeets : machine.Meets allowed state schedule)
    (hholds : (machine.exec state schedule).any (fun last => decide (holds last)) = true) :
    ∃ last, machine.Reachable allowed last ∧ holds last := by
  obtain ⟨last, hexec, hlast⟩ := (Option.any_eq_true _ _).mp hholds
  exact ⟨last, hreachable.exec hmeets hexec, of_decide_eq_true hlast⟩

theorem Reachable.exists_of_exec_and {claim : State → Prop}
    (hreachable : machine.Reachable allowed state) (schedule : List Action) (holds : State → Prop)
    [DecidablePred holds] (hmeets : machine.Meets allowed state schedule)
    (hholds : (machine.exec state schedule).any (fun last => decide (holds last)) = true)
    (hclaim : ∀ last, machine.Reachable allowed last → claim last) :
    ∃ last, machine.Reachable allowed last ∧ holds last ∧ claim last := by
  obtain ⟨last, hlast, hheld⟩ := hreachable.exists_of_exec schedule holds hmeets hholds
  exact ⟨last, hlast, hheld, hclaim last hlast⟩

theorem Reachable.exists_of_run (hreachable : machine.Reachable Unrestricted state)
    (schedule : List Action) (holds : State → Prop) [DecidablePred holds]
    (hholds : (machine.exec state schedule).any (fun last => decide (holds last)) = true) :
    ∃ last, machine.Reachable Unrestricted last ∧ holds last :=
  hreachable.exists_of_exec schedule holds (meets_unrestricted _ _ _) hholds

end Machine

end RefluxDb.Library
