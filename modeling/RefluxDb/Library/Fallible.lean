import Mathlib.Data.List.Basic

/-! Computations that may fail, either with an error that is returned to the caller or with a
panic, and loops over them. -/

namespace RefluxDb.Library

universe u

/-- Why a computation did not return a value. -/
inductive Failure (ε : Type*) where
  | error (e : ε)
  | panic (message : String)
deriving DecidableEq

abbrev Fallible (ε : Type*) := Except (Failure ε)

namespace Fallible

variable {ε : Type*} {α β : Type u}

def ensure (holds : Bool) (failure : Failure ε) : Fallible ε Unit :=
  if holds then pure () else throw failure

/-- The value of an option, or a panic. -/
def expect (message : String) : Option α → Fallible ε α
  | some a => pure a
  | none => throw (.panic message)

/-- The value of an option, or an error. -/
def okOr (e : ε) : Option α → Fallible ε α
  | some a => pure a
  | none => throw (.error e)

/-- The value of a computation whose errors are not expected. -/
def unwrap (message : String) : Fallible ε α → Fallible ε α
  | .error (.error _) => throw (.panic message)
  | result => result

variable {x : Fallible ε α} {f : α → Fallible ε β} {b : β} {a : α}

@[simp]
theorem bind_eq_ok : (x >>= f) = .ok b ↔ ∃ a, x = .ok a ∧ f a = .ok b := by
  cases x with
  | error e => simp [bind, Except.bind]
  | ok a => simp [bind, Except.bind]

@[simp]
theorem map_eq_ok {g : α → β} : g <$> x = .ok b ↔ ∃ a, x = .ok a ∧ g a = b := by
  cases x <;> simp [Functor.map, Except.map]

@[simp]
theorem pure_eq_ok {c : α} : (pure c : Fallible ε α) = .ok a ↔ c = a := by
  simp [pure, Except.pure]

@[simp]
theorem throw_eq_ok {e : Failure ε} : (throw e : Fallible ε α) = .ok a ↔ False := by
  simp [throw, throwThe, MonadExceptOf.throw]

@[simp]
theorem ensure_eq_ok {holds : Bool} {failure : Failure ε} {u : Unit} :
    ensure holds failure = .ok u ↔ holds = true := by
  cases holds <;> simp [ensure]

variable {message : String} {o : Option α}

@[simp]
theorem expect_eq_ok :
    (expect message o : Fallible ε α) = .ok a ↔ o = some a := by
  cases o <;> simp [expect]

@[simp]
theorem okOr_eq_ok {e : ε} : okOr e o = .ok a ↔ o = some a := by
  cases o <;> simp [okOr]

@[simp]
theorem unwrap_eq_ok : unwrap message x = .ok a ↔ x = .ok a := by
  unfold unwrap
  split <;> simp

theorem toOption_eq_some : x.toOption = some a ↔ x = .ok a := by
  cases x <;> simp [Except.toOption]

variable {items : List α}

/-- The rule for folds that looks back at the items already taken: `holds` is kept by each step
from the items before it to the items up to it. -/
theorem foldlM_induct {σ : Type u} {step : σ → α → Fallible ε σ} (holds : List α → σ → Prop)
    {s t : σ}
    (hstep : ∀ done a rest s t, items = done ++ a :: rest → holds done s → step s a = .ok t →
      holds (done ++ [a]) t)
    (hs : holds [] s) (hrun : items.foldlM step s = .ok t) : holds items t := by
  suffices h : ∀ rest done s, items = done ++ rest → holds done s → rest.foldlM step s = .ok t →
      holds items t from h items [] s rfl hs hrun
  intro rest
  induction rest with
  | nil =>
    intro done s hitems hs hrun
    rw [List.foldlM_nil, pure_eq_ok] at hrun
    rw [hitems, List.append_nil]
    exact hrun ▸ hs
  | cons a rest ih =>
    intro done s hitems hs hrun
    rw [List.foldlM_cons, bind_eq_ok] at hrun
    obtain ⟨next, hnext, hrest⟩ := hrun
    have hlater : items = (done ++ [a]) ++ rest := by simpa using hitems
    exact ih (done ++ [a]) next hlater (hstep done a rest s next hitems hs hnext) hrest

/-- What each round of a loop keeps holds after the loop. -/
theorem foldlM_keeps {σ : Type u} {step : σ → α → Fallible ε σ} (keeps : σ → Prop) {s t : σ}
    (hstep : ∀ s t a, a ∈ items → keeps s → step s a = .ok t → keeps t) (hs : keeps s)
    (hrun : items.foldlM step s = .ok t) : keeps t := by
  refine foldlM_induct (fun _ => keeps) ?_ hs hrun
  intro _ a _ s t hitems hkeeps hnext
  exact hstep s t a (by simp [hitems]) hkeeps hnext

theorem exists_mem_mapM {f : α → Fallible ε β} {results : List β} {P : β → Prop} {Q : α → Prop}
    (h : items.mapM f = .ok results) (hsame : ∀ a ∈ items, ∀ b, f a = .ok b → (P b ↔ Q a)) :
    (∃ b ∈ results, P b) ↔ ∃ a ∈ items, Q a := by
  induction items generalizing results with
  | nil =>
    obtain rfl := pure_eq_ok.mp h
    simp
  | cons a items ih =>
    simp only [List.mapM_cons, bind_eq_ok, pure_eq_ok] at h
    obtain ⟨b, hb, rest, hrest, rfl⟩ := h
    obtain ⟨hfirst, hothers⟩ := List.forall_mem_cons.mp hsame
    rw [List.exists_mem_cons_iff, List.exists_mem_cons_iff, hfirst b hb, ih hrest hothers]

end Fallible

end RefluxDb.Library
