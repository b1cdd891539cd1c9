import Mathlib.Data.List.Basic

/-! Lists that grow at their end, folds over lists, and the value of an option. -/

namespace RefluxDb.Library

variable {α σ : Type*}

variable {items : List α}

theorem mem_concat {a b : α} : a ∈ items ++ [b] ↔ a ∈ items ∨ a = b := by
  rw [List.mem_append, List.mem_singleton]

theorem forall_mem_concat {p : α → Prop} {b : α} :
    (∀ a ∈ items ++ [b], p a) ↔ (∀ a ∈ items, p a) ∧ p b := by
  simp only [mem_concat, or_imp, forall_and, forall_eq]

theorem pairwise_concat {R : α → α → Prop} {b : α} :
    (items ++ [b]).Pairwise R ↔ items.Pairwise R ∧ ∀ a ∈ items, R a b := by
  simp [List.pairwise_append]

/-- What holds of a value holds of whatever an option with that value has. -/
theorem forall_eq_some {p : α → Prop} {a : α} (h : p a) : ∀ b, some a = some b → p b := by
  rintro b ⟨⟩
  exact h

/-- What every step of a fold keeps, the fold keeps. -/
theorem foldl_keeps (keeps : σ → Prop) {step : σ → α → σ} {list : List α} {state : σ}
    (hstep : ∀ state, ∀ a ∈ list, keeps state → keeps (step state a)) (hstate : keeps state) :
    keeps (list.foldl step state) :=
  List.foldlRecOn list step hstate fun state hkeeps a ha => hstep state a ha hkeeps

theorem mapM_ite {α β : Type} (p : α → Prop) [DecidablePred p] (g : α → β) (l : List α) :
    (l.mapM fun a => if p a then some (g a) else none) =
      if ∀ a ∈ l, p a then some (l.map g) else none := by
  induction l with
  | nil => simp
  | cons a rest ih =>
    rw [List.mapM_cons, ih]
    by_cases ha : p a
    · by_cases hrest : ∀ b ∈ rest, p b
      · simp [ha, if_pos hrest]
      · simp [ha, if_neg hrest]
    · simp [ha]

end RefluxDb.Library
