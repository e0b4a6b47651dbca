import Mathlib

namespace Base

variable {σ ρ : Type*}

/-- Repeat a step until it gives a result. A step that has no outcome, or too many steps, give
none. -/
def loop (step : σ → Option (σ ⊕ ρ)) : ℕ → σ → Option ρ
  | 0, _ => none
  | fuel + 1, s =>
    (step s).bind fun next => next.elim (loop step fuel) some

/-- The rule for loops: an invariant that each step keeps with a smaller measure, and that gives
what is wanted when the loop is left. -/
theorem loop_total {step : σ → Option (σ ⊕ ρ)} {I : σ → Prop} {Q : ρ → Prop} (measure : σ → ℕ)
    (hstep : ∀ s, I s → ∃ next, step s = some next ∧
      next.elim (fun t => I t ∧ measure t < measure s) Q)
    {s : σ} (hs : I s) {fuel : ℕ} (hfuel : measure s < fuel) :
    ∃ r, loop step fuel s = some r ∧ Q r := by
  induction fuel generalizing s with
  | zero => exact absurd hfuel (Nat.not_lt_zero _)
  | succ fuel ih =>
    obtain ⟨next, hnext, houtcome⟩ := hstep s hs
    rw [loop, hnext, Option.bind_some]
    cases next with
    | inl t => exact ih houtcome.1 (by have := houtcome.2; omega)
    | inr r => exact ⟨r, rfl, houtcome⟩

/-- A step that is a test with two outcomes. -/
theorem loop_step_ite {p : Prop} [Decidable p] {I : σ → Prop} {Q : ρ → Prop} {t : σ} {r : ρ}
    (hyes : p → I t) (hno : ¬ p → Q r) :
    ∃ next, some (if p then Sum.inl t else Sum.inr r : σ ⊕ ρ) = some next ∧ next.elim I Q := by
  refine ⟨_, rfl, ?_⟩
  by_cases h : p
  · rw [if_pos h]
    exact hyes h
  · rw [if_neg h]
    exact hno h

end Base
