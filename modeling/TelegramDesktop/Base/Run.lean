import Mathlib

namespace Base

variable {σ ι ο : Type*}

/-- Feed the inputs to a machine one by one, collecting what its steps emit. -/
def run (step : σ → ι → σ × List ο) : σ → List ι → σ × List ο
  | s, [] => (s, [])
  | s, i :: is =>
    let r := step s i
    let t := run step r.1 is
    (t.1, r.2 ++ t.2)

@[simp] theorem run_nil (step : σ → ι → σ × List ο) (s : σ) : run step s [] = (s, []) := rfl

theorem run_cons (step : σ → ι → σ × List ο) (s : σ) (i : ι) (is : List ι) :
    run step s (i :: is) =
      ((run step (step s i).1 is).1, (step s i).2 ++ (run step (step s i).1 is).2) := rfl

theorem run_append (step : σ → ι → σ × List ο) (s : σ) (is js : List ι) :
    run step s (is ++ js) =
      ((run step (run step s is).1 js).1,
        (run step s is).2 ++ (run step (run step s is).1 js).2) := by
  induction is generalizing s with
  | nil => simp
  | cons i is ih => simp [run_cons, ih]

theorem run_concat (step : σ → ι → σ × List ο) (s : σ) (is : List ι) (i : ι) :
    run step s (is ++ [i]) =
      ((step (run step s is).1 i).1, (run step s is).2 ++ (step (run step s is).1 i).2) := by
  rw [run_append]
  simp [run_cons]

/-- What holds of the start and is kept by each step, given what was fed and
emitted so far, holds after every run. -/
theorem run_invariant (step : σ → ι → σ × List ο) (I : List ι → σ → List ο → Prop) {s : σ}
    (hstart : I [] s [])
    (hstep : ∀ is s os i, I is s os → I (is ++ [i]) (step s i).1 (os ++ (step s i).2))
    (is : List ι) : I is (run step s is).1 (run step s is).2 := by
  induction is using List.reverseRecOn with
  | nil => exact hstart
  | append_singleton is i ih =>
    rw [run_concat]
    exact hstep is _ _ i ih

/-- Each input of a run meets a condition on the state it is fed to. -/
def RunMeets (step : σ → ι → σ × List ο) (C : σ → ι → Prop) : σ → List ι → Prop
  | _, [] => True
  | s, i :: is => C s i ∧ RunMeets step C (step s i).1 is

theorem runMeets_append (step : σ → ι → σ × List ο) (C : σ → ι → Prop) (s : σ)
    (is js : List ι) :
    RunMeets step C s (is ++ js) ↔ RunMeets step C s is ∧ RunMeets step C (run step s is).1 js := by
  induction is generalizing s with
  | nil => simp [RunMeets]
  | cons i is ih => simp [RunMeets, ih, run_cons, and_assoc]

theorem runMeets_concat (step : σ → ι → σ × List ο) (C : σ → ι → Prop) (s : σ)
    (is : List ι) (i : ι) :
    RunMeets step C s (is ++ [i]) ↔ RunMeets step C s is ∧ C (run step s is).1 i := by
  simp [runMeets_append, RunMeets]

theorem runMeets_of_forall (step : σ → ι → σ × List ο) {C : ι → Prop} (s : σ) {is : List ι}
    (h : ∀ i ∈ is, C i) : RunMeets step (fun _ => C) s is := by
  induction is generalizing s with
  | nil => trivial
  | cons i is ih =>
    rw [List.forall_mem_cons] at h
    exact ⟨h.1, ih _ h.2⟩

/-- A run that meets a condition does so up to every point. -/
theorem RunMeets.take {step : σ → ι → σ × List ο} {C : σ → ι → Prop} {s : σ} {is : List ι}
    (h : RunMeets step C s is) (n : ℕ) : RunMeets step C s (is.take n) := by
  rw [← List.take_append_drop n is, runMeets_append] at h
  exact h.1

/-- The invariant rule for runs whose steps all meet a condition. -/
theorem runMeets_invariant (step : σ → ι → σ × List ο) (C : σ → ι → Prop)
    (I : List ι → σ → List ο → Prop) {s : σ} (hstart : I [] s [])
    (hstep : ∀ is s os i, I is s os → C s i → I (is ++ [i]) (step s i).1 (os ++ (step s i).2))
    (is : List ι) (h : RunMeets step C s is) : I is (run step s is).1 (run step s is).2 := by
  induction is using List.reverseRecOn with
  | nil => exact hstart
  | append_singleton is i ih =>
    rw [runMeets_concat] at h
    rw [run_concat]
    exact hstep is _ _ i (ih h.1) h.2

end Base
