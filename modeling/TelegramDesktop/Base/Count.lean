import Mathlib

namespace Base

variable {α : Type*}

/-- What is counted together is counted apart. -/
theorem countP_split {p q r : α → Bool} (l : List α)
    (h : ∀ a ∈ l, (p a = true ↔ q a = true ∨ r a = true) ∧ ¬(q a = true ∧ r a = true)) :
    l.countP p = l.countP q + l.countP r := by
  induction l with
  | nil => rfl
  | cons a l ih =>
    obtain ⟨hor, hnot⟩ := h a List.mem_cons_self
    rw [List.countP_cons, List.countP_cons, List.countP_cons,
      ih fun b hb => h b (List.mem_cons_of_mem _ hb)]
    by_cases hq : q a = true
    · have hr : ¬r a = true := fun hr => hnot ⟨hq, hr⟩
      rw [if_pos (hor.mpr (Or.inl hq)), if_pos hq, if_neg hr]
      omega
    · by_cases hr : r a = true
      · rw [if_pos (hor.mpr (Or.inr hr)), if_neg hq, if_pos hr]
        omega
      · rw [if_neg fun hp => (hor.mp hp).elim hq hr, if_neg hq, if_neg hr]
        omega

end Base
