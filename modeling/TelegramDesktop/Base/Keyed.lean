import Mathlib

namespace Base

variable {α κ : Type*} {key : α → κ} {l : List α}

theorem nodup_push {x : α} (hl : (l.map key).Nodup) (hnew : ∀ y ∈ l, key y ≠ key x) :
    ((l ++ [x]).map key).Nodup := by
  rw [List.map_append, List.nodup_append]
  refine ⟨hl, List.nodup_singleton _, ?_⟩
  intro a ha b hb
  obtain ⟨y, hy, rfl⟩ := List.mem_map.mp ha
  rw [List.mem_singleton.mp hb]
  exact hnew y hy

variable [DecidableEq κ]

/-- Taking out the first entry with a key takes out the key. -/
theorem mem_eraseP_key {x : α} (hl : (l.map key).Nodup) (k : κ) :
    x ∈ l.eraseP (fun y => decide (key y = k)) ↔ x ∈ l ∧ key x ≠ k := by
  let taken : α → Bool := fun y => decide (key y = k)
  constructor
  · intro hx
    refine ⟨List.mem_of_mem_eraseP hx, fun heq => ?_⟩
    induction l with
    | nil => exact nomatch hx
    | cons first rest ih =>
      rw [List.map_cons, List.nodup_cons] at hl
      by_cases hfirst : key first = k
      · rw [List.eraseP_cons_of_pos (p := taken) (decide_eq_true hfirst)] at hx
        apply hl.1
        rw [hfirst, ← heq]
        exact List.mem_map_of_mem hx
      · rw [List.eraseP_cons_of_neg (p := taken) fun h => hfirst (of_decide_eq_true h)] at hx
        rcases List.mem_cons.mp hx with rfl | hx
        · exact hfirst heq
        · exact ih hl.2 hx
  · rintro ⟨hx, hne⟩
    exact (List.mem_eraseP_of_neg (p := taken) fun h => hne (of_decide_eq_true h)).mpr hx

end Base
