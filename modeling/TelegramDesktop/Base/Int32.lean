import Mathlib.Algebra.Order.Group.Int

namespace Base

/-- `int32` addition. -/
def int32Add (a b : ℤ) : ℤ := (a + b).bmod 4294967296

theorem int32Add_of_range {a b : ℤ} (h : -2 ^ 31 ≤ a + b) (h' : a + b < 2 ^ 31) :
    int32Add a b = a + b := by
  unfold int32Add
  rw [Int.bmod_def]
  omega

/-- What no `int` holds is replaced by another number. -/
theorem int32Add_eq_iff {a b : ℤ} :
    int32Add a b = a + b ↔ -2 ^ 31 ≤ a + b ∧ a + b < 2 ^ 31 := by
  refine ⟨fun h => ?_, fun h => int32Add_of_range h.1 h.2⟩
  rw [int32Add, Int.bmod_def] at h
  omega

theorem int32Add_zero {a : ℤ} (h : -2 ^ 31 ≤ a ∧ a < 2 ^ 31) : int32Add a 0 = a := by
  rw [int32Add_of_range (by omega) (by omega), add_zero]

end Base
