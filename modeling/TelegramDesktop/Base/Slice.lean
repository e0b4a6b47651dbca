import Mathlib

namespace Base

variable {α : Type*}

/-- The `n` elements from `i` on. -/
def slice (l : List α) (i n : ℕ) : List α := (l.drop i).take n

/-- The list with `xs` written over it from `i` on. -/
def splice (l : List α) (i : ℕ) (xs : List α) : List α :=
  l.take i ++ xs ++ l.drop (i + xs.length)

theorem length_slice {l : List α} {i n : ℕ} (h : i + n ≤ l.length) : (slice l i n).length = n := by
  rw [slice, List.length_take, List.length_drop]
  omega

@[simp] theorem slice_zero (l : List α) (i : ℕ) : slice l i 0 = [] := rfl

theorem slice_append (l : List α) (i m n : ℕ) :
    slice l i (m + n) = slice l i m ++ slice l (i + m) n := by
  rw [slice, slice, slice, List.take_add, List.drop_drop]

theorem take_slice {l : List α} {i m n : ℕ} (h : m ≤ n) : (slice l i n).take m = slice l i m := by
  rw [slice, slice, List.take_take, min_eq_left h]

theorem drop_slice (l : List α) (i m n : ℕ) :
    (slice l i n).drop m = slice l (i + m) (n - m) := by
  rw [slice, slice, List.drop_take, List.drop_drop]

theorem slice_middle (a b c : List α) : slice (a ++ b ++ c) a.length b.length = b := by
  simp [slice]

section Splice

variable {l xs : List α} {i : ℕ} (h : i + xs.length ≤ l.length)
include h

theorem length_splice : (splice l i xs).length = l.length := by
  simp only [splice, List.length_append, List.length_take, List.length_drop]
  omega

theorem slice_splice_self : slice (splice l i xs) i xs.length = xs := by
  have hi : (l.take i).length = i := by
    rw [List.length_take]
    omega
  have := slice_middle (l.take i) xs (l.drop (i + xs.length))
  rwa [hi] at this

/-- What lies before or behind a write is unchanged. -/
theorem slice_splice_apart {j n : ℕ} (hj : j + n ≤ i ∨ i + xs.length ≤ j) :
    slice (splice l i xs) j n = slice l j n := by
  apply List.ext_getElem?
  intro k
  simp only [slice, splice, List.getElem?_take, List.getElem?_drop]
  split_ifs with hk
  · rcases hj with hj | hj
    · rw [List.getElem?_append_left, List.getElem?_append_left, List.getElem?_take_of_lt]
      · omega
      · rw [List.length_take]
        omega
      · rw [List.length_append, List.length_take]
        omega
    · rw [List.getElem?_append_right, List.getElem?_drop]
      · congr 1
        rw [List.length_append, List.length_take]
        omega
      · rw [List.length_append, List.length_take]
        omega
  · rfl

theorem getD_splice_apart {j : ℕ} (hj : j < i ∨ i + xs.length ≤ j) (d : α) :
    (splice l i xs).getD j d = l.getD j d := by
  have hone := slice_splice_apart h (j := j) (n := 1) (by omega)
  have hget : ∀ m : List α, (slice m j 1).getD 0 d = m.getD j d := by
    intro m
    simp [slice, List.getD_eq_getElem?_getD]
  rw [← hget, hone, hget]

/-- A write behind a slice extends it. -/
theorem slice_splice_append {j : ℕ} (hj : j ≤ i) :
    slice (splice l i xs) j (i - j + xs.length) = slice l j (i - j) ++ xs := by
  have hij : j + (i - j) = i := by omega
  rw [slice_append, slice_splice_apart h (.inl hij.le), hij, slice_splice_self h]

end Splice

end Base
