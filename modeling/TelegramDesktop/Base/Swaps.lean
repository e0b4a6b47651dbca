import Mathlib

namespace Base

variable {α : Type*}

/-- The exchange of the element at an index with the one before it. -/
def swapAt (l : List α) (i : ℕ) : Option (List α) := do
  let a ← l[i - 1]?
  let b ← l[i]?
  some ((l.set (i - 1) b).set i a)

/-- So many exchanges with the index going up. -/
def swapRight : ℕ → ℕ → List α → Option (List α)
  | 0, _, l => some l
  | n + 1, i, l => do swapRight n (i + 1) (← swapAt l i)

def swapLeft : ℕ → ℕ → List α → Option (List α)
  | 0, _, l => some l
  | n + 1, i, l => do swapLeft n (i - 1) (← swapAt l i)

theorem swapAt_append (front back : List α) (x y : α) :
    swapAt (front ++ x :: y :: back) (front.length + 1) = some (front ++ y :: x :: back) := by
  have hx : (front ++ x :: y :: back)[front.length]? = some x := by simp
  have hy : (front ++ x :: y :: back)[front.length + 1]? = some y := by simp
  rw [swapAt, Nat.add_sub_cancel, hx, hy, Option.bind_eq_bind, Option.bind_some,
    Option.bind_some]
  simp

/-- The element goes behind those it was exchanged with. -/
theorem swapRight_append (front middle back : List α) (x : α) :
    swapRight middle.length (front.length + 1) (front ++ x :: (middle ++ back)) =
      some (front ++ middle ++ x :: back) := by
  induction middle generalizing front with
  | nil => simp [swapRight]
  | cons y middle ih =>
    have h := ih (front ++ [y])
    rw [List.length_append, List.length_singleton, List.append_assoc] at h
    rw [List.length_cons, swapRight, List.cons_append, swapAt_append, Option.bind_eq_bind,
      Option.bind_some, ← List.singleton_append, h]
    simp

theorem swapLeft_append (front middle back : List α) (x : α) :
    swapLeft middle.length (front.length + middle.length) (front ++ middle ++ x :: back) =
      some (front ++ x :: (middle ++ back)) := by
  induction middle using List.reverseRecOn generalizing back with
  | nil => simp [swapLeft]
  | append_singleton middle y ih =>
    have hlist : front ++ (middle ++ [y]) ++ x :: back = (front ++ middle) ++ y :: x :: back := by
      simp
    have hlength : front.length + (middle ++ [y]).length = (front ++ middle).length + 1 := by
      simp [Nat.add_assoc]
    have h := ih (y :: back)
    rw [hlist, hlength, List.length_append, List.length_singleton, swapLeft, swapAt_append,
      Option.bind_eq_bind, Option.bind_some, Nat.add_sub_cancel, List.length_append, h]
    simp

/-- Where a search stops. -/
theorem findIdx_append_eq (p : α → Bool) {front back : List α} (hfront : ∀ x ∈ front, p x = false)
    (hback : ∀ x ∈ back.head?, p x = true) : (front ++ back).findIdx p = front.length := by
  have hpassed : front.findIdx p = front.length := List.findIdx_eq_length.mpr hfront
  have hzero : back.findIdx p = 0 := by
    cases back with
    | nil => rfl
    | cons x back => rw [List.findIdx_cons, hback x rfl, cond_true]
  rw [List.findIdx_append, hpassed, if_neg (lt_irrefl _), hzero, Nat.zero_add]

end Base
