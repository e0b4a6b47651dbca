import Mathlib

namespace Base

variable {α : Type*}

/-- `std::rotate` of the segment from `first` to `last`: the element at `middle` becomes its
first one. -/
def rotateSegment (l : List α) (first middle last : ℕ) : List α :=
  l.take first ++ (l.take last).drop middle ++ (l.take middle).drop first ++ l.drop last

theorem rotateSegment_append (a b c d : List α) :
    rotateSegment (a ++ b ++ c ++ d) a.length (a.length + b.length)
      (a.length + b.length + c.length) = a ++ c ++ b ++ d := by
  have hlast : (a ++ b ++ c).length = a.length + b.length + c.length := by
    rw [List.length_append, List.length_append]
  have hmiddle : (a ++ b).length = a.length + b.length := List.length_append
  have htake : (a ++ b ++ c ++ d).take (a.length + b.length + c.length) = a ++ b ++ c :=
    List.take_left' hlast
  have htake' : (a ++ b ++ c ++ d).take (a.length + b.length) = a ++ b := by
    rw [List.append_assoc _ c d, List.take_left' hmiddle]
  have hfirst : (a ++ b ++ c ++ d).take a.length = a := by
    rw [List.append_assoc _ c d, List.append_assoc a b, List.take_left]
  rw [rotateSegment, hfirst, htake, htake', List.drop_left' hmiddle, List.drop_left,
    List.drop_left' hlast]

/-- The last element of the segment comes before the others. -/
theorem rotateSegment_last (a b d : List α) (x : α) :
    rotateSegment (a ++ b ++ x :: d) a.length (a.length + b.length) (a.length + b.length + 1) =
      a ++ x :: (b ++ d) := by
  have h := rotateSegment_append a b [x] d
  simpa using h

/-- The first element of the segment goes behind the others. -/
theorem rotateSegment_first (a b d : List α) (x : α) :
    rotateSegment (a ++ x :: (b ++ d)) a.length (a.length + 1) (a.length + 1 + b.length) =
      a ++ b ++ x :: d := by
  have h := rotateSegment_append a [x] b d
  simpa using h

theorem perm_segments (a b c d : List α) : (a ++ c ++ b ++ d).Perm (a ++ b ++ c ++ d) := by
  rw [List.append_assoc a c b, List.append_assoc a b c]
  exact (List.perm_append_comm.append_left a).append_right d

theorem exists_append_findIdx (p : α → Bool) (l : List α) :
    ∃ front back, l = front ++ back ∧ l.findIdx p = front.length ∧
      (∀ x ∈ front, p x = false) ∧ ∀ x ∈ back.head?, p x = true := by
  induction l with
  | nil => exact ⟨[], [], rfl, rfl, by simp, by simp⟩
  | cons x l ih =>
    cases hx : p x with
    | true => exact ⟨[], x :: l, rfl, by simp [List.findIdx_cons, hx], by simp, by simp [hx]⟩
    | false =>
      obtain ⟨front, back, rfl, hidx, hfront, hback⟩ := ih
      refine ⟨x :: front, back, rfl, ?_, ?_, hback⟩
      · rw [List.findIdx_cons, hx, cond_false, hidx, List.length_cons]
      · intro y hy
        rcases List.mem_cons.mp hy with rfl | hy
        · exact hx
        · exact hfront y hy

/-- An element fits where its two neighbours allow it. -/
theorem pairwise_insert {r : α → α → Prop} (htrans : ∀ {x y z}, r x y → r y z → r x z)
    {u v : List α} {x : α} (h : (u ++ v).Pairwise r) (hu : ∀ y ∈ u.getLast?, r y x)
    (hv : ∀ y ∈ v.head?, r x y) : (u ++ x :: v).Pairwise r := by
  obtain ⟨hpu, hpv, huv⟩ := List.pairwise_append.mp h
  have hbefore : ∀ y ∈ u, r y x := by
    intro y hy
    rcases List.eq_nil_or_concat u with rfl | ⟨u', last, rfl⟩
    · exact nomatch hy
    · have hlast : r last x := hu last (by simp)
      rcases List.mem_append.mp (by simpa using hy : y ∈ u' ++ [last]) with hy' | hy'
      · have hpu' : (u' ++ [last]).Pairwise r := by simpa using hpu
        exact htrans ((List.pairwise_append.mp hpu').2.2 y hy' last (by simp)) hlast
      · exact List.mem_singleton.mp hy' ▸ hlast
  have hbehind : ∀ y ∈ v, r x y := by
    intro y hy
    cases v with
    | nil => exact nomatch hy
    | cons first v =>
      have hfirst : r x first := hv first (by simp)
      rcases List.mem_cons.mp hy with rfl | hy
      · exact hfirst
      · exact htrans hfirst ((List.pairwise_cons.mp hpv).1 y hy)
  refine List.pairwise_append.mpr ⟨hpu, List.pairwise_cons.mpr ⟨hbehind, hpv⟩, ?_⟩
  intro y hy z hz
  rcases List.mem_cons.mp hz with rfl | hz
  · exact hbefore y hy
  · exact huv y hy z hz

end Base
