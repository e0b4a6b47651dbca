import Mathlib

namespace Base.Spans

variable {α : Type*} (lo hi : α → ℤ)

/-- The intervals of `a` and `b` do not meet. -/
def Apart (a b : α) : Prop := hi a ≤ lo b ∨ hi b ≤ lo a

instance (a b : α) : Decidable (Apart lo hi a b) := by
  unfold Apart
  infer_instance

/-- The sum of the lengths. -/
def total (es : List α) : ℤ := (es.map fun e => hi e - lo e).sum

@[simp] theorem total_nil : total lo hi [] = 0 := rfl

@[simp] theorem total_append (es fs : List α) :
    total lo hi (es ++ fs) = total lo hi es + total lo hi fs := by
  simp [total]

@[simp] theorem total_singleton (e : α) : total lo hi [e] = hi e - lo e := by
  simp [total]

variable {lo hi} in
theorem total_nonneg {es : List α} (hle : ∀ e ∈ es, lo e ≤ hi e) : 0 ≤ total lo hi es := by
  apply List.sum_nonneg
  intro x hx
  obtain ⟨e, he, rfl⟩ := List.mem_map.mp hx
  have := hle e he
  omega

/-- Every point of `(p, q]` is in one of the intervals. -/
def Covers (es : List α) (p q : ℤ) : Prop :=
  ∀ x, p < x → x ≤ q → ∃ e ∈ es, lo e < x ∧ x ≤ hi e

variable {lo hi}

theorem Apart.symm {a b : α} (h : Apart lo hi a b) : Apart lo hi b a := Or.symm h

instance : Std.Symm (Apart lo hi) := ⟨fun _ _ => Apart.symm⟩

/-- Two members of a pairwise disjoint family that share a point are one. -/
theorem eq_of_common {es : List α} (hd : es.Pairwise (Apart lo hi)) {a b : α} (ha : a ∈ es)
    (hb : b ∈ es) {x : ℤ} (hax : lo a < x ∧ x ≤ hi a) (hbx : lo b < x ∧ x ≤ hi b) : a = b := by
  by_contra hne
  have h : Apart lo hi a b := hd.forall ha hb hne
  rcases h with h | h <;> omega

/-- The points of the family. -/
noncomputable def points (lo hi : α → ℤ) (es : List α) : Finset ℤ :=
  es.foldr (fun e s => Finset.Ioc (lo e) (hi e) ∪ s) ∅

theorem mem_points {es : List α} {x : ℤ} :
    x ∈ points lo hi es ↔ ∃ e ∈ es, lo e < x ∧ x ≤ hi e := by
  induction es with
  | nil => simp [points]
  | cons e es ih => simpa [points] using or_congr_right ih

/-- Disjoint intervals have as many points as their lengths say. -/
theorem card_points {es : List α} (hd : es.Pairwise (Apart lo hi))
    (hle : ∀ e ∈ es, lo e ≤ hi e) : ((points lo hi es).card : ℤ) = total lo hi es := by
  induction es with
  | nil => simp [points]
  | cons e es ih =>
    obtain ⟨he, hes⟩ := List.pairwise_cons.mp hd
    have hdisj : Disjoint (Finset.Ioc (lo e) (hi e)) (points lo hi es) := by
      rw [Finset.disjoint_left]
      intro x hx hx'
      obtain ⟨f, hf, hfx⟩ := mem_points.mp hx'
      have hex := Finset.mem_Ioc.mp hx
      rcases he f hf with h | h <;> omega
    have hlen : ((Finset.Ioc (lo e) (hi e)).card : ℤ) = hi e - lo e := by
      have := hle e (by simp)
      rw [Int.card_Ioc]
      omega
    have ih' := ih hes fun f hf => hle f (List.mem_cons_of_mem _ hf)
    change ((Finset.Ioc (lo e) (hi e) ∪ points lo hi es).card : ℤ) = _
    rw [Finset.card_union_of_disjoint hdisj]
    push_cast
    rw [hlen, ih']
    simp [total]

variable {es : List α} {p q : ℤ}

theorem points_subset (hin : ∀ e ∈ es, p ≤ lo e ∧ hi e ≤ q) :
    points lo hi es ⊆ Finset.Ioc p q := by
  intro x hx
  obtain ⟨e, he, hex⟩ := mem_points.mp hx
  have := hin e he
  exact Finset.mem_Ioc.mpr (by omega)

/-- Disjoint intervals inside `(p, q]` are no longer than it. -/
theorem total_le (hpq : p ≤ q) (hd : es.Pairwise (Apart lo hi)) (hle : ∀ e ∈ es, lo e ≤ hi e)
    (hin : ∀ e ∈ es, p ≤ lo e ∧ hi e ≤ q) : total lo hi es ≤ q - p := by
  have hcard := Finset.card_le_card (points_subset hin)
  rw [Int.card_Ioc] at hcard
  have := card_points hd hle
  omega

/-- The gap test: disjoint intervals inside `(p, q]` leave no hole in it exactly
when their lengths add up to its own. -/
theorem covers_iff_total (hpq : p ≤ q) (hd : es.Pairwise (Apart lo hi))
    (hle : ∀ e ∈ es, lo e ≤ hi e) (hin : ∀ e ∈ es, p ≤ lo e ∧ hi e ≤ q) :
    Covers lo hi es p q ↔ total lo hi es = q - p := by
  have hsub := points_subset hin
  have hcard := card_points hd hle
  have hall : (Finset.Ioc p q).card = (q - p).toNat := Int.card_Ioc p q
  constructor
  · intro hc
    have : points lo hi es = Finset.Ioc p q := by
      refine Finset.Subset.antisymm hsub fun x hx => ?_
      exact mem_points.mpr (hc x (Finset.mem_Ioc.mp hx).1 (Finset.mem_Ioc.mp hx).2)
    rw [this, hall] at hcard
    omega
  · intro ht x hpx hxq
    have hfull : points lo hi es = Finset.Ioc p q :=
      Finset.eq_of_subset_of_card_le hsub (by omega)
    exact mem_points.mp (hfull ▸ Finset.mem_Ioc.mpr ⟨hpx, hxq⟩)

/-- Whatever touches a covered range without meeting the family is in the family. -/
theorem mem_of_covers {fs : List α} (hc : Covers lo hi es p q) (hd : fs.Pairwise (Apart lo hi))
    (hsub : ∀ e ∈ es, e ∈ fs) {f : α} (hf : f ∈ fs) (hpos : lo f < hi f) (hp : p < hi f)
    (hq : hi f ≤ q) : f ∈ es := by
  obtain ⟨e, he, hex⟩ := hc (hi f) hp hq
  have : f = e := eq_of_common hd hf (hsub e he) ⟨hpos, le_rfl⟩ hex
  exact this ▸ he

end Base.Spans
