import Mathlib

namespace Base

variable {σ ι : Type*} {step : σ → ι → Option σ} {I P : σ → Prop} {C : σ → ι → Prop} {s : σ}

/-- An invariant that gives a property and is kept by the steps that meet a condition, where the
others break the property: it holds after each beginning of a run if and only if each step meets
the condition. -/
theorem foldlM_prefix_iff (hholds : ∀ s, I s → P s)
    (hkeeps : ∀ s i s', I s → C s i → step s i = some s' → I s')
    (hbreaks : ∀ s i, I s → ¬C s i → ∃ s', step s i = some s' ∧ ¬P s') (hs : I s) (is : List ι) :
    (∀ before, before <+: is → ∀ s', before.foldlM step s = some s' → P s') ↔
      ∀ before i, before ++ [i] <+: is → ∀ s', before.foldlM step s = some s' → C s' i := by
  induction is generalizing s with
  | nil =>
    refine iff_of_true (fun before hbefore s' hrun => ?_) fun before i hbefore => ?_
    · rw [List.prefix_nil.mp hbefore] at hrun
      cases hrun
      exact hholds s hs
    · exact absurd (List.prefix_nil.mp hbefore)
        (List.append_ne_nil_of_right_ne_nil _ (List.cons_ne_nil _ _))
  | cons first rest ih =>
    constructor
    · intro hall
      have hfirst : C s first := by
        by_contra hnot
        obtain ⟨s₁, hstep, hbroken⟩ := hbreaks s first hs hnot
        have hrun : [first].foldlM step s = some s₁ := by
          rw [List.foldlM_cons, hstep]
          rfl
        exact hbroken (hall [first] (List.cons_prefix_cons.mpr ⟨rfl, List.nil_prefix⟩) s₁ hrun)
      intro before i hbefore s' hrun
      cases before with
      | nil =>
        obtain ⟨rfl, -⟩ := List.cons_prefix_cons.mp hbefore
        cases hrun
        exact hfirst
      | cons head tail =>
        rw [List.cons_append] at hbefore
        obtain ⟨rfl, htail⟩ := List.cons_prefix_cons.mp hbefore
        rw [List.foldlM_cons] at hrun
        obtain ⟨s₁, hstep, hrun⟩ := Option.bind_eq_some_iff.mp hrun
        refine (ih (hkeeps s head s₁ hs hfirst hstep)).mp ?_ tail i htail s' hrun
        intro before hbefore s₂ hrun'
        refine hall (head :: before) (List.cons_prefix_cons.mpr ⟨rfl, hbefore⟩) s₂ ?_
        rw [List.foldlM_cons, hstep]
        exact hrun'
    · intro hall before hbefore s' hrun
      cases before with
      | nil =>
        cases hrun
        exact hholds s hs
      | cons head tail =>
        obtain ⟨rfl, htail⟩ := List.cons_prefix_cons.mp hbefore
        have hfirst : C s head :=
          hall [] head (List.cons_prefix_cons.mpr ⟨rfl, List.nil_prefix⟩) s rfl
        rw [List.foldlM_cons] at hrun
        obtain ⟨s₁, hstep, hrun⟩ := Option.bind_eq_some_iff.mp hrun
        refine (ih (hkeeps s head s₁ hs hfirst hstep)).mpr ?_ tail htail s' hrun
        intro before i hbefore s₂ hrun'
        refine hall (head :: before) i (List.cons_prefix_cons.mpr ⟨rfl, hbefore⟩) s₂ ?_
        rw [List.foldlM_cons, hstep]
        exact hrun'

/-- The same for steps that are total, where each step of the run is admitted. -/
theorem foldl_prefix_iff {next : σ → ι → σ} {A : σ → ι → Prop} (hholds : ∀ s, I s → P s)
    (hkeeps : ∀ s i, I s → A s i → C s i → I (next s i))
    (hbreaks : ∀ s i, I s → A s i → ¬C s i → ¬P (next s i)) (hs : I s) (is : List ι)
    (hadmitted : ∀ before i, before ++ [i] <+: is → A (before.foldl next s) i) :
    (∀ before, before <+: is → P (before.foldl next s)) ↔
      ∀ before i, before ++ [i] <+: is → C (before.foldl next s) i := by
  classical
  -- a step that is not admitted is none
  let admitted := fun s i => if A s i then some (next s i) else none
  have hruns : ∀ before : List ι, before <+: is →
      before.foldlM admitted s = some (before.foldl next s) := by
    intro before
    induction before using List.reverseRecOn with
    | nil => exact fun _ => rfl
    | append_singleton before i ih =>
      intro hbefore
      rw [List.foldlM_append, ih ((List.prefix_append before [i]).trans hbefore),
        List.foldl_append]
      have hstep : admitted (before.foldl next s) i = some (next (before.foldl next s) i) :=
        if_pos (hadmitted before i hbefore)
      rw [Option.bind_eq_bind, Option.bind_some, List.foldlM_cons, hstep]
      rfl
  have hiff := @foldlM_prefix_iff σ ι admitted I P (fun s i => A s i → C s i) s hholds
    (fun s i s' hs hmeets hstep => by
      obtain ⟨hadmits, heq⟩ := Option.ite_none_right_eq_some.mp hstep
      exact Option.some.inj heq ▸ hkeeps s i hs hadmits (hmeets hadmits))
    (fun s i hs hnot => by
      obtain ⟨hadmits, hnot⟩ := Classical.not_imp.mp hnot
      exact ⟨next s i, if_pos hadmits, hbreaks s i hs hadmits hnot⟩) hs is
  constructor
  · intro hall before i hbefore
    have hprefix := (List.prefix_append before [i]).trans hbefore
    refine hiff.mp ?_ before i hbefore _ (hruns before hprefix) (hadmitted before i hbefore)
    intro before' hbefore' s' hrun
    rw [hruns before' hbefore'] at hrun
    exact Option.some.inj hrun ▸ hall before' hbefore'
  · intro hall before hbefore
    refine hiff.mpr ?_ before hbefore _ (hruns before hbefore)
    intro before' i hbefore' s' hrun _
    rw [hruns before' ((List.prefix_append before' [i]).trans hbefore')] at hrun
    exact Option.some.inj hrun ▸ hall before' i hbefore'

end Base
