import TelegramDesktop.Data.PtsWaiterRuns

namespace TelegramDesktop.Data.PtsWaiter
open Base

variable {β : Type*} {p : ℤ} {acc P : List (Entry β)} {w : Waiter β} {os : List (Event β)}

/-- The owner was handed `f`; one that carries nothing was only delivered. -/
def Seen (P : List (Entry β)) (os : List (Event β)) (f : Entry β) : Prop :=
  if f.overload = .ptsOnly then f ∈ P ∨ .delivered f ∈ os else .called f.applyCall ∈ os

/-- Every entry in `fs` that ends where `e` starts or below was seen before `e` was handed over. -/
def InOrder (P fs : List (Entry β)) (os : List (Event β)) : Prop :=
  ∀ pre (e : Entry β) post, os = pre ++ .called e.applyCall :: post → 0 < e.count →
    ∀ f ∈ fs, f.pts ≤ e.lo → Seen P pre f

theorem Seen.mono {os os' : List (Event β)} {f : Entry β} (h : Seen P os f)
    (hsub : ∀ o ∈ os, o ∈ os') : Seen P os' f := by
  unfold Seen at *
  split_ifs at *
  · exact h.imp_right (hsub _)
  · exact hsub _ h

theorem mem_applied {c : OwnerCall (Entry β) (Entry β)} (hc : c ∈ applied os) : .called c ∈ os := by
  obtain ⟨o, ho, heq⟩ := List.mem_filterMap.mp (List.mem_filter.mp hc).1
  cases o with
  | delivered e => cases heq
  | called c' =>
    cases heq
    exact ho

theorem applied_called (e : Entry β) (post : List (Event β)) :
    applied (.called e.applyCall :: post) = e.applyCall :: applied post := by
  have h : applied [.called e.applyCall] = [e.applyCall] := applies_applyCall [e]
  rw [← List.singleton_append, applied_append, h]
  rfl

/-- What is handed over before an entry: all that was taken in and ends below it. -/
theorem Tracks.handed_before (h : Tracks p acc w os) {pre post : List (Event β)} {e f : Entry β}
    (hos : os = pre ++ .called e.applyCall :: post) (hcount : 0 < e.count) (hf : f ∈ acc)
    (hcarried : f.overload ≠ .ptsOnly) (hle : f.pts ≤ e.lo) : .called f.applyCall ∈ pre := by
  obtain ⟨P, q, hs, hin, H, happlied⟩ := h
  rw [hos, applied_append, applied_called] at happlied
  obtain ⟨h1, h2, rfl, hpre, hpost⟩ := List.append_eq_map_iff.mp happlied
  obtain ⟨e', h3, rfl, he', -⟩ := List.map_eq_cons_iff.mp hpost
  obtain rfl := applyCall_injective he'
  have hfcount := (H.above f hf).2
  have he := (H.handed e' hcount).mp (by simp)
  have hlt : f.pts < e'.pts := by
    unfold Entry.lo at hle
    omega
  have hmem := (H.handed f hfcount).mpr ⟨hf, hcarried, by omega⟩
  rw [List.mem_append] at hmem
  rcases hmem with hmem | hmem
  · apply mem_applied
    rw [← hpre]
    exact List.mem_map_of_mem hmem
  · -- From `e` on, nothing that takes pts ends below it.
    exfalso
    have hsorted := H.sorted
    rw [List.filter_append, List.filter_cons_of_pos (by simpa using hcount)] at hsorted
    rcases List.mem_cons.mp hmem with rfl | hmem
    · omega
    · have := (List.pairwise_cons.mp (List.pairwise_append.mp hsorted).2.1).1 f
        (List.mem_filter.mpr ⟨hmem, by simpa using hfcount⟩)
      omega

theorem Tracks.handed_le (h : Tracks p acc w os) {pre post : List (Event β)} {e : Entry β}
    (hos : os = pre ++ .called e.applyCall :: post) (hcount : 0 < e.count) : e.pts ≤ w.good := by
  obtain ⟨P, q, hs, hin, H, happlied⟩ := h
  have he : e.applyCall ∈ hs.map Entry.applyCall := by
    rw [← happlied, hos, applied_append, applied_called]
    simp
  obtain ⟨e', hmem, heq⟩ := List.mem_map.mp he
  rw [applyCall_injective heq] at hmem
  exact ((H.handed e hcount).mp hmem).2.2

/-- What a waiter in step with `P` has done with deliveries that take distinct pts. -/
structure Ordered (p : ℤ) (P acc ds : List (Entry β)) (w : Waiter β) (os : List (Event β)) :
    Prop where
  tracks : Tracks p acc w os
  sub : ∀ e ∈ acc, e ∈ P ++ ds
  seen : ∀ e ∈ ds, .delivered e ∈ os
  order : InOrder P acc os

/-- A waiter in step has nothing handed over yet. -/
theorem InStep.ordered {q : FlatMap ℕ (Entry β)} (h : InStep w P q) :
    Ordered w.current P P [] w [] where
  tracks := by
    have hpos : ∀ e ∈ P, w.good < e.pts := by
      intro e he
      have := h.above e he
      unfold Entry.lo at this
      omega
    refine ⟨P, q, [], h, ⟨le_rfl, ?_, ?_, h.apart, ?_, .nil, ?_⟩, rfl⟩
    · exact fun x hx hx' => absurd (hx.trans_le hx') (lt_irrefl _)
    · exact fun e he => ⟨(h.above e he).1, (h.above e he).2.1⟩
    · exact fun e => ⟨fun he => ⟨he, hpos e he⟩, fun he => he.1⟩
    · intro e _
      simp only [List.not_mem_nil, false_iff, not_and, not_le]
      exact fun he _ => hpos e he
  sub := by simp
  seen := by simp
  order := by
    intro pre e post hos
    simp at hos

variable [Inhabited β]

theorem ordered_step {ds : List (Entry β)} (h : Ordered p P acc ds w os) {e : Entry β}
    (he : Admits p acc w e) :
    Ordered p P (accept w.good acc e) (ds ++ [e]) (step w e).1 (os ++ (step w e).2) := by
  obtain ⟨htracks, hgood, -⟩ := tracks_step h.tracks he
  have hacc : ∀ f ∈ accept w.good acc e, f ∈ acc ∨ (f = e ∧ w.good < e.pts) := by
    unfold accept
    split_ifs with hnew
    · intro f hf
      rcases List.mem_append.mp hf with hf | hf
      · exact .inl hf
      · exact .inr ⟨List.mem_singleton.mp hf, hnew.2⟩
    · exact fun f hf => .inl hf
  have hsub : ∀ f ∈ accept w.good acc e, f ∈ P ++ (ds ++ [e]) := by
    intro f hf
    rcases hacc f hf with hf | ⟨rfl, -⟩
    · rw [← List.append_assoc]
      exact List.mem_append_left _ (h.sub f hf)
    · simp
  have hseen : ∀ f ∈ ds ++ [e], .delivered f ∈ os ++ [.delivered e] := by
    intro f hf
    rcases List.mem_append.mp hf with hf | hf
    · exact List.mem_append_left _ (h.seen f hf)
    · rw [List.mem_singleton.mp hf]
      simp
  refine ⟨htracks, hsub, fun f hf => ?_, fun pre g post hos hg f hf hle => ?_⟩
  · have hf' := hseen f hf
    simp only [step, List.mem_append, List.mem_cons, List.not_mem_nil, or_false] at hf' ⊢
    exact hf'.imp_right Or.inl
  · rcases List.append_eq_append_iff.mp hos with ⟨mid, hpre, hnew⟩ | ⟨mid, hpre, hpost⟩
    · -- `g` is handed over by this delivery.
      obtain ⟨mid, rfl⟩ : ∃ mid', mid = .delivered e :: mid' := by
        cases mid with
        | nil => cases (List.cons.inj hnew).1
        | cons o mid' => exact ⟨mid', by rw [← (List.cons.inj hnew).1]⟩
      have hin : ∀ o ∈ os ++ [.delivered e], o ∈ pre := by
        intro o ho
        rw [hpre, List.mem_append, List.mem_cons]
        simp only [List.mem_append, List.mem_singleton] at ho
        exact ho.imp_right Or.inl
      unfold Seen
      split_ifs with hkind
      · rcases List.mem_append.mp (hsub f hf) with hP | hds
        · exact .inl hP
        · exact .inr (hin _ (hseen f hds))
      · exact htracks.handed_before hos hg hf hkind hle
    · -- `g` was handed over before.
      obtain ⟨mid, rfl⟩ : ∃ mid', mid = .called g.applyCall :: mid' := by
        cases mid with
        | nil => cases (List.cons.inj hpost).1
        | cons o mid' => exact ⟨mid', by rw [← (List.cons.inj hpost).1]⟩
      have hgood' := h.tracks.handed_le hpre hg
      rcases hacc f hf with hf | ⟨rfl, hnew⟩
      · exact h.order pre g mid hpre hg f hf hle
      · exfalso
        unfold Entry.lo at hle
        omega

/-- If no update that takes no pts comes while others are queued, and the others take
pts of their own, what was put aside for a gap waits until the gap is closed. -/
theorem updateAndApply_order {q : FlatMap ℕ (Entry β)} (hin : InStep w P q)
    {ds : List (Entry β)} (hrange : ∀ e ∈ ds, e.pts < 2 ^ 31 ∧ 0 ≤ e.count)
    (hapart : ((P ++ ds).filter fun e => 0 < e.count).Pairwise Entry.Apart)
    (hstart : ∀ e ∈ ds, 0 < e.count → e.pts ≤ w.current ∨ w.current ≤ e.lo)
    (hzero : RunMeets step (fun w e => e.count = 0 → w.queue.isEmpty = true) w ds) :
    InOrder P ((P ++ ds).filter fun e => 0 < e.count ∧ w.current < e.pts)
      (run step w ds).2 := by
  have hrun : ∀ rest, ds = ds ++ rest →
      ∃ acc, Ordered w.current P acc ds (run step w ds).1 (run step w ds).2 := by
    refine runMeets_invariant step _ (fun is v os => ∀ rest, ds = is ++ rest →
      ∃ acc, Ordered w.current P acc is v os) (fun _ _ => ⟨P, hin.ordered⟩) ?_ ds hzero
    intro is v os e ih hz rest hrest
    rw [List.append_assoc, List.singleton_append] at hrest
    obtain ⟨acc, h⟩ := ih (e :: rest) hrest
    have he : e ∈ ds := by
      rw [hrest]
      simp
    refine ⟨_, ordered_step h ⟨(hrange e he).1, (hrange e he).2, hz, fun hc hnew => ⟨?_, ?_⟩⟩⟩
    · obtain ⟨P', q', hs, -, H, -⟩ := h.tracks
      have := H.start
      exact (hstart e he hc).resolve_left (by omega)
    · intro f hf
      obtain ⟨P', q', hs, -, H, -⟩ := h.tracks
      rw [hrest, ← List.append_assoc, List.filter_append, List.pairwise_append] at hapart
      apply hapart.2.2 f (List.mem_filter.mpr ⟨h.sub f hf, by simpa using (H.above f hf).2⟩) e
      exact List.mem_filter.mpr ⟨by simp, by simpa using hc⟩
  obtain ⟨acc, h⟩ := hrun [] (by simp)
  intro pre g post hos hg f hf hle
  obtain ⟨hf, hfpos⟩ := List.mem_filter.mp hf
  have hfpos : 0 < f.count ∧ w.current < f.pts := by simpa using hfpos
  refine h.order pre g post hos hg f ?_ hle
  have hgood := h.tracks.handed_le hos hg
  obtain ⟨P', q', hs, -, H, -⟩ := h.tracks
  apply Spans.mem_of_covers H.covers hapart ?_ (List.mem_filter.mpr ⟨hf, by simpa using hfpos.1⟩)
    ?_ hfpos.2 ?_
  · exact fun a ha => List.mem_filter.mpr ⟨h.sub a ha, by simpa using (H.above a ha).2⟩
  · unfold Entry.lo
    omega
  · unfold Entry.lo at hle
    omega

/-- A combined update closes the gap of a waiting single one, then a service update
without pts follows. -/
theorem updateAndApply_order_closed :
    let ds : List (Entry Unit) := [⟨3, 1, .update, ()⟩, ⟨2, 1, .updates, ()⟩, ⟨3, 0, .update, ()⟩]
    InOrder []
      (([] ++ ds).filter fun e => 0 < e.count ∧ (({} : Waiter Unit).init 1).current < e.pts)
      (run step (({} : Waiter Unit).init 1) ds).2 :=
  updateAndApply_order (init_inStep rfl (by decide)) (by decide) (by decide) (by decide)
    ⟨by decide, by decide, by decide, trivial⟩

/-- An update without pts that comes while a gap is open lets the waiting one out
ahead of the missing one. -/
theorem updateAndApply_zero_overtakes :
    let ds : List (Entry Unit) := [⟨3, 1, .update, ()⟩, ⟨3, 0, .update, ()⟩, ⟨2, 1, .update, ()⟩]
    ¬ InOrder [] (ds.filter fun e => 0 < e.count) (run step (({} : Waiter Unit).init 1) ds).2 := by
  intro ds h
  let e2 : Entry Unit := ⟨2, 1, .update, ()⟩
  let e3 : Entry Unit := ⟨3, 1, .update, ()⟩
  let z3 : Entry Unit := ⟨3, 0, .update, ()⟩
  have hseen := h
    [.delivered e3, .called (.ptsWaiterStartTimerFor 1000), .delivered z3,
      .called (.ptsWaiterStartTimerFor 1000), .called (.ptsWaiterStartTimerFor (-1))] e3
    [.called z3.applyCall, .delivered e2, .called e2.applyCall]
    (by decide) (by decide) e2 (by decide) (by decide)
  revert hseen
  simp [Seen, e2, e3, z3, Entry.applyCall]

end TelegramDesktop.Data.PtsWaiter
