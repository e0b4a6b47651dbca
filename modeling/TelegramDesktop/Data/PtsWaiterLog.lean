import TelegramDesktop.Data.PtsWaiterRuns

namespace TelegramDesktop.Data.PtsWaiter
open Base

variable {β : Type*}

/-- The log's entries follow one another from `p` to `q`. -/
def Tiles : ℤ → List (Entry β) → ℤ → Prop
  | p, [], q => p = q
  | p, e :: es, q => e.lo = p ∧ 1 ≤ e.count ∧ Tiles e.pts es q

namespace Tiles

variable {p q : ℤ} {log : List (Entry β)}

theorem le (h : Tiles p log q) : p ≤ q := by
  induction log generalizing p with
  | nil => exact h.le
  | cons e es ih =>
    obtain ⟨hlo, hcount, hes⟩ := h
    have := ih hes
    unfold Entry.lo at hlo
    omega

theorem bounds (h : Tiles p log q) {e : Entry β} (he : e ∈ log) :
    p ≤ e.lo ∧ 0 < e.count ∧ e.pts ≤ q := by
  induction log generalizing p with
  | nil => cases he
  | cons f es ih =>
    obtain ⟨hlo, hcount, hes⟩ := h
    rcases List.mem_cons.mp he with rfl | he
    · exact ⟨hlo.ge, by omega, hes.le⟩
    · have := ih hes he
      unfold Entry.lo at *
      omega

theorem pairwise (h : Tiles p log q) : log.Pairwise fun e f => e.pts ≤ f.lo := by
  induction log generalizing p with
  | nil => exact .nil
  | cons e es ih => exact List.pairwise_cons.mpr ⟨fun f hf => (h.2.2.bounds hf).1, ih h.2.2⟩

theorem apart (h : Tiles p log q) : log.Pairwise Entry.Apart := h.pairwise.imp Or.inl

theorem sorted (h : Tiles p log q) : log.Pairwise fun e f => e.pts < f.pts := by
  refine h.pairwise.imp_of_mem fun {e f} _ hf hef => ?_
  have := h.bounds hf
  unfold Entry.lo at *
  omega

theorem nodup (h : Tiles p log q) : log.Nodup :=
  h.sorted.imp fun hlt heq => hlt.ne (congrArg Entry.pts heq)

theorem covers (h : Tiles p log q) : Spans.Covers Entry.lo Entry.pts log p q := by
  intro x hx hxq
  induction log generalizing p with
  | nil =>
    have : p = q := h
    omega
  | cons e es ih =>
    obtain ⟨hlo, -, hes⟩ := h
    by_cases hxe : x ≤ e.pts
    · exact ⟨e, by simp, by omega, hxe⟩
    · obtain ⟨f, hf, hfx⟩ := ih hes (by omega)
      exact ⟨f, List.mem_cons_of_mem _ hf, hfx⟩

end Tiles

/-- The waiter after deliveries `ds` of entries that take pts between `p` and `q`:
`acc` was taken in, and of the others each is below the current pts. -/
structure Follows (p q : ℤ) (acc ds : List (Entry β)) (w : Waiter β) (os : List (Event β)) :
    Prop where
  tracks : Tracks p acc w os
  sub : ∀ e ∈ acc, e ∈ ds
  all : ∀ e ∈ ds, e ∈ acc ∨ e.pts ≤ w.good
  last : w.last ≤ q
  counted : ∀ c ∈ applied os, ∃ f : Entry β, 0 < f.count ∧ f.applyCall = c

variable {p q : ℤ} {acc ds : List (Entry β)} {w : Waiter β} {os : List (Event β)}

theorem init_follows {w : Waiter β} (hreq : w.requesting = false) (hp : 0 < p) (hpq : p ≤ q)
    (hq : q < 2 ^ 31) : Follows p q [] [] (w.init p) [] where
  tracks := by
    refine ⟨[], ∅, [], init_inStep hreq ⟨hp, by omega⟩, ?_, rfl⟩
    exact ⟨le_rfl, fun x hx hx' => absurd (hx.trans_le hx') (lt_irrefl _), by simp, .nil,
      by simp, .nil, by simp⟩
  sub := by simp
  all := by simp
  last := hpq
  counted := by simp [applied, applies]

/-- What has been handed over is sorted, and is what was taken in up to the current pts. -/
theorem Follows.handed (h : Follows p q acc ds w os)
    (hcarried : ∀ e ∈ ds, e.overload ≠ .ptsOnly) :
    ∃ hs : List (Entry β), applied os = hs.map Entry.applyCall ∧
      hs.Pairwise (fun e f => e.pts < f.pts) ∧ ∀ e, e ∈ hs ↔ e ∈ acc ∧ e.pts ≤ w.good := by
  obtain ⟨P, r, hs, -, H, hos⟩ := h.tracks
  have hpos : ∀ e ∈ hs, 0 < e.count := by
    intro e he
    obtain ⟨f, hf, hfe⟩ := h.counted e.applyCall (by
      rw [hos]
      exact List.mem_map_of_mem he)
    exact applyCall_injective hfe ▸ hf
  have hfilter : hs.filter (fun e => 0 < e.count) = hs :=
    List.filter_eq_self.mpr fun e he => by simpa using hpos e he
  refine ⟨hs, hos, hfilter ▸ H.sorted, fun e => ⟨fun he => ?_, fun he => ?_⟩⟩
  · have := (H.handed e (hpos e he)).mp he
    exact ⟨this.1, this.2.2⟩
  · exact (H.handed e (H.above e he.1).2).mpr ⟨he.1, hcarried e (h.sub e he.1), he.2⟩

/-- Whatever the order of delivery, the entries of a log handed over are those up to
the current pts, in order. -/
theorem Follows.applied_eq (h : Follows p q acc ds w os) {log : List (Entry β)}
    (hlog : Tiles p log q) (hcarried : ∀ e ∈ log, e.overload ≠ .ptsOnly)
    (hsub : ∀ e ∈ ds, e ∈ log) :
    applied os = (log.filter fun e => e.pts ≤ w.current).map Entry.applyCall := by
  obtain ⟨hs, hos, hsorted, hmem⟩ := h.handed fun e he => hcarried e (hsub e he)
  obtain ⟨P, r, _, -, H, -⟩ := h.tracks
  have hsame : ∀ e, e ∈ hs ↔ e ∈ log.filter fun e => e.pts ≤ w.current := by
    intro e
    rw [hmem, List.mem_filter, decide_eq_true_iff]
    refine and_congr_left fun hle => ⟨fun he => hsub e (h.sub e he), fun he => ?_⟩
    have hb := hlog.bounds he
    unfold Entry.lo at hb
    exact Spans.mem_of_covers H.covers hlog.apart (fun f hf => hsub f (h.sub f hf)) he
      (by unfold Entry.lo; omega) (by omega) hle
  have hnodup {l : List (Entry β)} (hl : l.Pairwise fun e f => e.pts < f.pts) : l.Nodup :=
    hl.imp fun hlt heq => hlt.ne (congrArg Entry.pts heq)
  have hperm := (List.perm_ext_iff_of_nodup (hnodup hsorted) (hlog.nodup.filter _)).mpr hsame
  rw [hos, hperm.eq_of_pairwise (fun a b _ _ hab hba => absurd hab (lt_asymm hba)) hsorted
    (hlog.sorted.filter _)]

/-- Once the whole log is delivered nothing waits. -/
theorem Follows.complete (h : Follows p q acc ds w os) {log : List (Entry β)}
    (hlog : Tiles p log q) (hall : ∀ e ∈ log, e ∈ ds) :
    w.current = q ∧ w.queue = ∅ ∧ w.updateQueue = ∅ ∧ w.updatesQueue = ∅ := by
  obtain ⟨P, r, hs, hin, H, -⟩ := h.tracks
  -- What lies above the current pts is pending, so it leaves no hole.
  have hcovers : Spans.Covers Entry.lo Entry.pts P w.good q := by
    intro x hx hxq
    obtain ⟨e, he, hex⟩ := hlog.covers x (by have := H.start; omega) hxq
    refine ⟨e, (H.pending e).mpr ⟨(h.all e (hall e he)).resolve_right (by omega), by omega⟩, hex⟩
  have hlast := h.last
  have htotal : Entry.total P = w.last - w.good := by
    refine (Spans.covers_iff_total hin.last.1 hin.apart (fun _ hf => hin.lo_le hf)
      fun f hf => ⟨(hin.above f hf).1, (hin.above f hf).2.2⟩).mp fun x hx hxl => ?_
    exact hcovers x hx (by omega)
  have hP : P = [] := by
    apply hin.gap
    have := hin.sum
    omega
  have hgood : w.good = q := by
    have hle := hin.last.1
    by_contra hne
    obtain ⟨e, he, -⟩ := hcovers q (by omega) le_rfl
    simp [hP] at he
  have hempty : r = ∅ := by
    have hvalues : r.values = [] := by
      have := hin.carried
      rw [hP] at this
      simpa using this
    exact FlatMap.ext (List.map_eq_nil_iff.mp hvalues)
  refine ⟨hgood, ?_, ?_, ?_⟩
  · rw [hin.queues.queue, hempty]
    rfl
  · rw [hin.queues.update, hempty]
    rfl
  · rw [hin.queues.updates, hempty]
    rfl

variable [Inhabited β]

theorem follows_step (h : Follows p q acc ds w os) {e : Entry β}
    (hpts : p ≤ e.lo ∧ 0 < e.count ∧ e.pts ≤ q) (hq : q < 2 ^ 31)
    (hfresh : w.good < e.pts → ∀ f ∈ acc, Entry.Apart f e) :
    Follows p q (accept w.good acc e) (ds ++ [e]) (step w e).1 (os ++ (step w e).2) := by
  have hadmits : Admits p acc w e :=
    ⟨by omega, by omega, by omega, fun _ hnew => ⟨hpts.1, hfresh hnew⟩⟩
  obtain ⟨htracks, hgood, hlast, hcounted⟩ := tracks_step h.tracks hadmits
  refine ⟨htracks, fun f hf => ?_, fun f hf => ?_, ?_, fun c hc => ?_⟩
  · unfold accept at hf
    split_ifs at hf
    · rcases List.mem_append.mp hf with hf | hf
      · exact List.mem_append_left _ (h.sub f hf)
      · exact List.mem_append_right _ hf
    · exact List.mem_append_left _ (h.sub f hf)
  · unfold accept
    rcases List.mem_append.mp hf with hf | hf
    · rcases h.all f hf with hacc | hle
      · split_ifs
        · exact .inl (List.mem_append_left _ hacc)
        · exact .inl hacc
      · exact .inr (hle.trans hgood)
    · obtain rfl := List.mem_singleton.mp hf
      split_ifs with hacc
      · exact .inl (by simp)
      · exact .inr (by omega)
  · have := h.last
    exact hlast.trans (max_le this hpts.2.2)
  · rw [applied_append] at hc
    rcases List.mem_append.mp hc with hc | hc
    · exact h.counted c hc
    · exact hcounted hpts.2.1 c hc

/-- Each entry of a gap-free log is handed over once and in order, for any order of
delivery. -/
theorem updateAndApply_perm {w : Waiter β} (hreq : w.requesting = false) (hp : 0 < p)
    {log : List (Entry β)} (hlog : Tiles p log q) (hq : q < 2 ^ 31)
    (hcarried : ∀ e ∈ log, e.overload ≠ .ptsOnly) (hperm : ds.Perm log) :
    (∀ n, applied (run step (w.init p) (ds.take n)).2 =
      (log.filter fun e => e.pts ≤ (run step (w.init p) (ds.take n)).1.current).map
        Entry.applyCall) ∧
    (run step (w.init p) ds).1.current = q ∧ (run step (w.init p) ds).1.queue = ∅ ∧
      (run step (w.init p) ds).1.updateQueue = ∅ ∧
      (run step (w.init p) ds).1.updatesQueue = ∅ := by
  have hrun (is : List (Entry β)) : ∀ rest, (is ++ rest).Perm log →
      ∃ acc, Follows p q acc is (run step (w.init p) is).1 (run step (w.init p) is).2 := by
    refine run_invariant step (fun is w os => ∀ rest, (is ++ rest).Perm log →
      ∃ acc, Follows p q acc is w os) ?_ ?_ is
    · exact fun _ _ => ⟨[], init_follows hreq hp hlog.le hq⟩
    · intro is w os e ih rest hrest
      rw [List.append_assoc] at hrest
      obtain ⟨acc, h⟩ := ih _ hrest
      have hnodup := hrest.nodup_iff.mpr hlog.nodup
      have hmem : ∀ f ∈ is, f ∈ log := fun f hf => hrest.mem_iff.mp (by simp [hf])
      have he : e ∈ log := hrest.mem_iff.mp (by simp)
      refine ⟨_, follows_step h (hlog.bounds he) hq fun _ f hf => ?_⟩
      apply hlog.apart.forall (hmem f (h.sub f hf)) he
      rintro rfl
      exact (List.nodup_append.mp hnodup).2.2 f (h.sub f hf) f (by simp) rfl
  refine ⟨fun n => ?_, ?_⟩
  · obtain ⟨acc, h⟩ := hrun (ds.take n) (ds.drop n) (by rwa [List.take_append_drop])
    exact h.applied_eq hlog hcarried fun e he => hperm.mem_iff.mp (List.mem_of_mem_take he)
  · obtain ⟨acc, h⟩ := hrun ds [] (by rwa [List.append_nil])
    exact h.complete hlog fun e he => hperm.mem_iff.mpr he

/-- Three entries given in the order 3, 1, 2. -/
theorem updateAndApply_perm_three :
    let e (pts : ℤ) (o : Overload) : Entry Unit := ⟨pts, 1, o, ()⟩
    let ds := [e 4 .update, e 2 .updates, e 3 .update]
    (∀ n, applied (run step (({} : Waiter Unit).init 1) (ds.take n)).2 =
      ([e 2 .updates, e 3 .update, e 4 .update].filter fun e =>
        e.pts ≤ (run step (({} : Waiter Unit).init 1) (ds.take n)).1.current).map
          Entry.applyCall) ∧
    (run step (({} : Waiter Unit).init 1) ds).1.current = 4 ∧
      (run step (({} : Waiter Unit).init 1) ds).1.queue = ∅ ∧
      (run step (({} : Waiter Unit).init 1) ds).1.updateQueue = ∅ ∧
      (run step (({} : Waiter Unit).init 1) ds).1.updatesQueue = ∅ :=
  updateAndApply_perm rfl (by decide) (by simp [Tiles, Entry.lo]) (by decide) (by simp)
    (by decide)

/-- An update with this pts is queued. -/
def Waits (w : Waiter β) (pts : ℤ) : Prop :=
  pts ∈ (w.updateQueue.values ++ w.updatesQueue.values).map Entry.pts

instance (w : Waiter β) (pts : ℤ) : Decidable (w.Waits pts) := by
  unfold Waits
  infer_instance

omit [Inhabited β] in
/-- Everything pending is queued. -/
theorem InStep.waits {P : List (Entry β)} {r : FlatMap ℕ (Entry β)} (h : InStep w P r)
    {e : Entry β} (he : e ∈ P) (hcarried : e.overload ≠ .ptsOnly) : w.Waits e.pts := by
  obtain ⟨k, hk⟩ := FlatMap.mem_values.mp ((h.mem_values e).mpr ⟨he, hcarried⟩)
  apply List.mem_map_of_mem
  rw [h.queues.update, h.queues.updates, List.mem_append, FlatMap.mem_values,
    FlatMap.mem_values]
  cases hkind : e.kind with
  | skippedUpdate => exact .inl ⟨k, FlatMap.mem_filter.mpr ⟨hk, by simp [hkind]⟩⟩
  | skippedUpdates => exact .inr ⟨k, FlatMap.mem_filter.mpr ⟨hk, by simp [hkind]⟩⟩

/-- Unless an update is delivered again while it waits, whatever the current pts has
passed was handed over, and once. -/
theorem updateAndApply_redelivery {w : Waiter β} (hreq : w.requesting = false) (hp : 0 < p)
    {log : List (Entry β)} (hlog : Tiles p log q) (hq : q < 2 ^ 31)
    (hds : ∀ d ∈ ds, d.overload ≠ .ptsOnly ∧ ∃ e ∈ log, d.pts = e.pts ∧ d.count = e.count)
    (hwaits : RunMeets step (fun w d => ¬ w.Waits d.pts) (w.init p) ds) (n : ℕ) :
    ∃ hs : List (Entry β),
      applied (run step (w.init p) (ds.take n)).2 = hs.map Entry.applyCall ∧
      (∀ f ∈ hs, f ∈ ds.take n) ∧ (hs.map Entry.pts).Nodup ∧
      ∀ e ∈ log, e.pts ≤ (run step (w.init p) (ds.take n)).1.current →
        e.pts ∈ hs.map Entry.pts := by
  have hrun (is : List (Entry β)) (hmeets : RunMeets step (fun w d => ¬ w.Waits d.pts)
      (w.init p) is) : (∀ d ∈ is, d ∈ ds) →
      ∃ acc, Follows p q acc is (run step (w.init p) is).1 (run step (w.init p) is).2 := by
    refine runMeets_invariant step _ (fun is w os => (∀ d ∈ is, d ∈ ds) →
      ∃ acc, Follows p q acc is w os) ?_ ?_ is hmeets
    · exact fun _ => ⟨[], init_follows hreq hp hlog.le hq⟩
    · intro is w os d ih hnot hsub
      obtain ⟨acc, h⟩ := ih fun f hf => hsub f (List.mem_append_left _ hf)
      obtain ⟨-, e, he, hpts, hcount⟩ := hds d (hsub d (by simp))
      have hb := hlog.bounds he
      have hlo : d.lo = e.lo := by simp only [Entry.lo, hpts, hcount]
      refine ⟨_, follows_step h (by omega) hq fun hnew f hf => ?_⟩
      obtain ⟨hfc, g, hg, hgpts, hgcount⟩ := hds f (hsub f (by simp [h.sub f hf]))
      have hne : g ≠ e := by
        rintro rfl
        obtain ⟨P, r, hs, hin, H, -⟩ := h.tracks
        apply hnot
        rw [hpts, ← hgpts]
        exact hin.waits ((H.pending f).mpr ⟨hf, by omega⟩) hfc
      have hap : Entry.Apart g e := hlog.apart.forall hg he hne
      unfold Entry.Apart Spans.Apart Entry.lo at *
      omega
  have hsub : ∀ d ∈ ds.take n, d ∈ ds := fun d hd => List.mem_of_mem_take hd
  obtain ⟨acc, h⟩ := hrun (ds.take n) (hwaits.take n) hsub
  obtain ⟨hs, hos, hsorted, hmem⟩ := h.handed fun d hd => (hds d (hsub d hd)).1
  obtain ⟨P, r, _, -, H, -⟩ := h.tracks
  refine ⟨hs, hos, fun f hf => h.sub f ((hmem f).mp hf).1, ?_, fun e he hle => ?_⟩
  · exact (List.pairwise_map.mpr hsorted).imp fun hlt => hlt.ne
  · -- The entry that covers the last pts of `e` can only be a delivery of `e`.
    have hb := hlog.bounds he
    obtain ⟨f, hf, hx⟩ := H.covers e.pts (by unfold Entry.lo at hb; omega) hle
    obtain ⟨-, g, hg, hgpts, hgcount⟩ := hds f (hsub f (h.sub f hf))
    have heq : g = e := by
      apply Spans.eq_of_common hlog.apart hg he (x := e.pts) ?_ ?_ <;>
        unfold Entry.lo at * <;> omega
    subst heq
    exact List.mem_map.mpr ⟨f, (hmem f).mpr ⟨hf, hgpts.trans_le hle⟩, hgpts⟩

/-- An update delivered again once it was applied. -/
theorem updateAndApply_redelivery_applied :
    let e (pts : ℤ) : Entry Unit := ⟨pts, 1, .update, ()⟩
    let ds := [e 3, e 2, e 3]
    ∃ hs : List (Entry Unit),
      applied (run step (({} : Waiter Unit).init 1) (ds.take 3)).2 = hs.map Entry.applyCall ∧
      (∀ f ∈ hs, f ∈ ds.take 3) ∧ (hs.map Entry.pts).Nodup ∧
      ∀ f ∈ [e 2, e 3], f.pts ≤ (run step (({} : Waiter Unit).init 1) (ds.take 3)).1.current →
        f.pts ∈ hs.map Entry.pts :=
  updateAndApply_redelivery (q := 3) rfl (by decide) (by simp [Tiles, Entry.lo]) (by decide)
    (by decide) (by exact ⟨by decide, by decide, by decide, trivial⟩) 3

/-- One waiting update delivered three times fills the place of the two that are
missing: it is handed over three times and they never are. -/
theorem updateAndApply_redelivered_waiting :
    let e (pts : ℤ) : Entry Unit := ⟨pts, 1, .update, ()⟩
    let r := run step (({} : Waiter Unit).init 1) [e 4, e 4, e 4]
    Tiles 1 [e 2, e 3, e 4] 4 ∧ (e 2).pts ≤ r.1.current ∧ (e 2).applyCall ∉ applied r.2 ∧
      applied r.2 = [(e 4).applyCall, (e 4).applyCall, (e 4).applyCall] := by
  refine ⟨by simp [Tiles, Entry.lo], by decide, by decide, by decide⟩

end TelegramDesktop.Data.PtsWaiter
