import TelegramDesktop.Data.PtsWaiterStep

namespace TelegramDesktop.Data.PtsWaiter
open Base

variable {β : Type*}

/-- A waiter whose counters and queue agree with the entries `P` it has been given
above its current pts. -/
structure InStep (w : Waiter β) (P : List (Entry β)) (q : FlatMap ℕ (Entry β)) : Prop where
  idle : Idle w
  queues : InQueues w q
  flag : q.entries ≠ [] → w.waitingForSkipped = true
  keyed : ∀ a ∈ q.entries, KeyOf a.1 a.2
  carried : q.values.Perm (P.filter fun e => e.overload ≠ .ptsOnly)
  last : w.good ≤ w.last ∧ w.last < 2 ^ 31
  sum : w.count = w.good + Entry.total P
  above : ∀ e ∈ P, w.good ≤ e.lo ∧ 0 < e.count ∧ e.pts ≤ w.last
  apart : P.Pairwise Entry.Apart
  gap : w.last = w.count → P = []

theorem init_inStep {w : Waiter β} {p : ℤ} (hreq : w.requesting = false)
    (hp : 0 < p ∧ p < 2 ^ 31) : InStep (w.init p) [] ∅ where
  idle := ⟨hp.1, hreq, rfl⟩
  queues := inQueues_empty _
  flag := by simp
  keyed := by simp
  carried := by simp [FlatMap.values]
  last := ⟨le_rfl, hp.2⟩
  sum := by simp [init, clearSkippedUpdates, Entry.total]
  above := by simp
  apart := .nil
  gap := fun _ => rfl

/-- What a delivery can do to the current pts and the pending entries, and what it
hands to the owner. -/
inductive Moves (good : ℤ) (P : List (Entry β)) (e : Entry β) :
    ℤ → List (Entry β) → List (Entry β) → Prop
  | ignored : e.pts ≤ good → 0 < e.count → Moves good P e good P []
  | queued : good < e.pts → 0 < e.count → Moves good P e good (P ++ [e]) []
  | closed (good' : ℤ) (handed : List (Entry β)) : good < e.pts → 0 < e.count →
      Spans.Covers Entry.lo Entry.pts (P ++ [e]) good good' →
      (∀ f ∈ P ++ [e], f.pts ≤ good') →
      handed.Pairwise (fun f g => f.pts < g.pts) →
      (∀ f, f ∈ handed ↔ f ∈ P ++ [e] ∧ f.overload ≠ .ptsOnly) →
      Moves good P e good' [] handed
  | passed : e.count = 0 → Moves good P e good P (if e.overload = .ptsOnly then [] else [e])

theorem KeyOf.pts_le {k l : ℕ} {e f : Entry β} (he : KeyOf k e) (hf : KeyOf l f) (h : k < l) :
    e.pts ≤ f.pts := by
  obtain ⟨he0, c, hc, rfl⟩ := he
  obtain ⟨hf0, d, hd, rfl⟩ := hf
  omega

/-- Disjoint entries under keys of their pts stand in the order of their pts. -/
theorem values_pairwise {q : FlatMap ℕ (Entry β)} (hkey : ∀ a ∈ q.entries, KeyOf a.1 a.2)
    (hapart : q.values.Pairwise Entry.Apart) (hpos : ∀ e ∈ q.values, 0 < e.count) :
    q.values.Pairwise fun e f => e.pts < f.pts := by
  have hle : q.values.Pairwise fun e f => e.pts ≤ f.pts := by
    apply List.pairwise_map.mpr
    exact q.sorted.imp_of_mem fun {a b} ha hb hab => (hkey a ha).pts_le (hkey b hb) hab
  refine (hle.and hapart).imp_of_mem fun {e f} he hf h => ?_
  have hap := h.2
  have := hpos e he
  have := hpos f hf
  unfold Entry.Apart Spans.Apart Entry.lo at hap
  omega

namespace InStep

variable {w : Waiter β} {P : List (Entry β)} {q : FlatMap ℕ (Entry β)}

theorem mem_values (h : InStep w P q) (e : Entry β) :
    e ∈ q.values ↔ e ∈ P ∧ e.overload ≠ .ptsOnly := by
  rw [h.carried.mem_iff]
  simp

theorem mem_pending (h : InStep w P q) {a : ℕ × Entry β} (ha : a ∈ q.entries) :
    a.2 ∈ P ∧ a.2.overload ≠ .ptsOnly :=
  (h.mem_values a.2).mp (FlatMap.mem_values.mpr ⟨a.1, ha⟩)

/-- An entry that joins the queue joins the pending ones. -/
theorem joins (h : InStep w P q) {e : Entry β} {q' : FlatMap ℕ (Entry β)} (hq : Joins q e q') :
    (∀ a ∈ q'.entries, KeyOf a.1 a.2) ∧
      q'.values.Perm ((P ++ [e]).filter fun f => f.overload ≠ .ptsOnly) := by
  rcases hq with ⟨rfl, ho⟩ | ⟨k, rfl, ho, hk, hnew⟩
  · exact ⟨h.keyed, by simpa [ho] using h.carried⟩
  · refine ⟨fun a ha => ?_, ?_⟩
    · rcases (q.mem_emplace k e a).mp ha with ha | ⟨rfl, -⟩
      · exact h.keyed a ha
      · exact hk
    · apply (FlatMap.values_emplace_perm hnew).trans
      simpa [ho] using (h.carried.cons e).trans (List.perm_append_singleton e _).symm

/-- The pending entries are no longer than the pts seen above the current one. -/
theorem total_le {l : ℤ} (h : InStep w P q) {e : Entry β}
    (habove : w.good ≤ e.lo ∧ 0 < e.count ∧ e.pts ≤ l) (hl : w.last ≤ l)
    (hapart : ∀ f ∈ P, Entry.Apart f e) :
    (P ++ [e]).Pairwise Entry.Apart ∧ (∀ f ∈ P ++ [e], w.good ≤ f.lo ∧ 0 < f.count ∧ f.pts ≤ l) ∧
      (∀ f ∈ P ++ [e], f.lo ≤ f.pts) ∧ Entry.total (P ++ [e]) ≤ l - w.good := by
  have hall : ∀ f ∈ P ++ [e], w.good ≤ f.lo ∧ 0 < f.count ∧ f.pts ≤ l := by
    intro f hf
    rcases List.mem_append.mp hf with hf | hf
    · have := h.above f hf
      omega
    · exact List.mem_singleton.mp hf ▸ habove
  have hd : (P ++ [e]).Pairwise Entry.Apart := by
    apply List.pairwise_append.mpr
    refine ⟨h.apart, by simp, fun f hf g hg => ?_⟩
    exact List.mem_singleton.mp hg ▸ hapart f hf
  have hle : ∀ f ∈ P ++ [e], f.lo ≤ f.pts := by
    intro f hf
    have := hall f hf
    unfold Entry.lo
    omega
  have hgl : w.good ≤ l := h.last.1.trans hl
  exact ⟨hd, hall, hle, Spans.total_le hgl hd hle fun f hf => ⟨(hall f hf).1, (hall f hf).2.2⟩⟩

theorem lo_le (h : InStep w P q) {f : Entry β} (hf : f ∈ P) : f.lo ≤ f.pts := by
  have := h.above f hf
  unfold Entry.lo
  omega

theorem total_nonneg (h : InStep w P q) : 0 ≤ Entry.total P :=
  Spans.total_nonneg fun _ hf => h.lo_le hf

/-- The scalar sum never gets ahead of the largest pts. -/
theorem count_le (h : InStep w P q) : w.count ≤ w.last := by
  have := Spans.total_le h.last.1 h.apart (fun _ hf => h.lo_le hf) fun f hf =>
    ⟨(h.above f hf).1, (h.above f hf).2.2⟩
  have := h.sum
  unfold Entry.total at this
  omega

end InStep

variable [Inhabited β] {w : Waiter β} {P : List (Entry β)} {q : FlatMap ℕ (Entry β)}

/-- A new entry joins the pending ones, or closes their gap and releases them all. -/
theorem deliver_new (h : InStep w P q) {e : Entry β} (hnew : w.good < e.pts)
    (hpts : e.pts < 2 ^ 31) (hcount : 0 < e.count) (hlo : w.good ≤ e.lo)
    (hapart : ∀ f ∈ P, Entry.Apart f e) :
    ∃ P' q' handed, InStep (w.deliver e) P' q' ∧ Moves w.good P e (w.deliver e).good P' handed ∧
      applies (w.deliver e).calls = applies w.calls ++ handed.map Entry.applyCall ∧
      (w.deliver e).last ≤ max w.last e.pts := by
  have hgood := h.idle.inited
  obtain ⟨hd, hall, hle, htotal⟩ := h.total_le (l := max w.last e.pts)
    ⟨hlo, hcount, le_max_right _ _⟩ (le_max_left _ _) hapart
  have hin : ∀ f ∈ P ++ [e], w.good ≤ f.lo ∧ f.pts ≤ max w.last e.pts := fun f hf =>
    ⟨(hall f hf).1, (hall f hf).2.2⟩
  have hlast : (w.advance e).last = max w.last e.pts := rfl
  have hmax : max w.last e.pts < 2 ^ 31 := max_lt h.last.2 hpts
  have hsum : (w.advance e).count = w.good + Entry.total (P ++ [e]) := by
    have hsum0 := h.sum
    have hcount0 : Entry.total (P ++ [e]) = Entry.total P + e.count := by
      simp [Entry.total, Entry.lo]
    have hpos : 0 ≤ Entry.total P := h.total_nonneg
    change int32Add w.count e.count = _
    rw [int32Add_of_range (by omega) (by omega)]
    omega
  have hfresh : ∀ a ∈ q.entries, a.2.pts ≠ e.pts := by
    intro a ha
    have hm := h.mem_pending ha
    have hap := hapart _ hm.1
    have := h.above _ hm.1
    unfold Entry.Apart Spans.Apart Entry.lo at hap
    omega
  have hrange : 0 ≤ e.pts ∧ e.pts < 2 ^ 31 := ⟨by omega, hpts⟩
  have hkind : ∀ a ∈ q.entries, a.2.overload ≠ .ptsOnly := fun a ha => (h.mem_pending ha).2
  by_cases heq : (w.advance e).last = (w.advance e).count
  · -- The lengths add up, so nothing is missing below the new last pts.
    have hcovers : Spans.Covers Entry.lo Entry.pts (P ++ [e]) w.good (max w.last e.pts) := by
      apply (Spans.covers_iff_total (by omega) hd hle hin).mpr
      unfold Entry.total at hsum
      omega
    rw [deliver_closed h.idle (by omega) heq]
    obtain ⟨q', hr, hq'⟩ := release_queue (w := { w.advance e with good := (w.advance e).last })
      (e := e) ⟨h.queues.queue, h.queues.update, h.queues.updates⟩ h.keyed hkind h.flag
      h.idle.level hrange hfresh
    obtain ⟨hkeyed, hperm⟩ := h.joins hq'
    have hmem : ∀ f, f ∈ q'.values ↔ f ∈ P ++ [e] ∧ f.overload ≠ .ptsOnly := by
      intro f
      rw [hperm.mem_iff, List.mem_filter, decide_eq_true_iff]
    have hsorted := values_pairwise hkeyed
      ((hperm.pairwise_iff fun h => Spans.Apart.symm h).mpr (hd.filter _)) fun f hf => by
        have := hall f ((hmem f).mp hf).1
        omega
    refine ⟨[], ∅, q'.values, ?_, ?_, hr.calls, hr.last.le⟩
    · have hgood' : 0 < (w.advance e).last := by omega
      refine ⟨⟨?_, ?_, hr.level⟩, hr.queues, by simp, by simp, .nil, ?_, ?_, by simp, .nil,
        fun _ => rfl⟩
      · rw [hr.good]
        exact hgood'
      · rw [hr.requesting]
        exact h.idle.requesting
      · rw [hr.good, hr.last]
        exact ⟨le_rfl, hmax⟩
      · rw [hr.count, hr.good]
        simpa [Entry.total] using heq.symm
    · rw [hr.good]
      exact .closed _ _ hnew hcount hcovers (fun f hf => (hin f hf).2) hsorted hmem
  · obtain ⟨ms, hms⟩ := deliver_gap h.idle hnew hcount heq
    obtain ⟨q', hqueues, hq'⟩ := joins_save (w := (w.advance e).waiting ms) (e := e)
      ⟨h.queues.queue, h.queues.update, h.queues.updates⟩ h.keyed hrange hfresh
    obtain ⟨hkeyed, hperm⟩ := h.joins hq'
    rw [hms]
    refine ⟨P ++ [e], q', [], ?_, ?_, ?_, ?_⟩
    · refine ⟨⟨?_, ?_, ?_⟩, hqueues, ?_, hkeyed, hperm, ?_, ?_, ?_, hd, ?_⟩
      · rw [save_good]
        exact hgood
      · rw [save_requesting]
        exact h.idle.requesting
      · rw [save_level]
        exact h.idle.level
      · simp [waiting]
      · simp only [save_good, save_last]
        exact ⟨h.last.1.trans (le_max_left _ _), hmax⟩
      · rw [save_good, save_count]
        exact hsum
      · rw [save_good, save_last]
        exact hall
      · simp only [save_last, save_count]
        exact fun h => absurd h heq
    · rw [save_good]
      exact .queued hnew hcount
    · simp [waiting, advance]
    · rw [save_last]
      exact hlast.le

/-- An entry that takes no pts passes through while the queue is empty. -/
theorem deliver_passed (h : InStep w P ∅) {e : Entry β} (hcount : e.count = 0)
    (hpts : e.pts < 2 ^ 31) :
    ∃ handed, InStep (w.deliver e) P ∅ ∧ Moves w.good P e (w.deliver e).good P handed ∧
      applies (w.deliver e).calls = applies w.calls ++ handed.map Entry.applyCall ∧
      (w.deliver e).last ≤ max w.last e.pts := by
  have hadd : (w.advance e).count = w.count := by
    have hle := h.count_le
    have hsum := h.sum
    have hgood := h.idle.inited
    have hlast := h.last
    have hpos : 0 ≤ Entry.total P := h.total_nonneg
    change int32Add w.count e.count = _
    rw [hcount, int32Add_of_range (by omega) (by omega)]
    omega
  have hlast : (w.advance e).last = max w.last e.pts := rfl
  have hmax : max w.last e.pts < 2 ^ 31 := max_lt h.last.2 hpts
  refine ⟨if e.overload = .ptsOnly then [] else [e], ?_⟩
  by_cases heq : (w.advance e).last = (w.advance e).count
  · have hP : P = [] := by
      apply h.gap
      have := h.count_le
      omega
    subst hP
    have hsame : (w.advance e).last = w.good := by
      have := h.sum
      simp only [Entry.total, Spans.total_nil] at this
      omega
    rw [deliver_closed h.idle (by omega) heq]
    have hr := release_empty (w := { w.advance e with good := (w.advance e).last })
      ⟨h.queues.queue, h.queues.update, h.queues.updates⟩ h.idle.level e
    refine ⟨⟨⟨?_, ?_, hr.level⟩, hr.queues, by simp, by simp, .nil, ?_, ?_, by simp, .nil,
      fun _ => rfl⟩, ?_, hr.calls, hr.last.le⟩
    · rw [hr.good]
      exact hsame ▸ h.idle.inited
    · rw [hr.requesting]
      exact h.idle.requesting
    · rw [hr.good, hr.last]
      exact ⟨le_rfl, hmax⟩
    · rw [hr.count, hr.good]
      simpa [Entry.total] using heq.symm
    · rw [hr.good]
      exact hsame ▸ Moves.passed hcount
  · obtain ⟨ms, hms⟩ := deliver_zero h.idle hcount heq
    rw [hms]
    have hr := release_empty (w := (w.advance e).waiting ms)
      ⟨h.queues.queue, h.queues.update, h.queues.updates⟩ h.idle.level e
    refine ⟨⟨⟨?_, ?_, hr.level⟩, hr.queues, by simp, by simp, h.carried, ?_, ?_, ?_, h.apart,
      ?_⟩, ?_, ?_, hr.last.le⟩
    · rw [hr.good]
      exact h.idle.inited
    · rw [hr.requesting]
      exact h.idle.requesting
    · rw [hr.good, hr.last]
      exact ⟨h.last.1.trans (le_max_left _ _), hmax⟩
    · rw [hr.count, hr.good]
      exact hadd.trans h.sum
    · rw [hr.good, hr.last]
      intro f hf
      have := h.above f hf
      exact ⟨this.1, this.2.1, this.2.2.trans (le_max_left _ _)⟩
    · rw [hr.last, hr.count]
      exact fun h => absurd h heq
    · rw [hr.good]
      exact .passed hcount
    · rw [hr.calls]
      simp [waiting, advance]

/-- What the delivered entry has to be for the waiter to stay in step: one that takes
no pts comes while the queue is empty, one above the current pts is apart from those
pending. -/
def Fits (good : ℤ) (P : List (Entry β)) (q : FlatMap ℕ (Entry β)) (e : Entry β) : Prop :=
  e.pts < 2 ^ 31 ∧ 0 ≤ e.count ∧ (e.count = 0 → q = ∅) ∧
    (0 < e.count → good < e.pts → good ≤ e.lo ∧ ∀ f ∈ P, Entry.Apart f e)

/-- One delivery keeps the waiter in step with the abstract machine. -/
theorem deliver_inStep (h : InStep w P q) {e : Entry β} (he : Fits w.good P q e) :
    ∃ P' q' handed, InStep (w.deliver e) P' q' ∧ Moves w.good P e (w.deliver e).good P' handed ∧
      applies (w.deliver e).calls = applies w.calls ++ handed.map Entry.applyCall ∧
      (w.deliver e).last ≤ max w.last e.pts := by
  obtain ⟨hpts, hnonneg, hzero, hnew⟩ := he
  by_cases hcount : e.count = 0
  · obtain rfl := hzero hcount
    obtain ⟨handed, hin, hmove⟩ := deliver_passed h hcount hpts
    exact ⟨P, ∅, handed, hin, hmove⟩
  · have hpos : 0 < e.count := by omega
    by_cases hold : e.pts ≤ w.good
    · rw [deliver_ignored h.idle hold hpos]
      exact ⟨P, q, [], h, .ignored hold hpos, by simp, le_max_left _ _⟩
    · obtain ⟨hlo, hapart⟩ := hnew hpos (by omega)
      exact deliver_new h (by omega) hpts hpos hlo hapart

end TelegramDesktop.Data.PtsWaiter
