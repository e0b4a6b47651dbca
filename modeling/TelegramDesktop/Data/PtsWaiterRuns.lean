import TelegramDesktop.Data.PtsWaiterQueue

namespace TelegramDesktop.Data.PtsWaiter
open Base

variable {β : Type*}

/-- The entries taken in since the start, extended by a delivery at the current pts. -/
def accept (good : ℤ) (acc : List (Entry β)) (e : Entry β) : List (Entry β) :=
  if 0 < e.count ∧ good < e.pts then acc ++ [e] else acc

/-- From the start at `p`: `acc` was taken in and fills the pts up to `good`, where
it was handed over as `h`; what lies above is pending. -/
structure History (p : ℤ) (acc : List (Entry β)) (good : ℤ) (P h : List (Entry β)) :
    Prop where
  start : p ≤ good
  covers : Spans.Covers Entry.lo Entry.pts acc p good
  above : ∀ e ∈ acc, p ≤ e.lo ∧ 0 < e.count
  apart : acc.Pairwise Entry.Apart
  pending : ∀ e, e ∈ P ↔ e ∈ acc ∧ good < e.pts
  sorted : (h.filter fun e => 0 < e.count).Pairwise fun e f => e.pts < f.pts
  handed : ∀ e, 0 < e.count →
    (e ∈ h ↔ e ∈ acc ∧ e.overload ≠ .ptsOnly ∧ e.pts ≤ good)

namespace History

variable {p good : ℤ} {acc P h : List (Entry β)}

/-- A new entry apart from all those taken in starts at the current pts or above. -/
theorem fits (H : History p acc good P h) {e : Entry β} (hnew : good < e.pts) (hlo : p ≤ e.lo)
    (hapart : ∀ f ∈ acc, Entry.Apart f e) :
    good ≤ e.lo ∧ ∀ f ∈ P, Entry.Apart f e := by
  refine ⟨?_, fun f hf => hapart f ((H.pending f).mp hf).1⟩
  by_contra hlt
  obtain ⟨f, hf, hx⟩ := H.covers (e.lo + 1) (by omega) (by omega)
  rcases hapart f hf with hap | hap <;> omega

theorem pending_concat (H : History p acc good P h) {e : Entry β} (hnew : good < e.pts)
    (f : Entry β) : f ∈ P ++ [e] ↔ f ∈ acc ++ [e] ∧ good < f.pts := by
  rw [List.mem_append, List.mem_append, H.pending, List.mem_singleton]
  constructor
  · rintro (hf | rfl)
    · exact ⟨.inl hf.1, hf.2⟩
    · exact ⟨.inr rfl, hnew⟩
  · exact fun hf => hf.1.imp_left fun h => ⟨h, hf.2⟩

/-- Only an entry that takes no pts makes one be handed over. -/
theorem handed_pos (H : History p acc good P h) {e : Entry β} {good' : ℤ}
    {P' handed : List (Entry β)} (hm : Moves good P e good' P' handed) (he : 0 < e.count) :
    ∀ f ∈ handed, 0 < f.count := by
  cases hm with
  | ignored | queued => simp
  | closed _ _ _ _ _ _ _ hhanded =>
    intro f hf
    rcases List.mem_append.mp ((hhanded f).mp hf).1 with hf | hf
    · exact (H.above f ((H.pending f).mp hf).1).2
    · exact List.mem_singleton.mp hf ▸ he
  | passed hcount => omega

/-- The history follows the moves of the waiter. -/
theorem move (H : History p acc good P h) {e : Entry β} {good' : ℤ} {P' handed : List (Entry β)}
    (hm : Moves good P e good' P' handed)
    (he : 0 < e.count → good < e.pts → p ≤ e.lo ∧ ∀ f ∈ acc, Entry.Apart f e) :
    History p (accept good acc e) good' P' (h ++ handed) ∧ good ≤ good' := by
  have hmem {x : Entry β} : x ∈ acc ++ [e] ↔ x ∈ acc ∨ x = e := by simp
  have hext (hcount : 0 < e.count) (hnew : good < e.pts) :
      (∀ f ∈ acc ++ [e], p ≤ f.lo ∧ 0 < f.count) ∧ (acc ++ [e]).Pairwise Entry.Apart := by
    obtain ⟨hlo, hapart⟩ := he hcount hnew
    refine ⟨fun f hf => ?_, List.pairwise_append.mpr ⟨H.apart, by simp, fun f hf g hg => ?_⟩⟩
    · rcases hmem.mp hf with hf | rfl
      · exact H.above f hf
      · exact ⟨hlo, hcount⟩
    · exact List.mem_singleton.mp hg ▸ hapart f hf
  cases hm with
  | ignored hold hcount =>
    rw [accept, if_neg (by omega), List.append_nil]
    exact ⟨H, le_rfl⟩
  | queued hnew hcount =>
    obtain ⟨habove, hapart⟩ := hext hcount hnew
    rw [accept, if_pos ⟨hcount, hnew⟩, List.append_nil]
    refine ⟨⟨H.start, fun x hx hx' => ?_, habove, hapart, fun f => ?_, H.sorted,
      fun f hf => ?_⟩, le_rfl⟩
    · obtain ⟨f, hf, hfx⟩ := H.covers x hx hx'
      exact ⟨f, List.mem_append_left _ hf, hfx⟩
    · exact H.pending_concat hnew f
    · rw [H.handed f hf, hmem]
      refine ⟨fun h => ⟨.inl h.1, h.2⟩, fun h => ⟨h.1.resolve_right ?_, h.2⟩⟩
      rintro rfl
      omega
  | closed _ _ hnew hcount hcovers hle hsorted hhanded =>
    obtain ⟨habove, hapart⟩ := hext hcount hnew
    have hP {f : Entry β} := H.pending_concat hnew f
    have hgood' : good ≤ good' := hnew.le.trans (hle e (by simp))
    rw [accept, if_pos ⟨hcount, hnew⟩]
    refine ⟨⟨H.start.trans hgood', fun x hx hx' => ?_, habove, hapart, fun f => ?_, ?_,
      fun f hf => ?_⟩, hgood'⟩
    · by_cases hxg : x ≤ good
      · obtain ⟨f, hf, hfx⟩ := H.covers x hx hxg
        exact ⟨f, List.mem_append_left _ hf, hfx⟩
      · obtain ⟨f, hf, hfx⟩ := hcovers x (by omega) hx'
        exact ⟨f, (hP.mp hf).1, hfx⟩
    · simp only [List.not_mem_nil, false_iff, not_and, not_lt]
      intro hf
      by_cases hfg : f.pts ≤ good
      · omega
      · exact hle f (hP.mpr ⟨hf, by omega⟩)
    · rw [List.filter_append]
      refine List.pairwise_append.mpr ⟨H.sorted, hsorted.filter _, fun f hf g hg => ?_⟩
      obtain ⟨hf, hfpos⟩ := List.mem_filter.mp hf
      have hold := ((H.handed f (by simpa using hfpos)).mp hf).2.2
      have hnew := (hP.mp ((hhanded g).mp (List.mem_filter.mp hg).1).1).2
      omega
    · rw [List.mem_append, H.handed f hf, hhanded, hP]
      constructor
      · rintro (h | h)
        · exact ⟨List.mem_append_left _ h.1, h.2.1, by omega⟩
        · exact ⟨h.1.1, h.2, hle f (hP.mpr h.1)⟩
      · rintro ⟨hf', ho, -⟩
        by_cases hfg : f.pts ≤ good
        · refine .inl ⟨(hmem.mp hf').resolve_right ?_, ho, hfg⟩
          rintro rfl
          omega
        · exact .inr ⟨⟨hf', by omega⟩, ho⟩
  | passed hcount =>
    have hne {f : Entry β} (hf : 0 < f.count) :
        f ∉ if e.overload = .ptsOnly then [] else [e] := by
      split_ifs
      · simp
      · rw [List.mem_singleton]
        rintro rfl
        omega
    rw [accept, if_neg (by omega)]
    refine ⟨⟨H.start, H.covers, H.above, H.apart, H.pending, ?_, fun f hf => ?_⟩, le_rfl⟩
    · have hz : (if e.overload = .ptsOnly then [] else [e]).filter (fun f => 0 < f.count) = [] :=
        List.filter_eq_nil_iff.mpr fun f hf hpos => hne (by simpa using hpos) hf
      rw [List.filter_append, hz, List.append_nil]
      exact H.sorted
    · rw [List.mem_append, or_iff_left (hne hf)]
      exact H.handed f hf

end History

inductive Event (β : Type*)
  | delivered (e : Entry β)
  | called (c : OwnerCall (Entry β) (Entry β))
  deriving DecidableEq

/-- What the events hand to the owner, in order. -/
def applied (os : List (Event β)) : List (OwnerCall (Entry β) (Entry β)) :=
  applies (os.filterMap fun o => match o with
    | .called c => some c
    | .delivered _ => none)

@[simp] theorem applied_append (os os' : List (Event β)) :
    applied (os ++ os') = applied os ++ applied os' := by
  simp [applied]

@[simp] theorem applied_step (e : Entry β) (cs : List (OwnerCall (Entry β) (Entry β))) :
    applied (.delivered e :: cs.map .called) = applies cs := by
  simp [applied, List.filterMap_map]

theorem applyCall_injective {e f : Entry β} (h : e.applyCall = f.applyCall) : e = f := by
  cases he : e.overload <;> cases hf : f.overload <;> simp_all [Entry.applyCall]

variable [Inhabited β]

/-- Deliver one entry and collect the calls it makes. -/
def step (w : Waiter β) (e : Entry β) : Waiter β × List (Event β) :=
  let w' := { w with calls := [] }.deliver e
  (w', .delivered e :: w'.calls.map .called)

/-- The waiter is in step with the history of what it took in and handed over. -/
def Tracks (p : ℤ) (acc : List (Entry β)) (w : Waiter β) (os : List (Event β)) : Prop :=
  ∃ P q h, InStep w P q ∧ History p acc w.good P h ∧ applied os = h.map Entry.applyCall

/-- A delivery a tracked waiter can take: one that takes no pts comes while nothing is
queued, and one above the current pts is apart from all that was taken in. -/
structure Admits (p : ℤ) (acc : List (Entry β)) (w : Waiter β) (e : Entry β) : Prop where
  range : e.pts < 2 ^ 31
  nonneg : 0 ≤ e.count
  zero : e.count = 0 → w.queue.isEmpty = true
  fresh : 0 < e.count → w.good < e.pts → p ≤ e.lo ∧ ∀ f ∈ acc, Entry.Apart f e

theorem tracks_step {p : ℤ} {acc : List (Entry β)} {w : Waiter β} {os : List (Event β)}
    (h : Tracks p acc w os) {e : Entry β} (he : Admits p acc w e) :
    Tracks p (accept w.good acc e) (step w e).1 (os ++ (step w e).2) ∧
      w.good ≤ (step w e).1.good ∧ (step w e).1.last ≤ max w.last e.pts ∧
      (0 < e.count → ∀ c ∈ applied (step w e).2, ∃ f : Entry β, 0 < f.count ∧ f.applyCall = c) := by
  obtain ⟨P, q, h, hin, H, hos⟩ := h
  have hin' : InStep { w with calls := [] } P q :=
    ⟨⟨hin.idle.inited, hin.idle.requesting, hin.idle.level⟩,
      ⟨hin.queues.queue, hin.queues.update, hin.queues.updates⟩, hin.flag, hin.keyed,
      hin.carried, hin.last, hin.sum, hin.above, hin.apart, hin.gap⟩
  have hfits : Fits w.good P q e := by
    refine ⟨he.range, he.nonneg, fun hz => ?_, fun hc hnew => ?_⟩
    · have hq := he.zero hz
      rw [hin.queues.queue, FlatMap.mapValues_isEmpty] at hq
      exact FlatMap.eq_empty_of_isEmpty hq
    · obtain ⟨hlo, hapart⟩ := he.fresh hc hnew
      exact H.fits hnew hlo hapart
  obtain ⟨P', q', handed, hin2, hmove, hcalls, hlast⟩ := deliver_inStep hin' hfits
  obtain ⟨H', hgood⟩ := H.move hmove he.fresh
  have happlied : applied (step w e).2 = handed.map Entry.applyCall :=
    (applied_step e _).trans (by simpa [applies] using hcalls)
  refine ⟨⟨P', q', h ++ handed, hin2, H', ?_⟩, hgood, hlast, fun hpos c hc => ?_⟩
  · rw [applied_append, hos, happlied, List.map_append]
  · rw [happlied] at hc
    obtain ⟨f, hf, rfl⟩ := List.mem_map.mp hc
    exact ⟨f, H.handed_pos hmove hpos f hf, rfl⟩

end TelegramDesktop.Data.PtsWaiter
