import TelegramDesktop.Data.PtsWaiter
import TelegramDesktop.Base.Run
import TelegramDesktop.Base.Spans

namespace TelegramDesktop.Data
open Base

/-- The overload of `updateAndApply` an update is delivered to. -/
inductive Overload
  | update
  | updates
  | ptsOnly
  deriving DecidableEq, Repr

/-- A numbered update: it takes the pts `(pts - count, pts]`. -/
structure Entry (β : Type*) where
  pts : ℤ
  count : ℤ
  overload : Overload
  body : β
  deriving DecidableEq, Repr

instance {β : Type*} [Inhabited β] : Inhabited (Entry β) := ⟨⟨0, 0, .update, default⟩⟩

/-- A waiter whose single and combined updates are entries. -/
abbrev Waiter (β : Type*) := PtsWaiter (Entry β) (Entry β)

namespace Entry

variable {β : Type*}

/-- The first pts below the entry. -/
def lo (e : Entry β) : ℤ := e.pts - e.count

abbrev Apart (e f : Entry β) : Prop := Spans.Apart lo pts e f

abbrev total (es : List (Entry β)) : ℤ := Spans.total lo pts es

/-- The call that hands the entry to the owner; for `ptsOnly` there is none. -/
def applyCall (e : Entry β) : OwnerCall (Entry β) (Entry β) :=
  match e.overload with
  | .updates => .applyUpdatesNoPtsCheck e
  | _ => .applyUpdateNoPtsCheck e

def kind (e : Entry β) : PtsSkippedQueue :=
  if e.overload = .updates then .skippedUpdates else .skippedUpdate

/-- What the overload does with an entry to apply later. -/
def save (e : Entry β) (w : Waiter β) : Waiter β :=
  match e.overload with
  | .update => w.saveUpdate e.pts e
  | .updates => w.saveUpdates e.pts e
  | .ptsOnly => w

end Entry

namespace PtsWaiter

variable {β : Type*}

/-- Deliver an entry to its overload. -/
def deliver [Inhabited β] (w : Waiter β) (e : Entry β) : Waiter β :=
  match e.overload with
  | .update => (w.updateAndApplyUpdate e.pts e.count e).1
  | .updates => (w.updateAndApplyUpdates e.pts e.count e).1
  | .ptsOnly => (w.updateAndApplyPts e.pts e.count).1

/-- The three parallel maps are the kinds, the single and the combined updates of `q`. -/
structure InQueues (w : Waiter β) (q : FlatMap ℕ (Entry β)) : Prop where
  queue : w.queue = q.mapValues Entry.kind
  update : w.updateQueue = q.filter fun e => e.kind = .skippedUpdate
  updates : w.updatesQueue = q.filter fun e => e.kind = .skippedUpdates

theorem inQueues_empty (w : Waiter β) : InQueues w.clearSkippedUpdates ∅ := ⟨rfl, rfl, rfl⟩

section Save

variable (e : Entry β) (w : Waiter β)

@[simp] theorem save_good : (e.save w).good = w.good := by
  cases h : e.overload <;> simp [Entry.save, h, saveUpdate, saveUpdates, ptsKey]

@[simp] theorem save_last : (e.save w).last = w.last := by
  cases h : e.overload <;> simp [Entry.save, h, saveUpdate, saveUpdates, ptsKey]

@[simp] theorem save_count : (e.save w).count = w.count := by
  cases h : e.overload <;> simp [Entry.save, h, saveUpdate, saveUpdates, ptsKey]

@[simp] theorem save_level : (e.save w).applySkippedLevel = w.applySkippedLevel := by
  cases h : e.overload <;> simp [Entry.save, h, saveUpdate, saveUpdates, ptsKey]

@[simp] theorem save_requesting : (e.save w).requesting = w.requesting := by
  cases h : e.overload <;> simp [Entry.save, h, saveUpdate, saveUpdates, ptsKey]

@[simp] theorem save_waiting : (e.save w).waitingForSkipped = w.waitingForSkipped := by
  cases h : e.overload <;> simp [Entry.save, h, saveUpdate, saveUpdates, ptsKey]

@[simp] theorem save_calls : (e.save w).calls = w.calls := by
  cases h : e.overload <;> simp [Entry.save, h, saveUpdate, saveUpdates, ptsKey]

end Save

/-- Keys carry the pts of their entries in the high half. -/
def KeyOf (k : ℕ) (e : Entry β) : Prop :=
  0 ≤ e.pts ∧ ∃ c, c < 2 ^ 32 ∧ k = e.pts.toNat * 2 ^ 32 + c

/-- The queue with an entry put into it, if its overload carries one. -/
def Joins (q : FlatMap ℕ (Entry β)) (e : Entry β) (q' : FlatMap ℕ (Entry β)) : Prop :=
  q' = q ∧ e.overload = .ptsOnly ∨
    ∃ k, q' = q.emplace k e ∧ e.overload ≠ .ptsOnly ∧ KeyOf k e ∧ q.get? k = none

/-- Saving an entry puts it into the one queue under a key of its pts. -/
theorem inQueues_save {w : Waiter β} {q : FlatMap ℕ (Entry β)} (h : InQueues w q)
    (hq : ∀ a ∈ q.entries, KeyOf a.1 a.2) {e : Entry β} (hkind : e.overload ≠ .ptsOnly)
    (hpts : 0 ≤ e.pts ∧ e.pts < 2 ^ 31) (hfresh : ∀ a ∈ q.entries, a.2.pts ≠ e.pts) :
    ∃ k, KeyOf k e ∧ q.get? k = none ∧ InQueues (e.save w) (q.emplace k e) := by
  have hmod : (e.pts % 2 ^ 32).toNat = e.pts.toNat := by
    rw [Int.emod_eq_of_lt hpts.1 (by omega)]
  have hc : (w.skippedKey + 1) % 2 ^ 32 < 2 ^ 32 := Nat.mod_lt _ (by norm_num)
  generalize hcd : (w.skippedKey + 1) % 2 ^ 32 = c at hc
  have hnew : q.get? (e.pts.toNat * 2 ^ 32 + c) = none := by
    rw [FlatMap.get?_eq_none_iff]
    intro v hv
    obtain ⟨hv0, c', hc', hk⟩ := hq _ hv
    have hne := hfresh _ hv
    simp only at hv0 hk hne
    omega
  refine ⟨e.pts.toNat * 2 ^ 32 + c, ⟨hpts.1, c, hc, rfl⟩, hnew, ?_⟩
  cases ho : e.overload with
  | ptsOnly => exact absurd ho hkind
  | update =>
    have hk : e.kind = .skippedUpdate := by simp [Entry.kind, ho]
    simp only [Entry.save, ho, saveUpdate, ptsKey, hmod, hcd]
    refine ⟨?_, ?_, ?_⟩
    · simp only [h.queue, FlatMap.mapValues_emplace, hk]
    · simp only [h.update]
      rw [FlatMap.filter_emplace_pos hnew (by simp [hk])]
    · simp only [h.updates]
      rw [FlatMap.filter_emplace_neg (by simp [hk])]
  | updates =>
    have hk : e.kind = .skippedUpdates := by simp [Entry.kind, ho]
    simp only [Entry.save, ho, saveUpdates, ptsKey, hmod, hcd]
    refine ⟨?_, ?_, ?_⟩
    · simp only [h.queue, FlatMap.mapValues_emplace, hk]
    · simp only [h.update]
      rw [FlatMap.filter_emplace_neg (by simp [hk])]
    · simp only [h.updates]
      rw [FlatMap.filter_emplace_pos hnew (by simp [hk])]

theorem joins_save {w : Waiter β} {q : FlatMap ℕ (Entry β)} (h : InQueues w q)
    (hq : ∀ a ∈ q.entries, KeyOf a.1 a.2) {e : Entry β} (hpts : 0 ≤ e.pts ∧ e.pts < 2 ^ 31)
    (hfresh : ∀ a ∈ q.entries, a.2.pts ≠ e.pts) : ∃ q', InQueues (e.save w) q' ∧ Joins q e q' := by
  by_cases ho : e.overload = .ptsOnly
  · exact ⟨q, by simpa [Entry.save, ho] using h, .inl ⟨rfl, ho⟩⟩
  · obtain ⟨k, hk, hnew, hsave⟩ := inQueues_save h hq ho hpts hfresh
    exact ⟨q.emplace k e, hsave, .inr ⟨k, rfl, ho, hk, hnew⟩⟩

/-- The timer call of `checkForWaiting` when nothing is waited for. -/
def stopCall (w : Waiter β) : List (OwnerCall (Entry β) (Entry β)) :=
  if w.waitingForShortPoll then [] else [.ptsWaiterStartTimerFor (-1)]

theorem setWaitingForSkipped_neg (w : Waiter β) :
    w.setWaitingForSkipped (-1) =
      { w with waitingForSkipped := false, calls := w.calls ++ w.stopCall } := by
  cases h : w.waitingForShortPoll <;>
    simp [setWaitingForSkipped, checkForWaiting, stopCall, call, h]

theorem setWaitingForSkipped_nonneg (w : Waiter β) {ms : ℤ} (h : 0 ≤ ms) :
    w.setWaitingForSkipped ms =
      { w with waitingForSkipped := true
               calls := w.calls ++ [.ptsWaiterStartTimerFor ms] } := by
  simp [setWaitingForSkipped, h, call]

section Flush

variable [Inhabited β]

/-- One turn of the flush hands over the entry under the key. -/
theorem applySkipped_eq {w : Waiter β} {q : FlatMap ℕ (Entry β)} (h : InQueues w q)
    {k : ℕ} {e : Entry β} (hm : (k, e) ∈ q.entries) (hkind : e.overload ≠ .ptsOnly) :
    w.applySkipped (k, e.kind) = w.call e.applyCall := by
  cases ho : e.overload with
  | ptsOnly => exact absurd ho hkind
  | update =>
    have hk : e.kind = .skippedUpdate := by simp [Entry.kind, ho]
    have hg : w.updateQueue.get? k = some e := by
      rw [h.update, FlatMap.get?_eq_some_iff, FlatMap.mem_filter]
      exact ⟨hm, by simp [hk]⟩
    simp [applySkipped, hk, hg, FlatMap.emplace_of_get? hg, Entry.applyCall, ho]
  | updates =>
    have hk : e.kind = .skippedUpdates := by simp [Entry.kind, ho]
    have hg : w.updatesQueue.get? k = some e := by
      rw [h.updates, FlatMap.get?_eq_some_iff, FlatMap.mem_filter]
      exact ⟨hm, by simp [hk]⟩
    simp [applySkipped, hk, hg, FlatMap.emplace_of_get? hg, Entry.applyCall, ho]

/-- The flush loop hands over the queue in key order. -/
theorem foldl_applySkipped {w : Waiter β} {q : FlatMap ℕ (Entry β)} (h : InQueues w q)
    (hkind : ∀ a ∈ q.entries, a.2.overload ≠ .ptsOnly) :
    w.queue.entries.foldl applySkipped w =
      { w with calls := w.calls ++ q.values.map Entry.applyCall } := by
  have key (l : List (ℕ × Entry β)) (hl : ∀ a ∈ l, a ∈ q.entries) :
      ∀ w : Waiter β, InQueues w q →
      (l.map fun a => (a.1, a.2.kind)).foldl applySkipped w =
        { w with calls := w.calls ++ (l.map Prod.snd).map Entry.applyCall } := by
    induction l with
    | nil =>
      intro w hw
      simp
    | cons a l ih =>
      intro w hw
      have ha := hl a (by simp)
      rw [List.map_cons, List.foldl_cons, applySkipped_eq hw ha (hkind a ha),
        ih (fun b hb => hl b (List.mem_cons_of_mem _ hb)) (w.call a.2.applyCall)
          ⟨hw.queue, hw.update, hw.updates⟩]
      simp [call]
  have hq : w.queue.entries = q.entries.map fun a => (a.1, a.2.kind) := by
    rw [h.queue]
    rfl
  rw [hq]
  exact key q.entries (fun a ha => ha) w h

/-- A flush with something to wait for empties the queue into the owner. -/
theorem applySkippedUpdates_eq {w : Waiter β} {q : FlatMap ℕ (Entry β)} (h : InQueues w q)
    (hkind : ∀ a ∈ q.entries, a.2.overload ≠ .ptsOnly) (hw : w.waitingForSkipped = true)
    (hlevel : w.applySkippedLevel = 0) :
    w.applySkippedUpdates = clearSkippedUpdates
      { w with waitingForSkipped := false
               calls := w.calls ++ w.stopCall ++ q.values.map Entry.applyCall } := by
  have hemp : w.queue.isEmpty = q.isEmpty := by rw [h.queue, FlatMap.mapValues_isEmpty]
  unfold applySkippedUpdates
  simp only [hw, Bool.not_true, Bool.false_eq_true, if_false, setWaitingForSkipped_neg, hemp]
  by_cases hq : q.isEmpty = true
  · obtain rfl := FlatMap.eq_empty_of_isEmpty hq
    have hqueue : w.queue = ∅ := h.queue
    have hupdate : w.updateQueue = ∅ := h.update
    have hupdates : w.updatesQueue = ∅ := h.updates
    simp [hq, clearSkippedUpdates, hqueue, hupdate, hupdates, hlevel, FlatMap.values]
  · simp only [hq, Bool.false_eq_true, if_false]
    have hfold := foldl_applySkipped (w := { w with
      waitingForSkipped := false, calls := w.calls ++ w.stopCall,
      applySkippedLevel := int32Add w.applySkippedLevel 1 })
      ⟨h.queue, h.update, h.updates⟩ hkind
    rw [hfold]
    simp [clearSkippedUpdates]

/-- The waiter with the running maximum and sum moved by an entry. -/
def advance (w : Waiter β) (e : Entry β) : Waiter β :=
  { w with last := max w.last e.pts, count := int32Add w.count e.count }

/-- The waiter told to wait for `ms`. -/
def waiting (w : Waiter β) (ms : ℤ) : Waiter β :=
  { w with waitingForSkipped := true, calls := w.calls ++ [.ptsWaiterStartTimerFor ms] }

structure Idle (w : Waiter β) : Prop where
  inited : 0 < w.good
  requesting : w.requesting = false
  level : w.applySkippedLevel = 0

omit [Inhabited β] in
theorem check_closed {w : Waiter β} (h : 0 < w.good) (e : Entry β)
    (heq : (w.advance e).last = (w.advance e).count) :
    w.check e.pts e.count = ({ w.advance e with good := (w.advance e).last }, true) := by
  simp only [advance] at heq ⊢
  simp [check, inited, h, heq]

omit [Inhabited β] in
theorem check_gap {w : Waiter β} (h : 0 < w.good) (e : Entry β)
    (hne : (w.advance e).last ≠ (w.advance e).count) :
    ∃ ms, w.check e.pts e.count = ((w.advance e).waiting ms, decide (e.count = 0)) := by
  simp only [advance] at hne ⊢
  by_cases hlt : max w.last e.pts < int32Add w.count e.count
  · exact ⟨1, by simp [check, inited, h, hne, hlt, waiting, setWaitingForSkipped_nonneg]⟩
  · refine ⟨kWaitForSkippedTimeout, ?_⟩
    rw [check]
    simp [inited, h, hne, hlt, waiting, kWaitForSkippedTimeout, setWaitingForSkipped_nonneg]

/-- An entry that is not above the current pts is dropped. -/
theorem deliver_ignored {w : Waiter β} (h : Idle w) {e : Entry β} (hold : e.pts ≤ w.good)
    (hpos : 0 < e.count) : w.deliver e = w := by
  cases ho : e.overload <;>
    simp [deliver, ho, updateAndApplyUpdate, updateAndApplyUpdates, updateAndApplyPts,
      updateAndApplyWith, updatedPts, updatedWith, h.requesting, h.level, hold, hpos]

/-- An entry that leaves a gap is put aside. -/
theorem deliver_gap {w : Waiter β} (h : Idle w) {e : Entry β} (hnew : w.good < e.pts)
    (hpos : 0 < e.count) (hne : (w.advance e).last ≠ (w.advance e).count) :
    ∃ ms, w.deliver e = e.save ((w.advance e).waiting ms) := by
  obtain ⟨ms, hms⟩ := check_gap h.inited e hne
  refine ⟨ms, ?_⟩
  have hcount : e.count ≠ 0 := hpos.ne'
  cases ho : e.overload <;>
    simp [deliver, ho, updateAndApplyUpdate, updateAndApplyUpdates, updateAndApplyPts,
      updateAndApplyWith, updatedPts, updatedWith, h.requesting, h.level, hnew.not_ge, hms,
      hcount, Entry.save]

/-- What is done with an accepted entry once `updated` has let it through. -/
def release (w : Waiter β) (e : Entry β) : Waiter β :=
  if e.overload = .ptsOnly then w.applySkippedUpdates
  else if !w.waitingForSkipped || w.queue.isEmpty then w.call e.applyCall
  else (e.save w).applySkippedUpdates

/-- An entry that passes the scalar test moves the current pts and is let through. -/
theorem deliver_closed {w : Waiter β} (h : Idle w) {e : Entry β}
    (hnew : ¬ (e.pts ≤ w.good ∧ 0 < e.count))
    (heq : (w.advance e).last = (w.advance e).count) :
    w.deliver e = release { w.advance e with good := (w.advance e).last } e := by
  have hms := check_closed h.inited e heq
  cases ho : e.overload <;>
    simp [deliver, ho, updateAndApplyUpdate, updateAndApplyUpdates, updateAndApplyPts,
      updateAndApplyWith, updatedPts, updatedWith, h.requesting, h.level, hnew, hms, release,
      Entry.save, Entry.applyCall, apply_ite Prod.fst]

/-- An entry that takes no pts is let through even while a gap is open. -/
theorem deliver_zero {w : Waiter β} (h : Idle w) {e : Entry β} (hzero : e.count = 0)
    (hne : (w.advance e).last ≠ (w.advance e).count) :
    ∃ ms, w.deliver e = release ((w.advance e).waiting ms) e := by
  obtain ⟨ms, hms⟩ := check_gap h.inited e hne
  refine ⟨ms, ?_⟩
  rw [hzero] at hms
  cases ho : e.overload <;>
    simp [deliver, ho, updateAndApplyUpdate, updateAndApplyUpdates, updateAndApplyPts,
      updateAndApplyWith, updatedPts, updatedWith, h.requesting, h.level, hms, hzero, release,
      Entry.save, Entry.applyCall, apply_ite Prod.fst]

omit [Inhabited β] in
/-- The calls that hand something to the owner, in order. -/
def applies (calls : List (OwnerCall (Entry β) (Entry β))) :
    List (OwnerCall (Entry β) (Entry β)) :=
  calls.filter fun c => match c with
    | .ptsWaiterStartTimerFor _ => false
    | _ => true

omit [Inhabited β] in
@[simp] theorem applies_append (cs ds : List (OwnerCall (Entry β) (Entry β))) :
    applies (cs ++ ds) = applies cs ++ applies ds := by
  simp [applies]

omit [Inhabited β] in
@[simp] theorem applies_timer (ms : ℤ) :
    applies [(.ptsWaiterStartTimerFor ms : OwnerCall (Entry β) (Entry β))] = [] := rfl

omit [Inhabited β] in
@[simp] theorem applies_applyCall (es : List (Entry β)) :
    applies (es.map Entry.applyCall) = es.map Entry.applyCall := by
  apply List.filter_eq_self.mpr
  intro c hc
  obtain ⟨e, -, rfl⟩ := List.mem_map.mp hc
  cases ho : e.overload <;> simp [Entry.applyCall, ho]

omit [Inhabited β] in
@[simp] theorem applies_stopCall (w : Waiter β) : applies w.stopCall = [] := by
  unfold stopCall
  split_ifs <;> rfl

/-- After a release nothing waits, and only the queue and the calls have changed. -/
structure Released (w w' : Waiter β) (handed : List (Entry β)) : Prop where
  good : w'.good = w.good
  last : w'.last = w.last
  count : w'.count = w.count
  requesting : w'.requesting = w.requesting
  level : w'.applySkippedLevel = 0
  queues : InQueues w' ∅
  calls : applies w'.calls = applies w.calls ++ handed.map Entry.applyCall

theorem applySkippedUpdates_released {w : Waiter β} {q : FlatMap ℕ (Entry β)}
    (h : InQueues w q) (hkind : ∀ a ∈ q.entries, a.2.overload ≠ .ptsOnly)
    (hflag : q.entries ≠ [] → w.waitingForSkipped = true) (hlevel : w.applySkippedLevel = 0) :
    Released w w.applySkippedUpdates q.values := by
  by_cases hw : w.waitingForSkipped = true
  · rw [applySkippedUpdates_eq h hkind hw hlevel]
    exact ⟨rfl, rfl, rfl, rfl, rfl, inQueues_empty _, by simp [clearSkippedUpdates]⟩
  · have hq : q.entries = [] := by
      by_contra hne
      exact hw (hflag hne)
    obtain rfl : q = ∅ := FlatMap.ext hq
    have hw' : w.waitingForSkipped = false := by simpa using hw
    have he : w.applySkippedUpdates = w := by simp [applySkippedUpdates, hw']
    rw [he]
    exact ⟨rfl, rfl, rfl, rfl, hlevel, h, by simp [FlatMap.values]⟩

/-- With nothing waiting an entry is handed over alone. -/
theorem release_empty {w : Waiter β} (h : InQueues w ∅) (hlevel : w.applySkippedLevel = 0)
    (e : Entry β) :
    Released w (release w e) (if e.overload = .ptsOnly then [] else [e]) := by
  unfold release
  split_ifs with ho hq
  · exact applySkippedUpdates_released h (by simp) (by simp) hlevel
  · exact ⟨rfl, rfl, rfl, rfl, hlevel, ⟨h.queue, h.update, h.updates⟩, by
      simpa [call] using applies_applyCall [e]⟩
  · simp [h.queue, FlatMap.isEmpty] at hq

/-- With a queue that waits, the entry goes into it and the queue is handed over. -/
theorem release_queue {w : Waiter β} {q : FlatMap ℕ (Entry β)} (h : InQueues w q)
    (hq : ∀ a ∈ q.entries, KeyOf a.1 a.2) (hkind : ∀ a ∈ q.entries, a.2.overload ≠ .ptsOnly)
    (hflag : q.entries ≠ [] → w.waitingForSkipped = true) (hlevel : w.applySkippedLevel = 0)
    {e : Entry β} (hpts : 0 ≤ e.pts ∧ e.pts < 2 ^ 31)
    (hfresh : ∀ a ∈ q.entries, a.2.pts ≠ e.pts) :
    ∃ q', Released w (release w e) q'.values ∧ Joins q e q' := by
  by_cases ho : e.overload = .ptsOnly
  · refine ⟨q, ?_, .inl ⟨rfl, ho⟩⟩
    rw [release, if_pos ho]
    exact applySkippedUpdates_released h hkind hflag hlevel
  · obtain ⟨k, hk, hnew, hsave⟩ := inQueues_save h hq ho hpts hfresh
    refine ⟨q.emplace k e, ?_, .inr ⟨k, rfl, ho, hk, hnew⟩⟩
    by_cases hemp : q.entries = []
    · obtain rfl : q = ∅ := FlatMap.ext hemp
      have hvalues : ((∅ : FlatMap ℕ (Entry β)).emplace k e).values = [e] := rfl
      rw [hvalues]
      simpa [ho] using release_empty h hlevel e
    · have hw := hflag hemp
      have hq' : w.queue.isEmpty = false := by
        rw [h.queue, FlatMap.mapValues_isEmpty]
        simpa [FlatMap.isEmpty] using hemp
      rw [release, if_neg ho]
      simp only [hw, hq', Bool.not_true, Bool.or_false, Bool.false_eq_true, if_false]
      have hr := applySkippedUpdates_released (w := e.save w) hsave (fun a ha => ?_)
        (fun _ => by simpa using hw) (by simpa using hlevel)
      · exact ⟨by simpa using hr.good, by simpa using hr.last, by simpa using hr.count,
          by simpa using hr.requesting, hr.level, hr.queues, by simpa using hr.calls⟩
      · rcases (q.mem_emplace k e a).mp ha with ha | ⟨rfl, -⟩
        · exact hkind a ha
        · exact ho

end Flush

end PtsWaiter

end TelegramDesktop.Data
