import TelegramDesktop.Base.FlatMap
import TelegramDesktop.Base.Run

namespace TelegramDesktop.ReceivedIdsManager
open Base

/-- Received msgIds and wereAcked msgIds count stored. -/
def kIdsBufferSize : ℕ := 400

inductive Result
  | success
  | duplicate
  | tooOld
  deriving DecidableEq, Repr

/-- The manager's `_idsNeedAck`. -/
abbrev Manager := FlatMap ℕ Bool

def min (m : Manager) : ℕ :=
  match m.entries with
  | [] => 0
  | e :: _ => e.1

def registerMsgId (m : Manager) (msgId : ℕ) (needAck : Bool) : Manager × Result :=
  if m.contains msgId then (m, .duplicate)
  else if m.size < kIdsBufferSize ∨ min m < msgId then (m.emplace msgId needAck, .success)
  else (m, .tooOld)

/-- `while (size-- > kIdsBufferSize)` with the size read once before the loop. -/
def shrinkLoop : ℕ → Manager → Manager
  | 0, m => m
  | size + 1, m => if kIdsBufferSize < size + 1 then shrinkLoop size m.eraseFirst else m

def shrink (m : Manager) : Manager := shrinkLoop m.size m

def clear : Manager := ∅

theorem exists_min_mem {m : Manager} (h : m.entries ≠ []) : ∃ b, (min m, b) ∈ m.entries := by
  unfold min
  cases he : m.entries with
  | nil => exact absurd he h
  | cons e rest => exact ⟨e.2, by simp⟩

/-- Every id handled so far is still in the map, or the map is full and the id
is below everything in it. -/
def Remembers (handled : List ℕ) (m : Manager) : Prop :=
  ∀ id ∈ handled, m.contains id = true ∨ (kIdsBufferSize ≤ m.size ∧ id < min m)

/-- A new id above the minimum leaves the minimum where it was. -/
theorem min_emplace {m : Manager} {id : ℕ} (b : Bool) (hne : m.entries ≠ [])
    (h : min m < id) : min (m.emplace id b) = min m := by
  cases he : m.entries with
  | nil => exact absurd he hne
  | cons e rest =>
    have hm : min m = e.1 := by simp [min, he]
    have hlt : e.1 < id := hm ▸ h
    simp [min, FlatMap.emplace, he, FlatMap.insertEntry, hlt, hlt.not_gt]

/-- A new id is accepted only if it was not handled before. -/
theorem registerMsgId_fresh {handled : List ℕ} {m : Manager} (h : Remembers handled m)
    {id : ℕ} {b : Bool} (hs : (registerMsgId m id b).2 = .success) : id ∉ handled := by
  intro hid
  unfold registerMsgId at hs
  split_ifs at hs with hc hg
  rcases h id hid with hin | ⟨hfull, hlow⟩
  · exact hc hin
  · rcases hg with hg | hg <;> omega

theorem remembers_emplace {handled : List ℕ} {m : Manager} (h : Remembers handled m)
    {id : ℕ} (b : Bool) (hc : m.contains id = false)
    (hg : m.size < kIdsBufferSize ∨ min m < id) :
    Remembers (handled ++ [id]) (m.emplace id b) := by
  intro x hx
  rcases List.mem_append.mp hx with hx | hx
  · rcases h x hx with hin | ⟨hfull, hlow⟩
    · left
      obtain ⟨w, hw⟩ := (m.contains_iff x).mp hin
      exact (FlatMap.contains_iff _ x).mpr ⟨w, (m.mem_emplace _ _ _).mpr (.inl hw)⟩
    · right
      have hne : m.entries ≠ [] := by
        intro he
        simp [FlatMap.size, he, kIdsBufferSize] at hfull
      have hmin : min m < id := by omega
      rw [min_emplace b hne hmin, FlatMap.size_emplace b (by simpa [FlatMap.contains] using hc)]
      exact ⟨by omega, hlow⟩
  · left
    obtain rfl := List.mem_singleton.mp hx
    rw [FlatMap.contains, FlatMap.get?_emplace, if_pos rfl]
    rfl

theorem remembers_registerMsgId {handled : List ℕ} {m : Manager} (h : Remembers handled m)
    (id : ℕ) (b : Bool) : Remembers
      (if (registerMsgId m id b).2 = .success then handled ++ [id] else handled)
      (registerMsgId m id b).1 := by
  unfold registerMsgId
  by_cases hc : m.contains id = true
  · simpa [hc] using h
  · by_cases hg : m.size < kIdsBufferSize ∨ min m < id
    · have hc' : m.contains id = false := by simpa using hc
      simpa only [if_neg hc, if_pos hg, if_true] using remembers_emplace h b hc' hg
    · simpa [hc, hg] using h

/-- Dropping the first entry of an overfull map keeps what is remembered. -/
theorem remembers_eraseFirst {handled : List ℕ} {m : Manager} (h : Remembers handled m)
    (hsize : kIdsBufferSize < m.size) : Remembers handled m.eraseFirst := by
  cases he : m.entries with
  | nil => simp [FlatMap.size, he] at hsize
  | cons e rest =>
    have hs := m.sorted
    rw [he] at hs
    obtain ⟨hfirst, -⟩ := List.pairwise_cons.mp hs
    have htail : m.eraseFirst.entries = rest := by simp [FlatMap.eraseFirst, he]
    have hsize' : kIdsBufferSize ≤ m.eraseFirst.size := by
      have hlen : m.size = m.eraseFirst.size + 1 := by simp [FlatMap.size, htail, he]
      omega
    have hrest : m.eraseFirst.entries ≠ [] := by
      intro hnil
      simp [FlatMap.size, hnil, kIdsBufferSize] at hsize'
    obtain ⟨b, hb⟩ := exists_min_mem hrest
    have hmin : e.1 < min m.eraseFirst := hfirst _ (htail ▸ hb)
    intro x hx
    rcases h x hx with hin | ⟨-, hlow⟩
    · obtain ⟨w, hw⟩ := (m.contains_iff x).mp hin
      rw [he] at hw
      rcases List.mem_cons.mp hw with rfl | hw
      · exact .inr ⟨hsize', hmin⟩
      · exact .inl ((FlatMap.contains_iff _ x).mpr ⟨w, htail.symm ▸ hw⟩)
    · have : min m = e.1 := by simp [min, he]
      exact .inr ⟨hsize', by omega⟩

theorem remembers_shrinkLoop {handled : List ℕ} (size : ℕ) {m : Manager}
    (hsize : m.size = size) (h : Remembers handled m) :
    Remembers handled (shrinkLoop size m) := by
  induction size generalizing m with
  | zero => exact h
  | succ size ih =>
    unfold shrinkLoop
    split_ifs with hbig
    · refine ih ?_ (remembers_eraseFirst h (by omega))
      simp only [FlatMap.size, FlatMap.eraseFirst, List.length_tail] at hsize ⊢
      omega
    · exact h

/-- What a session does to the manager. -/
inductive Op
  | registerMsgId (msgId : ℕ) (needAck : Bool)
  | shrink

/-- One operation; a registration emits the id with its result. -/
def step (m : Manager) : Op → Manager × List (ℕ × Result)
  | .registerMsgId msgId needAck =>
    ((registerMsgId m msgId needAck).1, [(msgId, (registerMsgId m msgId needAck).2)])
  | .shrink => (shrink m, [])

/-- The ids whose registration succeeded, in order. -/
def handledIds (results : List (ℕ × Result)) : List ℕ :=
  (results.filter fun r => r.2 = .success).map Prod.fst

theorem handledIds_append (rs ts : List (ℕ × Result)) :
    handledIds (rs ++ ts) = handledIds rs ++ handledIds ts := by
  simp [handledIds]

theorem count_success_le (rs : List (ℕ × Result)) (id : ℕ) :
    rs.count (id, .success) ≤ (handledIds rs).count id := by
  induction rs with
  | nil => simp
  | cons r rs ih =>
    obtain ⟨x, res⟩ := r
    cases res <;> by_cases hx : x = id <;> simp_all [handledIds]

theorem step_invariant {m : Manager} {rs : List (ℕ × Result)} (op : Op)
    (h : Remembers (handledIds rs) m ∧ (handledIds rs).Nodup) :
    Remembers (handledIds (rs ++ (step m op).2)) (step m op).1 ∧
      (handledIds (rs ++ (step m op).2)).Nodup := by
  cases op with
  | registerMsgId id b =>
    have hr := remembers_registerMsgId h.1 id b
    rw [handledIds_append]
    by_cases hs : (registerMsgId m id b).2 = .success
    · have hnew : handledIds (step m (.registerMsgId id b)).2 = [id] := by
        simp [step, handledIds, hs]
      rw [hnew]
      refine ⟨by simpa [step, hs] using hr, List.nodup_append.mpr ⟨h.2, by simp, ?_⟩⟩
      rintro x hx y hy rfl
      exact registerMsgId_fresh h.1 hs (List.mem_singleton.mp hy ▸ hx)
    · have hnew : handledIds (step m (.registerMsgId id b)).2 = [] := by
        simp [step, handledIds, hs]
      rw [hnew, List.append_nil]
      exact ⟨by simpa [step, hs] using hr, h.2⟩
  | shrink =>
    simp only [step, List.append_nil]
    exact ⟨remembers_shrinkLoop _ rfl h.1, h.2⟩

/-- Over any interleaving of registrations and shrinks from a cleared manager,
no id is handled twice, evicted or not. -/
theorem registerMsgId_success_once (ops : List Op) (msgId : ℕ) :
    (run step clear ops).2.count (msgId, .success) ≤ 1 := by
  have hinv := run_invariant step
    (fun _ m rs => Remembers (handledIds rs) m ∧ (handledIds rs).Nodup) (s := clear)
    ⟨by simp [Remembers, handledIds], by simp [handledIds]⟩
    (fun _ _ _ op h => step_invariant op h) ops
  calc (run step clear ops).2.count (msgId, .success)
      ≤ (handledIds (run step clear ops).2).count msgId := count_success_le _ msgId
    _ ≤ 1 := List.nodup_iff_count_le_one.mp hinv.2 msgId

end TelegramDesktop.ReceivedIdsManager
