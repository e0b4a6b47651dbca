import TelegramDesktop.Base.Count
import TelegramDesktop.Data.RepliesList

namespace TelegramDesktop.Data.RepliesList

/-- The list with what is known of the reading. -/
structure Reading extends RepliesList where
  rootId : MsgId
  inboxReadTillId : MsgId
  unreadCount : Option ℤ

namespace Reading

/-- `ranges::lower_bound` of a descending range, with `std::greater`. -/
def lowerBound (list : List MsgId) (id : MsgId) : ℕ :=
  (list.takeWhile fun message => decide (id < message)).length

/-- The messages of the thread behind an id, without the root. -/
def unreadAfter (thread : List MsgId) (rootId readTillId : MsgId) : ℕ :=
  thread.countP fun message => decide (message ≠ rootId ∧ readTillId < message)

/-- The list is a segment of the thread, newest first, up to the ends that are loaded. -/
structure Loaded (s : Reading) (thread : List MsgId) : Prop where
  sorted : thread.Pairwise fun a b => b < a
  segment : ∃ newer older, thread = newer ++ s.list ++ older ∧
    (s.skippedAfter = some 0 → newer = []) ∧ (s.skippedBefore = some 0 → older = [])
  full : ∀ count ∈ s.fullCount, count = thread.length

/-- No message of the thread is older than its root. Where the root is in the list, down to which
all is loaded, more than the root is read, or the newest messages are not loaded and the root was
read before. A known count is that of the messages behind the read ones, or the zero of a thread
that is being marked as read for the first time. -/
structure Counted (s : Reading) (thread : List MsgId) (afterId : MsgId) : Prop where
  root : ∀ message ∈ thread, s.rootId ≤ message
  rootLoaded : s.rootId ∈ s.list → s.skippedBefore = some 0 →
    if s.skippedAfter = some 0 then s.rootId < afterId else s.rootId ≤ s.inboxReadTillId
  after : s.inboxReadTillId ≤ afterId
  unread : ∀ count ∈ s.unreadCount,
    count = unreadAfter thread s.rootId s.inboxReadTillId ∨
      count = 0 ∧ s.inboxReadTillId = 1 ∧ 1 < afterId ∧ s.fullCount.isSome = true ∧
        ∀ message ∈ thread, 1 < message

theorem lowerBound_eq {list : List MsgId} (h : list.Pairwise fun a b => b < a) (id : MsgId) :
    lowerBound list id = list.countP fun message => decide (id < message) := by
  induction list with
  | nil => rfl
  | cons first list ih =>
    obtain ⟨hbehind, hrest⟩ := List.pairwise_cons.mp h
    unfold lowerBound at ih ⊢
    by_cases hfirst : id < first
    · rw [List.takeWhile_cons, if_pos (decide_eq_true hfirst), List.length_cons, ih hrest,
        List.countP_cons, if_pos (decide_eq_true hfirst)]
    · have hnone : list.countP (fun message => decide (id < message)) = 0 := by
        rw [List.countP_eq_zero]
        intro message hmessage
        rw [decide_eq_true_eq]
        exact fun hlt => hfirst (hlt.trans (hbehind message hmessage))
      rw [List.takeWhile_cons, if_neg (by simpa using hfirst), List.countP_cons, hnone,
        if_neg (by simpa using hfirst)]
      rfl

section Exact

variable {s : Reading} {thread : List MsgId} {afterId : MsgId}

end Exact

/-- A thread of four behind its root, with the two in the middle loaded. -/
def sampleReading (unreadCount : Option ℤ) : Reading where
  list := [30, 20]
  fullCount := some 4
  rootId := 5
  inboxReadTillId := 20
  unreadCount := unreadCount

theorem sample_loaded (unreadCount : Option ℤ) :
    Loaded (sampleReading unreadCount) [40, 30, 20, 10] where
  sorted := by decide
  segment := ⟨[40], [10], rfl, by simp [sampleReading], by simp [sampleReading]⟩
  full := by simp [sampleReading]

end Reading

end TelegramDesktop.Data.RepliesList
