import TelegramDesktop.Base.Count

namespace TelegramDesktop.StillUnread

structure Item where
  id : ℤ
  isRegular : Bool
  out : Bool
  isFromScheduled : Bool
  deriving DecidableEq

/-- What is counted when a message is added. -/
def Item.counted (item : Item) : Bool := !item.out || item.isFromScheduled

structure History where
  blocks : List (List Item)
  loadedAtTop : Bool
  loadedAtBottom : Bool
  folderKnown : Bool
  inboxReadBefore : Option ℤ
  unreadCount : Option ℤ

namespace History

def firstRegularId (items : List Item) : ℤ := ((items.find? Item.isRegular).map Item.id).getD 0

def minMsgId (h : History) : ℤ := firstRegularId h.blocks.flatten

/-- Blocks and messages in reverse. -/
def reversed (h : History) : List Item := h.blocks.reverse.flatMap List.reverse

def maxMsgId (h : History) : ℤ := firstRegularId h.reversed

/-- The newly read messages of one block; the `break` leaves the block. -/
def countRead (readTillId before : ℤ) : List Item → ℕ
  | [] => 0
  | item :: rest =>
    if !item.isRegular || (item.out && !item.isFromScheduled) then
      countRead readTillId before rest
    else if readTillId < item.id then 0
    else if before ≤ item.id then countRead readTillId before rest + 1
    else countRead readTillId before rest

/-- From the end; the `return` leaves both loops. -/
def countFromEnd (readTillId : ℤ) : List Item → ℕ
  | [] => 0
  | item :: rest =>
    if item.isRegular then
      if item.id ≤ readTillId then 0
      else if !item.out then countFromEnd readTillId rest + 1
      else countFromEnd readTillId rest
    else countFromEnd readTillId rest

/-- The first way, from the known count. -/
def countByRead (h : History) (readTillId : ℤ) : Option ℤ :=
  match h.inboxReadBefore with
  | some before =>
    if h.minMsgId ≤ before ∧ readTillId ≤ h.maxMsgId then
      let result := (h.blocks.map (countRead readTillId before)).sum
      h.unreadCount.map fun unreadCount => max (unreadCount - result) 0
    else none
  | none => none

def countStillUnreadLocal (h : History) (readTillId : ℤ) : Option ℤ :=
  if h.blocks.isEmpty || !h.folderKnown then none
  else
    match h.countByRead readTillId with
    | some result => some result
    | none =>
      let minimalServerId := h.minMsgId
      if !h.loadedAtBottom || (!h.loadedAtTop && minimalServerId == 0)
          || decide (readTillId < minimalServerId) then none
      else some (countFromEnd readTillId h.reversed)

/-- The regular messages that are loaded, in the order of the blocks. -/
def regular (h : History) : List Item := h.blocks.flatten.filter Item.isRegular

/-- Of the chat, oldest first, the messages between two ids are loaded: the newest ones when the
bottom is. With nothing regular in the blocks only both ends say that there is nothing. -/
structure Loaded (h : History) (chat : List Item) : Prop where
  regular : ∀ item ∈ chat, item.isRegular = true ∧ 0 < item.id
  sorted : chat.Pairwise fun a b => a.id < b.id
  loaded : h.regular =
    chat.filter fun item => decide (h.minMsgId ≤ item.id ∧ item.id ≤ h.maxMsgId)
  newer : h.loadedAtBottom = true → h.minMsgId ≠ 0 ∨ h.loadedAtTop = true →
    ∀ item ∈ chat, item.id ≤ h.maxMsgId

/-- The unread messages of the chat behind an id. -/
def unreadAfter (chat : List Item) (readTillId : ℤ) : ℕ :=
  chat.countP fun item => item.counted && decide (readTillId < item.id)

/-- The known count is that of the messages not read, and nothing becomes unread again. -/
structure Counted (h : History) (chat : List Item) (readTillId : ℤ) : Prop where
  readTill : ∀ before ∈ h.inboxReadBefore, before - 1 ≤ readTillId
  unread : ∀ before ∈ h.inboxReadBefore, ∀ count ∈ h.unreadCount,
    count = unreadAfter chat (before - 1)

theorem countRead_eq {readTillId before : ℤ} {items : List Item}
    (hsorted : (items.filter Item.isRegular).Pairwise fun a b => a.id < b.id) :
    countRead readTillId before items = (items.filter Item.isRegular).countP fun item =>
      item.counted && decide (before ≤ item.id ∧ item.id ≤ readTillId) := by
  induction items with
  | nil => rfl
  | cons item items ih =>
    rw [countRead]
    by_cases hregular : item.isRegular = true
    · rw [List.filter_cons_of_pos hregular] at hsorted ⊢
      obtain ⟨hbehind, hrest⟩ := List.pairwise_cons.mp hsorted
      rw [List.countP_cons]
      by_cases hcounted : item.counted = true
      · have hnot : ¬(!item.isRegular || (item.out && !item.isFromScheduled)) = true := by
          cases hout : item.out <;> cases hscheduled : item.isFromScheduled <;>
            simp_all [Item.counted]
        rw [if_neg hnot]
        by_cases hafter : readTillId < item.id
        · -- the loop stops, and the messages behind are later still
          have hnone : (items.filter Item.isRegular).countP (fun item =>
              item.counted && decide (before ≤ item.id ∧ item.id ≤ readTillId)) = 0 := by
            rw [List.countP_eq_zero]
            intro other hother
            have hlater := hbehind other hother
            simp only [Bool.and_eq_true, decide_eq_true_eq, not_and]
            omega
          have hout : ¬(item.counted &&
              decide (before ≤ item.id ∧ item.id ≤ readTillId)) = true := by
            simp only [Bool.and_eq_true, decide_eq_true_eq, not_and]
            omega
          rw [if_pos hafter, hnone, if_neg hout]
        · rw [if_neg hafter, ih hrest]
          by_cases hbefore : before ≤ item.id
          · have hin : (item.counted &&
                decide (before ≤ item.id ∧ item.id ≤ readTillId)) = true := by
              simp only [hcounted, Bool.true_and, decide_eq_true_eq]
              omega
            rw [if_pos hbefore, if_pos hin]
          · have hout : ¬(item.counted &&
                decide (before ≤ item.id ∧ item.id ≤ readTillId)) = true := by
              simp only [Bool.and_eq_true, decide_eq_true_eq, not_and]
              omega
            rw [if_neg hbefore, if_neg hout, Nat.add_zero]
      · have hskip : (!item.isRegular || (item.out && !item.isFromScheduled)) = true := by
          cases hout : item.out <;> cases hscheduled : item.isFromScheduled <;>
            simp_all [Item.counted]
        rw [if_pos hskip, ih hrest, if_neg (by simp [hcounted]), Nat.add_zero]
    · rw [List.filter_cons_of_neg hregular] at hsorted ⊢
      rw [if_pos (by simp [hregular])]
      exact ih hsorted

theorem countFromEnd_eq {readTillId : ℤ} {items : List Item}
    (hsorted : (items.filter Item.isRegular).Pairwise fun a b => b.id < a.id) :
    countFromEnd readTillId items = (items.filter Item.isRegular).countP fun item =>
      !item.out && decide (readTillId < item.id) := by
  induction items with
  | nil => rfl
  | cons item items ih =>
    rw [countFromEnd]
    by_cases hregular : item.isRegular = true
    · rw [List.filter_cons_of_pos hregular] at hsorted ⊢
      obtain ⟨hbehind, hrest⟩ := List.pairwise_cons.mp hsorted
      rw [if_pos hregular, List.countP_cons]
      by_cases hread : item.id ≤ readTillId
      · -- the loop stops, and the messages before are earlier still
        have hnone : (items.filter Item.isRegular).countP (fun item =>
            !item.out && decide (readTillId < item.id)) = 0 := by
          rw [List.countP_eq_zero]
          intro other hother
          have hearlier := hbehind other hother
          simp only [Bool.and_eq_true, decide_eq_true_eq, not_and]
          omega
        have hout : ¬(!item.out && decide (readTillId < item.id)) = true := by
          simp only [Bool.and_eq_true, decide_eq_true_eq, not_and]
          omega
        rw [if_pos hread, hnone, if_neg hout]
      · have hafter : readTillId < item.id := by omega
        rw [if_neg hread, ih hrest]
        cases item.out <;> simp [hafter]
    · rw [List.filter_cons_of_neg hregular] at hsorted ⊢
      rw [if_neg hregular]
      exact ih hsorted

theorem filter_reversed (h : History) : h.reversed.filter Item.isRegular = h.regular.reverse := by
  have hreversed : h.reversed = h.blocks.flatten.reverse := by
    rw [reversed, List.reverse_flatten, List.flatMap_def, List.map_reverse]
  rw [hreversed, List.filter_reverse, regular]

theorem sum_countRead {readTillId before : ℤ} (blocks : List (List Item))
    (hsorted : (blocks.flatten.filter Item.isRegular).Pairwise fun a b => a.id < b.id) :
    (blocks.map (countRead readTillId before)).sum =
      (blocks.flatten.filter Item.isRegular).countP fun item =>
        item.counted && decide (before ≤ item.id ∧ item.id ≤ readTillId) := by
  induction blocks with
  | nil => rfl
  | cons block blocks ih =>
    rw [List.flatten_cons, List.filter_append] at hsorted ⊢
    obtain ⟨hblock, hrest, -⟩ := List.pairwise_append.mp hsorted
    rw [List.map_cons, List.sum_cons, countRead_eq hblock, ih hrest, List.countP_append]

theorem Loaded.sorted_regular {h : History} {chat : List Item} (hl : Loaded h chat) :
    h.regular.Pairwise fun a b => a.id < b.id := by
  rw [hl.loaded]
  exact hl.sorted.filter _

/-- Taking the newly read ones from the known count is exact. -/
theorem countByRead_eq {h : History} {chat : List Item} {readTillId result : ℤ}
    (hl : Loaded h chat) (hc : Counted h chat readTillId)
    (hresult : h.countByRead readTillId = some result) :
    result = unreadAfter chat readTillId := by
  unfold countByRead at hresult
  split at hresult
  · next before hbefore =>
    split_ifs at hresult with hrange
    obtain ⟨count, hcount, rfl⟩ := Option.map_eq_some_iff.mp hresult
    have hle := hc.readTill before hbefore
    have hknown := hc.unread before hbefore count hcount
    -- the range that is counted is inside of what is loaded
    have hread : (h.blocks.map (countRead readTillId before)).sum = chat.countP fun item =>
        item.counted && decide (before ≤ item.id ∧ item.id ≤ readTillId) := by
      rw [sum_countRead h.blocks hl.sorted_regular]
      change h.regular.countP _ = _
      rw [hl.loaded, List.countP_filter]
      apply List.countP_congr
      intro item _
      simp only [Bool.and_eq_true, decide_eq_true_eq]
      constructor
      · exact fun hitem => hitem.1
      · exact fun hitem => ⟨hitem, by omega, by omega⟩
    have hsplit : unreadAfter chat (before - 1) = unreadAfter chat readTillId +
        chat.countP fun item =>
          item.counted && decide (before ≤ item.id ∧ item.id ≤ readTillId) := by
      apply Base.countP_split
      intro item _
      simp only [Bool.and_eq_true, decide_eq_true_eq]
      refine ⟨⟨fun hitem => ?_, fun hitem => ?_⟩, by omega⟩
      · rcases lt_or_ge readTillId item.id with hafter | hread
        · exact Or.inl ⟨hitem.1, hafter⟩
        · exact Or.inr ⟨hitem.1, by omega, hread⟩
      · rcases hitem with hitem | hitem
        · exact ⟨hitem.1, by omega⟩
        · exact ⟨hitem.1, by omega⟩
    rw [hread, hknown, hsplit]
    push_cast
    omega
  · exact nomatch hresult

/-- Outgoing messages that were scheduled and come behind an id. -/
def scheduledAfter (chat : List Item) (readTillId : ℤ) : ℕ :=
  chat.countP fun item => (item.out && item.isFromScheduled) && decide (readTillId < item.id)

/-- The conditions under which the messages are counted from the end. -/
def CountsFromEnd (h : History) (readTillId : ℤ) : Prop :=
  h.loadedAtBottom = true ∧ (h.loadedAtTop = true ∨ h.minMsgId ≠ 0) ∧ h.minMsgId ≤ readTillId

/-- The count from the end leaves the scheduled ones out. -/
theorem countFromEnd_add {h : History} {chat : List Item} {readTillId : ℤ}
    (hl : Loaded h chat) (hend : h.CountsFromEnd readTillId) :
    countFromEnd readTillId h.reversed + scheduledAfter chat readTillId =
      unreadAfter chat readTillId := by
  obtain ⟨hbottom, htop, hmin⟩ := hend
  have hnewest := hl.newer hbottom htop.symm
  have hsorted : (h.reversed.filter Item.isRegular).Pairwise fun a b => b.id < a.id := by
    rw [filter_reversed, List.pairwise_reverse]
    exact hl.sorted_regular
  have hcount : countFromEnd readTillId h.reversed =
      chat.countP fun item => !item.out && decide (readTillId < item.id) := by
    rw [countFromEnd_eq hsorted, filter_reversed, List.countP_reverse, hl.loaded,
      List.countP_filter]
    apply List.countP_congr
    intro item hitem
    have hle := hnewest item hitem
    simp only [Bool.and_eq_true, decide_eq_true_eq]
    constructor
    · exact fun hitem => hitem.1
    · exact fun hitem => ⟨hitem, by omega, hle⟩
  rw [hcount]
  symm
  apply Base.countP_split
  intro item _
  unfold Item.counted
  cases item.out <;> cases item.isFromScheduled <;> simp

/-- The conditions under which the known count is used. -/
def CountsRead (h : History) (readTillId : ℤ) : Prop :=
  h.unreadCount.isSome = true ∧
    ∃ before ∈ h.inboxReadBefore, h.minMsgId ≤ before ∧ readTillId ≤ h.maxMsgId

theorem countsRead_iff (h : History) (readTillId : ℤ) :
    h.CountsRead readTillId ↔ ∃ result, h.countByRead readTillId = some result := by
  unfold CountsRead countByRead
  cases h.inboxReadBefore with
  | none => simp
  | some before =>
    cases h.unreadCount with
    | none => simp
    | some count =>
      by_cases hrange : h.minMsgId ≤ before ∧ readTillId ≤ h.maxMsgId <;> simp [hrange]

theorem refused_iff (h : History) (readTillId : ℤ) :
    (!h.loadedAtBottom || (!h.loadedAtTop && h.minMsgId == 0) ||
      decide (readTillId < h.minMsgId)) = true ↔ ¬h.CountsFromEnd readTillId := by
  unfold CountsFromEnd
  cases h.loadedAtBottom <;> cases h.loadedAtTop <;> simp
  tauto

/-- The answer is exact when there is none, when it comes from the known count, or when no
outgoing message that was scheduled comes behind the id. -/
theorem countStillUnreadLocal_exact_iff {h : History} {chat : List Item} {readTillId : ℤ}
    (hl : Loaded h chat) (hc : Counted h chat readTillId) :
    (∀ result, h.countStillUnreadLocal readTillId = some result →
      result = unreadAfter chat readTillId) ↔
    h.blocks = [] ∨ h.folderKnown = false ∨ h.CountsRead readTillId ∨
      ¬h.CountsFromEnd readTillId ∨
      ∀ item ∈ chat, item.out = true → item.isFromScheduled = true → item.id ≤ readTillId := by
  by_cases hguard : (h.blocks.isEmpty || !h.folderKnown) = true
  · have hnone : h.countStillUnreadLocal readTillId = none := if_pos hguard
    rw [hnone]
    rw [Bool.or_eq_true, List.isEmpty_iff, Bool.not_eq_true'] at hguard
    exact iff_of_true (fun result hresult => nomatch hresult)
      (hguard.elim Or.inl fun hfolder => Or.inr (Or.inl hfolder))
  have hopen : ¬h.blocks = [] ∧ ¬h.folderKnown = false := by
    rw [Bool.or_eq_true, List.isEmpty_iff, Bool.not_eq_true', not_or] at hguard
    exact hguard
  rw [or_iff_right hopen.1, or_iff_right hopen.2]
  by_cases hread : h.CountsRead readTillId
  · obtain ⟨answer, hanswer⟩ := (h.countsRead_iff readTillId).mp hread
    have hsome : h.countStillUnreadLocal readTillId = some answer := by
      rw [countStillUnreadLocal, if_neg hguard, hanswer]
    refine iff_of_true (fun result hresult => ?_) (Or.inl hread)
    rw [hsome] at hresult
    obtain rfl := Option.some.inj hresult
    exact countByRead_eq hl hc hanswer
  have hnotRead : h.countByRead readTillId = none := by
    rw [Option.eq_none_iff_forall_not_mem]
    exact fun answer hanswer => hread ((h.countsRead_iff readTillId).mpr ⟨answer, hanswer⟩)
  rw [or_iff_right hread]
  by_cases hend : h.CountsFromEnd readTillId
  · have hsome : h.countStillUnreadLocal readTillId =
        some (countFromEnd readTillId h.reversed : ℤ) := by
      rw [countStillUnreadLocal, if_neg hguard, hnotRead]
      exact if_neg fun hrefused => (h.refused_iff readTillId).mp hrefused hend
    have hadd := countFromEnd_add hl hend
    have hzero : scheduledAfter chat readTillId = 0 ↔
        ∀ item ∈ chat, item.out = true → item.isFromScheduled = true → item.id ≤ readTillId := by
      unfold scheduledAfter
      rw [List.countP_eq_zero]
      simp
    rw [or_iff_right (not_not.mpr hend), ← hzero, hsome]
    constructor
    · intro hexact
      have := hexact _ rfl
      omega
    · intro hnone result hresult
      obtain rfl := Option.some.inj hresult
      omega
  · have hnone : h.countStillUnreadLocal readTillId = none := by
      rw [countStillUnreadLocal, if_neg hguard, hnotRead]
      exact if_pos ((h.refused_iff readTillId).mpr hend)
    rw [hnone]
    exact iff_of_true (fun result hresult => nomatch hresult) (Or.inl hend)

/-- A chat of two messages that is loaded as a whole: one came in, one was scheduled here. -/
def sampleChat : List Item := [⟨5, true, false, false⟩, ⟨6, true, true, true⟩]

def sampleHistory : History where
  blocks := [sampleChat]
  loadedAtTop := true
  loadedAtBottom := true
  folderKnown := true
  inboxReadBefore := none
  unreadCount := none

theorem sample_loaded : Loaded sampleHistory sampleChat where
  regular := by decide
  sorted := by decide
  loaded := by decide
  newer := by decide

theorem sample_counted (readTillId : ℤ) : Counted sampleHistory sampleChat readTillId where
  readTill := by simp [sampleHistory]
  unread := by simp [sampleHistory]

theorem countStillUnreadLocal_exact_iff_sample :
    ∃ result, sampleHistory.countStillUnreadLocal 6 = some result ∧
      result = unreadAfter sampleChat 6 := by
  have hexact := (countStillUnreadLocal_exact_iff sample_loaded (sample_counted 6)).mpr
    (Or.inr (Or.inr (Or.inr (Or.inr (by decide)))))
  exact ⟨0, by decide, hexact 0 (by decide)⟩

/-- The scheduled message is unread for the chat and left out at its end. -/
theorem countStillUnreadLocal_misses_scheduled :
    ¬∀ (h : History) (chat : List Item) (readTillId : ℤ), Loaded h chat →
      Counted h chat readTillId → ∀ result, h.countStillUnreadLocal readTillId = some result →
        result = unreadAfter chat readTillId := by
  intro h
  exact absurd (h _ _ 5 sample_loaded (sample_counted 5) 0 (by decide)) (by decide)

end History

end TelegramDesktop.StillUnread
