import Mathlib
import TelegramDesktop.Data.ScheduledMessagesIndex

namespace TelegramDesktop.Data.ScheduledMessages

open Base

variable {T : Type*} {list list' : ScheduledList T} {next next' : ℕ} {s : ScheduledMessages T}
variable {item : ScheduledItem T} {pointer : ℕ}

def items (s : ScheduledMessages T) : List (ScheduledItem T) := (s.data.getD {}).items

def index (s : ScheduledMessages T) (id : ℤ) : Option ℕ := (s.data.getD {}).itemById.get? id

def Valid (s : ScheduledMessages T) : Prop := ValidList (s.data.getD {}) s.next

theorem next_remove (s : ScheduledMessages T) (pointer : ℕ) : (s.remove pointer).next = s.next := by
  rw [remove]
  cases s.data with
  | none => rfl
  | some list =>
    dsimp only
    cases list.items.find? fun item => decide (item.pointer = pointer) with
    | none => rfl
    | some item => rfl

theorem items_remove (s : ScheduledMessages T) (pointer : ℕ) :
    items (s.remove pointer) = s.items.eraseP fun item => item.pointer = pointer := by
  rw [remove, items, items]
  cases hdata : s.data with
  | none =>
    rw [hdata]
    rfl
  | some list =>
    dsimp only
    cases hfind : list.items.find? fun item => decide (item.pointer = pointer) with
    | none =>
      rw [hdata]
      have habsent := List.find?_eq_none.mp hfind
      exact (List.eraseP_of_forall_not habsent).symm
    | some item =>
      dsimp only
      by_cases hempty : (list.items.eraseP fun item => decide (item.pointer = pointer)).isEmpty
      · rw [if_pos hempty]
        exact (List.isEmpty_iff.mp hempty).symm
      · rw [if_neg hempty]
        rfl

theorem Valid.remove (hs : Valid s) (pointer : ℕ) : Valid (s.remove pointer) := by
  rw [Valid, next_remove, ScheduledMessages.remove]
  cases hdata : s.data with
  | none =>
    dsimp only
    exact hs
  | some list =>
    dsimp only
    cases hfind : list.items.find? fun item => decide (item.pointer = pointer) with
    | none =>
      dsimp only
      exact hs
    | some item =>
      rw [Valid, hdata] at hs
      obtain rfl : item.pointer = pointer := of_decide_eq_true
        (List.find?_some (p := fun item : ScheduledItem T => decide (item.pointer = pointer)) hfind)
      have herased := hs.erase (List.mem_of_find?_eq_some hfind)
      dsimp only
      by_cases hempty :
          (list.items.eraseP fun other => decide (other.pointer = item.pointer)).isEmpty
      · rw [if_pos hempty]
        exact .empty _
      · rw [if_neg hempty]
        exact herased

/-- What is destroyed is gone, and nothing else is. -/
theorem Valid.foldl_remove (hs : Valid s) (clear : List ℕ) :
    Valid (clear.foldl ScheduledMessages.remove s) ∧
      (clear.foldl ScheduledMessages.remove s).items.Sublist s.items ∧
      ∀ item, item ∈ (clear.foldl ScheduledMessages.remove s).items ↔
        item ∈ s.items ∧ item.pointer ∉ clear := by
  induction clear generalizing s with
  | nil => exact ⟨hs, .refl _, fun item => by simp⟩
  | cons pointer clear ih =>
    obtain ⟨hvalid, hsub, hmem⟩ := ih (hs.remove pointer)
    rw [items_remove] at hsub hmem
    refine ⟨hvalid, hsub.trans List.eraseP_sublist, fun item => ?_⟩
    have herased : item ∈ s.items.eraseP (fun item => item.pointer = pointer) ↔
        item ∈ s.items ∧ item.pointer ≠ pointer := mem_eraseP_key hs.nodup pointer
    rw [List.foldl_cons, hmem, herased, List.mem_cons, not_or, and_assoc]

theorem Valid.updated (hs : Valid s) (clear : List ℕ) :
    Valid (s.updated clear) ∧ (s.updated clear).items.Pairwise ScheduledItem.Le ∧
      ∀ item, item ∈ (s.updated clear).items ↔ item ∈ s.items ∧ item.pointer ∉ clear := by
  obtain ⟨hvalid, -, hmem⟩ := hs.foldl_remove clear
  simp only [← hmem]
  rw [Valid, items, ScheduledMessages.updated]
  rw [Valid] at hvalid
  simp only [items]
  cases hdata : (clear.foldl ScheduledMessages.remove s).data with
  | none => exact ⟨.empty _, .nil, fun item => .rfl⟩
  | some list =>
    rw [hdata] at hvalid
    exact ⟨hvalid.sort, List.pairwise_insertionSort _ _, fun item =>
      (List.perm_insertionSort _ _).mem_iff⟩

/-- The items of a list are there in the other one, with their flags. -/
def Kept (list list' : ScheduledList T) : Prop :=
  ∀ item ∈ list.items, ∃ item' ∈ list'.items, item'.pointer = item.pointer ∧
    item'.isSending = item.isSending ∧ item'.hasFailed = item.hasFailed

theorem Kept.refl (list : ScheduledList T) : Kept list list :=
  fun item hitem => ⟨item, hitem, rfl, rfl, rfl⟩

theorem Kept.trans {list'' : ScheduledList T} (h : Kept list list') (h' : Kept list' list'') :
    Kept list list'' := by
  intro item hitem
  obtain ⟨item', hitem', hp, hsending, hfailed⟩ := h item hitem
  obtain ⟨item'', hitem'', hp', hsending', hfailed'⟩ := h' item' hitem'
  exact ⟨item'', hitem'', hp'.trans hp, hsending'.trans hsending, hfailed'.trans hfailed⟩

/-- The place is of an item that is on the server. -/
def OnServer (list : ScheduledList T) (pointer : ℕ) : Prop :=
  ∃ item ∈ list.items, item.pointer = pointer ∧ item.isPlain = true

theorem OnServer.kept (h : OnServer list pointer) (hkept : Kept list list') :
    OnServer list' pointer := by
  obtain ⟨item, hitem, hp, hplain⟩ := h
  obtain ⟨item', hitem', hp', hsending, hfailed⟩ := hkept item hitem
  refine ⟨item', hitem', hp'.trans hp, ?_⟩
  rw [ScheduledItem.isPlain, hsending, hfailed]
  exact hplain

theorem ValidList.updateDate (hlist : ValidList list next) (pointer : ℕ) (date : ℤ) :
    ValidList (updateDate list pointer date) next ∧ Kept list (updateDate list pointer date) := by
  let f : ScheduledItem T → ScheduledItem T := fun item =>
    if item.pointer = pointer then { item with date := date } else item
  have hsame : ∀ item, (f item).pointer = item.pointer ∧ (f item).id = item.id ∧
      (f item).isSending = item.isSending ∧ (f item).hasFailed = item.hasFailed := by
    intro item
    dsimp only [f]
    split_ifs
    · exact ⟨rfl, rfl, rfl, rfl⟩
    · exact ⟨rfl, rfl, rfl, rfl⟩
  refine ⟨hlist.map (f := f) (fun item => (hsame item).1) (fun item _ => ?_)
    (fun item => (hsame item).2.1) fun item hitem => ?_, fun item hitem => ?_⟩
  · rw [ScheduledItem.isPlain, (hsame item).2.2.1, (hsame item).2.2.2]
    rfl
  · rw [(hsame item).2.2.1, (hsame item).2.2.2]
    exact hlist.exclusive item hitem
  · exact ⟨f item, List.mem_map_of_mem hitem, (hsame item).1, (hsame item).2.2⟩

theorem ValidList.append (hlist : ValidList list next) (message : ScheduledMessage T) :
    ValidList (append list next message).1 (append list next message).2.1 ∧
      Kept list (append list next message).1 ∧
      ∀ pointer ∈ (append list next message).2.2,
        OnServer (append list next message).1 pointer := by
  rw [ScheduledMessages.append]
  cases hget : list.itemById.get? message.id with
  | some existing =>
    dsimp only
    have hexisting : OnServer list existing := by
      obtain ⟨item, hitem, hp, hplain, -⟩ := (hlist.index message.id existing).mp hget
      exact ⟨item, hitem, hp, hplain⟩
    split_ifs
    · refine ⟨hlist, .refl list, fun pointer hpointer => ?_⟩
      obtain rfl := Option.some.inj hpointer
      exact hexisting
    · obtain ⟨hvalid, hkept⟩ := hlist.updateDate existing message.date
      refine ⟨hvalid, hkept, fun pointer hpointer => ?_⟩
      obtain rfl := Option.some.inj hpointer
      exact hexisting.kept hkept
  | none =>
    dsimp only
    have hnothing : ValidList list next ∧ Kept list list ∧
        ∀ pointer ∈ (none : Option ℕ), OnServer list pointer :=
      ⟨hlist, .refl list, fun pointer hpointer => absurd hpointer (Option.not_mem_none pointer)⟩
    split_ifs
    · let new : ScheduledItem T :=
        ⟨next, remoteToLocalMsgId message.id, message.date, message.topic, false, false⟩
      have hkey : new.lookupId = message.id := by
        rw [ScheduledItem.lookupId, localToRemoteMsgId]
        dsimp only [new]
        rw [remoteToLocalMsgId]
        omega
      have hpushed : ValidList ⟨list.items ++ [new],
          list.itemById.emplace new.lookupId next⟩ (next + 1) :=
        hlist.push rfl (fun h => absurd h Bool.false_ne_true) fun _ => hkey ▸ hget
      rw [hkey] at hpushed
      refine ⟨hpushed, fun item hitem => ?_, fun pointer hpointer => ?_⟩
      · exact ⟨item, List.mem_append_left _ hitem, rfl, rfl, rfl⟩
      · obtain rfl := Option.some.inj hpointer
        exact ⟨new, List.mem_append_right _ (List.mem_singleton.mpr rfl), rfl, rfl⟩
    · exact hnothing
    · exact hnothing

theorem ValidList.appendAll (hlist : ValidList list next) (received : List ℕ)
    (hreceived : ∀ pointer ∈ received, OnServer list pointer)
    (messages : List (ScheduledMessage T)) :
    let r := ScheduledMessages.appendAll list next received messages
    ValidList r.1 r.2.1 ∧ Kept list r.1 ∧ ∀ pointer ∈ r.2.2, OnServer r.1 pointer := by
  induction messages generalizing list next received with
  | nil => exact ⟨hlist, .refl list, hreceived⟩
  | cons message rest ih =>
    obtain ⟨hvalid, hkept, hitem⟩ := hlist.append message
    rw [ScheduledMessages.appendAll]
    obtain ⟨hvalid', hkept', hall⟩ := ih hvalid
      (received ++ (ScheduledMessages.append list next message).2.2.toList) (by
        intro pointer hpointer
        rcases List.mem_append.mp hpointer with hold | hnew
        · exact (hreceived pointer hold).kept hkept
        · exact hitem pointer (Option.mem_toList.mp hnew))
    exact ⟨hvalid', hkept.trans hkept', hall⟩

theorem Valid.left_iff (hs : Valid s) (clear : List ℕ) (hitem : item ∈ s.items) :
    (∃ item' ∈ (s.updated clear).items, item'.pointer = item.pointer) ↔ item.pointer ∉ clear := by
  obtain ⟨-, -, hmem⟩ := hs.updated clear
  constructor
  · rintro ⟨item', hitem', hp⟩
    rw [← hp]
    exact ((hmem item').mp hitem').2
  · intro hclear
    exact ⟨item, (hmem item).mpr ⟨hitem, hclear⟩, rfl⟩

/-- A place is to be cleared when its item is. -/
theorem ValidList.mem_clear (hlist : ValidList list next) (hitem : item ∈ list.items)
    (clear : ScheduledItem T → Bool) :
    item.pointer ∈ (list.items.filter clear).map ScheduledItem.pointer ↔ clear item = true := by
  constructor
  · intro h
    obtain ⟨other, hother, hp⟩ := List.mem_map.mp h
    obtain ⟨hother, hclear⟩ := List.mem_filter.mp hother
    rw [← hlist.eq_of_pointer hother hitem hp]
    exact hclear
  · intro hclear
    exact List.mem_map_of_mem (List.mem_filter.mpr ⟨hitem, hclear⟩)

/-- What an empty answer comes to. -/
theorem Valid.clearNotSending (hs : Valid s) :
    Valid s.clearNotSending ∧
      (s.items.Pairwise ScheduledItem.Le →
        s.clearNotSending.items.Pairwise ScheduledItem.Le) ∧
      ∀ item ∈ s.items, item.isSending = true ∨ item.hasFailed = true →
        ∃ item' ∈ s.clearNotSending.items, item'.pointer = item.pointer := by
  rw [ScheduledMessages.clearNotSending]
  cases hdata : s.data with
  | none => exact ⟨hs, id, fun item hitem _ => ⟨item, hitem, rfl⟩⟩
  | some list =>
    dsimp only
    obtain ⟨hvalid, hsorted, -⟩ := hs.updated ((list.items.filter fun item =>
      !item.isSending && !item.hasFailed).map ScheduledItem.pointer)
    refine ⟨hvalid, fun _ => hsorted, fun item hitem hlocal => ?_⟩
    have hlist : ValidList list s.next := by
      rw [Valid, hdata] at hs
      exact hs
    rw [hs.left_iff _ hitem]
    rw [items, hdata] at hitem
    rw [hlist.mem_clear hitem]
    rcases hlocal with h | h
    · simp [h]
    · simp [h]

/-- An answer with messages takes out what is not in it, the items that have failed too. -/
theorem Valid.parse_messages (hs : Valid s) (messages : List (ScheduledMessage T)) :
    let r := ScheduledMessages.appendAll (s.data.getD {}) s.next [] messages
    let clear := r.1.items.filter fun item => !item.isSending && !r.2.2.contains item.pointer
    let s' := ScheduledMessages.updated
      { s with data := some r.1, next := r.2.1, requested := true }
      (clear.map ScheduledItem.pointer)
    Valid s' ∧ s'.items.Pairwise ScheduledItem.Le ∧
      ∀ item ∈ s.items, item.isPlain = false →
        ((∃ item' ∈ s'.items, item'.pointer = item.pointer) ↔ item.hasFailed = false) := by
  intro r clear s'
  obtain ⟨hlist, hkept, hreceived⟩ :=
    ValidList.appendAll hs [] (fun _ hpointer => absurd hpointer List.not_mem_nil) messages
  have hr : Valid { s with data := some r.1, next := r.2.1, requested := true } := hlist
  obtain ⟨hvalid, hsorted, -⟩ := hr.updated (clear.map ScheduledItem.pointer)
  refine ⟨hvalid, hsorted, fun item hitem hlocal => ?_⟩
  obtain ⟨item', hitem', hp, hsending, hfailed⟩ := hkept item hitem
  rw [← hp, hr.left_iff _ hitem', hlist.mem_clear hitem', ← hfailed, Bool.and_eq_true,
    Bool.not_eq_true', Bool.not_eq_true']
  rw [ScheduledItem.isPlain, ← hsending, ← hfailed] at hlocal
  -- what is received is on the server
  have hnot : r.2.2.contains item'.pointer = false := by
    by_contra hcontains
    rw [Bool.not_eq_false, List.contains_iff_mem] at hcontains
    obtain ⟨other, hother, hp', hplain⟩ := hreceived _ hcontains
    rw [hlist.eq_of_pointer hother hitem' hp', ScheduledItem.isPlain, hlocal] at hplain
    exact Bool.false_ne_true hplain
  rw [and_iff_left hnot]
  cases hsend : item'.isSending with
  | true =>
    rw [hlist.exclusive item' hitem' hsend]
    simp
  | false =>
    rw [hsend] at hlocal
    cases hfail : item'.hasFailed with
    | true => simp
    | false =>
      rw [hfail] at hlocal
      exact absurd hlocal Bool.false_ne_true.symm

theorem Valid.parse (hs : Valid s) (messages : Option (List (ScheduledMessage T))) :
    Valid (s.parse messages) ∧
      (s.items.Pairwise ScheduledItem.Le → (s.parse messages).items.Pairwise ScheduledItem.Le) ∧
      ((∀ item ∈ s.items, item.isSending = true ∨ item.hasFailed = true →
          ∃ item' ∈ (s.parse messages).items, item'.pointer = item.pointer) ↔
        (messages = none ∨ messages = some [] ∨ ∀ item ∈ s.items, item.hasFailed = false)) := by
  rcases messages with _ | _ | ⟨message, rest⟩
  · exact ⟨hs, id, iff_of_true (fun item hitem _ => ⟨item, hitem, rfl⟩) (.inl rfl)⟩
  · obtain ⟨hvalid, hsorted, hleft⟩ :=
      Valid.clearNotSending (s := { s with requested := true }) hs
    exact ⟨hvalid, hsorted, iff_of_true hleft (.inr (.inl rfl))⟩
  · obtain ⟨hvalid, hsorted, hleft⟩ := hs.parse_messages (message :: rest)
    refine ⟨hvalid, fun _ => hsorted, ?_⟩
    have hsome : ¬ (some (message :: rest) = none) := Option.some_ne_none _
    have hnonempty : ¬ (some (message :: rest) = some []) := by rintro ⟨⟩
    rw [or_iff_right hsome, or_iff_right hnonempty]
    constructor
    · intro hall item hitem
      by_contra hfailed
      rw [Bool.not_eq_false] at hfailed
      have hlocal : item.isPlain = false := by
        rw [ScheduledItem.isPlain, hfailed, Bool.not_true, Bool.and_false]
      have hgone := (hleft item hitem hlocal).mp (hall item hitem (.inr hfailed))
      rw [hfailed] at hgone
      cases hgone
    · intro hnone item hitem hlocal
      refine (hleft item hitem ?_).mpr (hnone item hitem)
      rcases hlocal with h | h
      · rw [ScheduledItem.isPlain, h]
        rfl
      · rw [hnone item hitem] at h
        cases h

theorem Valid.applyNew (hs : Valid s) (message : ScheduledMessage T) :
    Valid (s.applyNew message) ∧ (s.applyNew message).items.Pairwise ScheduledItem.Le := by
  obtain ⟨hlist, -, -⟩ := ValidList.append hs message
  exact ⟨hlist.sort, List.pairwise_insertionSort _ _⟩

theorem Valid.appendSending (hs : Valid s) (id date : ℤ) (topic : Option T) :
    Valid (s.appendSending id date topic) ∧
      (s.appendSending id date topic).items.Pairwise ScheduledItem.Le := by
  let new : ScheduledItem T := ⟨s.next, id, date, topic, true, false⟩
  have hpushed : ValidList ⟨s.items ++ [new], (s.data.getD {}).itemById⟩ (s.next + 1) :=
    ValidList.push hs (rfl : new.pointer = s.next) (fun _ => rfl) fun h => nomatch h
  exact ⟨hpushed.sort, List.pairwise_insertionSort _ _⟩

theorem Valid.sublist_remove (hs : Valid s) (pointer : ℕ) :
    Valid (s.remove pointer) ∧ (s.remove pointer).items.Sublist s.items := by
  refine ⟨hs.remove pointer, ?_⟩
  rw [items_remove]
  exact List.eraseP_sublist

theorem Valid.applyDelete (hs : Valid s) (ids : List ℤ) :
    Valid (s.applyDelete ids) ∧ (s.applyDelete ids).items.Sublist s.items := by
  rw [ScheduledMessages.applyDelete]
  induction ids generalizing s with
  | nil => exact ⟨hs, .refl _⟩
  | cons id ids ih =>
    rw [List.foldl_cons]
    cases s.data.bind fun list => list.itemById.get? id with
    | none => exact ih hs
    | some pointer =>
      obtain ⟨hremoved, hsub⟩ := hs.sublist_remove pointer
      obtain ⟨hvalid, hsub'⟩ := ih hremoved
      exact ⟨hvalid, hsub'.trans hsub⟩

theorem Valid.removeSending (hs : Valid s) (pointer : ℕ) :
    Valid (s.removeSending pointer) ∧ (s.removeSending pointer).items.Sublist s.items := by
  rw [ScheduledMessages.removeSending]
  split_ifs
  · exact hs.sublist_remove pointer
  · exact ⟨hs, .refl _⟩

theorem Valid.sendFailed (hs : Valid s) (pointer : ℕ) :
    Valid (s.sendFailed pointer) ∧
      (s.items.Pairwise ScheduledItem.Le →
        (s.sendFailed pointer).items.Pairwise ScheduledItem.Le) := by
  rw [Valid, items, items, ScheduledMessages.sendFailed]
  rw [Valid] at hs
  cases hdata : s.data with
  | none =>
    rw [hdata] at hs
    exact ⟨hs, id⟩
  | some list =>
    rw [hdata] at hs
    have hlist : ValidList list s.next := hs
    let f : ScheduledItem T → ScheduledItem T := fun item =>
      if item.pointer = pointer ∧ item.isSending then
        { item with isSending := false, hasFailed := true }
      else item
    have hsame : ∀ item, (f item).pointer = item.pointer ∧ (f item).id = item.id ∧
        (f item).date = item.date := by
      intro item
      dsimp only [f]
      split_ifs
      · exact ⟨rfl, rfl, rfl⟩
      · exact ⟨rfl, rfl, rfl⟩
    constructor
    · refine hlist.map (f := f) (fun item => (hsame item).1) (fun item _ => ?_)
        (fun item => (hsame item).2.1) fun item hitem => ?_
      · dsimp only [f]
        split_ifs with hfails
        · rw [ScheduledItem.isPlain, ScheduledItem.isPlain, hfails.2]
          rfl
        · rfl
      · dsimp only [f]
        split_ifs
        · rintro ⟨⟩
        · exact hlist.exclusive item hitem
    · intro hsorted
      refine List.pairwise_map.mpr (hsorted.imp fun {a b} hle => ?_)
      change ScheduledItem.Le (f a) (f b)
      rw [ScheduledItem.Le, (hsame a).2.1, (hsame a).2.2, (hsame b).2.1, (hsame b).2.2]
      exact hle

/-- An item that gets its id stays where it was among the items with its date. -/
def KeepsPlace (s : ScheduledMessages T) (id : ℤ) (pointer : ℕ) : Prop :=
  IsServerMsgId id → s.index id = none →
    ∀ item ∈ s.items, item.pointer = pointer → item.isSending = true →
      ∀ other ∈ s.items, other.pointer ≠ pointer → other.date = item.date →
        (other.id < item.id ∧ other.id ≤ remoteToLocalMsgId id) ∨
          (item.id < other.id ∧ remoteToLocalMsgId id ≤ other.id)

theorem ValidList.sorted_realId (hlist : ValidList list next) (hitem : item ∈ list.items)
    (hsorted : list.items.Pairwise ScheduledItem.Le) {id : ℤ}
    (hplace : ∀ other ∈ list.items, other.pointer ≠ item.pointer → other.date = item.date →
      (other.id < item.id ∧ other.id ≤ id) ∨ (item.id < other.id ∧ id ≤ other.id)) :
    (list.items.map (setRealId id item.pointer)).Pairwise ScheduledItem.Le := by
  refine List.pairwise_map.mpr (hsorted.imp_of_mem fun {a b} ha hb hle => ?_)
  rw [ScheduledItem.Le] at hle
  rw [setRealId, setRealId, ScheduledItem.Le]
  split_ifs with hfirst hsecond hsecond
  · exact .inr ⟨by rw [hlist.eq_of_pointer ha hb (hfirst.trans hsecond.symm)], le_rfl⟩
  · rw [hlist.eq_of_pointer ha hitem hfirst] at hle ⊢
    have hb' := hplace b hb hsecond
    dsimp only
    omega
  · rw [hlist.eq_of_pointer hb hitem hsecond] at hle ⊢
    have ha' := hplace a ha hfirst
    dsimp only
    omega
  · exact hle

theorem Valid.applyMessageId (hs : Valid s) (id : ℤ) (pointer : ℕ) :
    Valid (s.applyMessageId id pointer) ∧
      (KeepsPlace s id pointer → s.items.Pairwise ScheduledItem.Le →
        (s.applyMessageId id pointer).items.Pairwise ScheduledItem.Le) := by
  rw [ScheduledMessages.applyMessageId]
  cases hdata : s.data with
  | none => exact ⟨hs, fun _ hsorted => hsorted⟩
  | some list =>
    have hlist : ValidList list s.next := by
      rw [Valid, hdata] at hs
      exact hs
    dsimp only
    split_ifs with hknown hsending
    · obtain ⟨hvalid, hsub⟩ := hs.sublist_remove pointer
      exact ⟨hvalid, fun _ hsorted => hsorted.sublist hsub⟩
    · rw [not_or, not_not, Bool.not_eq_true, FlatMap.contains, Option.isSome_eq_false_iff,
        Option.isNone_iff_eq_none] at hknown
      obtain ⟨item, hitem, hcheck⟩ := List.any_eq_true.mp hsending
      rw [Bool.and_eq_true, decide_eq_true_iff] at hcheck
      obtain ⟨rfl, hsend⟩ := hcheck
      refine ⟨hlist.realId hitem hsend hknown.1, fun hplace hsorted => ?_⟩
      rw [KeepsPlace, items, index, hdata] at hplace
      rw [items, hdata] at hsorted
      exact hlist.sorted_realId hitem hsorted
        (hplace hknown.2 hknown.1 item hitem rfl hsend)
    · exact ⟨hs, fun _ hsorted => hsorted⟩

def KeepsOrder (s : ScheduledMessages T) : Operation T → Prop
  | .applyMessageId id pointer => KeepsPlace s id pointer
  | _ => True

theorem Valid.step (hs : Valid s) (operation : Operation T) :
    Valid (s.step operation) ∧
      (KeepsOrder s operation → s.items.Pairwise ScheduledItem.Le →
        (s.step operation).items.Pairwise ScheduledItem.Le) := by
  cases operation with
  | appendSending id date topic =>
    obtain ⟨hvalid, hsorted⟩ := hs.appendSending id date topic
    exact ⟨hvalid, fun _ _ => hsorted⟩
  | parse messages =>
    obtain ⟨hvalid, hsorted, -⟩ := hs.parse messages
    exact ⟨hvalid, fun _ => hsorted⟩
  | applyNew message =>
    obtain ⟨hvalid, hsorted⟩ := hs.applyNew message
    exact ⟨hvalid, fun _ _ => hsorted⟩
  | applyDelete ids =>
    obtain ⟨hvalid, hsub⟩ := hs.applyDelete ids
    exact ⟨hvalid, fun _ hsorted => hsorted.sublist hsub⟩
  | applyMessageId id pointer => exact hs.applyMessageId id pointer
  | sendFailed pointer =>
    obtain ⟨hvalid, hsorted⟩ := hs.sendFailed pointer
    exact ⟨hvalid, fun _ => hsorted⟩
  | removeSending pointer =>
    obtain ⟨hvalid, hsub⟩ := hs.removeSending pointer
    exact ⟨hvalid, fun _ hsorted => hsorted.sublist hsub⟩
  | itemRemoved pointer =>
    obtain ⟨hvalid, hsub⟩ := hs.sublist_remove pointer
    exact ⟨hvalid, fun _ hsorted => hsorted.sublist hsub⟩
  | setRequested requested => exact ⟨hs, fun _ => id⟩

def RunKeepsOrder : ScheduledMessages T → List (Operation T) → Prop
  | _, [] => True
  | s, operation :: rest => KeepsOrder s operation ∧ RunKeepsOrder (s.step operation) rest

theorem Valid.run (hs : Valid s) (operations : List (Operation T)) :
    Valid (s.run operations) ∧
      (RunKeepsOrder s operations → s.items.Pairwise ScheduledItem.Le →
        (s.run operations).items.Pairwise ScheduledItem.Le) := by
  induction operations generalizing s with
  | nil => exact ⟨hs, fun _ => id⟩
  | cons operation rest ih =>
    obtain ⟨hvalid, hsorted⟩ := hs.step operation
    obtain ⟨hvalid', hsorted'⟩ := ih hvalid
    exact ⟨hvalid', fun hkeeps hstart => hsorted' hkeeps.2 (hsorted hkeeps.1 hstart)⟩

/-- A slice that says that it has everything has everything. -/
def Whole (slice : ScheduledMessages.MessagesSlice) : Prop :=
  slice.skippedBefore = some 0 → slice.skippedAfter = some 0 →
    slice.fullCount = some slice.ids.length

theorem whole_noData (s : ScheduledMessages T) : Whole s.noData := by
  rw [noData]
  split_ifs
  · exact fun _ _ => rfl
  · exact fun h => nomatch h

theorem whole_list (s : ScheduledMessages T) : Whole s.list := by
  rw [ScheduledMessages.list]
  cases s.data with
  | none => exact whole_noData s
  | some list =>
    intro _ _
    rw [List.length_map]

/-- The slice of a topic counts what lies outside of the topic too. -/
theorem whole_listTopic_iff [DecidableEq T] (s : ScheduledMessages T) (topic : T) :
    Whole (s.listTopic topic) ↔ ∀ item ∈ s.items, item.topic = some topic := by
  rw [listTopic, items]
  cases s.data with
  | none => exact iff_of_true (whole_noData s) fun _ hitem => nomatch hitem
  | some list =>
    rw [Whole]
    have hlength : (list.items.filter fun item => decide (item.topic = some topic)).length =
        list.items.length ↔ ∀ item ∈ list.items, item.topic = some topic := by
      rw [List.length_filter_eq_length_iff]
      simp only [decide_eq_true_iff]
    dsimp only [Option.getD_some]
    rw [List.length_map, ← hlength]
    exact ⟨fun h => (Option.some.inj (h rfl rfl)).symm, fun h _ _ => congrArg some h.symm⟩

/-- In every run the index is exact; the order stays where ids do not move items, an answer keeps
what has failed if there is none or it is empty, and slices are whole but those of topics. -/
theorem run_keeps [DecidableEq T] (operations : List (Operation T)) :
    let s : ScheduledMessages T := ScheduledMessages.run {} operations
    (∀ id pointer, s.index id = some pointer ↔
      ∃ item ∈ s.items, item.pointer = pointer ∧ item.lookupId = id ∧
        item.isSending = false ∧ item.hasFailed = false) ∧
    (s.items.map ScheduledItem.pointer).Nodup ∧
    (RunKeepsOrder {} operations → s.items.Pairwise ScheduledItem.Le) ∧
    (∀ messages, (∀ item ∈ s.items, item.isSending = true ∨ item.hasFailed = true →
        ∃ item' ∈ (s.parse messages).items, item'.pointer = item.pointer) ↔
      (messages = none ∨ messages = some [] ∨ ∀ item ∈ s.items, item.hasFailed = false)) ∧
    Whole s.list ∧
    ∀ topic, Whole (s.listTopic topic) ↔ ∀ item ∈ s.items, item.topic = some topic := by
  intro s
  have hstart : Valid ({} : ScheduledMessages T) := .empty 0
  obtain ⟨hvalid, hsorted⟩ := hstart.run operations
  refine ⟨fun id pointer => ?_, hvalid.nodup, fun hkeeps => hsorted hkeeps .nil,
    fun messages => (hvalid.parse messages).2.2, whole_list s, whole_listTopic_iff s⟩
  refine (hvalid.index id pointer).trans (exists_congr fun item => ?_)
  rw [ScheduledItem.isPlain, Bool.and_eq_true, Bool.not_eq_true', Bool.not_eq_true']
  tauto

def failedOne : ScheduledMessages Unit :=
  ScheduledMessages.run {} [.appendSending (-5) 100 none, .sendFailed 0]

def sentLast : ScheduledMessages Unit :=
  ScheduledMessages.run {} [.applyNew ⟨7, 100, none, false, true⟩, .appendSending (-5) 100 none,
    .applyMessageId 8 1]

theorem run_keeps_lost :
    ((∃ item ∈ failedOne.items, item.hasFailed = true ∧ item.pointer = 0) ∧
      ∀ item ∈ (failedOne.parse (some [⟨7, 200, none, false, true⟩])).items,
        item.pointer ≠ 0) ∧
    ¬ sentLast.items.Pairwise ScheduledItem.Le ∧
    ¬ Whole (sentLast.listTopic ()) := by
  refine ⟨⟨?_, ?_⟩, ?_, ?_⟩
  · decide
  · decide
  · decide
  · rw [whole_listTopic_iff]
    decide

end TelegramDesktop.Data.ScheduledMessages
