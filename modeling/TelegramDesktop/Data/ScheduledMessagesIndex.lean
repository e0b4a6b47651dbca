import Mathlib
import TelegramDesktop.Base.Keyed
import TelegramDesktop.Data.ScheduledMessages

namespace TelegramDesktop.Data.ScheduledMessages

open Base

variable {T : Type*} {list list' : ScheduledList T} {next : ℕ} {s : ScheduledMessages T}
variable {item other : ScheduledItem T} {pointer : ℕ}

/-- The key is in the index exactly for the item with it, once the item is sent. -/
def Indexed (list : ScheduledList T) : Prop :=
  ∀ id pointer, list.itemById.get? id = some pointer ↔
    ∃ item ∈ list.items, item.pointer = pointer ∧ item.isPlain = true ∧ item.lookupId = id

structure ValidList (list : ScheduledList T) (next : ℕ) : Prop where
  nodup : (list.items.map ScheduledItem.pointer).Nodup
  fresh : ∀ item ∈ list.items, item.pointer < next
  exclusive : ∀ item ∈ list.items, item.isSending = true → item.hasFailed = false
  index : Indexed list

theorem ValidList.empty (next : ℕ) : ValidList ({} : ScheduledList T) next where
  nodup := .nil
  fresh _ hitem := nomatch hitem
  exclusive _ hitem := nomatch hitem
  index id pointer := by
    constructor
    · intro hget
      exact nomatch hget
    · rintro ⟨item, hitem, -⟩
      exact nomatch hitem

theorem ValidList.eq_of_pointer (hlist : ValidList list next) (hitem : item ∈ list.items)
    (hother : other ∈ list.items) (h : item.pointer = other.pointer) : item = other :=
  List.inj_on_of_nodup_map hlist.nodup hitem hother h

/-- Two items on the server have different ids. -/
theorem ValidList.eq_of_lookupId (hlist : ValidList list next) (hitem : item ∈ list.items)
    (hother : other ∈ list.items) (hplain : item.isPlain = true) (hplain' : other.isPlain = true)
    (h : item.lookupId = other.lookupId) : item = other := by
  have hget := (hlist.index item.lookupId item.pointer).mpr ⟨item, hitem, rfl, hplain, rfl⟩
  have hget' := (hlist.index item.lookupId other.pointer).mpr ⟨other, hother, rfl, hplain', h.symm⟩
  rw [hget] at hget'
  exact hlist.eq_of_pointer hitem hother (Option.some.inj hget')

theorem ValidList.perm (hlist : ValidList list next) (hperm : list'.items.Perm list.items)
    (hindex : list'.itemById = list.itemById) : ValidList list' next where
  nodup := (hperm.map _).nodup_iff.mpr hlist.nodup
  fresh item hitem := hlist.fresh item (hperm.mem_iff.mp hitem)
  exclusive item hitem := hlist.exclusive item (hperm.mem_iff.mp hitem)
  index id pointer := by
    rw [hindex, hlist.index id pointer]
    simp only [hperm.mem_iff]

theorem ValidList.sort (hlist : ValidList list next) : ValidList (sort list) next :=
  hlist.perm (List.perm_insertionSort _ _) rfl

/-- Changes of an item that the index does not see. -/
theorem ValidList.map (hlist : ValidList list next) {f : ScheduledItem T → ScheduledItem T}
    (hpointer : ∀ item, (f item).pointer = item.pointer)
    (hplain : ∀ item ∈ list.items, (f item).isPlain = item.isPlain)
    (hid : ∀ item, (f item).id = item.id)
    (hexclusive : ∀ item ∈ list.items, (f item).isSending = true → (f item).hasFailed = false) :
    ValidList { list with items := list.items.map f } next where
  nodup := by
    rw [List.map_map, show ScheduledItem.pointer ∘ f = ScheduledItem.pointer from funext hpointer]
    exact hlist.nodup
  fresh item hitem := by
    obtain ⟨was, hwas, rfl⟩ := List.mem_map.mp hitem
    rw [hpointer]
    exact hlist.fresh was hwas
  exclusive item hitem := by
    obtain ⟨was, hwas, rfl⟩ := List.mem_map.mp hitem
    exact hexclusive was hwas
  index id pointer := by
    rw [hlist.index id pointer]
    constructor
    · rintro ⟨item, hitem, hp, hsent, hkey⟩
      refine ⟨f item, List.mem_map_of_mem hitem, (hpointer item).trans hp, ?_, ?_⟩
      · rw [hplain item hitem, hsent]
      · rw [ScheduledItem.lookupId, hid]
        exact hkey
    · rintro ⟨item, hitem, hp, hsent, hkey⟩
      obtain ⟨was, hwas, rfl⟩ := List.mem_map.mp hitem
      rw [hpointer] at hp
      rw [hplain was hwas] at hsent
      rw [ScheduledItem.lookupId, hid] at hkey
      exact ⟨was, hwas, hp, hsent, hkey⟩

/-- What `remove` leaves of a list. -/
theorem ValidList.erase (hlist : ValidList list next) (hitem : item ∈ list.items) :
    ValidList
      ⟨list.items.eraseP fun other => other.pointer = item.pointer,
        if item.isPlain then list.itemById.erase item.lookupId else list.itemById⟩ next where
  nodup := hlist.nodup.sublist (List.eraseP_sublist.map _)
  fresh other hother := hlist.fresh other (List.mem_of_mem_eraseP hother)
  exclusive other hother := hlist.exclusive other (List.mem_of_mem_eraseP hother)
  index id pointer := by
    have hget : (if item.isPlain = true then list.itemById.erase item.lookupId
        else list.itemById).get? id = some pointer ↔
        list.itemById.get? id = some pointer ∧ ¬ (item.isPlain = true ∧ id = item.lookupId) := by
      split_ifs with hplain
      · rw [FlatMap.get?_erase]
        split_ifs with hid
        · simp [hid, hplain]
        · simp [hid]
      · simp [hplain]
    rw [hget, hlist.index id pointer]
    constructor
    · rintro ⟨⟨other, hother, hp, hsent, hkey⟩, hne⟩
      refine ⟨other, (mem_eraseP_key hlist.nodup item.pointer).mpr ⟨hother, fun heq => hne ?_⟩,
        hp, hsent, hkey⟩
      rw [← hlist.eq_of_pointer hother hitem heq]
      exact ⟨hsent, hkey.symm⟩
    · rintro ⟨other, hother, hp, hsent, hkey⟩
      obtain ⟨hother, hne⟩ := (mem_eraseP_key hlist.nodup item.pointer).mp hother
      refine ⟨⟨other, hother, hp, hsent, hkey⟩, fun ⟨hplain, hid⟩ => hne ?_⟩
      rw [hlist.eq_of_lookupId hother hitem hsent hplain (hkey.trans hid)]

/-- A new item at the end of the list, in the index if it is on the server. -/
theorem ValidList.push (hlist : ValidList list next) (hpointer : item.pointer = next)
    (hexclusive : item.isSending = true → item.hasFailed = false)
    (hnew : item.isPlain = true → list.itemById.get? item.lookupId = none) :
    ValidList
      ⟨list.items ++ [item],
        if item.isPlain then list.itemById.emplace item.lookupId item.pointer
        else list.itemById⟩ (next + 1) where
  nodup := nodup_push hlist.nodup fun other hother => hpointer ▸ (hlist.fresh other hother).ne
  fresh other hother := by
    rcases List.mem_append.mp hother with hold | hlast
    · exact (hlist.fresh other hold).trans (Nat.lt_succ_self next)
    · rw [List.mem_singleton.mp hlast, hpointer]
      exact Nat.lt_succ_self next
  exclusive other hother := by
    rcases List.mem_append.mp hother with hold | hlast
    · exact hlist.exclusive other hold
    · rw [List.mem_singleton.mp hlast]
      exact hexclusive
  index id pointer := by
    have hget : (if item.isPlain = true then list.itemById.emplace item.lookupId item.pointer
        else list.itemById).get? id = some pointer ↔
        list.itemById.get? id = some pointer ∨
          (item.isPlain = true ∧ id = item.lookupId ∧ pointer = item.pointer) := by
      split_ifs with hplain
      · rw [FlatMap.get?_emplace]
        split_ifs with hid
        · rw [hid, hnew hplain]
          simp [hplain, eq_comm]
        · simp [hid]
      · simp [hplain]
    rw [hget, hlist.index id pointer]
    constructor
    · rintro (⟨other, hother, hrest⟩ | ⟨hplain, hid, hp⟩)
      · exact ⟨other, List.mem_append_left _ hother, hrest⟩
      · have hlast : item ∈ list.items ++ [item] :=
          List.mem_append_right _ (List.mem_singleton.mpr rfl)
        exact ⟨item, hlast, hp.symm, hplain, hid.symm⟩
    · rintro ⟨other, hother, hp, hplain, hid⟩
      rcases List.mem_append.mp hother with hold | hlast
      · exact .inl ⟨other, hold, hp, hplain, hid⟩
      · rw [List.mem_singleton.mp hlast] at hp hplain hid
        exact .inr ⟨hplain, hid.symm, hp.symm⟩

/-- A sending item that gets an id of the server. -/
theorem ValidList.realId (hlist : ValidList list next) {id : ℤ} (hitem : item ∈ list.items)
    (hsending : item.isSending = true) (hnew : list.itemById.get? id = none) :
    ValidList
      ⟨list.items.map (setRealId (remoteToLocalMsgId id) item.pointer),
        list.itemById.emplace id item.pointer⟩ next where
  nodup := by
    have hpointer : ∀ other : ScheduledItem T,
        (setRealId (remoteToLocalMsgId id) item.pointer other).pointer = other.pointer := by
      intro other
      rw [setRealId]
      split_ifs
      · rfl
      · rfl
    rw [List.map_map, show ScheduledItem.pointer ∘ setRealId (remoteToLocalMsgId id) item.pointer =
      ScheduledItem.pointer from funext hpointer]
    exact hlist.nodup
  fresh other hother := by
    obtain ⟨was, hwas, rfl⟩ := List.mem_map.mp hother
    rw [setRealId]
    split_ifs
    · exact hlist.fresh was hwas
    · exact hlist.fresh was hwas
  exclusive other hother := by
    obtain ⟨was, hwas, rfl⟩ := List.mem_map.mp hother
    rw [setRealId]
    split_ifs
    · exact fun h => nomatch h
    · exact hlist.exclusive was hwas
  index key pointer := by
    have hself : setRealId (remoteToLocalMsgId id) item.pointer item =
        { item with id := remoteToLocalMsgId id, isSending := false } := if_pos rfl
    have hplain : (setRealId (remoteToLocalMsgId id) item.pointer item).isPlain = true := by
      rw [hself, ScheduledItem.isPlain, hlist.exclusive item hitem hsending]
      rfl
    have hkey : (setRealId (remoteToLocalMsgId id) item.pointer item).lookupId = id := by
      rw [hself, ScheduledItem.lookupId, localToRemoteMsgId]
      dsimp only
      rw [remoteToLocalMsgId]
      omega
    have hother : ∀ other ∈ list.items, other.isPlain = true →
        setRealId (remoteToLocalMsgId id) item.pointer other = other := by
      intro other hother hsent
      apply if_neg
      intro heq
      rw [hlist.eq_of_pointer hother hitem heq, ScheduledItem.isPlain, hsending] at hsent
      exact Bool.false_ne_true hsent
    have hmem : setRealId (remoteToLocalMsgId id) item.pointer item ∈
        list.items.map (setRealId (remoteToLocalMsgId id) item.pointer) := List.mem_map_of_mem hitem
    rw [FlatMap.get?_emplace, hnew]
    split_ifs with hid
    · subst hid
      rw [Option.getD_none, Option.some.injEq]
      constructor
      · rintro rfl
        exact ⟨_, hmem, by rw [hself], hplain, hkey⟩
      · rintro ⟨other, hother', hp, hsent, hkey'⟩
        obtain ⟨was, hwas, rfl⟩ := List.mem_map.mp hother'
        by_cases heq : was.pointer = item.pointer
        · rw [← hp, hlist.eq_of_pointer hwas hitem heq, hself]
        · have hsame : setRealId (remoteToLocalMsgId key) item.pointer was = was := if_neg heq
          rw [hsame] at hsent hkey'
          have hold := (hlist.index key was.pointer).mpr ⟨was, hwas, rfl, hsent, hkey'⟩
          rw [hnew] at hold
          exact nomatch hold
    · rw [hlist.index key pointer]
      constructor
      · rintro ⟨was, hwas, hp, hsent, hkey'⟩
        refine ⟨was, ?_, hp, hsent, hkey'⟩
        rw [← hother was hwas hsent]
        exact List.mem_map_of_mem hwas
      · rintro ⟨other, hother', hp, hsent, hkey'⟩
        obtain ⟨was, hwas, rfl⟩ := List.mem_map.mp hother'
        by_cases heq : was.pointer = item.pointer
        · rw [hlist.eq_of_pointer hwas hitem heq, hkey] at hkey'
          exact absurd hkey'.symm hid
        · have hsame : setRealId (remoteToLocalMsgId id) item.pointer was = was := if_neg heq
          rw [hsame] at hp hsent hkey'
          exact ⟨was, hwas, hp, hsent, hkey'⟩

end TelegramDesktop.Data.ScheduledMessages
