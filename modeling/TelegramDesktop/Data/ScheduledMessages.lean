import Mathlib
import TelegramDesktop.Base.FlatMap
import TelegramDesktop.Data.MsgId

/-! The scheduled messages of one history. Contents of the messages and the hash of the list are
left out. -/

namespace TelegramDesktop.Data

open Base

def remoteToLocalMsgId (id : ℤ) : ℤ := ServerMaxMsgId + id + 1

def localToRemoteMsgId (id : ℤ) : ℤ := id - ServerMaxMsgId - 1

/-- `HistoryItem`, with the place where it lies: its `id` changes when it is sent. -/
structure ScheduledItem (T : Type*) where
  pointer : ℕ
  id : ℤ
  date : ℤ
  topic : Option T
  isSending : Bool := false
  hasFailed : Bool := false

/-- `MTPMessage`; `added` is whether `addNewMessage` gives an item of this history for it. -/
structure ScheduledMessage (T : Type*) where
  id : ℤ
  date : ℤ
  topic : Option T := none
  isService : Bool := false
  added : Bool := true

structure ScheduledMessages.MessagesSlice where
  ids : List ℤ := []
  skippedBefore : Option ℕ := none
  skippedAfter : Option ℕ := none
  fullCount : Option ℕ := none

variable {T : Type*}

namespace ScheduledItem

def lookupId (item : ScheduledItem T) : ℤ := localToRemoteMsgId item.id

def isPlain (item : ScheduledItem T) : Bool := !item.isSending && !item.hasFailed

/-- The order of `position`. -/
def Le (a b : ScheduledItem T) : Prop := a.date < b.date ∨ (a.date = b.date ∧ a.id ≤ b.id)

instance (a b : ScheduledItem T) : Decidable (Le a b) :=
  inferInstanceAs (Decidable (a.date < b.date ∨ (a.date = b.date ∧ a.id ≤ b.id)))

instance : Std.Total (Le (T := T)) where
  total a b := by
    unfold Le
    omega

instance : IsTrans (ScheduledItem T) Le where
  trans a b c := by
    unfold Le
    omega

end ScheduledItem

structure ScheduledList (T : Type*) where
  items : List (ScheduledItem T) := []
  itemById : FlatMap ℤ ℕ := ∅

/-- `next` is where the next item is made, and `requested` whether `_requests` has the history. -/
structure ScheduledMessages (T : Type*) where
  data : Option (ScheduledList T) := none
  requested : Bool := false
  next : ℕ := 0

namespace ScheduledMessages

def sort (list : ScheduledList T) : ScheduledList T :=
  { list with items := list.items.insertionSort ScheduledItem.Le }

/-- `ScheduledMessages::remove`, which `destroy` of an item comes to. -/
def remove (s : ScheduledMessages T) (pointer : ℕ) : ScheduledMessages T :=
  match s.data with
  | none => s
  | some list =>
    match list.items.find? fun item => item.pointer = pointer with
    | none => s
    | some item =>
      let itemById :=
        if item.isPlain then list.itemById.erase item.lookupId else list.itemById
      let items := list.items.eraseP fun item => item.pointer = pointer
      { s with data := if items.isEmpty then none else some ⟨items, itemById⟩ }

def updateDate (list : ScheduledList T) (pointer : ℕ) (date : ℤ) : ScheduledList T :=
  { list with
    items := list.items.map fun item =>
      if item.pointer = pointer then { item with date := date } else item }

/-- The list and the place for the next item after `append`, and what it returns. -/
def append (list : ScheduledList T) (next : ℕ) (message : ScheduledMessage T) :
    ScheduledList T × ℕ × Option ℕ :=
  match list.itemById.get? message.id with
  | some existing =>
    let list := if message.isService then list else updateDate list existing message.date
    (list, next, some existing)
  | none =>
    if ¬ IsServerMsgId message.id then (list, next, none)
    else if message.added then
      let item : ScheduledItem T :=
        { pointer := next
          id := remoteToLocalMsgId message.id
          date := message.date
          topic := message.topic }
      (⟨list.items ++ [item], list.itemById.emplace message.id next⟩, next + 1, some next)
    else (list, next, none)

/-- `updated`, after which the list is sorted if it is still there. -/
def updated (s : ScheduledMessages T) (clear : List ℕ) : ScheduledMessages T :=
  let s := clear.foldl remove s
  { s with data := s.data.map sort }

def clearNotSending (s : ScheduledMessages T) : ScheduledMessages T :=
  match s.data with
  | none => s
  | some list =>
    let clear := list.items.filter fun item => !item.isSending && !item.hasFailed
    s.updated (clear.map ScheduledItem.pointer)

/-- The loop over the messages in `parse`, with the items received so far. -/
def appendAll (list : ScheduledList T) (next : ℕ) (received : List ℕ) :
    List (ScheduledMessage T) → ScheduledList T × ℕ × List ℕ
  | [] => (list, next, received)
  | message :: rest =>
    let (list, next, item) := append list next message
    appendAll list next (received ++ item.toList) rest

/-- No messages at all stand for `messages.messagesNotModified`. -/
def parse (s : ScheduledMessages T) (messages : Option (List (ScheduledMessage T))) :
    ScheduledMessages T :=
  let s := { s with requested := true }
  match messages with
  | none => s
  | some [] => s.clearNotSending
  | some messages =>
    let (list, next, received) := appendAll (s.data.getD {}) s.next [] messages
    let clear := list.items.filter fun item =>
      !item.isSending && !received.contains item.pointer
    { s with data := some list, next := next }.updated (clear.map ScheduledItem.pointer)

def applyNew (s : ScheduledMessages T) (message : ScheduledMessage T) : ScheduledMessages T :=
  let (list, next, _) := append (s.data.getD {}) s.next message
  { s with data := some (sort list), next := next }

def applyDelete (s : ScheduledMessages T) (ids : List ℤ) : ScheduledMessages T :=
  ids.foldl (fun s id =>
    match s.data.bind fun list => list.itemById.get? id with
    | none => s
    | some pointer => s.remove pointer) s

/-- `setRealId` of the item, which it `Expects` to be sending. -/
def setRealId (id : ℤ) (pointer : ℕ) (item : ScheduledItem T) : ScheduledItem T :=
  if item.pointer = pointer then { item with id := id, isSending := false } else item

/-- `apply` of `updateMessageID`, for a local item of the list. -/
def applyMessageId (s : ScheduledMessages T) (id : ℤ) (pointer : ℕ) : ScheduledMessages T :=
  match s.data with
  | none => s
  | some list =>
    if list.itemById.contains id ∨ ¬ IsServerMsgId id then s.remove pointer
    else if list.items.any fun item => item.pointer = pointer && item.isSending then
      { s with
        data := some
          ⟨list.items.map (setRealId (remoteToLocalMsgId id) pointer),
            list.itemById.emplace id pointer⟩ }
    else s

/-- A new item, which is sending and has the id of a client. -/
def appendSending (s : ScheduledMessages T) (id date : ℤ) (topic : Option T) :
    ScheduledMessages T :=
  let list := s.data.getD {}
  let item : ScheduledItem T := ⟨s.next, id, date, topic, true, false⟩
  { s with data := some (sort { list with items := list.items ++ [item] }), next := s.next + 1 }

/-- `sendFailed` of an item that is sending. -/
def sendFailed (s : ScheduledMessages T) (pointer : ℕ) : ScheduledMessages T :=
  { s with
    data := s.data.map fun list =>
      { list with
        items := list.items.map fun item =>
          if item.pointer = pointer ∧ item.isSending then
            { item with isSending := false, hasFailed := true }
          else item } }

/-- `removeSending` of an item that is sending or has failed. -/
def removeSending (s : ScheduledMessages T) (pointer : ℕ) : ScheduledMessages T :=
  if (s.data.getD {}).items.any fun item => item.pointer = pointer && !item.isPlain then
    s.remove pointer
  else s

def noData (s : ScheduledMessages T) : ScheduledMessages.MessagesSlice :=
  if s.requested then ⟨[], some 0, some 0, some 0⟩ else {}

def list (s : ScheduledMessages T) : ScheduledMessages.MessagesSlice :=
  match s.data with
  | none => s.noData
  | some list => ⟨list.items.map ScheduledItem.id, some 0, some 0, some list.items.length⟩

/-- `list` of a topic. -/
def listTopic [DecidableEq T] (s : ScheduledMessages T) (topic : T) :
    ScheduledMessages.MessagesSlice :=
  match s.data with
  | none => s.noData
  | some list =>
    let items := list.items.filter fun item => item.topic = some topic
    ⟨items.map ScheduledItem.id, some 0, some 0, some list.items.length⟩

inductive Operation (T : Type*)
  | appendSending (id date : ℤ) (topic : Option T)
  | parse (messages : Option (List (ScheduledMessage T)))
  | applyNew (message : ScheduledMessage T)
  | applyDelete (ids : List ℤ)
  | applyMessageId (id : ℤ) (pointer : ℕ)
  | sendFailed (pointer : ℕ)
  | removeSending (pointer : ℕ)
  | itemRemoved (pointer : ℕ)
  | setRequested (requested : Bool)

/-- `setRequested` is for `request` and `clearOldRequests`. -/
def step (s : ScheduledMessages T) : Operation T → ScheduledMessages T
  | .appendSending id date topic => s.appendSending id date topic
  | .parse messages => s.parse messages
  | .applyNew message => s.applyNew message
  | .applyDelete ids => s.applyDelete ids
  | .applyMessageId id pointer => s.applyMessageId id pointer
  | .sendFailed pointer => s.sendFailed pointer
  | .removeSending pointer => s.removeSending pointer
  | .itemRemoved pointer => s.remove pointer
  | .setRequested requested => { s with requested := requested }

def run (s : ScheduledMessages T) (operations : List (Operation T)) : ScheduledMessages T :=
  operations.foldl step s

end ScheduledMessages

end TelegramDesktop.Data
