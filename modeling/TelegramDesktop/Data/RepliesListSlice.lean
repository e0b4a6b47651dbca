import Mathlib.Data.List.Infix
import Mathlib.Data.List.Nodup
import TelegramDesktop.Data.RepliesListCounters

namespace TelegramDesktop.Data

def ShowAtUnreadMsgId : MsgId := 0

def kGeneralId : MsgId := 1

inductive SliceId where
  | message (id : MsgId)
  | divider
  deriving DecidableEq

structure MessagesSlice where
  ids : List SliceId := []
  nearestToAround : MsgId := 0
  skippedBefore : Option ℤ := none
  skippedAfter : Option ℤ := none
  fullCount : Option ℤ := none

structure Viewer where
  slice : MessagesSlice := {}
  around : MsgId := 0
  limitBefore : ℕ := 0
  limitAfter : ℕ := 0
  injectedForRoot : ℕ := 0

/-- The root message, with the items of its album. -/
structure Root where
  topicRootId : MsgId
  group : Option (List MsgId)
  nodup : ∀ items ∈ group, items.Nodup

structure Thread where
  rootId : MsgId
  root : Option Root
  owningTopic : Bool
  inboxReadTillFull : MsgId

namespace RepliesList

def resolveAround (t : Thread) (viewer : Viewer) : MsgId :=
  if viewer.around ≠ ShowAtUnreadMsgId then viewer.around
  else if t.root.isSome then t.inboxReadTillFull
  else if t.owningTopic then t.inboxReadTillFull
  else viewer.around

/-- The messages that are newer than the place that is shown. -/
def availableAfter (s : RepliesList) (around : MsgId) : ℕ :=
  if around = 0 then s.list.length else (s.list.takeWhile fun id => decide (around < id)).length

def availableBefore (s : RepliesList) (around : MsgId) : ℕ :=
  s.list.length - s.availableAfter around

def useBefore (s : RepliesList) (around : MsgId) (viewer : Viewer) : ℕ :=
  min (s.availableBefore around) (viewer.limitBefore + 1)

def useAfter (s : RepliesList) (around : MsgId) (viewer : Viewer) : ℕ :=
  min (s.availableAfter around) viewer.limitAfter

/-- The messages of the list that are shown. -/
def window (s : RepliesList) (around : MsgId) (viewer : Viewer) : List MsgId :=
  (s.list.drop (s.availableAfter around - s.useAfter around viewer)).take
    (s.useAfter around viewer + s.useBefore around viewer)

/-- The message beside the first one that is older than the place, from the message before. -/
def nearest (rootId around : MsgId) : Option MsgId → List MsgId → Option MsgId
  | _, [] => none
  | previous, id :: ids =>
    if id ≠ rootId ∧ id < around then some (previous.getD id)
    else nearest rootId around (some id) ids

/-- The messages that the root would be shown as. -/
def rootItems (t : Thread) : List MsgId :=
  match t.root with
  | none => []
  | some root =>
    if t.rootId = kGeneralId ∨ root.topicRootId ≠ kGeneralId then []
    else match root.group with
      | some items => items
      | none => [t.rootId]

def SliceId.message? : SliceId → Option MsgId
  | .message id => some id
  | .divider => none

/-- The ids of a slice without the divider. -/
def messages (slice : MessagesSlice) : List MsgId := slice.ids.filterMap SliceId.message?

end RepliesList

end TelegramDesktop.Data
