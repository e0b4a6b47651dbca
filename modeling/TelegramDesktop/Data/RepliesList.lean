import Mathlib.Order.Lattice
import Mathlib.Algebra.Order.Group.Int
import TelegramDesktop.Base.Int32
import TelegramDesktop.Data.MsgId

namespace TelegramDesktop.Data
open Base

/-- A message of an answer, with whether it became an item of the thread. -/
structure Message where
  id : MsgId
  inThread : Bool

inductive Messages where
  | messagesNotModified
  | messages (vmessages : List Message)
  | messagesSlice (vcount : ℤ) (vmessages : List Message)
  | channelMessages (vcount : ℤ) (vmessages : List Message)

namespace Messages

def list : Messages → List Message
  | messagesNotModified => []
  | messages vmessages => vmessages
  | messagesSlice _ vmessages => vmessages
  | channelMessages _ vmessages => vmessages

def fullCount : Messages → ℤ
  | messagesNotModified => 0
  | messages vmessages => vmessages.length
  | messagesSlice vcount _ => vcount
  | channelMessages vcount _ => vcount

def skipped (result : Messages) : ℕ := result.list.countP fun message => !message.inThread

end Messages

structure RepliesList where
  list : List MsgId := []
  skippedBefore : Option ℤ := none
  skippedAfter : Option ℤ := none
  fullCount : Option ℤ := none
  deriving DecidableEq

namespace RepliesList

/-- The loop over the messages of an answer: those for the front, and the list. -/
def addMessages (toFront : Bool) :
    List Message → List MsgId → List MsgId → List MsgId × List MsgId
  | [], refreshed, list => (refreshed, list)
  | message :: messages, refreshed, list =>
    if message.inThread then
      if toFront && list.head?.any fun front => decide (front < message.id) then
        addMessages toFront messages (refreshed ++ [message.id]) list
      else if list.isEmpty || list.getLast?.any fun back => decide (message.id < back) then
        addMessages toFront messages refreshed (list ++ [message.id])
      else addMessages toFront messages refreshed list
    else addMessages toFront messages refreshed list

/-- The answer starts with a message that is newer than the list. -/
def toFront (s : RepliesList) (result : Messages) : Bool :=
  s.list.head?.any fun front => result.list.head?.any fun message => decide (front < message.id)

/-- The list with the messages of an answer. -/
def addedList (s : RepliesList) (result : Messages) : List MsgId :=
  let added := addMessages (s.toFront result) result.list [] s.list
  if s.toFront result then added.1 ++ added.2 else added.2

def checkedCount (s : RepliesList) (result : Messages) : ℤ :=
  max (result.fullCount - result.skipped) (s.addedList result).length

/-- The counter of the side that the messages were added to, after they were. -/
def decremented (s : RepliesList) (result : Messages) (counter : Option ℤ) : Option ℤ :=
  counter.map fun count => max (count - ((s.addedList result).length - s.list.length)) 0

/-- Both counters by what an answer counts, the one that was added to and the other one. `none`
is the failed `Assert`. -/
def correctBoth (checkedCount nowSize decrementFrom : ℤ) : Option (ℤ × ℤ) :=
  let correct := max (checkedCount - decrementFrom - nowSize) 0
  let decrementFrom := checkedCount - correct - nowSize
  if decrementFrom < 0 then none else some (decrementFrom, correct)

/-- The counters before and after the list. -/
def processCounters (s : RepliesList) (result : Messages) : Option (Option ℤ × Option ℤ) :=
  let nowSize : ℤ := (s.addedList result).length
  let checkedCount := s.checkedCount result
  let toFront := s.toFront result
  let skippedBefore :=
    if toFront then s.skippedBefore else s.decremented result s.skippedBefore
  let skippedAfter := if toFront then s.decremented result s.skippedAfter else s.skippedAfter
  match skippedBefore, skippedAfter with
  | some before, some after =>
    (correctBoth checkedCount nowSize (if toFront then after else before)).map fun counters =>
      if toFront then (some counters.2, some counters.1) else (some counters.1, some counters.2)
  | some before, none =>
    let before := min before (checkedCount - nowSize)
    some (some before, some (checkedCount - before - nowSize))
  | none, some after =>
    let after := min after (checkedCount - nowSize)
    some (some (checkedCount - after - nowSize), some after)
  | none, none => some (none, none)

/-- Whether there is nothing of the thread in an answer, and the list after it. -/
def processMessagesIsEmpty (s : RepliesList) (result : Messages) : Option (RepliesList × Bool) :=
  if result.list.isEmpty then some (s, true)
  else (s.processCounters result).map fun counters =>
    ({ list := s.addedList result
       skippedBefore := counters.1
       skippedAfter := counters.2
       fullCount := some (s.checkedCount result) },
      decide (result.list.length = result.skipped))

/-- The answer to `loadAround`. -/
def aroundDone (s : RepliesList) (id : MsgId) (result : Messages) : Option RepliesList :=
  let cleared : RepliesList := { s with
    list := []
    skippedBefore := none
    skippedAfter := if id = 0 then some 0 else none }
  (cleared.processMessagesIsEmpty result).bind fun (s, isEmpty) =>
    if isEmpty then
      some { s with fullCount := some 0, skippedBefore := some 0, skippedAfter := some 0 }
    else if id = 0 then some s
    else match s.list.head?, s.list.getLast? with
      | some front, some back =>
        if front ≤ id then some { s with skippedAfter := some 0 }
        else if id ≤ back then some { s with skippedBefore := some 0 }
        else some s
      | _, _ => none

/-- The answer to `loadBefore`, that was asked for with the last message then. -/
def beforeDone (s : RepliesList) (last : MsgId) (result : Messages) : Option RepliesList :=
  if s.list.isEmpty ∨ s.list.getLast? ≠ some last then some s
  else (s.processMessagesIsEmpty result).map fun (s, isEmpty) =>
    if isEmpty then
      if s.skippedAfter = some 0 then
        { s with skippedBefore := some 0, fullCount := some s.list.length }
      else { s with skippedBefore := some 0 }
    else s

/-- The answer to `loadAfter`, that was asked for with the first message then. -/
def afterDone (s : RepliesList) (first : MsgId) (result : Messages) : Option RepliesList :=
  if s.list.isEmpty ∨ s.list.head? ≠ some first then some s
  else (s.processMessagesIsEmpty result).map fun (s, isEmpty) =>
    if isEmpty then
      if s.skippedBefore = some 0 then
        { s with skippedAfter := some 0, fullCount := some s.list.length }
      else { s with skippedAfter := some 0 }
    else s

/-- The count, an `int`, when the list has changed by one. -/
def countUpdated (s : RepliesList) (list : List MsgId) (known : ℤ → ℤ) : RepliesList :=
  { s with
    list := list
    fullCount := match s.skippedBefore, s.skippedAfter with
      | some before, some after => some (int32Add (before + list.length) after)
      | _, _ => s.fullCount.map known }

/-- `applyUpdate` for a message that was destroyed. -/
def applyDestroyed (s : RepliesList) (id : MsgId) : RepliesList :=
  if id ∈ s.list then
    s.countUpdated (s.list.erase id) fun known => if 0 < known then known - 1 else known
  else s

/-- `applyUpdate` for a message that was added. -/
def applyAdded (s : RepliesList) (id : MsgId) : RepliesList :=
  if s.skippedAfter ≠ some 0 ∨ id ∈ s.list then s
  else s.countUpdated ((s.list.takeWhile fun other => decide (id < other)) ++
    id :: s.list.dropWhile fun other => decide (id < other)) fun known => int32Add known 1

def applyDifferenceTooLong (s : RepliesList) : RepliesList :=
  if s.skippedAfter.isSome then { s with skippedAfter := none } else s

end RepliesList

end TelegramDesktop.Data
