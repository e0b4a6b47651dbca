import TelegramDesktop.Base.FlatSet
import TelegramDesktop.Base.Int32
import TelegramDesktop.Data.MsgId

namespace TelegramDesktop.Storage
open Base
open Data (ServerMaxMsgId)

section Slices

variable {α : Type*} [LinearOrder α]

structure Range (α : Type*) where
  fromId : α
  till : α
  deriving DecidableEq

instance [Inhabited α] : Inhabited (Range α) := ⟨⟨default, default⟩⟩

structure Slice (α : Type*) [LinearOrder α] where
  messages : FlatSet α
  range : Range α
  deriving DecidableEq

/-- `none` is a violated `Expects`, here and below. -/
def Slice.merge (slice : Slice α) (moreMessages : List α) (moreNoSkipRange : Range α) :
    Option (Slice α) :=
  if moreNoSkipRange.fromId ≤ slice.range.till ∧ slice.range.fromId ≤ moreNoSkipRange.till then
    some {
      messages := slice.messages.merge moreMessages
      range := {
        fromId := min slice.range.fromId moreNoSkipRange.fromId
        till := max slice.range.till moreNoSkipRange.till } }
  else none

/-- `ranges::lower_bound` by the ends of the slices. -/
def lowerBoundTill (slices : List (Slice α)) (id : α) : ℕ :=
  (slices.takeWhile fun slice => decide (slice.range.till < id)).length

/-- `ranges::upper_bound` by the beginnings of the slices. -/
def upperBoundFrom (slices : List (Slice α)) (id : α) : ℕ :=
  (slices.takeWhile fun slice => decide (slice.range.fromId ≤ id)).length

/-- The slices after an addition, the slice it went to and how many ids are new there. -/
structure AddResult (α : Type*) [LinearOrder α] where
  slices : List (Slice α)
  updated : Option (Slice α) := none
  added : ℕ := 0

def Slice.mergeAll (slice : Slice α) (others : List (Slice α)) : Option (Slice α) :=
  others.foldlM (fun slice other => slice.merge other.messages.elems other.range) slice

def uniteAndAdd (slices : List (Slice α)) (uniteFrom uniteTill : ℕ) (messages : List α)
    (noSkipRange : Range α) : Option (AddResult α) :=
  match (slices.take uniteTill).drop uniteFrom with
  | [] => none
  | first :: others => do
    let slice ← first.merge messages noSkipRange
    let slice ← slice.mergeAll others
    return {
      slices := slices.take uniteFrom ++ slice :: slices.drop uniteTill
      updated := slice
      added := slice.messages.size - first.messages.size }

/-- `flat_set::emplace` by the beginnings of the slices, where an equal one stays. -/
def emplaceSlice (slice : Slice α) : List (Slice α) → List (Slice α) × Slice α
  | [] => ([slice], slice)
  | other :: slices =>
    if slice.range.fromId < other.range.fromId then (slice :: other :: slices, slice)
    else if other.range.fromId < slice.range.fromId then
      let (slices, found) := emplaceSlice slice slices
      (other :: slices, found)
    else (other :: slices, other)

def addToSlices (slices : List (Slice α)) (messages : List α) (noSkipRange : Range α) :
    Option (AddResult α) :=
  let uniteFrom := lowerBoundTill slices noSkipRange.fromId
  let uniteTill := upperBoundFrom slices noSkipRange.till
  if uniteFrom < uniteTill then uniteAndAdd slices uniteFrom uniteTill messages noSkipRange
  else
    let (slices, slice) := emplaceSlice ⟨FlatSet.ofList messages, noSkipRange⟩ slices
    some { slices, updated := slice, added := slice.messages.size }

/-- What `slices[lower_bound]` is when it reaches back to the id. -/
def sliceAround (slices : List (Slice α)) (id : α) : Option (ℕ × Slice α) :=
  let index := lowerBoundTill slices id
  match slices[index]? with
  | some slice => if slice.range.fromId ≤ id then some (index, slice) else none
  | none => none

def removeFromSlices (slices : List (Slice α)) (id : α) : List (Slice α) :=
  match sliceAround slices id with
  | some (index, slice) => slices.set index { slice with messages := slice.messages.remove id }
  | none => slices

def invalidateBottomOfSlices (slices : List (Slice α)) (maxId : α) : List (Slice α) :=
  match slices.getLast? with
  | none => slices
  | some last =>
    if last.range.till = maxId then
      let till := last.messages.elems.getLastD last.range.fromId
      slices.dropLast ++ [{ last with range := { last.range with till } }]
    else slices

structure SliceUpdate (α : Type*) [LinearOrder α] [Inhabited α] where
  messages : Option (FlatSet α) := none
  range : Range α := default
  count : Option ℤ := none
  deriving DecidableEq

/-- The limits are the ones a list is asked with, which are never negative. -/
structure Query (α : Type*) where
  aroundId : α
  limitBefore : ℕ
  limitAfter : ℕ

structure Result (α : Type*) [LinearOrder α] where
  count : Option ℤ := none
  skippedBefore : Option ℤ := none
  skippedAfter : Option ℤ := none
  messageIds : FlatSet α := ∅
  deriving DecidableEq

/-- With a count, one skipped number gives the other. -/
def fillSkipped (count skippedBefore skippedAfter : Option ℤ) (size : ℕ) :
    Option ℤ × Option ℤ :=
  match count, skippedBefore, skippedAfter with
  | some count, none, some skippedAfter => (some (count - skippedAfter - size), some skippedAfter)
  | some count, some skippedBefore, none =>
    (some skippedBefore, some (count - skippedBefore - size))
  | _, skippedBefore, skippedAfter => (skippedBefore, skippedAfter)

/-- `queryFromSlice` of a list whose ids lie between `minId` and `maxId`. -/
def queryFromSlice (minId maxId : α) (count : Option ℤ) (query : Query α) (slice : Slice α) :
    Result α :=
  let haveBefore := slice.messages.lowerBound query.aroundId
  let haveEqualOrAfter := slice.messages.size - haveBefore
  let before := min haveBefore query.limitBefore
  let equalOrAfter := min haveEqualOrAfter (query.limitAfter + 1)
  let messageIds := slice.messages.sub (haveBefore - before) (before + equalOrAfter)
  let skippedBefore : Option ℤ :=
    if slice.range.fromId = minId then some (haveBefore - before : ℤ) else none
  let skippedAfter : Option ℤ :=
    if slice.range.till = maxId then some (haveEqualOrAfter - equalOrAfter : ℤ) else none
  let skipped := fillSkipped count skippedBefore skippedAfter messageIds.size
  ⟨count, skipped.1, skipped.2, messageIds⟩

end Slices

def fullRange : Range ℤ := ⟨0, ServerMaxMsgId⟩

structure SparseIdsList where
  count : Option ℤ := none
  slices : List (Slice ℤ) := []
  deriving DecidableEq

namespace SparseIdsList

def addRangeItemsAndCountNew (slices : List (Slice ℤ)) (messages : List ℤ)
    (noSkipRange : Range ℤ) : Option (AddResult ℤ) :=
  if noSkipRange.fromId ≤ noSkipRange.till then
    if noSkipRange.fromId = noSkipRange.till ∧ messages = [] then some { slices }
    else addToSlices slices messages noSkipRange
  else none

/-- A lone slice with as many ids as the count is the whole list. A negative count compares as
a huge `size_t`. -/
def widenLone (count : Option ℤ) : List (Slice ℤ) → SparseIdsList
  | [front] =>
    let whole := count.any fun count : ℤ => decide (0 ≤ count ∧ count ≤ front.messages.size)
    let front := if whole then { front with range := fullRange } else front
    { count := if front.range = fullRange then some (front.messages.size : ℤ) else count
      slices := [front] }
  | slices => { count, slices }

/-- The count, an `int`, grows by the ids that were added. -/
def addedCount (was count : Option ℤ) (incrementCount : Bool) (added : ℕ) : Option ℤ :=
  match count with
  | some count => some count
  | none => if incrementCount ∧ 0 < added then was.map (int32Add · added) else was

def addRange (list : SparseIdsList) (messages : List ℤ) (noSkipRange : Range ℤ)
    (count : Option ℤ) (incrementCount : Bool) : Option (SparseIdsList × SliceUpdate ℤ) :=
  if count.isSome ∧ incrementCount then none
  else do
    let result ← addRangeItemsAndCountNew list.slices messages noSkipRange
    let list := widenLone (addedCount list.count count incrementCount result.added) result.slices
    match result.updated with
    | none => return (list, { count := list.count })
    | some slice =>
      let count := list.count.map fun count : ℤ => max count slice.messages.size
      return ({ list with count }, ⟨slice.messages, slice.range, count⟩)

def addNew (list : SparseIdsList) (messageId : ℤ) : Option (SparseIdsList × SliceUpdate ℤ) :=
  list.addRange [messageId] ⟨messageId, ServerMaxMsgId⟩ none true

def addExisting (list : SparseIdsList) (messageId : ℤ) (noSkipRange : Range ℤ) :
    Option (SparseIdsList × SliceUpdate ℤ) :=
  list.addRange [messageId] noSkipRange none false

def addSlice (list : SparseIdsList) (messageIds : List ℤ) (noSkipRange : Range ℤ)
    (count : Option ℤ) : Option (SparseIdsList × SliceUpdate ℤ) :=
  list.addRange messageIds noSkipRange count false

def removeOne (list : SparseIdsList) (messageId : ℤ) : SparseIdsList :=
  { count := list.count.map (· - 1), slices := removeFromSlices list.slices messageId }

def removeAll : SparseIdsList := { count := some 0, slices := [⟨∅, fullRange⟩] }

def invalidateBottom (list : SparseIdsList) : SparseIdsList :=
  { count := none, slices := invalidateBottomOfSlices list.slices ServerMaxMsgId }

def snapshot (list : SparseIdsList) (query : Query ℤ) : Result ℤ :=
  match if query.aroundId = 0 then none else sliceAround list.slices query.aroundId with
  | some (_, slice) => queryFromSlice 0 ServerMaxMsgId list.count query slice
  | none => { count := list.count }

inductive Op
  | addNew (messageId : ℤ)
  | addExisting (messageId : ℤ) (noSkipRange : Range ℤ)
  | addSlice (messageIds : List ℤ) (noSkipRange : Range ℤ) (count : Option ℤ)
  | removeOne (messageId : ℤ)
  | removeAll
  | invalidateBottom

/-- An operation with the update it fires. -/
def apply (list : SparseIdsList) : Op → Option (SparseIdsList × Option (SliceUpdate ℤ))
  | .addNew messageId => (list.addNew messageId).map fun (list, update) => (list, some update)
  | .addExisting messageId noSkipRange =>
    (list.addExisting messageId noSkipRange).map fun (list, update) => (list, some update)
  | .addSlice messageIds noSkipRange count =>
    (list.addSlice messageIds noSkipRange count).map fun (list, update) => (list, some update)
  | .removeOne messageId => some (list.removeOne messageId, none)
  | .removeAll => some (removeAll, none)
  | .invalidateBottom => some (list.invalidateBottom, none)

end SparseIdsList

end TelegramDesktop.Storage
