import TelegramDesktop.Storage.SparseIdsList

namespace TelegramDesktop.Data
open Base Storage

inductive LoadDirection
  | around
  | before
  | after
  deriving DecidableEq

structure AroundData (α : Type*) where
  aroundId : α
  direction : LoadDirection := .around
  deriving DecidableEq

/-- The window of a viewer, kept up to date from the updates of a list. The limits are the ones
of a viewer, which are never negative. -/
structure SliceBuilder (α : Type*) [LinearOrder α] where
  key : α
  limitBefore : ℕ
  limitAfter : ℕ
  ids : FlatSet α := ∅
  fullCount : Option ℤ := none
  skippedBefore : Option ℤ := none
  skippedAfter : Option ℤ := none
  deriving DecidableEq

/-- What the builders differ in: the ends of the ids, which ids convert to `true`, which ones can
be the end of a window and whether `removeOne` calls `checkInsufficient`. -/
structure SliceBuilder.Kind (α : Type*) [LinearOrder α] where
  minId : α
  maxId : α
  isSet : α → Bool
  possible : α → Bool
  checksRemoved : Bool
  possible_of_le : ∀ id, minId ≤ id → possible id = true

/-- `SparseIdsSliceBuilder`. -/
def sparseIdsSliceBuilder : SliceBuilder.Kind ℤ where
  minId := 0
  maxId := ServerMaxMsgId
  isSet id := id ≠ 0
  possible id := decide (0 ≤ id)
  checksRemoved := true
  possible_of_le _ h := decide_eq_true h

structure MessagePosition where
  peer : ℤ := 0
  msg : ℤ := 0
  date : ℤ := 0
  deriving DecidableEq, Inhabited

namespace MessagePosition

/-- What positions are compared by, in this order. -/
def order (position : MessagePosition) : ℤ ×ₗ ℤ ×ₗ ℤ :=
  toLex (position.date, toLex (position.peer, position.msg))

theorem order_injective : Function.Injective order := by
  rintro ⟨peer, msg, date⟩ ⟨peer', msg', date'⟩ h
  have heq := toLex.injective h
  have hid := toLex.injective (Prod.mk.inj heq).2
  have hdate : date = date' := (Prod.mk.inj heq).1
  have hpeer : peer = peer' := (Prod.mk.inj hid).1
  have hmsg : msg = msg' := (Prod.mk.inj hid).2
  rw [hdate, hpeer, hmsg]

instance : LinearOrder MessagePosition := LinearOrder.lift' order order_injective

def min : MessagePosition := { msg := 1 }

def max : MessagePosition := { msg := ServerMaxMsgId - 1, date := 2 ^ 31 - 1 }

def impossible : MessagePosition := { date := -1 }

end MessagePosition

/-- `MessagesSliceBuilder`. -/
def messagesSliceBuilder : SliceBuilder.Kind MessagePosition where
  minId := .min
  maxId := .max
  isSet position := position.msg ≠ 0
  possible position := position ≠ .impossible
  checksRemoved := false
  possible_of_le position h := by
    rw [decide_eq_true_iff]
    rintro rfl
    exact absurd h (by decide)

namespace SliceBuilder

variable {α : Type*} [LinearOrder α] [Inhabited α] (kind : Kind α)

/-- What a call leaves: the builder, what it has fired and whether it says it has changed. -/
structure Applied (α : Type*) [LinearOrder α] where
  builder : SliceBuilder α
  insufficientAround : List (AroundData α) := []
  changed : Bool := true

def requestMessages (builder : SliceBuilder α) (direction : LoadDirection) : AroundData α :=
  match builder.ids.elems.head?, builder.ids.elems.getLast? with
  | some front, some back => ⟨if direction = .before then front else back, direction⟩
  | _, _ => ⟨builder.key, .around⟩

def requestMessagesCount : AroundData α := ⟨default, .around⟩

/-- The part of `sliceToLimits` before the key. -/
def sliceBefore (builder : SliceBuilder α) (around : ℕ) : SliceBuilder α × List (AroundData α) :=
  if builder.limitBefore < around then
    let removeFromBegin := around - builder.limitBefore
    ({ builder with
        ids := builder.ids.sub removeFromBegin (builder.ids.size - removeFromBegin)
        skippedBefore := builder.skippedBefore.map (· + (removeFromBegin : ℤ)) }, [])
  else if around < builder.limitBefore ∧ builder.skippedBefore.all (fun n => decide (0 < n)) then
    (builder, [builder.requestMessages .before])
  else (builder, [])

/-- The part of `sliceToLimits` after the key, with the ids there counted before any is removed. -/
def sliceAfter (builder : SliceBuilder α) (equalOrAfter : ℕ) :
    SliceBuilder α × List (AroundData α) :=
  if builder.limitAfter + 1 < equalOrAfter then
    let removeFromEnd := equalOrAfter - (builder.limitAfter + 1)
    ({ builder with
        ids := builder.ids.sub 0 (builder.ids.size - removeFromEnd)
        skippedAfter := builder.skippedAfter.map (· + (removeFromEnd : ℤ)) }, [])
  else if equalOrAfter < builder.limitAfter + 1 ∧
      builder.skippedAfter.all (fun n => decide (0 < n)) then
    (builder, [builder.requestMessages .after])
  else (builder, [])

def sliceToLimits (builder : SliceBuilder α) : SliceBuilder α × List (AroundData α) :=
  if kind.isSet builder.key then
    let around := builder.ids.lowerBound builder.key
    let equalOrAfter := builder.ids.size - around
    let before := builder.sliceBefore around
    let after := before.1.sliceAfter equalOrAfter
    let requested := before.2 ++ after.2
    (after.1, if after.1.fullCount.isNone ∧ requested = [] then [requestMessagesCount]
      else requested)
  else (builder, if builder.fullCount.isNone then [requestMessagesCount] else [])

def checkInsufficient (builder : SliceBuilder α) : SliceBuilder α × List (AroundData α) :=
  builder.sliceToLimits kind

def fillSkippedAndSliceToLimits (builder : SliceBuilder α) :
    SliceBuilder α × List (AroundData α) :=
  let skipped := fillSkipped builder.fullCount builder.skippedBefore builder.skippedAfter
    builder.ids.size
  { builder with skippedBefore := skipped.1, skippedAfter := skipped.2 }.sliceToLimits kind

/-- `none` is the violated `Assert`, as below. -/
def adjustSkippedBefore (ids : FlatSet α) (oldId : α) (oldSkippedBefore : ℤ) : Option ℤ :=
  if oldId ∈ ids then some (max (oldSkippedBefore - ids.lowerBound oldId) 0) else none

def adjustSkippedAfter (ids : FlatSet α) (oldId : α) (oldSkippedAfter : ℤ) : Option ℤ :=
  if oldId ∈ ids then
    some (max (oldSkippedAfter - (ids.size - ids.lowerBound oldId - 1 : ℤ)) 0)
  else none

/-- How a skipped number is found once `ids` are merged: from the one that comes with the merged
ids, else from the one that was known. -/
def mergeSkipped (adjust : FlatSet α → α → ℤ → Option ℤ) (ids : FlatSet α) (mergedEnd : α)
    (skipped : Option ℤ) (wasEnd : Option α) (wasSkipped : Option ℤ) : Option (Option ℤ) :=
  match skipped, wasEnd, wasSkipped with
  | some skipped, _, _ => (adjust ids mergedEnd skipped).map some
  | none, some wasEnd, some wasSkipped =>
    if kind.possible wasEnd then (adjust ids wasEnd wasSkipped).map some else some none
  | none, _, _ => some none

/-- A count alone. A negative one compares as a huge `size_t`. -/
def mergeCount (builder : SliceBuilder α) (count : Option ℤ) : SliceBuilder α :=
  match count with
  | some count =>
    if builder.fullCount = some count then builder
    else if 0 ≤ count ∧ count ≤ builder.ids.size then
      { builder with
        fullCount := some (builder.ids.size : ℤ)
        skippedBefore := some 0
        skippedAfter := some 0 }
    else { builder with fullCount := some count }
  | none => builder

def mergeSliceData (builder : SliceBuilder α) (count : Option ℤ) (messageIds : FlatSet α)
    (skippedBefore skippedAfter : Option ℤ) : Option (SliceBuilder α × List (AroundData α)) :=
  match messageIds.elems.head?, messageIds.elems.getLast? with
  | some front, some back =>
    let ids := builder.ids.merge messageIds.elems
    (mergeSkipped kind adjustSkippedBefore ids front skippedBefore builder.ids.elems.head?
        builder.skippedBefore).bind fun before =>
      (mergeSkipped kind adjustSkippedAfter ids back skippedAfter builder.ids.elems.getLast?
          builder.skippedAfter).map fun after =>
        { builder with
          ids
          fullCount := count.or builder.fullCount
          skippedBefore := before
          skippedAfter := after }.fillSkippedAndSliceToLimits kind
  | _, _ => some ((builder.mergeCount count).fillSkippedAndSliceToLimits kind)

def applyInitial (builder : SliceBuilder α) (result : Result α) : Option (Applied α) :=
  (builder.mergeSliceData kind result.count result.messageIds result.skippedBefore
    result.skippedAfter).map fun (builder, fired) => ⟨builder, fired, true⟩

/-- The ids an update is compared with. -/
def window (builder : SliceBuilder α) : Range α :=
  ⟨builder.ids.elems.headD builder.key, builder.ids.elems.getLastD builder.key⟩

def intersects (range1 range2 : Range α) : Prop :=
  range1.fromId ≤ range2.till ∧ range2.fromId ≤ range1.till

instance (range1 range2 : Range α) : Decidable (intersects range1 range2) := by
  unfold intersects
  infer_instance

def needMergeMessages (builder : SliceBuilder α) (update : SliceUpdate α) : Bool :=
  update.messages.isSome ∧ intersects update.range builder.window

def applyUpdate (builder : SliceBuilder α) (update : SliceUpdate α) : Option (Applied α) :=
  let needMerge := builder.needMergeMessages update
  if ¬ needMerge ∧ update.count.isNone then some { builder, changed := false }
  else
    let skippedBefore := if update.range.fromId = kind.minId then some 0 else none
    let skippedAfter := if update.range.till = kind.maxId then some 0 else none
    let messageIds := if needMerge then update.messages.getD ∅ else ∅
    (builder.mergeSliceData kind update.count messageIds skippedBefore skippedAfter).map
      fun (builder, fired) => ⟨builder, fired, true⟩

/-- A positive number is decreased. -/
def decrease (count : Option ℤ) : Option ℤ := count.map fun n => if 0 < n then n - 1 else n

def positive (count : Option ℤ) : Bool := count.any fun n => decide (0 < n)

/-- `removeOne` without the check for insufficient ids. -/
def removeId (builder : SliceBuilder α) (messageId : α) : SliceBuilder α × Bool :=
  let changed := positive builder.fullCount
  let builder := { builder with fullCount := decrease builder.fullCount }
  if messageId ∈ builder.ids then
    ({ builder with ids := builder.ids.remove messageId }, true)
  else if builder.ids.elems.head?.any (fun front => decide (messageId < front)) ∧
      positive builder.skippedBefore then
    ({ builder with skippedBefore := decrease builder.skippedBefore }, true)
  else if builder.ids.elems.getLast?.any (fun back => decide (back < messageId)) ∧
      positive builder.skippedAfter then
    ({ builder with skippedAfter := decrease builder.skippedAfter }, true)
  else (builder, changed)

def removeOne (builder : SliceBuilder α) (messageId : α) : Applied α :=
  let removed := builder.removeId messageId
  if removed.2 ∧ kind.checksRemoved then
    let checked := removed.1.checkInsufficient kind
    ⟨checked.1, checked.2, true⟩
  else ⟨removed.1, [], removed.2⟩

def removeAll (builder : SliceBuilder α) : Applied α :=
  { builder := { builder with
      ids := ∅
      fullCount := some 0
      skippedBefore := some 0
      skippedAfter := some 0 } }

def invalidateBottom (builder : SliceBuilder α) : Applied α :=
  let checked := { builder with fullCount := none, skippedAfter := none }.checkInsufficient kind
  ⟨checked.1, checked.2, true⟩

end SliceBuilder

end TelegramDesktop.Data
