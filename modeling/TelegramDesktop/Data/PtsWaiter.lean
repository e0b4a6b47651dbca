import TelegramDesktop.Base.FlatMap
import TelegramDesktop.Base.Int32

namespace TelegramDesktop.Data
open Base

inductive PtsSkippedQueue
  | skippedUpdate
  | skippedUpdates
  deriving DecidableEq, Repr

/-- What the waiter asks of its owner, `Api::Updates`. -/
inductive OwnerCall (U V : Type*)
  | ptsWaiterStartTimerFor (ms : ℤ)
  | applyUpdateNoPtsCheck (update : U)
  | applyUpdatesNoPtsCheck (updates : V)
  deriving DecidableEq, Repr

/-- `PtsWaiter` over any types of single and combined updates. The `channel` of its
methods is only passed on to the owner, so it is left out; `calls` are the calls
made to the owner since the list was last emptied. -/
structure PtsWaiter (U V : Type*) where
  queue : FlatMap ℕ PtsSkippedQueue := ∅
  updateQueue : FlatMap ℕ U := ∅
  updatesQueue : FlatMap ℕ V := ∅
  good : ℤ := 0
  last : ℤ := 0
  count : ℤ := 0
  applySkippedLevel : ℤ := 0
  requesting : Bool := false
  waitingForSkipped : Bool := false
  waitingForShortPoll : Bool := false
  skippedKey : ℕ := 0
  calls : List (OwnerCall U V) := []

namespace PtsWaiter

variable {U V : Type*}

/-- 1s wait for skipped seq or pts in updates. -/
def kWaitForSkippedTimeout : ℤ := 1000

def inited (w : PtsWaiter U V) : Bool := decide (0 < w.good)

def current (w : PtsWaiter U V) : ℤ := w.good

def call (w : PtsWaiter U V) (c : OwnerCall U V) : PtsWaiter U V :=
  { w with calls := w.calls ++ [c] }

def clearSkippedUpdates (w : PtsWaiter U V) : PtsWaiter U V :=
  { w with queue := ∅, updateQueue := ∅, updatesQueue := ∅, applySkippedLevel := 0 }

def init (w : PtsWaiter U V) (pts : ℤ) : PtsWaiter U V :=
  clearSkippedUpdates { w with good := pts, last := pts, count := pts }

/-- Store the kind under a fresh key; keys sort by pts first. -/
def ptsKey (w : PtsWaiter U V) (queue : PtsSkippedQueue) (pts : ℤ) : PtsWaiter U V × ℕ :=
  let skippedKey := (w.skippedKey + 1) % 2 ^ 32
  let key := (pts % 2 ^ 32).toNat * 2 ^ 32 + skippedKey
  ({ w with skippedKey := skippedKey, queue := w.queue.emplace key queue }, key)

def checkForWaiting (w : PtsWaiter U V) : PtsWaiter U V :=
  if !w.waitingForSkipped && !w.waitingForShortPoll then w.call (.ptsWaiterStartTimerFor (-1))
  else w

/-- `ms < 0`: not waiting. -/
def setWaitingForSkipped (w : PtsWaiter U V) (ms : ℤ) : PtsWaiter U V :=
  if 0 ≤ ms then { w.call (.ptsWaiterStartTimerFor ms) with waitingForSkipped := true }
  else checkForWaiting { w with waitingForSkipped := false }

/-- One turn of the loop in `applySkippedUpdates`; `operator[]` adds a default
value for a key its map does not have. -/
def applySkipped [Inhabited U] [Inhabited V] (w : PtsWaiter U V) (i : ℕ × PtsSkippedQueue) :
    PtsWaiter U V :=
  match i.2 with
  | .skippedUpdate =>
    { w with updateQueue := w.updateQueue.emplace i.1 default }.call
      (.applyUpdateNoPtsCheck ((w.updateQueue.get? i.1).getD default))
  | .skippedUpdates =>
    { w with updatesQueue := w.updatesQueue.emplace i.1 default }.call
      (.applyUpdatesNoPtsCheck ((w.updatesQueue.get? i.1).getD default))

def applySkippedUpdates [Inhabited U] [Inhabited V] (w : PtsWaiter U V) : PtsWaiter U V :=
  if !w.waitingForSkipped then w
  else
    let w := w.setWaitingForSkipped (-1)
    if w.queue.isEmpty then w
    else
      let w := { w with applySkippedLevel := int32Add w.applySkippedLevel 1 }
      let w := w.queue.entries.foldl applySkipped w
      let w := { w with applySkippedLevel := int32Add w.applySkippedLevel (-1) }
      w.clearSkippedUpdates

/-- Return false if need to save that update and apply later. -/
def check (w : PtsWaiter U V) (pts count : ℤ) : PtsWaiter U V × Bool :=
  if !w.inited then (w.init pts, true)
  else
    let w := { w with last := max w.last pts, count := int32Add w.count count }
    if w.last = w.count then ({ w with good := w.last }, true)
    else if w.last < w.count then (w.setWaitingForSkipped 1, count = 0)
    else (w.setWaitingForSkipped kWaitForSkippedTimeout, count = 0)

def saveUpdate (pts : ℤ) (update : U) (w : PtsWaiter U V) : PtsWaiter U V :=
  let r := w.ptsKey .skippedUpdate pts
  { r.1 with updateQueue := r.1.updateQueue.emplace r.2 update }

def saveUpdates (pts : ℤ) (updates : V) (w : PtsWaiter U V) : PtsWaiter U V :=
  let r := w.ptsKey .skippedUpdates pts
  { r.1 with updatesQueue := r.1.updatesQueue.emplace r.2 updates }

/-- The three overloads of `updated`, by what they do with an update to apply later. -/
def updatedWith (save : PtsWaiter U V → PtsWaiter U V) (w : PtsWaiter U V) (pts count : ℤ) :
    PtsWaiter U V × Bool :=
  if w.requesting || w.applySkippedLevel ≠ 0 then (w, true)
  else if pts ≤ w.good ∧ 0 < count then (w, false)
  else
    let r := w.check pts count
    if r.2 then r else (save r.1, false)

def updatedPts (w : PtsWaiter U V) (pts count : ℤ) : PtsWaiter U V × Bool :=
  updatedWith id w pts count

/-- The two overloads of `updateAndApply` that carry an update: what is saved is
handed to `c` at once when nothing waits. -/
def updateAndApplyWith [Inhabited U] [Inhabited V] (save : PtsWaiter U V → PtsWaiter U V)
    (c : OwnerCall U V) (w : PtsWaiter U V) (pts count : ℤ) : PtsWaiter U V × Bool :=
  let r := updatedWith save w pts count
  if !r.2 then (r.1, false)
  -- Optimization - no need to put in queue and back.
  else if !r.1.waitingForSkipped || r.1.queue.isEmpty then (r.1.call c, true)
  else ((save r.1).applySkippedUpdates, true)

def updateAndApplyUpdates [Inhabited U] [Inhabited V] (w : PtsWaiter U V) (pts count : ℤ)
    (updates : V) : PtsWaiter U V × Bool :=
  updateAndApplyWith (saveUpdates pts updates) (.applyUpdatesNoPtsCheck updates) w pts count

def updateAndApplyUpdate [Inhabited U] [Inhabited V] (w : PtsWaiter U V) (pts count : ℤ)
    (update : U) : PtsWaiter U V × Bool :=
  updateAndApplyWith (saveUpdate pts update) (.applyUpdateNoPtsCheck update) w pts count

def updateAndApplyPts [Inhabited U] [Inhabited V] (w : PtsWaiter U V) (pts count : ℤ) :
    PtsWaiter U V × Bool :=
  let r := w.updatedPts pts count
  if !r.2 then (r.1, false) else (r.1.applySkippedUpdates, true)

end PtsWaiter

end TelegramDesktop.Data
