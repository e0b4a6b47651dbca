import Mathlib

namespace TelegramDesktop.Data

variable {α : Type*}

namespace GroupCall

inductive QueuedType
  | versionedParticipant
  | participant
  | call
  deriving DecidableEq

def QueuedType.rank : QueuedType → ℕ
  | versionedParticipant => 0
  | participant => 1
  | call => 2

abbrev Key := ℤ × QueuedType

def Key.Le (a b : Key) : Prop := a.1 < b.1 ∨ (a.1 = b.1 ∧ a.2.rank ≤ b.2.rank)

instance (a b : Key) : Decidable (Key.Le a b) :=
  inferInstanceAs (Decidable (a.1 < b.1 ∨ (a.1 = b.1 ∧ a.2.rank ≤ b.2.rank)))

/-- `updateGroupCall` and `updateGroupCallParticipants`, with `is_versioned` of each participant. -/
inductive MTPUpdate (α : Type*)
  | groupCall (content : α) (version : ℤ)
  | groupCallDiscarded (content : α)
  | groupCallParticipants (participants : List (α × Bool)) (version : ℤ)

def increment (participants : List (α × Bool)) : Bool := participants.any fun p => p.2

/-- What happened, for the reader of a run. -/
inductive Event (α : Type*)
  | delivered (update : MTPUpdate α) (version : ℤ)
  | applied (update : MTPUpdate α) (version : ℤ)

/-- `flat_multi_map::emplace`. -/
def emplace (key : Key) (update : MTPUpdate α) :
    List (Key × MTPUpdate α) → List (Key × MTPUpdate α)
  | [] => [(key, update)]
  | entry :: rest =>
    if Key.Le entry.1 key then entry :: emplace key update rest
    else (key, update) :: entry :: rest

end GroupCall

/-- `inside` are the updates that come from inside of the next applications, and `log` is what
happened, from the last to the first. -/
structure GroupCall (α : Type*) where
  version : ℤ
  queuedUpdates : List (GroupCall.Key × GroupCall.MTPUpdate α) := []
  reloadByQueuedUpdatesTimer : Bool := false
  applyingQueuedUpdates : Bool := false
  inside : List (List (GroupCall.MTPUpdate α)) := []
  log : List (GroupCall.Event α) := []

namespace GroupCall

def queue (s : GroupCall α) (key : Key) (update : MTPUpdate α) : GroupCall α :=
  { s with queuedUpdates := emplace key update s.queuedUpdates }

def note (s : GroupCall α) (event : Event α) : GroupCall α := { s with log := event :: s.log }

/-- `enqueueUpdate` up to `processQueuedUpdates`, with `apply` for `applyEnqueuedUpdate`. -/
def enqueueWith (apply : GroupCall α → MTPUpdate α → GroupCall α) (s : GroupCall α)
    (update : MTPUpdate α) : GroupCall α :=
  let s := s.note (.delivered update s.version)
  match update with
  | .groupCall _ version =>
    if s.applyingQueuedUpdates = false ∧ (s.version = 0 ∨ s.version = version) then apply s update
    else if s.version = 0 ∨ s.version ≤ version then s.queue (version, .call) update
    else s
  | .groupCallDiscarded _ => s
  | .groupCallParticipants participants version =>
    let required := if increment participants then version - 1 else version
    if s.applyingQueuedUpdates = false ∧ s.version = required then apply s update
    else if s.version ≤ required then
      let type := if increment participants then .versionedParticipant else .participant
      s.queue (version, type) update
    else s

/-- What the call and the participants set `_version` to. -/
def appliedVersion (s : GroupCall α) : MTPUpdate α → ℤ
  | .groupCall _ version => if version = 0 then 1 else version
  | .groupCallDiscarded _ => s.version
  | .groupCallParticipants _ version => if version = 0 then 1 else version

/-- While an update is applied, `enqueueUpdate` does not apply and `processQueuedUpdates`
returns at once. -/
def enqueueInside (s : GroupCall α) (update : MTPUpdate α) : GroupCall α :=
  enqueueWith (fun s _ => s) s update

def applyEnqueuedUpdate (s : GroupCall α) (update : MTPUpdate α) : GroupCall α :=
  let s' := { s.note (.applied update s.version) with
    applyingQueuedUpdates := true
    version := s.appliedVersion update
    inside := s.inside.tail }
  { (s.inside.headD []).foldl enqueueInside s' with applyingQueuedUpdates := false }

/-- The loop of `processQueuedUpdates`, at most `n` rounds of it. -/
def drain : ℕ → GroupCall α → GroupCall α
  | 0, s => s
  | n + 1, s =>
    match s.queuedUpdates with
    | [] => s
    | ((version, type), update) :: rest =>
      let incremented := type = .versionedParticipant
      if version < s.version ∨ (version = s.version ∧ incremented) then
        drain n { s with queuedUpdates := rest }
      else if version = s.version ∨ (version = s.version + 1 ∧ incremented) then
        drain n (applyEnqueuedUpdate { s with queuedUpdates := rest } update)
      else s

/-- Each round takes an update out, and an application may bring those that come inside of it. -/
def rounds (s : GroupCall α) : ℕ := s.queuedUpdates.length + (s.inside.map List.length).sum

def processQueuedUpdates (s : GroupCall α) : GroupCall α :=
  if s.version = 0 ∨ s.applyingQueuedUpdates = true then s
  else
    let size := s.queuedUpdates.length
    let s := drain s.rounds s
    if s.queuedUpdates.isEmpty then { s with reloadByQueuedUpdatesTimer := false }
    else if s.queuedUpdates.length ≠ size ∨ s.reloadByQueuedUpdatesTimer = false then
      { s with reloadByQueuedUpdatesTimer := true }
    else s

def enqueueUpdate (s : GroupCall α) (update : MTPUpdate α) : GroupCall α :=
  (enqueueWith applyEnqueuedUpdate s update).processQueuedUpdates

def run (s : GroupCall α) (deliveries : List (MTPUpdate α)) : GroupCall α :=
  deliveries.foldl enqueueUpdate s

end GroupCall

end TelegramDesktop.Data
