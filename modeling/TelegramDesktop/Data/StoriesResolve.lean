import TelegramDesktop.Base.FlatMapTotal

namespace TelegramDesktop.Data.StoriesResolve
open Base

abbrev PeerId := ℕ
abbrev StoryId := ℤ

structure FullStoryId where
  peer : PeerId
  story : StoryId
  deriving DecidableEq

inductive NoStory
  | Unknown
  | Deleted
  deriving DecidableEq

/-- The calls of `resolve` one after another, with what a `done` callback calls when it is run. -/
inductive Calls
  | nil
  | plain (id : FullStoryId) (force : Bool) (rest : Calls)
  | done (id : FullStoryId) (force : Bool) (tag : ℕ) (inside rest : Calls)

structure Callback where
  tag : ℕ
  calls : Calls

abbrev Ids := FlatMap StoryId (List Callback)
abbrev Resolving := FlatMap PeerId Ids

/-- A `GetStoriesByID`. -/
structure Request where
  peer : PeerId
  ids : List StoryId
  deriving DecidableEq

/-- A callback and the id that it was given for. -/
structure Given where
  tag : ℕ
  id : FullStoryId
  deriving DecidableEq

/-- The callbacks of the calls, without those that are called inside of another one. -/
def Calls.dones : Calls → List Given
  | .nil => []
  | .plain _ _ rest => rest.dones
  | .done id _ tag _ rest => ⟨tag, id⟩ :: rest.dones

inductive How
  | already (found : Except NoStory FullStoryId)
  | answer (request : Request)

structure Called where
  given : Given
  how : How

def kMaxResolveTogether : ℕ := 100

/-- `posted` counts the `sendResolveRequests` posted to the main queue, `requests` are in flight;
`given` and `called` keep the callbacks that were handed over and those that were run. -/
structure Stories where
  stories : Finset FullStoryId
  deleted : Finset FullStoryId
  resolvePending : Resolving
  resolveSent : Resolving
  posted : ℕ
  requests : List Request
  given : List Given
  called : List Called

def Stories.start (stories deleted : Finset FullStoryId) : Stories where
  stories := stories
  deleted := deleted
  resolvePending := ∅
  resolveSent := ∅
  posted := 0
  requests := []
  given := []
  called := []

def Stories.lookup (s : Stories) (id : FullStoryId) : Except NoStory FullStoryId :=
  if id ∈ s.stories then .ok id
  else .error (if id ∈ s.deleted then .Deleted else .Unknown)

/-- `already.has_value() || already.error() != NoStory::Unknown`. -/
def isAlready : Except NoStory FullStoryId → Bool
  | .ok _ => true
  | .error error => error ≠ .Unknown

def pushBack (ids : Ids) (id : StoryId) (done : Option Callback) : Ids :=
  ids.upsert id fun list => list.getD [] ++ done.toList

def pushResolving (resolving : Resolving) (id : FullStoryId) (done : Option Callback) :
    Resolving :=
  resolving.upsert id.peer fun ids => pushBack (ids.getD ∅) id.story done

/-- `resolve` behind its `lookup`. -/
def Stories.request (s : Stories) (id : FullStoryId) (done : Option Callback) : Stories :=
  if ((s.resolveSent.get? id.peer).bind (·.get? id.story)).isSome then
    { s with resolveSent := pushResolving s.resolveSent id done }
  else
    { s with
      resolvePending := pushResolving s.resolvePending id done
      posted := if ((s.resolvePending.get? id.peer).getD ∅).isEmpty then s.posted + 1
        else s.posted }

def Stories.give (s : Stories) (given : Given) : Stories :=
  { s with given := s.given ++ [given] }

def Stories.call (s : Stories) (called : Called) : Stories :=
  { s with called := s.called ++ [called] }

/-- The calls in their order; a `done` that is run at once makes its own calls first. -/
def Calls.resolve : Calls → Stories → Stories
  | .nil, s => s
  | .plain id force rest, s =>
    if !force && isAlready (s.lookup id) then rest.resolve s
    else rest.resolve (s.request id none)
  | .done id force tag inside rest, s =>
    let given : Given := ⟨tag, id⟩
    if !force && isAlready (s.lookup id) then
      rest.resolve (inside.resolve ((s.give given).call ⟨given, .already (s.lookup id)⟩))
    else rest.resolve ((s.give given).request id (some ⟨tag, inside⟩))

def takeIds (ids : Ids) (count : ℕ) : Ids :=
  ⟨ids.entries.take count, ids.sorted.take⟩

def dropIds (ids : Ids) (count : ℕ) : Ids :=
  ⟨ids.entries.drop count, ids.sorted.drop⟩

/-- What goes to `_resolveSent` and what stays in `_resolvePending`. -/
def takeToSend : ℕ → List (PeerId × Ids) → List (PeerId × Ids) × List (PeerId × Ids)
  | _, [] => ([], [])
  | leftToSend, (peerId, ids) :: rest =>
    if ids.size ≤ leftToSend then
      if leftToSend - ids.size = 0 then ([(peerId, ids)], rest)
      else
        let (sent, pending) := takeToSend (leftToSend - ids.size) rest
        ((peerId, ids) :: sent, pending)
    else ([(peerId, takeIds ids leftToSend)], (peerId, dropIds ids leftToSend) :: rest)

theorem keys_takeToSend (leftToSend : ℕ) (entries : List (PeerId × Ids)) :
    ((takeToSend leftToSend entries).1.map Prod.fst).Sublist (entries.map Prod.fst) ∧
      ((takeToSend leftToSend entries).2.map Prod.fst).Sublist (entries.map Prod.fst) := by
  induction entries generalizing leftToSend with
  | nil => exact ⟨.slnil, .slnil⟩
  | cons entry rest ih =>
    unfold takeToSend
    split_ifs
    · exact ⟨(List.nil_sublist _).cons_cons _, (List.Sublist.refl _).cons _⟩
    · exact ⟨(ih _).1.cons_cons _, (ih _).2.cons _⟩
    · exact ⟨(List.nil_sublist _).cons_cons _, .refl _⟩

theorem sorted_of_keys {resolving : Resolving} {entries : List (PeerId × Ids)}
    (h : (entries.map Prod.fst).Sublist (resolving.entries.map Prod.fst)) :
    entries.Pairwise fun a b => a.1 < b.1 :=
  List.pairwise_map.mp ((List.pairwise_map.mpr resolving.sorted).sublist h)

def toSend (pending : Resolving) : Resolving :=
  ⟨(takeToSend kMaxResolveTogether pending.entries).1, sorted_of_keys (keys_takeToSend ..).1⟩

def notToSend (pending : Resolving) : Resolving :=
  ⟨(takeToSend kMaxResolveTogether pending.entries).2, sorted_of_keys (keys_takeToSend ..).2⟩

/-- The loop begins with `_resolveSent` empty. -/
def Stories.sendResolveRequests (s : Stories) : Stories :=
  if !s.resolveSent.isEmpty then s
  else
    { s with
      resolvePending := notToSend s.resolvePending
      resolveSent := toSend s.resolvePending
      requests := s.requests ++
        (toSend s.resolvePending).entries.map fun entry => ⟨entry.1, entry.2.keys⟩ }

inductive StoryItem
  | storyItem (id : StoryId) (media : Bool) (expireDate : ℤ) (isPinned : Bool)
  | storyItemSkipped (id : StoryId)
  | storyItemDeleted (id : StoryId)

structure Answer where
  items : List StoryItem
  now : ℤ
  hasArchive : Bool

def Stories.applyDeleted (s : Stories) (id : FullStoryId) : Stories :=
  { s with stories := s.stories.erase id, deleted := insert id s.deleted }

def Stories.applyExpired (s : Stories) (id : FullStoryId) (hasArchive inProfile : Bool) :
    Stories :=
  if id ∈ s.stories ∧ !hasArchive ∧ !inProfile then s.applyDeleted id else s

/-- `none` is the null pointer. -/
def Stories.parseAndApply (s : Stories) (id : FullStoryId) (media : Bool) (expires : ℤ)
    (isPinned : Bool) (now : ℤ) (hasArchive : Bool) : Option Stories :=
  let expired : Bool := expires ≤ now
  if !media then none
  else if expired && !isPinned && !hasArchive then none
  else if id ∈ s.stories then some s
  else
    let s := { s with stories := insert id s.stories, deleted := s.deleted.erase id }
    some (if expired then s.applyExpired id hasArchive isPinned else s)

def Stories.processResolved (s : Stories) (peer : PeerId) (answer : Answer) :
    StoryItem → Stories
  | .storyItem id media expires isPinned =>
    (s.parseAndApply ⟨peer, id⟩ media expires isPinned answer.now answer.hasArchive).getD
      (s.applyDeleted ⟨peer, id⟩)
  | .storyItemSkipped _ => s
  | .storyItemDeleted id => s.applyDeleted ⟨peer, id⟩

def Stories.processResolvedStories (s : Stories) (peer : PeerId) (answer : Answer) : Stories :=
  answer.items.foldl (fun s item => s.processResolved peer answer item) s

def Stories.finalizeResolve (s : Stories) (id : FullStoryId) : Stories :=
  match s.lookup id with
  | .error .Unknown => s.applyDeleted id
  | _ => s

/-- `for (const auto &callback : list) callback();`. -/
def runCallbacks (request : Request) (id : FullStoryId) (list : List Callback) (s : Stories) :
    Stories :=
  list.foldl
    (fun s callback =>
      callback.calls.resolve (s.call ⟨⟨callback.tag, id⟩, .answer request⟩)) s

def finishIds (request : Request) (sent : List (StoryId × List Callback)) (s : Stories) :
    Stories :=
  sent.foldl
    (fun s entry =>
      runCallbacks request ⟨request.peer, entry.1⟩ entry.2
        (s.finalizeResolve ⟨request.peer, entry.1⟩)) s

def Stories.postMore (s : Stories) : Stories :=
  if s.resolveSent.isEmpty && !s.resolvePending.isEmpty then { s with posted := s.posted + 1 }
  else s

/-- `none` where `Assert(sent.has_value())` fails; `changed` is called by those who follow
`_itemsChanged`. -/
def Stories.finish (s : Stories) (request : Request) (changed : Calls) : Option Stories :=
  (s.resolveSent.get? request.peer).map fun sent =>
    (changed.resolve (finishIds request sent.entries
      { s with resolveSent := s.resolveSent.erase request.peer })).postMore

/-- An answer of `none` is a failure. -/
inductive Event
  | resolve (calls : Calls)
  | sendResolveRequests
  | answer (request : Request) (answer : Option Answer) (changed : Calls)

def Stories.Admits (s : Stories) : Event → Prop
  | .resolve _ => True
  | .sendResolveRequests => 0 < s.posted
  | .answer request _ _ => request ∈ s.requests

def Stories.processed (s : Stories) (request : Request) : Option Answer → Stories
  | none => s
  | some answer => s.processResolvedStories request.peer answer

def Stories.step (s : Stories) : Event → Option Stories
  | .resolve calls => some (calls.resolve s)
  | .sendResolveRequests => some { s with posted := s.posted - 1 }.sendResolveRequests
  | .answer request answer changed =>
    ({ s with requests := s.requests.erase request }.processed request answer).finish request
      changed

inductive Reachable : Stories → Prop
  | start (stories deleted : Finset FullStoryId) : Reachable (.start stories deleted)
  | step {s s' : Stories} {event : Event} (before : Reachable s) (admits : s.Admits event)
      (after : s.step event = some s') : Reachable s'

end TelegramDesktop.Data.StoriesResolve
