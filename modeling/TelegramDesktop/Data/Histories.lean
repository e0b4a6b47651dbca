import TelegramDesktop.Base.FlatMapFold
import TelegramDesktop.Data.MsgId

namespace TelegramDesktop.Data
open Base

namespace Histories

abbrev Time := ℕ

/-- The callbacks of `requestDialogEntry` are told apart by their numbers. -/
abbrev Callback := ℕ

def isServerMsgId (id : MsgId) : Bool := 0 < id && id < ServerMaxMsgId

def kReadRequestTimeout : Time := 3000

inductive RequestType
  | history
  | readInbox
  | delete
  | send
  deriving DecidableEq

structure DeleteAll where
  justClear : Bool
  revoke : Bool
  deriving DecidableEq

/-- What the branches of `deleteAllMessages` look at. -/
inductive Peer
  | user
  | chat (amCreator : Bool)
  | channel (canDelete : Bool)
  deriving DecidableEq

/-- What a generator asks the server for, which is also how it takes the answer. -/
inductive Query
  | plain
  | readHistory (tillId : MsgId)
  | deleteMessages
  | deleteChannel
  | deleteChannelHistory
  | deleteChat (args : DeleteAll)
  | deleteHistory (args : DeleteAll)
  | deleteByDates
  deriving DecidableEq

/-- The branches of `deleteAllMessages`. -/
def deleteAllQuery (args : DeleteAll) : Peer → Query
  | .channel canDelete =>
    if !args.justClear && args.revoke && canDelete then .deleteChannel else .deleteChannelHistory
  | .chat amCreator =>
    if args.revoke && amCreator then .deleteChat args else .deleteHistory args
  | .user => .deleteHistory args

structure SentRequest where
  generator : Query
  id : ℕ
  type : RequestType
  deriving DecidableEq

structure State where
  postponed : FlatMap ℕ Query := ∅
  sent : FlatMap ℕ SentRequest := ∅
  willReadTill : MsgId := 0
  sentReadTill : MsgId := 0
  willReadWhen : Time := 0
  sentReadDone : Bool := false
  postponedRequestEntry : Bool := false

variable {H : Type}

/-- Who takes an answer. -/
inductive Target (H : Type)
  | request (history : H) (id : ℕ) (generator : Query)
  | addChatUser (history : H) (args : DeleteAll)
  | peerDialogs (histories : List H)
  deriving DecidableEq

/-- What was done, for the reader of a run. -/
inductive Event (H : Type)
  | returned (history : H) (id : ℕ)
  | finished (history : H) (id : ℕ)
  | cancelled (history : H) (id : ℕ)
  | invoked (history : H) (id : ℕ)
  | readHistory (history : H) (tillId : MsgId)
  | registered (history : H) (callback : Callback)
  | ran (history : H) (callback : Callback) (request : ℕ)
  deriving DecidableEq

end Histories

/-- With the requests in flight and the calls that were postponed. -/
structure Histories (H : Type) [LinearOrder H] where
  states : FlatMap H Histories.State := ∅
  historyByRequest : FlatMap ℕ H := ∅
  requestAutoincrement : ℕ := 0
  dialogRequests : FlatMap H (List Histories.Callback) := ∅
  dialogRequestsPending : FlatMap H (List Histories.Callback) := ∅
  inboxReadBefore : H → Option MsgId := fun _ => none
  mtpAutoincrement : ℕ := 0
  flights : FlatMap ℕ (Histories.Target H) := ∅
  postponedCalls : ℕ := 0
  callbackAutoincrement : ℕ := 0
  events : List (Histories.Event H) := []

namespace Histories

variable {H : Type} [LinearOrder H] (s : Histories H)

def lookup (h : H) : Option State := s.states.get? h

/-- A history without a state is as one with an empty state. -/
def state (h : H) : State := (s.lookup h).getD {}

def put (h : H) (state : State) : Histories H :=
  { s with states := s.states.upsert h fun _ => state }

def emit (event : Event H) : Histories H := { s with events := s.events ++ [event] }

/-- A request is sent; its id is the new value of the counter. -/
def request (target : Target H) : Histories H :=
  { s with
    mtpAutoincrement := s.mtpAutoincrement + 1
    flights := s.flights.emplace (s.mtpAutoincrement + 1) target }

def cancel (mtpId : ℕ) : Histories H := { s with flights := s.flights.erase mtpId }

/-- A generator is called. -/
def generate (h : H) (id : ℕ) (generator : Query) : Histories H :=
  let s := (s.request (.request h id generator)).emit (.invoked h id)
  match generator with
  | .readHistory tillId => s.emit (.readHistory h tillId)
  | _ => s

def postponeHistoryRequest (state : State) : Bool :=
  state.sent.values.any fun request => request.type == .delete

def postponeEntryRequest (state : State) : Bool :=
  state.sent.values.any fun request => request.type != .history

def isEmpty (state : State) : Bool :=
  state.postponed.isEmpty && !state.postponedRequestEntry && state.sent.isEmpty
    && state.willReadTill == 0 && state.sentReadTill == 0

def checkEmptyState (h : H) : Histories H :=
  match s.lookup h with
  | some state => if isEmpty state then { s with states := s.states.erase h } else s
  | none => s

/-- The history requests that were sent are given up, to be sent again later. -/
def resendHistoryRequests (h : H) : Histories H :=
  let state := s.state h
  let again := state.sent.entries.filter fun entry => entry.2.type == .history
  (again.foldl (fun s entry => s.cancel entry.2.id) s).put h { state with
    postponed := emplaceAll (again.map fun entry => (entry.1, entry.2.generator)) state.postponed
    sent := state.sent.filter fun request => request.type != .history }

/-- A generator is called and its request is kept as sent. -/
def sendNow (h : H) (id : ℕ) (type : RequestType) (generator : Query) : Histories H :=
  let s := s.generate h id generator
  let state := s.state h
  s.put h { state with sent := state.sent.emplace id ⟨generator, s.mtpAutoincrement, type⟩ }

/-- An answer on its way to those who wait for the dialog entry is not to be used. -/
def markRequestEntry (h : H) : Histories H :=
  let state := s.state h
  if !state.postponedRequestEntry && postponeEntryRequest state && s.dialogRequests.contains h then
    s.put h { state with postponedRequestEntry := true }
  else s

def sendRequest (h : H) (type : RequestType) (generator : Query) : Histories H :=
  let id := s.requestAutoincrement + 1
  let s := { s with
    requestAutoincrement := id
    historyByRequest := s.historyByRequest.emplace id h }.emit (.returned h id)
  let state := s.state h
  if type = .history ∧ postponeHistoryRequest state then
    s.put h { state with postponed := state.postponed.emplace id generator }
  else
    let s := (s.sendNow h id type generator).markRequestEntry h
    if postponeHistoryRequest (s.state h) then s.resendHistoryRequests h else s

def postponeRequestDialogEntries : Histories H :=
  if 1 < s.dialogRequestsPending.size then s else { s with postponedCalls := s.postponedCalls + 1 }

/-- The request with this id is no longer sent. -/
def eraseSent (h : H) (id : ℕ) : Histories H :=
  let s := { s with historyByRequest := s.historyByRequest.erase id }
  let state := s.state h
  match state.sent.get? id with
  | some request => (s.cancel request.id).put h { state with sent := state.sent.erase id }
  | none => s

/-- The generators that were postponed are called. -/
def sendPostponed (h : H) : Histories H :=
  let state := s.state h
  if !state.postponed.isEmpty && !postponeHistoryRequest state then
    state.postponed.entries.foldl (fun s entry => s.sendNow h entry.1 .history entry.2)
      (s.put h { state with postponed := ∅ })
  else s

/-- The callbacks that wait for an answer wait for a new request; `none` is a failed `Assert`. -/
def moveDialogRequest (h : H) : Option (Histories H) :=
  let state := s.state h
  if state.postponedRequestEntry && !postponeEntryRequest state then
    (s.dialogRequests.get? h).bind fun callbacks =>
      if s.dialogRequestsPending.contains h then none
      else
        some ({ s with
          dialogRequestsPending := s.dialogRequestsPending.emplace h callbacks
          dialogRequests := s.dialogRequests.erase h }.put h
            { state with postponedRequestEntry := false }).postponeRequestDialogEntries
  else some s

def finishSentRequest (h : H) (id : ℕ) : Option (Histories H) :=
  (((s.eraseSent h id).sendPostponed h).moveDialogRequest h).map fun s => s.checkEmptyState h

/-- The callback `finish` of a request. -/
def checkPostponed (h : H) (id : ℕ) : Option (Histories H) :=
  let s := s.emit (.finished h id)
  match s.lookup h with
  | some _ => s.finishSentRequest h id
  | none => some s

def cancelRequest (id : ℕ) : Option (Histories H) :=
  match s.historyByRequest.get? id with
  | none => some s
  | some h =>
    let s := { s with historyByRequest := s.historyByRequest.erase id }.emit (.cancelled h id)
    match s.lookup h with
    | none => some s
    | some state =>
      (s.put h { state with postponed := state.postponed.erase id }).finishSentRequest h id

def deleteMessages (h : H) : Histories H := s.sendRequest h .delete .deleteMessages

def deleteAllMessages (h : H) (args : DeleteAll) (peer : Peer) : Histories H :=
  s.sendRequest h .delete (deleteAllQuery args peer)

def deleteMessagesByDates (h : H) : Histories H := s.sendRequest h .delete .deleteByDates

def requestDialogEntry (h : H) (callback : Option Callback) : Histories H :=
  match s.dialogRequests.get? h with
  | some callbacks =>
    { s with dialogRequests := s.dialogRequests.upsert h fun _ => callbacks ++ callback.toList }
  | none =>
    match s.dialogRequestsPending.get? h with
    | some callbacks =>
      { s with
        dialogRequestsPending :=
          s.dialogRequestsPending.upsert h fun _ => callbacks ++ callback.toList }
    | none =>
      { s with
        dialogRequestsPending := s.dialogRequestsPending.emplace h callback.toList
        }.postponeRequestDialogEntries

/-- The call with a callback, which gets a number. -/
def registerDialogEntry (h : H) : Histories H :=
  ({ s with callbackAutoincrement := s.callbackAutoincrement + 1 }.emit
    (.registered h s.callbackAutoincrement)).requestDialogEntry h (some s.callbackAutoincrement)

def sendDialogRequests : Histories H :=
  if s.dialogRequestsPending.isEmpty then s
  else
    let postponed := s.dialogRequestsPending.keys.filter fun h =>
      postponeEntryRequest (s.state h)
    let histories := s.dialogRequestsPending.keys.filter fun h =>
      !postponeEntryRequest (s.state h)
    let s := postponed.foldl (fun s h =>
      s.put h { s.state h with postponedRequestEntry := true }) s
    { s with
      dialogRequests := emplaceAll s.dialogRequestsPending.entries s.dialogRequests
      dialogRequestsPending := ∅ }.request (.peerDialogs histories)

def setInboxReadTill (h : H) (upTo : MsgId) : Histories H :=
  { s with
    inboxReadBefore := Function.update s.inboxReadBefore h
      (some (match s.inboxReadBefore h with
        | some before => max before (upTo + 1)
        | none => upTo + 1)) }

/-- The request is the one whose answer is taken. -/
def runCallbacks (h : H) (callbacks : Option (List Callback)) (request : ℕ) : Histories H :=
  { s with events := s.events ++ (callbacks.getD []).map fun callback => .ran h callback request }

def dialogEntryApplied (h : H) (request : ℕ) : Histories H :=
  if (s.state h).postponedRequestEntry then s
  else
    let pending := s.dialogRequestsPending.get? h
    let s := { s with dialogRequestsPending := s.dialogRequestsPending.erase h }
    let s := s.runCallbacks h pending request
    let sent := s.dialogRequests.get? h
    let s := { s with dialogRequests := s.dialogRequests.erase h }
    let s := s.runCallbacks h sent request
    let state := s.state h
    if state.sentReadTill ≠ 0 ∧ state.sentReadDone then
      ((s.setInboxReadTill h state.sentReadTill).put h
        { state with sentReadTill := 0 }).checkEmptyState h
    else s

/-- `finalize` of `sendDialogRequests`. -/
def finalize (histories : List H) (request : ℕ) : Histories H :=
  histories.foldl (fun s h => s.dialogEntryApplied h request) s

def readInboxTillNeedsRequest (h : H) (tillId : MsgId) : Bool :=
  isServerMsgId tillId && (s.inboxReadBefore h).getD 1 ≤ tillId

def unreadCountRefreshNeeded (h : H) (unreadCountKnown : Bool) (readTillId : MsgId) : Bool :=
  !unreadCountKnown || (s.inboxReadBefore h).getD 0 < readTillId + 1

/-- `none` is a failed `Expects`. -/
def sendReadRequest (h : H) (state : State) : Option (Histories H) :=
  if state.sentReadTill < state.willReadTill then
    some ((s.put h { state with
      sentReadTill := state.willReadTill
      willReadTill := 0
      willReadWhen := 0
      sentReadDone := false }).sendRequest h .readInbox (.readHistory state.willReadTill))
  else none

/-- One turn of the loop over the states. -/
def sendReadRequestAt (now : Time) (h : H) : Option (Histories H) :=
  match s.lookup h with
  | some state =>
    if state.willReadTill ≠ 0 ∧ state.willReadWhen ≤ now then s.sendReadRequest h state else some s
  | none => some s

def sendReadRequests (now : Time) : Option (Histories H) :=
  s.states.keys.foldlM (fun s h => s.sendReadRequestAt now h) s

/-- What the history and the clock say to `readInboxTill`. -/
structure ReadInfo where
  now : Time
  trackUnreadMessages : Bool
  countStillUnreadLocal : Option ℕ
  unreadCount : Option ℕ

def sendPendingReadInbox (h : H) (now : Time) : Option (Histories H) :=
  match s.lookup h with
  | some state =>
    if state.willReadTill ≠ 0 ∧ state.willReadWhen ≠ 0 then
      (s.put h { state with willReadWhen := 0 }).sendReadRequests now
    else some s
  | none => some s

/-- The last part of `readInboxTill`, which asks for a read. -/
def willRead (h : H) (tillId : MsgId) (force : Bool) (info : ReadInfo) : Option (Histories H) :=
  let state := { s.state h with willReadTill := tillId }
  if force || info.countStillUnreadLocal.getD 0 == 0 then
    ((s.put h { state with willReadWhen := 0 }).sendReadRequests info.now).map fun s =>
      if info.countStillUnreadLocal.isSome then s.setInboxReadTill h tillId else s
  else
    let state :=
      if state.willReadWhen = 0 then
        { state with willReadWhen := info.now + kReadRequestTimeout }
      else state
    some ((s.put h state).setInboxReadTill h tillId)

def readInboxTill (h : H) (tillId : MsgId) (force : Bool) (info : ReadInfo) :
    Option (Histories H) :=
  if !(isServerMsgId tillId || (tillId == 0 && !force)) then none
  else
    let needsRequest := s.readInboxTillNeedsRequest h tillId
    if (!needsRequest && !force) || !info.trackUnreadMessages then some s
    else
      let known := s.lookup h
      if known.any fun state => tillId ≤ state.sentReadTill then some s
      else if known.any fun state => tillId ≤ state.willReadTill then
        if force then s.sendPendingReadInbox h info.now else some s
      else if !needsRequest && known.all fun state => state.willReadTill == 0 then some s
      else if !force && info.countStillUnreadLocal.isSome
          && info.countStillUnreadLocal == info.unreadCount then
        some (s.setInboxReadTill h tillId)
      else s.willRead h tillId force info

/-- What is known when an answer comes. -/
structure Answer where
  done : Bool
  peerIdInvalid : Bool := false
  offset : ℤ := 0
  peer : Peer := .user
  unreadCountKnown : Bool := true
  now : Time := 0

/-- The callback `finished` of a read request; `none` is a failed `Assert`. -/
def readFinished (h : H) (id : ℕ) (tillId : MsgId) (answer : Answer) : Option (Histories H) :=
  (s.lookup h).bind fun state =>
  (if state.sentReadTill = tillId then
    let s := s.put h { state with sentReadDone := true }
    if s.unreadCountRefreshNeeded h answer.unreadCountKnown tillId then
      some (s.requestDialogEntry h none)
    else some (s.put h { state with sentReadDone := true, sentReadTill := 0 })
  else if state.sentReadTill = 0 ∨ tillId < state.sentReadTill then some s
  else none).bind fun s =>
  (s.sendReadRequests answer.now).bind fun s => s.checkPostponed h id

/-- The answer to a request of a history. -/
def requestAnswer (h : H) (id : ℕ) (answer : Answer) : Query → Option (Histories H)
  | .plain | .deleteMessages | .deleteChannelHistory => s.checkPostponed h id
  | .readHistory tillId => s.readFinished h id tillId answer
  -- The answer is taken without `finish`, and a failure is not taken at all.
  | .deleteChannel => some s
  | .deleteChat args =>
    if !answer.done && answer.peerIdInvalid then
      (s.request (.addChatUser h args)).checkPostponed h id
    else s.checkPostponed h id
  | .deleteHistory args =>
    if answer.done && 0 < answer.offset then
      (s.deleteAllMessages h args answer.peer).checkPostponed h id
    else s.checkPostponed h id
  | .deleteByDates =>
    if answer.done && 0 < answer.offset then (s.deleteMessagesByDates h).checkPostponed h id
    else s.checkPostponed h id

/-- A request is in flight until its answer has been taken. -/
def takeAnswer (mtpId : ℕ) (answer : Answer) : Option (Histories H) :=
  match s.flights.get? mtpId with
  | none => some s
  | some (.request h id generator) =>
    (s.requestAnswer h id answer generator).map fun s => s.cancel mtpId
  | some (.addChatUser h args) =>
    let s := if answer.done then s.deleteAllMessages h args answer.peer else s
    some (s.cancel mtpId)
  | some (.peerDialogs histories) => some ((s.finalize histories mtpId).cancel mtpId)

inductive Action (H : Type)
  | sendRequest (history : H) (type : RequestType)
  | deleteMessages (history : H)
  | deleteAllMessages (history : H) (args : DeleteAll) (peer : Peer)
  | deleteMessagesByDates (history : H)
  | cancelRequest (id : ℕ)
  | requestDialogEntry (history : H)
  | postponedCall
  | readInboxTill (history : H) (tillId : MsgId) (force : Bool) (info : ReadInfo)
  | sendPendingReadInbox (history : H) (now : Time)
  | readRequestsTimer (now : Time)
  | setInboxReadTill (history : H) (upTo : MsgId)
  | dialogEntryApplied (history : H)
  | answer (mtpId : ℕ) (answer : Answer)

/-- An answer that no request waits for is not taken. -/
def step (s : Histories H) : Action H → Option (Histories H)
  | .sendRequest h type => some (s.sendRequest h type .plain)
  | .deleteMessages h => some (s.deleteMessages h)
  | .deleteAllMessages h args peer => some (s.deleteAllMessages h args peer)
  | .deleteMessagesByDates h => some (s.deleteMessagesByDates h)
  | .cancelRequest id => s.cancelRequest id
  | .requestDialogEntry h => some (s.registerDialogEntry h)
  | .postponedCall =>
    if s.postponedCalls = 0 then some s
    else some ({ s with postponedCalls := s.postponedCalls - 1 }.sendDialogRequests)
  | .readInboxTill h tillId force info => s.readInboxTill h tillId force info
  | .sendPendingReadInbox h now => s.sendPendingReadInbox h now
  | .readRequestsTimer now => s.sendReadRequests now
  | .setInboxReadTill h upTo => some (s.setInboxReadTill h upTo)
  | .dialogEntryApplied h => some (s.dialogEntryApplied h 0)
  | .answer mtpId answer => s.takeAnswer mtpId answer

/-- A run; `none` is an `Expects` or `Assert` that failed on the way. -/
def run (actions : List (Action H)) (s : Histories H) : Option (Histories H) :=
  actions.foldlM step s

end Histories

end TelegramDesktop.Data
