import TelegramDesktop.Base.FlatMap
import TelegramDesktop.Mtproto.SerializedRequest

namespace TelegramDesktop.Mtproto
open Base Base.Words

local instance neZero_msgId : NeZero (2 ^ 64) := ⟨by decide⟩

/-- What lies outside the session: successive results of `base::unixtime::mtproto_msg_id`, and the
`initConnection` that was written before the requests. -/
structure SessionEnv where
  msgId : ℕ → MsgId
  initConnection : List UInt32

/-- A message as the server numbers it; `content` ones need an ack. -/
structure Message where
  msgId : MsgId
  seqNo : UInt32
  content : Bool
  deriving DecidableEq

def RequestData.message (r : RequestData) : Message := ⟨r.getMsgId, r.getSeqNo, r.needAck⟩

/-- `SessionPrivate` with the maps of its `SessionData`. Requests are shared, the maps hold where
they are. `ticks` counts the calls of `mtproto_msg_id`, `allocated` are the numbers that
`nextRequestSeqNumber` has given out. -/
structure SessionPrivate where
  requests : ℕ → RequestData
  toSend : FlatMap RequestId ℕ := ∅
  haveSent : FlatMap MsgId ℕ := ∅
  sessionId : UInt64
  messagesCounter : UInt32 := 0
  resendingIds : FlatMap MsgId RequestId := ∅
  ackedIds : FlatMap MsgId RequestId := ∅
  stateAndResendRequests : FlatMap MsgId RequestData := ∅
  sentContainers : FlatMap MsgId (List MsgId) := ∅
  pingMsgId : MsgId := 0
  bindMsgId : MsgId := 0
  ticks : ℕ := 0
  allocated : List UInt32 := []

namespace SessionPrivate

def nextRequestSeqNumber (s : SessionPrivate) (needAck : Bool) : SessionPrivate × UInt32 :=
  let increment : UInt32 := if needAck then 1 else 0
  let result := s.messagesCounter * 2 + increment
  ({ s with
    messagesCounter := s.messagesCounter + increment
    allocated := s.allocated ++ [result] }, result)

/-- `base::unixtime::mtproto_msg_id()`. -/
def nextMsgId (env : SessionEnv) (s : SessionPrivate) : SessionPrivate × MsgId :=
  ({ s with ticks := s.ticks + 1 }, env.msgId s.ticks)

/-- What is to be written to a request before it is sent: `none` if it keeps its numbers. -/
structure Prepared where
  session : SessionPrivate
  msgId : MsgId
  seqNo : Option UInt32

def usesMsgId (s : SessionPrivate) (msgId : MsgId) : Bool :=
  s.resendingIds.contains msgId || s.ackedIds.contains msgId || s.haveSent.contains msgId

/-- The first id not in use, among as many as there can be in use. -/
def unusedMsgId (env : SessionEnv) : ℕ → SessionPrivate → MsgId → SessionPrivate × MsgId
  | 0, s, newId => (s, newId)
  | fuel + 1, s, newId =>
    if s.usesMsgId newId then
      unusedMsgId env fuel (s.nextMsgId env).1 (s.nextMsgId env).2
    else (s, newId)

def rename {ν : Type} (m : FlatMap MsgId ν) (oldMsgId newId : MsgId) : FlatMap MsgId ν :=
  match m.get? oldMsgId with
  | some v => (m.erase oldMsgId).emplace newId v
  | none => m

def replaceMsgId (env : SessionEnv) (s : SessionPrivate) (oldMsgId : MsgId) (needAck : Bool)
    (newId : MsgId) : Prepared :=
  if oldMsgId = newId then ⟨s, newId, none⟩
  else
    let fuel := s.resendingIds.size + s.ackedIds.size + s.haveSent.size + 1
    let unused := unusedMsgId env fuel s newId
    let s := unused.1
    let newId := unused.2
    let s := { s with
      resendingIds := rename s.resendingIds oldMsgId newId
      ackedIds := rename s.ackedIds oldMsgId newId
      haveSent := rename s.haveSent oldMsgId newId
      sentContainers := s.sentContainers.mapValues fun messages =>
        messages.map fun innerMsgId => if innerMsgId = oldMsgId then newId else innerMsgId }
    let next := s.nextRequestSeqNumber needAck
    ⟨next.1, newId, some next.2⟩

def prepareToSend (env : SessionEnv) (s : SessionPrivate) (msgId : MsgId) (needAck : Bool)
    (currentLastId : MsgId) (forceNewMsgId : Bool) : Prepared :=
  if msgId ≠ 0 then
    -- resending this request
    let s := { s with resendingIds := s.resendingIds.erase msgId }
    if forceNewMsgId = true ∨ currentLastId < msgId then
      s.replaceMsgId env msgId needAck currentLastId
    else ⟨s, msgId, none⟩
  else
    let next := s.nextRequestSeqNumber needAck
    ⟨next.1, currentLastId, some next.2⟩

end SessionPrivate

def RequestData.assign (r : RequestData) (p : SessionPrivate.Prepared) : RequestData :=
  match p.seqNo with
  | some seqNo => (r.setMsgId p.msgId).setSeqNo seqNo
  | none => r

def resize (data : List UInt32) (size : ℕ) : List UInt32 :=
  data.take size ++ List.replicate (size - data.length) 0

def addAt (data : List UInt32) (i : ℕ) (n : ℕ) : List UInt32 :=
  data.set i (data.getD i 0 + .ofNat n)

def wrapInvokeAfter (target : List UInt32) (request : RequestData) (afterId : MsgId)
    (haveSent : FlatMap MsgId ℕ) (skipBeforeRequest : ℕ) : List UInt32 :=
  let size := target.length
  let lenInInts := request.countLength / 4
  let headlen := 4
  let fulllen := headlen + lenInInts
  if afterId = 0 ∨ haveSent.contains afterId = false then
    -- no invoke after or such msg was not sent or was completed recently
    let target := resize target (size + fulllen + skipBeforeRequest)
    if skipBeforeRequest ≠ 0 then
      let target := splice target size (slice request.data 4 headlen)
      splice target (size + headlen + skipBeforeRequest)
        (slice request.data (4 + headlen) lenInInts)
    else splice target size (slice request.data 4 fulllen)
  else
    let target := resize target (size + fulllen + skipBeforeRequest + 3)
    let target := splice target size (slice request.data 4 headlen)
    let target := addAt target (size + 3) (3 * 4)
    let target := target.set (size + headlen + skipBeforeRequest) mtpc_invokeAfterMsg
    let target := splice target (size + headlen + skipBeforeRequest + 1) (ofLong afterId)
    let target := splice target (size + headlen + skipBeforeRequest + 3)
      (slice request.data (4 + headlen) lenInInts)
    if size + 3 ≠ 7 then addAt target 7 (3 * 4) else target

/-- The request as it is, behind what is there. -/
def appendMessage (target : List UInt32) (request : RequestData) : List UInt32 :=
  target ++ slice request.data 4 request.messageSize

end TelegramDesktop.Mtproto
