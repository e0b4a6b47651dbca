import TelegramDesktop.Mtproto.Session

namespace TelegramDesktop.Mtproto
open Base Base.Words

structure ServiceRequests where
  ping : Option RequestData := none
  ack : Option RequestData := none
  resend : Option RequestData := none
  state : Option RequestData := none
  httpWait : Option RequestData := none
  bind : Option RequestData := none

def ServiceRequests.toList (services : ServiceRequests) : List RequestData :=
  services.ping.toList ++ services.ack.toList ++ services.resend.toList ++
    services.state.toList ++ services.httpWait.toList ++ services.bind.toList

/-- A buffer handed to `sendSecureRequest`, and the messages that were written to it. -/
structure Transmitted where
  sessionId : UInt64
  toSendRequest : List UInt32
  messages : List Message

namespace SessionPrivate

def setRequest (s : SessionPrivate) (ref : ℕ) (request : RequestData) : SessionPrivate :=
  { s with requests := Function.update s.requests ref request }

def eraseToSend (s : SessionPrivate) (range : List (RequestId × ℕ)) : SessionPrivate :=
  { s with toSend := range.foldl (fun toSend entry => toSend.erase entry.1) s.toSend }

/-- A container while it is written: `sentIds` are the messages of its `SentContainer`. -/
structure Container where
  session : SessionPrivate
  toSendRequest : List UInt32
  bigMsgId : MsgId
  sentIds : List MsgId := []
  messages : List Message := []

/-- The numbers of the next message, and a newer `bigMsgId` if it has taken this one. -/
def Container.number (env : SessionEnv) (c : Container) (p : Prepared) (r : RequestData) :
    Container :=
  let next := p.session.nextMsgId env
  { c with
    session := if c.bigMsgId ≤ p.msgId then next.1 else p.session
    bigMsgId := if c.bigMsgId ≤ p.msgId then next.2 else c.bigMsgId
    messages := c.messages ++ [(r.assign p).message] }

def Container.prepareToSend (env : SessionEnv) (c : Container) (forceNewMsgId : Bool)
    (r : RequestData) : Prepared :=
  c.session.prepareToSend env r.getMsgId r.needAck c.bigMsgId forceNewMsgId

structure Placed where
  container : Container
  request : RequestData
  msgId : MsgId

def placeToContainer (env : SessionEnv) (c : Container) (forceNewMsgId : Bool) (r : RequestData) :
    Placed :=
  let p := c.prepareToSend env forceNewMsgId r
  let c := c.number env p r
  ⟨{ c with toSendRequest := appendMessage c.toSendRequest (r.assign p) }, r.assign p, p.msgId⟩

/-- A request that is kept until it is answered, wrapped as it asks for. -/
def wrapToContainer (s : SessionPrivate) (target : List UInt32) (request : RequestData)
    (initSerialized : List UInt32) (needsLayer : Bool) : List UInt32 :=
  let initSizeInInts := initSerialized.length
  let reqNeedsLayer := if needsLayer && request.needsLayer then target.length else 0
  match request.after with
  | some after =>
    let target := wrapInvokeAfter target request (s.requests after).getMsgId s.haveSent
      (if reqNeedsLayer ≠ 0 then initSizeInInts else 0)
    if reqNeedsLayer ≠ 0 then
      addAt (splice target (reqNeedsLayer + 4) initSerialized) (reqNeedsLayer + 3)
        (4 * initSizeInInts)
    else target
  | none =>
    if reqNeedsLayer ≠ 0 then
      let target := resize target (reqNeedsLayer + initSizeInInts + request.messageSize)
      let target := splice target reqNeedsLayer (slice request.data 4 4)
      let target := splice target (reqNeedsLayer + 4) initSerialized
      let target := splice target (reqNeedsLayer + 4 + initSizeInInts)
        (slice request.data 8 (request.countLength / 4))
      addAt target (reqNeedsLayer + 3) (4 * initSizeInInts)
    else appendMessage target request

/-- One step of the loop over the requests that are sent now. -/
def placeRequest (env : SessionEnv) (forceNewMsgId needsLayer : Bool) (initSerialized : List UInt32)
    (c : Container) (ref : ℕ) : Container :=
  let p := c.prepareToSend env forceNewMsgId (c.session.requests ref)
  let request := (c.session.requests ref).assign p
  let c := c.number env p (c.session.requests ref)
  let s := c.session.setRequest ref request
  if request.requestId ≠ 0 ∧ request.needAck = true then
    { c with
      toSendRequest := s.wrapToContainer c.toSendRequest request initSerialized needsLayer
      session := { s with haveSent := s.haveSent.emplace p.msgId ref }
      sentIds := c.sentIds ++ [p.msgId] }
  else
    { c with
      toSendRequest := appendMessage c.toSendRequest request
      session :=
        if request.requestId ≠ 0 then
          { s with ackedIds := s.ackedIds.emplace p.msgId request.requestId }
        else s }

def placeBind (env : SessionEnv) (c : Container) : Option RequestData → Container
  | some bind =>
    let placed := placeToContainer env c false bind
    { placed.container with
      session := { placed.container.session with bindMsgId := placed.msgId }
      sentIds := c.sentIds ++ [placed.msgId] }
  | none => c

def placePing (env : SessionEnv) (forceNewMsgId : Bool) (c : Container) :
    Option RequestData → Container
  | some ping =>
    let placed := placeToContainer env c forceNewMsgId ping
    { placed.container with
      session := { placed.container.session with pingMsgId := placed.msgId }
      sentIds := c.sentIds ++ [placed.msgId] }
  | none => c

def placeStateOrResend (env : SessionEnv) (forceNewMsgId : Bool) (c : Container) :
    Option RequestData → Container
  | some request =>
    let placed := placeToContainer env c forceNewMsgId request
    { placed.container with
      session := { placed.container.session with
        stateAndResendRequests :=
          placed.container.session.stateAndResendRequests.emplace placed.msgId placed.request } }
  | none => c

def placeAckOrHttpWait (env : SessionEnv) (forceNewMsgId : Bool) (c : Container) :
    Option RequestData → Container
  | some request => (placeToContainer env c forceNewMsgId request).container
  | none => c

/-- The size of the container's body before it is written. -/
def containerSize (s : SessionPrivate) (needsLayer : Bool) (initSizeInInts : ℕ)
    (services : ServiceRequests) (range : List (RequestId × ℕ)) : ℕ :=
  1 + 1 + (services.toList.map RequestData.messageSize).sum +
    (range.map fun entry =>
      (s.requests entry.2).messageSize +
        if needsLayer && (s.requests entry.2).needsLayer then initSizeInInts else 0).sum

def initSerialized (env : SessionEnv) : List UInt32 :=
  [mtpc_invokeWithLayer, kCurrentLayer] ++ env.initConnection

/-- All messages of a container, one after another. -/
def placeAll (env : SessionEnv) (forceNewMsgId needsLayer : Bool) (services : ServiceRequests)
    (range : List (RequestId × ℕ)) (c : Container) : Container :=
  let c := placeBind env c services.bind
  let c := placePing env forceNewMsgId c services.ping
  let c := (range.map Prod.snd).foldl
    (placeRequest env forceNewMsgId needsLayer (initSerialized env)) c
  let c := { c with session := c.session.eraseToSend range }
  let c := placeStateOrResend env forceNewMsgId c services.state
  let c := placeStateOrResend env forceNewMsgId c services.resend
  let c := placeAckOrHttpWait env forceNewMsgId c services.ack
  placeAckOrHttpWait env forceNewMsgId c services.httpWait

def startContainer (env : SessionEnv) (s : SessionPrivate) (needsLayer : Bool)
    (services : ServiceRequests) (range : List (RequestId × ℕ)) : Container :=
  let next := s.nextMsgId env
  { session := next.1
    toSendRequest :=
      prepare (s.containerSize needsLayer (initSerialized env).length services range) ++
        [mtpc_msg_container, .ofNat (range.length + services.toList.length)]
    bigMsgId := next.2 }

/-- Send in a container. -/
def sendContainer (env : SessionEnv) (s : SessionPrivate) (forceNewMsgId needsLayer : Bool)
    (services : ServiceRequests) (range : List (RequestId × ℕ)) : SessionPrivate × Transmitted :=
  let c := placeAll env forceNewMsgId needsLayer services range
    (startContainer env s needsLayer services range)
  let needAck := needAck c.toSendRequest
  let p := c.session.prepareToSend env (getMsgId c.toSendRequest) needAck c.bigMsgId forceNewMsgId
  let toSendRequest := match p.seqNo with
    | some seqNo => setSeqNo (setMsgId c.toSendRequest p.msgId) seqNo
    | none => c.toSendRequest
  ({ p.session with sentContainers := p.session.sentContainers.emplace p.msgId c.sentIds },
    ⟨s.sessionId, toSendRequest, c.messages ++ [⟨p.msgId, getSeqNo toSendRequest, needAck⟩]⟩)

end SessionPrivate

end TelegramDesktop.Mtproto
