import TelegramDesktop.Mtproto.SessionContainer

namespace TelegramDesktop.Mtproto
open Base Base.Words

/-- The same request, maybe with other numbers. -/
structure RequestData.Alike (r r' : RequestData) : Prop where
  body : r.body = r'.body
  needsLayer : r.needsLayer = r'.needsLayer
  after : r.after = r'.after

namespace RequestData

theorem Alike.refl (r : RequestData) : r.Alike r := ⟨rfl, rfl, rfl⟩

theorem Alike.trans {r r' r'' : RequestData} (h : r.Alike r') (h' : r'.Alike r'') : r.Alike r'' :=
  ⟨h.body.trans h'.body, h.needsLayer.trans h'.needsLayer, h.after.trans h'.after⟩

theorem alike_assign (r : RequestData) (p : SessionPrivate.Prepared) : (r.assign p).Alike r := by
  rw [assign]
  cases p.seqNo with
  | none => exact Alike.refl r
  | some seqNo =>
    refine ⟨?_, rfl, rfl⟩
    rw [body_setSeqNo, body_setMsgId]

theorem body_ne_nil (r : RequestData) : r.body ≠ [] := by
  have hnonempty := r.serialized.nonempty
  apply List.ne_nil_of_length_pos
  have hcount := r.countLength_body
  have hsame : r.countLength = Mtproto.countLength r.data := rfl
  omega

end RequestData

namespace SessionPrivate

variable (env : SessionEnv)

theorem requests_unusedMsgId (fuel : ℕ) (s : SessionPrivate) (newId : MsgId) :
    (unusedMsgId env fuel s newId).1.requests = s.requests := by
  induction fuel generalizing s newId with
  | zero => rfl
  | succ fuel ih =>
    rw [unusedMsgId]
    split
    · rw [ih]
      rfl
    · rfl

theorem requests_replaceMsgId (s : SessionPrivate) (oldMsgId : MsgId) (needAck : Bool)
    (newId : MsgId) :
    (s.replaceMsgId env oldMsgId needAck newId).session.requests = s.requests := by
  rw [replaceMsgId]
  split
  · rfl
  · exact requests_unusedMsgId env _ s newId

/-- Numbers are taken without a look at the requests. -/
theorem requests_prepareToSend (s : SessionPrivate) (msgId : MsgId) (needAck : Bool)
    (currentLastId : MsgId) (forceNewMsgId : Bool) :
    (s.prepareToSend env msgId needAck currentLastId forceNewMsgId).session.requests =
      s.requests := by
  rw [prepareToSend]
  split
  · dsimp only
    split
    · exact requests_replaceMsgId env _ _ _ _
    · rfl
  · rfl

theorem requests_number (c : Container) (p : Prepared) (r : RequestData) :
    (c.number env p r).session.requests = p.session.requests := by
  rw [Container.number]
  dsimp only
  split <;> rfl

/-- The body of a request that is not kept is as it is. -/
theorem wrappedBody_unkept (s : SessionPrivate) {request : RequestData}
    (h : ¬ (request.requestId ≠ 0 ∧ request.needAck = true)) (initSerialized : List UInt32)
    (needsLayer : Bool) : s.wrappedBody request initSerialized needsLayer = request.body := by
  have hnot : ¬ (request.needsLayer = true ∨ request.after.isSome = true) :=
    fun hasked => h (request.sent hasked)
  rw [not_or] at hnot
  have hlayer : request.needsLayer = false := Bool.eq_false_of_not_eq_true hnot.1
  have hafter : request.after = none := Option.not_isSome_iff_eq_none.mp hnot.2
  rw [wrappedBody, afterWords, hlayer, hafter, Bool.and_false, if_neg Bool.false_ne_true]
  rfl

theorem afterWords_unkept (s : SessionPrivate) {request : RequestData}
    (h : ¬ (request.requestId ≠ 0 ∧ request.needAck = true)) : s.afterWords request = [] := by
  have hnot : ¬ (request.needsLayer = true ∨ request.after.isSome = true) :=
    fun hasked => h (request.sent hasked)
  rw [not_or] at hnot
  rw [afterWords, Option.not_isSome_iff_eq_none.mp hnot.2]
  rfl

/-- A container with some messages, its length counted for them: `size` was counted before, and
`extra` words since. -/
structure Container.Fills (size : ℕ) (count : UInt32) (c : Container) (placed : List Contained)
    (extra : ℕ) : Prop where
  buffer : c.toSendRequest = List.replicate 7 0 ++ .ofNat (4 * (size + extra)) ::
    (mtpc_msg_container :: count :: placed.flatMap Contained.words)
  messages : (c.messages.map fun m => (m.msgId, m.seqNo)) = placed.map fun m => (m.msgId, m.seqNo)

/-- Some bodies more are put, with some words that were not counted before. -/
def Container.Extends (size : ℕ) (count : UInt32) (c c' : Container)
    (bodies : List (List UInt32)) (extra : ℕ) : Prop :=
  ∀ placed before, c.Fills size count placed before → ∃ more, more.map Contained.body = bodies ∧
    c'.Fills size count (placed ++ more) (before + extra)

variable {env} {size : ℕ} {count : UInt32} {c c' c'' : Container}

theorem Container.Extends.refl (h : c'.toSendRequest = c.toSendRequest)
    (hmessages : c'.messages = c.messages) : Extends size count c c' [] 0 := by
  intro placed before hfills
  refine ⟨[], rfl, ?_⟩
  rw [List.append_nil, Nat.add_zero]
  exact ⟨h.trans hfills.buffer, hmessages ▸ hfills.messages⟩

theorem Container.Extends.trans {bodies bodies' : List (List UInt32)} {extra extra' : ℕ}
    (h : Extends size count c c' bodies extra) (h' : Extends size count c' c'' bodies' extra') :
    Extends size count c c'' (bodies ++ bodies') (extra + extra') := by
  intro placed before hfills
  obtain ⟨more, hmore, hnext⟩ := h placed before hfills
  obtain ⟨more', hmore', hlast⟩ := h' _ _ hnext
  refine ⟨more ++ more', ?_, ?_⟩
  · rw [List.map_append, hmore, hmore']
  · rw [← List.append_assoc, ← Nat.add_assoc]
    exact hlast

theorem Container.Extends.trans_zero {bodies bodies' : List (List UInt32)} {extra : ℕ}
    (h : Extends size count c c' bodies extra) (h' : Extends size count c' c'' bodies' 0) :
    Extends size count c c'' (bodies ++ bodies') extra :=
  h.trans h'

theorem Container.Extends.zero_trans {bodies bodies' : List (List UInt32)} {extra : ℕ}
    (h : Extends size count c c' bodies 0) (h' : Extends size count c' c'' bodies' extra) :
    Extends size count c c'' (bodies ++ bodies') extra :=
  Nat.zero_add extra ▸ h.trans h'

/-- What the buffer holds does not depend on the session. -/
theorem Container.Extends.congr {bodies : List (List UInt32)} {extra : ℕ}
    (h : Extends size count c c' bodies extra) (hbuffer : c''.toSendRequest = c'.toSendRequest)
    (hmessages : c''.messages = c'.messages) : Extends size count c c'' bodies extra := by
  intro placed before hfills
  obtain ⟨more, hmore, hnext⟩ := h placed before hfills
  exact ⟨more, hmore, hbuffer.trans hnext.buffer, hmessages ▸ hnext.messages⟩

/-- One message at the end. -/
theorem Container.Extends.one (m : Contained) (message : Message) {extra : ℕ}
    (hbuffer : 8 ≤ c.toSendRequest.length →
      c'.toSendRequest = longer c.toSendRequest extra ++ m.words)
    (hmessages : c'.messages = c.messages ++ [message]) (hid : message.msgId = m.msgId)
    (hseq : message.seqNo = m.seqNo) : Extends size count c c' [m.body] extra := by
  intro placed before hfills
  have hlength : 8 ≤ c.toSendRequest.length := by
    rw [hfills.buffer, List.length_append, List.length_cons, List.length_replicate]
    omega
  have hlonger : longer c.toSendRequest extra = List.replicate 7 0 ++
      .ofNat (4 * (size + (before + extra))) ::
        (mtpc_msg_container :: count :: placed.flatMap Contained.words) := by
    rw [longer, hfills.buffer]
    split
    · next hzero => rw [hzero, Nat.add_zero]
    · have hsum : 4 * (size + before) + extra * 4 = 4 * (size + (before + extra)) := by omega
      rw [addAt_at List.length_replicate.symm, ← UInt32.ofNat_add, hsum]
  refine ⟨[m], rfl, ?_, ?_⟩
  · rw [hbuffer hlength, hlonger, List.flatMap_append, List.flatMap_singleton, List.append_assoc]
    rfl
  · rw [hmessages, List.map_append, List.map_append, hfills.messages, List.map_singleton,
      List.map_singleton, hid, hseq]

theorem extends_placeToContainer (forceNewMsgId : Bool) (r : RequestData) :
    Container.Extends size count c (placeToContainer env c forceNewMsgId r).container
      [r.body] 0 := by
  let placed := r.assign (c.prepareToSend env forceNewMsgId r)
  have hbody : placed.body = r.body := (r.alike_assign _).body
  rw [← hbody]
  apply Container.Extends.one (placed.contained placed.body) placed.message
  · exact fun _ => appendMessage_eq _ _
  · rfl
  · rfl
  · rfl

theorem extends_placeBind (request : Option RequestData) :
    Container.Extends size count c (placeBind env c request)
      (request.toList.map RequestData.body) 0 := by
  cases request with
  | none => exact Container.Extends.refl rfl rfl
  | some r => exact (extends_placeToContainer false r).congr rfl rfl

theorem extends_placePing (forceNewMsgId : Bool) (request : Option RequestData) :
    Container.Extends size count c (placePing env forceNewMsgId c request)
      (request.toList.map RequestData.body) 0 := by
  cases request with
  | none => exact Container.Extends.refl rfl rfl
  | some r => exact (extends_placeToContainer forceNewMsgId r).congr rfl rfl

theorem extends_placeStateOrResend (forceNewMsgId : Bool) (request : Option RequestData) :
    Container.Extends size count c (placeStateOrResend env forceNewMsgId c request)
      (request.toList.map RequestData.body) 0 := by
  cases request with
  | none => exact Container.Extends.refl rfl rfl
  | some r => exact (extends_placeToContainer forceNewMsgId r).congr rfl rfl

theorem extends_placeAckOrHttpWait (forceNewMsgId : Bool) (request : Option RequestData) :
    Container.Extends size count c (placeAckOrHttpWait env forceNewMsgId c request)
      (request.toList.map RequestData.body) 0 := by
  cases request with
  | none => exact Container.Extends.refl rfl rfl
  | some r => exact (extends_placeToContainer forceNewMsgId r).congr rfl rfl

/-- The session when a request is put: the request has its numbers, and is not in `haveSent`
itself yet. -/
def placingSession (env : SessionEnv) (forceNewMsgId : Bool) (c : Container) (ref : ℕ) :
    SessionPrivate :=
  let p := c.prepareToSend env forceNewMsgId (c.session.requests ref)
  (c.number env p (c.session.requests ref)).session.setRequest ref
    ((c.session.requests ref).assign p)

/-- The bodies that the loop puts, each wrapped as the request asks for at its turn. -/
def placedBodies (env : SessionEnv) (forceNewMsgId needsLayer : Bool)
    (initSerialized : List UInt32) : Container → List ℕ → List (List UInt32)
  | _, [] => []
  | c, ref :: refs =>
    let s := placingSession env forceNewMsgId c ref
    s.wrappedBody (s.requests ref) initSerialized needsLayer ::
      placedBodies env forceNewMsgId needsLayer initSerialized
        (placeRequest env forceNewMsgId needsLayer initSerialized c ref) refs

theorem requests_placingSession (forceNewMsgId : Bool) (ref : ℕ) :
    (placingSession env forceNewMsgId c ref).requests =
      Function.update c.session.requests ref ((c.session.requests ref).assign
        (c.prepareToSend env forceNewMsgId (c.session.requests ref))) := by
  rw [placingSession]
  dsimp only [setRequest]
  rw [requests_number, Container.prepareToSend, requests_prepareToSend]

theorem requests_placeRequest (forceNewMsgId needsLayer : Bool) (initSerialized : List UInt32)
    (ref : ℕ) :
    (placeRequest env forceNewMsgId needsLayer initSerialized c ref).session.requests =
      (placingSession env forceNewMsgId c ref).requests := by
  rw [placeRequest]
  split
  · rfl
  · dsimp only
    split <;> rfl

theorem alike_placeRequest (forceNewMsgId needsLayer : Bool) (initSerialized : List UInt32)
    (ref other : ℕ) :
    ((placeRequest env forceNewMsgId needsLayer initSerialized c ref).session.requests other).Alike
      (c.session.requests other) := by
  rw [requests_placeRequest, requests_placingSession]
  by_cases hother : other = ref
  · rw [hother, Function.update_self]
    exact RequestData.alike_assign _ _
  · rw [Function.update_of_ne hother]
    exact RequestData.Alike.refl _

/-- One request is put with its wrappers. -/
theorem extends_placeRequest (forceNewMsgId needsLayer : Bool) {initSerialized : List UInt32}
    (hinit : initSerialized ≠ []) (ref : ℕ) :
    let s := placingSession env forceNewMsgId c ref
    Container.Extends size count c
      (placeRequest env forceNewMsgId needsLayer initSerialized c ref)
      [s.wrappedBody (s.requests ref) initSerialized needsLayer]
      (s.afterWords (s.requests ref)).length := by
  intro s
  let request := (c.session.requests ref).assign
    (c.prepareToSend env forceNewMsgId (c.session.requests ref))
  have hrequest : s.requests ref = request := by
    rw [requests_placingSession, Function.update_self]
  rw [hrequest]
  apply Container.Extends.one (request.contained (s.wrappedBody request initSerialized needsLayer))
    request.message
  · intro hlength
    rw [placeRequest]
    by_cases hkept : request.requestId ≠ 0 ∧ request.needAck = true
    · rw [if_pos hkept]
      exact wrapToContainer_eq hlength s request hinit needsLayer
    · rw [if_neg hkept, wrappedBody_unkept s hkept, afterWords_unkept s hkept]
      exact appendMessage_eq _ _
  · rw [placeRequest]
    split
    · rfl
    · rfl
  · rfl
  · rfl

/-- The words that a message takes. -/
def wordsOf (body : List UInt32) : ℕ := 4 + body.length

/-- What is counted of a request before it is put. -/
def countedOf (needsLayer : Bool) (initSizeInInts : ℕ) (request : RequestData) : ℕ :=
  request.messageSize + if needsLayer && request.needsLayer then initSizeInInts else 0

theorem wordsOf_wrappedBody (s : SessionPrivate) {request request' : RequestData}
    (halike : request.Alike request') (initSerialized : List UInt32) (needsLayer : Bool) :
    wordsOf (s.wrappedBody request initSerialized needsLayer) =
      countedOf needsLayer initSerialized.length request' + (s.afterWords request).length := by
  have hbody := congrArg List.length halike.body
  rw [wordsOf, countedOf, wrappedBody, List.length_append, List.length_append,
    request'.messageSize_eq, ← halike.needsLayer, hbody]
  split
  · omega
  · rw [List.length_nil]
    omega

theorem afterWords_length_le (s : SessionPrivate) (request : RequestData) :
    (s.afterWords request).length ≤ 3 := by
  rw [afterWords]
  cases request.after with
  | none => exact Nat.zero_le 3
  | some after =>
    rw [Option.elim_some]
    dsimp only
    split
    · exact Nat.zero_le 3
    · exact le_rfl

/-- The loop puts its bodies, and the words that were not counted are at most three for each. -/
theorem extends_loop (forceNewMsgId needsLayer : Bool) {initSerialized : List UInt32}
    (hinit : initSerialized ≠ []) {requests : ℕ → RequestData} (refs : List ℕ)
    (halike : ∀ ref, (c.session.requests ref).Alike (requests ref)) :
    ∃ extra, extra ≤ 3 * refs.length ∧
      Container.Extends size count c
        (refs.foldl (placeRequest env forceNewMsgId needsLayer initSerialized) c)
        (placedBodies env forceNewMsgId needsLayer initSerialized c refs) extra ∧
      ((placedBodies env forceNewMsgId needsLayer initSerialized c refs).map wordsOf).sum =
        (refs.map fun ref => countedOf needsLayer initSerialized.length (requests ref)).sum +
          extra := by
  induction refs generalizing c with
  | nil => exact ⟨0, Nat.zero_le _, Container.Extends.refl rfl rfl, rfl⟩
  | cons ref refs ih =>
    have halike' (other : ℕ) :
        ((placeRequest env forceNewMsgId needsLayer initSerialized c ref).session.requests
          other).Alike (requests other) :=
      (alike_placeRequest forceNewMsgId needsLayer initSerialized ref other).trans (halike other)
    obtain ⟨extra, hle, hextends, hsum⟩ := ih halike'
    have hone : Container.Extends size count c
        (placeRequest env forceNewMsgId needsLayer initSerialized c ref) _ _ :=
      extends_placeRequest forceNewMsgId needsLayer hinit ref
    have hsession :
        ((placingSession env forceNewMsgId c ref).requests ref).Alike (requests ref) := by
      rw [requests_placingSession, Function.update_self]
      exact (RequestData.alike_assign _ _).trans (halike ref)
    have hwords := wordsOf_wrappedBody (placingSession env forceNewMsgId c ref) hsession
      initSerialized needsLayer
    have hthree := afterWords_length_le (placingSession env forceNewMsgId c ref)
      ((placingSession env forceNewMsgId c ref).requests ref)
    refine ⟨_, ?_, hone.trans hextends, ?_⟩
    · rw [List.length_cons]
      omega
    · rw [placedBodies, List.map_cons, List.sum_cons, List.map_cons, List.sum_cons, hsum, hwords]
      omega

/-- The bodies of a container in their order. -/
def containerBodies (env : SessionEnv) (s : SessionPrivate) (forceNewMsgId needsLayer : Bool)
    (services : ServiceRequests) (range : List (RequestId × ℕ)) : List (List UInt32) :=
  let c := placeBind env (startContainer env s needsLayer services range) services.bind
  let c := placePing env forceNewMsgId c services.ping
  services.bind.toList.map RequestData.body ++ services.ping.toList.map RequestData.body ++
    placedBodies env forceNewMsgId needsLayer (initSerialized env) c (range.map Prod.snd) ++
    services.state.toList.map RequestData.body ++ services.resend.toList.map RequestData.body ++
    services.ack.toList.map RequestData.body ++ services.httpWait.toList.map RequestData.body

theorem requests_placePing (forceNewMsgId : Bool) (s : SessionPrivate) (needsLayer : Bool)
    (services : ServiceRequests) (range : List (RequestId × ℕ)) :
    (placePing env forceNewMsgId (placeBind env (startContainer env s needsLayer services range)
      services.bind) services.ping).session.requests = s.requests := by
  have hplace (c : Container) (force : Bool) (r : RequestData) :
      (placeToContainer env c force r).container.session.requests = c.session.requests := by
    rw [placeToContainer]
    dsimp only
    rw [requests_number, Container.prepareToSend, requests_prepareToSend]
  have hbind : (placeBind env (startContainer env s needsLayer services range)
      services.bind).session.requests = s.requests := by
    cases services.bind with
    | none => rfl
    | some r => exact hplace _ _ _
  cases services.ping with
  | none => exact hbind
  | some r => exact (hplace _ _ _).trans hbind

theorem extends_placeAll (forceNewMsgId needsLayer : Bool) (s : SessionPrivate)
    (services : ServiceRequests) (range : List (RequestId × ℕ)) :
    ∃ extra, extra ≤ 3 * range.length ∧
      Container.Extends size count (startContainer env s needsLayer services range)
        (placeAll env forceNewMsgId needsLayer services range
          (startContainer env s needsLayer services range))
        (containerBodies env s forceNewMsgId needsLayer services range) extra ∧
      2 + ((containerBodies env s forceNewMsgId needsLayer services range).map wordsOf).sum =
        s.containerSize needsLayer (initSerialized env).length services range + extra := by
  have hinit : initSerialized env ≠ [] := List.cons_ne_nil _ _
  let before := placePing env forceNewMsgId
    (placeBind env (startContainer env s needsLayer services range) services.bind) services.ping
  let after := (range.map Prod.snd).foldl
    (placeRequest env forceNewMsgId needsLayer (initSerialized env)) before
  have hrequests : before.session.requests = s.requests :=
    requests_placePing forceNewMsgId s needsLayer services range
  obtain ⟨extra, hle, hloop, hsum⟩ :
      ∃ extra, extra ≤ 3 * (range.map Prod.snd).length ∧
        Container.Extends size count before after
          (placedBodies env forceNewMsgId needsLayer (initSerialized env) before
            (range.map Prod.snd)) extra ∧
        ((placedBodies env forceNewMsgId needsLayer (initSerialized env) before
            (range.map Prod.snd)).map wordsOf).sum =
          ((range.map Prod.snd).map fun ref =>
            countedOf needsLayer (initSerialized env).length (s.requests ref)).sum + extra :=
    extends_loop forceNewMsgId needsLayer hinit (range.map Prod.snd)
      fun ref => by rw [hrequests]; exact RequestData.Alike.refl _
  refine ⟨extra, by rw [List.length_map] at hle; exact hle, ?_, ?_⟩
  · have herased : Container.Extends size count before
        { after with session := after.session.eraseToSend range } _ extra := hloop.congr rfl rfl
    exact ((((((extends_placeBind services.bind).zero_trans
      (extends_placePing forceNewMsgId services.ping)).zero_trans herased).trans_zero
      (extends_placeStateOrResend forceNewMsgId services.state)).trans_zero
      (extends_placeStateOrResend forceNewMsgId services.resend)).trans_zero
      (extends_placeAckOrHttpWait forceNewMsgId services.ack)).trans_zero
      (extends_placeAckOrHttpWait forceNewMsgId services.httpWait)
  · have hservice (request : Option RequestData) :
        ((request.toList.map RequestData.body).map wordsOf).sum =
          (request.toList.map RequestData.messageSize).sum := by
      cases request with
      | none => rfl
      | some r =>
        show wordsOf r.body + 0 = r.messageSize + 0
        rw [r.messageSize_eq]
        rfl
    have hrange : ((range.map Prod.snd).map fun ref =>
        countedOf needsLayer (initSerialized env).length (s.requests ref)).sum =
        (range.map fun entry => (s.requests entry.2).messageSize +
          if needsLayer && (s.requests entry.2).needsLayer then (initSerialized env).length
          else 0).sum := by
      rw [List.map_map]
      rfl
    rw [containerBodies, containerSize, ServiceRequests.toList]
    simp only [List.map_append, List.sum_append, hservice]
    rw [hsum, hrange]
    omega

theorem length_placedBodies (forceNewMsgId needsLayer : Bool) (initSerialized : List UInt32)
    (c : Container) (refs : List ℕ) :
    (placedBodies env forceNewMsgId needsLayer initSerialized c refs).length = refs.length := by
  induction refs generalizing c with
  | nil => rfl
  | cons ref refs ih =>
    rw [placedBodies, List.length_cons, List.length_cons, ih]

theorem length_containerBodies (forceNewMsgId needsLayer : Bool) (s : SessionPrivate)
    (services : ServiceRequests) (range : List (RequestId × ℕ)) :
    (containerBodies env s forceNewMsgId needsLayer services range).length =
      range.length + services.toList.length := by
  rw [containerBodies, ServiceRequests.toList]
  simp only [List.length_append, List.length_map, length_placedBodies]
  omega

theorem body_ne_nil_placedBodies (forceNewMsgId needsLayer : Bool) (initSerialized : List UInt32)
    (c : Container) (refs : List ℕ) :
    ∀ body ∈ placedBodies env forceNewMsgId needsLayer initSerialized c refs, body ≠ [] := by
  induction refs generalizing c with
  | nil => exact fun body hbody => absurd hbody List.not_mem_nil
  | cons ref refs ih =>
    rw [placedBodies, List.forall_mem_cons]
    refine ⟨fun hnil => ?_, ih _⟩
    rw [wrappedBody] at hnil
    exact RequestData.body_ne_nil _ (List.append_eq_nil_iff.mp hnil).2

theorem body_ne_nil_containerBodies (forceNewMsgId needsLayer : Bool) (s : SessionPrivate)
    (services : ServiceRequests) (range : List (RequestId × ℕ)) :
    ∀ body ∈ containerBodies env s forceNewMsgId needsLayer services range, body ≠ [] := by
  have hservice (request : Option RequestData) :
      ∀ body ∈ request.toList.map RequestData.body, body ≠ [] := by
    intro body hbody
    obtain ⟨r, -, rfl⟩ := List.mem_map.mp hbody
    exact r.body_ne_nil
  intro body hbody
  rw [containerBodies] at hbody
  simp only [List.mem_append] at hbody
  rcases hbody with (((((h | h) | h) | h) | h) | h) | h
  · exact hservice _ _ h
  · exact hservice _ _ h
  · exact body_ne_nil_placedBodies _ _ _ _ _ _ h
  · exact hservice _ _ h
  · exact hservice _ _ h
  · exact hservice _ _ h
  · exact hservice _ _ h

/-- The numbers of a container are written before its length. -/
theorem setNumbers_eq (msgId : MsgId) (seqNo x : UInt32) (rest : List UInt32) :
    setSeqNo (setMsgId (List.replicate 7 0 ++ x :: rest) msgId) seqNo =
      List.replicate 4 0 ++ ofLong msgId ++ [seqNo] ++ x :: rest := by
  have hmsgId : List.replicate 7 0 ++ x :: rest =
      List.replicate 4 0 ++ ([0, 0] ++ ([0] ++ x :: rest)) := rfl
  have hseqNo : List.replicate 4 0 ++ (ofLong msgId ++ ([0] ++ x :: rest)) =
      (List.replicate 4 0 ++ ofLong msgId) ++ ([0] ++ x :: rest) := by
    simp only [List.append_assoc]
  have hfour : kMessageIdPosition = (List.replicate 4 (0 : UInt32)).length := rfl
  have hsix : kSeqNoPosition = (List.replicate 4 (0 : UInt32) ++ ofLong msgId).length := rfl
  have htwo : ([0, 0] : List UInt32).length = (ofLong msgId).length := rfl
  have hone : ([0] : List UInt32).length = [seqNo].length := rfl
  rw [setMsgId, setSeqNo, hmsgId, splice_over hfour htwo, hseqNo, splice_over hsix hone]
  simp only [List.append_assoc]

/-- Whatever the requests ask for and whatever was sent before, the container that is sent reads
back as its messages, each with the numbers that were transmitted and its wrapped body, and its
length is that of its words. -/
theorem sendContainer_reads (env : SessionEnv) (s : SessionPrivate)
    (forceNewMsgId needsLayer : Bool) (services : ServiceRequests)
    (range : List (RequestId × ℕ))
    (hfits : 4 * (s.containerSize needsLayer (initSerialized env).length services range +
      3 * range.length) < 2 ^ 31) :
    let t := (s.sendContainer env forceNewMsgId needsLayer services range).2
    ∃ messages, readContainer (t.toSendRequest.drop 8) = some (messages, []) ∧
      countLength t.toSendRequest = 4 * (t.toSendRequest.drop 8).length ∧
      messages.map Contained.body =
        containerBodies env s forceNewMsgId needsLayer services range ∧
      (messages.map fun m => (m.msgId, m.seqNo)) =
        t.messages.dropLast.map fun m => (m.msgId, m.seqNo) := by
  let size := s.containerSize needsLayer (initSerialized env).length services range
  let count := UInt32.ofNat (range.length + services.toList.length)
  let c := placeAll env forceNewMsgId needsLayer services range
    (startContainer env s needsLayer services range)
  obtain ⟨extra, hextra, hextends, hsum⟩ :
      ∃ extra, extra ≤ 3 * range.length ∧
        Container.Extends size count (startContainer env s needsLayer services range) c
          (containerBodies env s forceNewMsgId needsLayer services range) extra ∧
        2 + ((containerBodies env s forceNewMsgId needsLayer services range).map wordsOf).sum =
          size + extra := extends_placeAll forceNewMsgId needsLayer s services range
  have hstart : (startContainer env s needsLayer services range).Fills size count [] 0 :=
    ⟨rfl, rfl⟩
  obtain ⟨messages, hbodies, hfills⟩ := hextends [] 0 hstart
  rw [List.nil_append, Nat.zero_add] at hfills
  have hlength : messages.length = range.length + services.toList.length := by
    rw [← length_containerBodies forceNewMsgId needsLayer s services range, ← hbodies,
      List.length_map]
  have hwords : (messages.flatMap Contained.words).length =
      ((containerBodies env s forceNewMsgId needsLayer services range).map wordsOf).sum := by
    rw [List.length_flatMap, ← hbodies, List.map_map]
    exact congrArg List.sum (List.map_congr_left fun m _ => m.length_words)
  have hsmall : ∀ m ∈ messages, m.Fits := by
    intro m hm
    have hbody : m.body ∈ containerBodies env s forceNewMsgId needsLayer services range :=
      hbodies ▸ List.mem_map_of_mem hm
    have hle : wordsOf m.body ≤
        ((containerBodies env s forceNewMsgId needsLayer services range).map wordsOf).sum :=
      List.single_le_sum (fun _ _ => Nat.zero_le _) _ (List.mem_map_of_mem hbody)
    refine ⟨body_ne_nil_containerBodies _ _ _ _ _ _ hbody, ?_⟩
    rw [wordsOf] at hle
    omega
  have hcount : count.toNat = messages.length := by
    have hmany : messages.length ≤ (messages.flatMap Contained.words).length := by
      rw [List.length_flatMap]
      have hone : ∀ n ∈ messages.map fun m => m.words.length, 1 ≤ n := by
        intro n hn
        obtain ⟨m, -, rfl⟩ := List.mem_map.mp hn
        rw [m.length_words]
        omega
      have hle := List.length_le_sum_of_one_le _ hone
      rw [List.length_map] at hle
      exact hle
    rw [UInt32.toNat_ofNat', hlength, Nat.mod_eq_of_lt (by omega)]
  -- The words from the length on are left alone by the numbers.
  let body := mtpc_msg_container :: count :: messages.flatMap Contained.words
  have hbody : body.length = size + extra := by
    show (messages.flatMap Contained.words).length + 1 + 1 = size + extra
    omega
  have hread : readContainer body = some (messages, []) := by
    show (if mtpc_msg_container = mtpc_msg_container then
      readMessages count.toNat (messages.flatMap Contained.words) else none) = _
    have hmessages := readMessages_words messages hsmall []
    rw [List.append_nil] at hmessages
    rw [if_pos rfl, hcount, hmessages]
  have hwhole : ∃ header : List UInt32, header.length = 7 ∧
      (s.sendContainer env forceNewMsgId needsLayer services range).2.toSendRequest =
        header ++ .ofNat (4 * (size + extra)) :: body := by
    rw [sendContainer]
    dsimp only
    split
    · rw [hfills.buffer, setNumbers_eq]
      exact ⟨_, rfl, rfl⟩
    · rw [hfills.buffer]
      exact ⟨_, rfl, rfl⟩
  obtain ⟨header, hheader, hbuffer⟩ := hwhole
  have hdrop :
      (s.sendContainer env forceNewMsgId needsLayer services range).2.toSendRequest.drop 8 =
        body := by
    rw [hbuffer, ← List.singleton_append, ← List.append_assoc]
    apply List.drop_left'
    rw [List.length_append, hheader]
    rfl
  refine ⟨messages, ?_, ?_, hbodies, ?_⟩
  · rw [hdrop]
    exact hread
  · have hget : (s.sendContainer env forceNewMsgId needsLayer services range).2.toSendRequest.getD
        kMessageLengthPosition 0 = .ofNat (4 * (size + extra)) := by
      rw [hbuffer, List.getD_eq_getElem?_getD, List.getElem?_append_right (by rw [hheader]; rfl),
        hheader]
      rfl
    rw [countLength, hget, hdrop, hbody, UInt32.toNat_ofNat', Nat.mod_eq_of_lt (by omega)]
  · show _ = (c.messages ++ [_]).dropLast.map _
    rw [List.dropLast_concat, hfills.messages]

theorem sampleWords_ne_nil : ([5, 6] : List UInt32) ≠ [] := by decide

theorem sampleWords_fits : 4 * ([5, 6] : List UInt32).length < 2 ^ 32 := by decide

def sampleBody : Body := ⟨[5, 6], sampleWords_ne_nil, sampleWords_fits⟩

local instance neZero_sampleMsgId : NeZero (2 ^ 64) := ⟨by decide⟩

def sampleContainerEnv : SessionEnv where
  msgId n := .ofNat (2 ^ 64) (8 + 4 * n)
  initConnection := [7, 8]

theorem sampleNeedAck :
    (1 : RequestId) ≠ 0 ∧ needAck (RequestData.serialize sampleBody).data = true :=
  ⟨by decide, by decide +kernel⟩

def sampleRequest : RequestData :=
  { RequestData.serialize sampleBody with
    after := some 0
    requestId := 1
    needsLayer := true
    sent := fun _ => sampleNeedAck }

def sampleSession : SessionPrivate where
  requests ref := if ref = 0 then (RequestData.serialize sampleBody).setMsgId 4 else sampleRequest
  haveSent := FlatMap.emplace ∅ 4 0
  sessionId := 1

theorem sendContainer_reads_sample :
    let t := (sampleSession.sendContainer sampleContainerEnv false true
      { ping := some (RequestData.serialize sampleBody) } [(1, 1)]).2
    ∃ messages, readContainer (t.toSendRequest.drop 8) = some (messages, []) ∧
      countLength t.toSendRequest = 4 * (t.toSendRequest.drop 8).length ∧
      messages.map Contained.body = containerBodies sampleContainerEnv sampleSession false true
        { ping := some (RequestData.serialize sampleBody) } [(1, 1)] ∧
      (messages.map fun m => (m.msgId, m.seqNo)) =
        t.messages.dropLast.map fun m => (m.msgId, m.seqNo) :=
  sendContainer_reads sampleContainerEnv sampleSession false true _ _ (by decide +kernel)

end SessionPrivate

end TelegramDesktop.Mtproto
