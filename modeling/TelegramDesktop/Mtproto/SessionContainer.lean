import TelegramDesktop.Mtproto.SessionSend

namespace TelegramDesktop.Mtproto
open Base Base.Words

/-- A message in a container, without what its handler makes of it. -/
structure Contained where
  msgId : MsgId
  seqNo : UInt32
  body : List UInt32
  deriving DecidableEq

/-- The messages of a container and what follows them. -/
def readMessages : ℕ → List UInt32 → Option (List Contained × List UInt32)
  | 0, data => some ([], data)
  | count + 1, lo :: hi :: inSeqNo :: bytes :: data =>
    if bytes.toNat % 4 ≠ 0 ∨ (⟨bytes⟩ : Int32) < 4 ∨ data.length < bytes.toNat / 4 then none
    else (readMessages count (data.drop (bytes.toNat / 4))).map fun rest =>
      (⟨long lo hi, inSeqNo, data.take (bytes.toNat / 4)⟩ :: rest.1, rest.2)
  | _ + 1, _ => none

def readContainer : List UInt32 → Option (List Contained × List UInt32)
  | cons :: msgsCount :: data =>
    if cons = mtpc_msg_container then readMessages msgsCount.toNat data else none
  | _ => none

/-- A message as it stands in a container. -/
def Contained.words (m : Contained) : List UInt32 :=
  ofLong m.msgId ++ [m.seqNo, .ofNat (4 * m.body.length)] ++ m.body

theorem Contained.length_words (m : Contained) : m.words.length = 4 + m.body.length := by
  rw [words, List.length_append, List.length_append, length_ofLong]
  rfl

/-- A body that is there and whose length is an `int`. -/
def Contained.Fits (m : Contained) : Prop := m.body ≠ [] ∧ 4 * m.body.length < 2 ^ 31

theorem readMessages_words (messages : List Contained) (hfits : ∀ m ∈ messages, m.Fits)
    (rest : List UInt32) :
    readMessages messages.length (messages.flatMap Contained.words ++ rest) =
      some (messages, rest) := by
  induction messages with
  | nil => rfl
  | cons m messages ih =>
    rw [List.forall_mem_cons] at hfits
    obtain ⟨hnonempty, hlength⟩ := hfits.1
    have hpos := List.length_pos_of_ne_nil hnonempty
    have hbytes : (UInt32.ofNat (4 * m.body.length)).toNat = 4 * m.body.length := by
      rw [UInt32.toNat_ofNat', Nat.mod_eq_of_lt (by omega)]
    have hdiv : 4 * m.body.length / 4 = m.body.length := by omega
    have hint : ¬ (⟨.ofNat (4 * m.body.length)⟩ : Int32) < 4 := by
      show ¬ Int32.ofNat (4 * m.body.length) < Int32.ofNat 4
      rw [Int32.lt_iff_toInt_lt, Int32.toInt_ofNat_of_lt hlength,
        Int32.toInt_ofNat_of_lt (by omega)]
      omega
    have hbad : ¬ (4 * m.body.length % 4 ≠ 0 ∨ (⟨.ofNat (4 * m.body.length)⟩ : Int32) < 4 ∨
        (m.body ++ (messages.flatMap Contained.words ++ rest)).length < m.body.length) := by
      rw [List.length_append]
      rintro (h | h | h)
      · omega
      · exact hint h
      · omega
    have hwords : (m :: messages).flatMap Contained.words ++ rest =
        .ofNat m.msgId :: .ofNat (m.msgId / 2 ^ 32) :: m.seqNo :: .ofNat (4 * m.body.length) ::
          (m.body ++ (messages.flatMap Contained.words ++ rest)) := by
      rw [List.flatMap_cons, Contained.words, List.append_assoc, List.append_assoc]
      rfl
    rw [hwords, List.length_cons, readMessages, hbytes, hdiv, if_neg hbad, List.drop_left,
      List.take_left, ih hfits.2, Option.map_some, long_ofLong]

section Buffer

variable {before rest xs : List UInt32} {x : UInt32} {i n : ℕ}

theorem resize_append (data : List UInt32) (n : ℕ) :
    resize data (data.length + n) = data ++ List.replicate n 0 := by
  rw [resize, List.take_of_length_le (Nat.le_add_right _ _), Nat.add_sub_cancel_left]

/-- A write over what has its length. -/
theorem splice_over {old : List UInt32} (hi : i = before.length) (hold : old.length = xs.length) :
    splice (before ++ (old ++ rest)) i xs = before ++ (xs ++ rest) := by
  have htake : (before ++ (old ++ rest)).take i = before := by
    rw [hi, List.take_left]
  have hdrop : (before ++ (old ++ rest)).drop (i + xs.length) = rest := by
    rw [← List.append_assoc]
    apply List.drop_left'
    rw [List.length_append, hi, hold]
  rw [splice, htake, hdrop, List.append_assoc]

theorem set_at (hi : i = before.length) (y : UInt32) :
    (before ++ x :: rest).set i y = before ++ y :: rest := by
  rw [hi, List.set_append_right _ _ le_rfl, Nat.sub_self]
  rfl

theorem addAt_at (hi : i = before.length) (n : ℕ) :
    addAt (before ++ x :: rest) i n = before ++ (x + .ofNat n) :: rest := by
  have hget : (before ++ x :: rest).getD i 0 = x := by
    rw [List.getD_eq_getElem?_getD, hi, List.getElem?_append_right le_rfl, Nat.sub_self]
    rfl
  rw [addAt, hget, set_at hi]

theorem addAt_append (hi : i < before.length) (n : ℕ) :
    addAt (before ++ rest) i n = addAt before i n ++ rest := by
  rw [addAt, addAt, List.set_append_left _ _ hi, List.getD_append _ _ _ _ hi]

end Buffer

namespace RequestData

variable (r : RequestData)

/-- The request as a message with some body. -/
def contained (body : List UInt32) : Contained := ⟨r.getMsgId, r.getSeqNo, body⟩

theorem length_body : r.body.length = r.countLength / 4 :=
  length_slice r.serialized.whole

theorem countLength_body : r.countLength = 4 * r.body.length := by
  have haligned := r.serialized.aligned
  rw [length_body]
  exact (Nat.mul_div_cancel' haligned).symm

theorem ofLong_long (lo hi : UInt32) : ofLong (long lo hi) = [lo, hi] := by
  have hlo := lo.toNat_lt
  have hlow : UInt32.ofNat (lo.toNat + 2 ^ 32 * hi.toNat) = lo := by
    apply UInt32.toNat_inj.mp
    rw [UInt32.toNat_ofNat']
    omega
  have hhigh : UInt32.ofNat ((lo.toNat + 2 ^ 32 * hi.toNat) / 2 ^ 32) = hi := by
    rw [Nat.add_mul_div_left _ _ (by omega), Nat.div_eq_of_lt hlo, zero_add, UInt32.ofNat_toNat]
  exact congrArg₂ (fun x y => [x, y]) hlow hhigh

/-- The four words before the body. -/
theorem header_eq :
    slice r.data 4 4 = ofLong r.getMsgId ++ [r.getSeqNo, .ofNat (4 * r.body.length)] := by
  have hsize := r.serialized.size
  rw [kMessageBodyPosition] at hsize
  have hwords : slice r.data 4 4 =
      [r.data.getD 4 0, r.data.getD 5 0, r.data.getD 6 0, r.data.getD 7 0] := by
    apply List.ext_getElem
    · exact length_slice (by omega)
    · intro i hi hi'
      have hfour : i < 4 := hi'
      have hbound : 4 + i < r.data.length := by omega
      have hget : (slice r.data 4 4)[i] = r.data[4 + i] := by
        simp only [slice, List.getElem_take, List.getElem_drop]
      rw [hget]
      interval_cases i <;> exact (List.getD_eq_getElem _ _ (by omega)).symm
  have hlength : r.data.getD 7 0 = .ofNat (4 * r.body.length) := by
    rw [← countLength_body]
    exact UInt32.ofNat_toNat.symm
  rw [hwords, hlength]
  show _ = ofLong (long (r.data.getD 4 0) (r.data.getD 5 0)) ++ [r.data.getD 6 0, _]
  rw [ofLong_long]
  rfl

theorem slice_message :
    slice r.data 4 r.messageSize = (r.contained r.body).words := by
  have hsize : r.messageSize = 4 + r.countLength / 4 := rfl
  rw [hsize, slice_append, header_eq]
  rfl

theorem messageSize_eq : r.messageSize = 4 + r.body.length := by
  rw [length_body]
  rfl

end RequestData

theorem appendMessage_eq (target : List UInt32) (r : RequestData) :
    appendMessage target r = target ++ (r.contained r.body).words := by
  rw [appendMessage, r.slice_message]

namespace SessionPrivate

local instance neZero_msgId : NeZero (2 ^ 64) := ⟨by decide⟩

/-- What stands before the body of a request that is to come after another one, while that one
is waited for. -/
def afterWords (s : SessionPrivate) (request : RequestData) : List UInt32 :=
  request.after.elim [] fun after =>
    let afterId := (s.requests after).getMsgId
    if afterId = 0 ∨ s.haveSent.contains afterId = false then []
    else mtpc_invokeAfterMsg :: ofLong afterId

/-- The layer, the order and the body, in this order. -/
def wrappedBody (s : SessionPrivate) (request : RequestData) (initSerialized : List UInt32)
    (needsLayer : Bool) : List UInt32 :=
  (if needsLayer && request.needsLayer then initSerialized else []) ++
    s.afterWords request ++ request.body

end SessionPrivate

/-- The length of the container, when some words more are put in it. -/
def longer (target : List UInt32) (words : ℕ) : List UInt32 :=
  if words = 0 then target else addAt target 7 (words * 4)

section Wrap

variable {target head header id body : List UInt32}

/-- A message without an order, its body behind some room. -/
theorem write_plain (hhead : head.length = 4) (skip : ℕ) :
    (if skip ≠ 0 then
      splice (splice (resize target (target.length + (4 + body.length) + skip)) target.length head)
        (target.length + 4 + skip) body
    else splice (resize target (target.length + (4 + body.length) + skip)) target.length
      (head ++ body)) =
      target ++ (head ++ (List.replicate skip 0 ++ body)) := by
  have hresized : resize target (target.length + (4 + body.length) + skip) =
      target ++ (List.replicate 4 0 ++ (List.replicate skip 0 ++
        (List.replicate body.length 0 ++ []))) := by
    rw [add_assoc, resize_append, add_assoc, add_comm body.length, List.replicate_add,
      List.replicate_add, List.append_nil]
  rw [hresized]
  by_cases hskip : skip ≠ 0
  · have hbefore : target ++ (head ++ (List.replicate skip 0 ++
        (List.replicate body.length 0 ++ []))) =
        (target ++ (head ++ List.replicate skip 0)) ++ (List.replicate body.length 0 ++ []) := by
      simp only [List.append_assoc]
    rw [if_pos hskip, splice_over rfl (by rw [hhead]; rfl), hbefore, splice_over ?_ (by simp)]
    · simp only [List.append_assoc, List.append_nil]
    · rw [List.length_append, List.length_append, hhead, List.length_replicate]
      omega
  · have hnone : skip = 0 := not_not.mp hskip
    have hold : target ++ (List.replicate 4 0 ++ (List.replicate skip 0 ++
        (List.replicate body.length 0 ++ []))) =
        target ++ ((List.replicate 4 0 ++ List.replicate body.length 0) ++ []) := by
      rw [hnone]
      simp only [List.append_assoc, List.replicate_zero, List.nil_append]
    have hlength : (List.replicate 4 (0 : UInt32) ++ List.replicate body.length 0).length =
        (head ++ body).length := by
      rw [List.length_append, List.length_append, hhead, List.length_replicate,
        List.length_replicate]
    rw [if_neg hskip, hold, splice_over rfl hlength, hnone]
    simp only [List.replicate_zero, List.nil_append, List.append_nil]

/-- A message with an order, before the length of the container is counted. -/
theorem write_after (hheader : header.length = 3) (hid : id.length = 2) (skip : ℕ)
    (x cons : UInt32) (n : ℕ) :
    splice (splice ((addAt (splice (resize target (target.length + (4 + body.length) + skip + 3))
        target.length (header ++ [x])) (target.length + 3) n).set (target.length + 4 + skip) cons)
      (target.length + 4 + skip + 1) id) (target.length + 4 + skip + 3) body =
      target ++ (header ++ [x + .ofNat n] ++ (List.replicate skip 0 ++ (cons :: id ++ body))) := by
  have hresized : resize target (target.length + (4 + body.length) + skip + 3) =
      target ++ (List.replicate 4 0 ++ (List.replicate skip 0 ++ (0 :: ([0, 0] ++
        (List.replicate body.length 0 ++ []))))) := by
    have hsum : target.length + (4 + body.length) + skip + 3 =
        target.length + (4 + (skip + (3 + body.length))) := by omega
    rw [hsum, resize_append, List.replicate_add, List.replicate_add, List.replicate_add,
      List.append_nil]
    rfl
  have hlength : (List.replicate 4 (0 : UInt32)).length = (header ++ [x]).length := by
    rw [List.length_append, hheader]
    rfl
  rw [hresized, splice_over rfl hlength]
  -- The length of the message.
  have hcount : target ++ (header ++ [x] ++ (List.replicate skip 0 ++ (0 :: ([0, 0] ++
      (List.replicate body.length 0 ++ []))))) =
      (target ++ header) ++ x :: (List.replicate skip 0 ++ (0 :: ([0, 0] ++
        (List.replicate body.length 0 ++ [])))) := by
    simp only [List.append_assoc, List.cons_append, List.nil_append]
  rw [hcount, addAt_at (by rw [List.length_append, hheader])]
  have hcons : (target ++ header) ++ (x + .ofNat n) :: (List.replicate skip 0 ++ (0 :: ([0, 0] ++
      (List.replicate body.length 0 ++ [])))) =
      (target ++ (header ++ [x + .ofNat n] ++ List.replicate skip 0)) ++ 0 :: ([0, 0] ++
        (List.replicate body.length 0 ++ [])) := by
    simp only [List.append_assoc, List.cons_append, List.nil_append]
  have hbefore : target.length + 4 + skip =
      (target ++ (header ++ [x + UInt32.ofNat n] ++ List.replicate skip 0)).length := by
    rw [List.length_append, List.length_append, List.length_append, hheader, List.length_replicate,
      List.length_singleton]
    omega
  rw [hcons, set_at hbefore]
  have hidAt : (target ++ (header ++ [x + .ofNat n] ++ List.replicate skip 0)) ++ cons :: ([0, 0] ++
      (List.replicate body.length 0 ++ [])) =
      (target ++ (header ++ [x + .ofNat n] ++ List.replicate skip 0) ++ [cons]) ++ ([0, 0] ++
        (List.replicate body.length 0 ++ [])) := by
    simp only [List.append_assoc, List.cons_append, List.nil_append]
  have hidLength : ([0, 0] : List UInt32).length = id.length := hid.symm
  rw [hidAt, splice_over (by rw [List.length_append, ← hbefore]; rfl) hidLength]
  have hbodyAt : (target ++ (header ++ [x + .ofNat n] ++ List.replicate skip 0) ++ [cons]) ++ (id ++
      (List.replicate body.length 0 ++ [])) =
      (target ++ (header ++ [x + .ofNat n] ++ List.replicate skip 0) ++ [cons] ++ id) ++
        (List.replicate body.length 0 ++ []) := by
    simp only [List.append_assoc]
  rw [hbodyAt, splice_over (by rw [List.length_append, List.length_append, ← hbefore, hid]; rfl)
    List.length_replicate]
  simp only [List.append_assoc, List.cons_append, List.nil_append, List.append_nil]

end Wrap

/-- `WrapInvokeAfter` leaves room for the layer, which is counted later. -/
theorem wrapInvokeAfter_eq {target : List UInt32} (htarget : 8 ≤ target.length)
    (s : SessionPrivate) {request : RequestData} {after : ℕ} (hafter : request.after = some after)
    (skip : ℕ) :
    wrapInvokeAfter target request (s.requests after).getMsgId s.haveSent skip =
      longer target (s.afterWords request).length ++ (ofLong request.getMsgId ++
        [request.getSeqNo] ++
        [.ofNat (4 * ((s.afterWords request).length + request.body.length))] ++
        (List.replicate skip 0 ++ (s.afterWords request ++ request.body))) := by
  have hbody : slice request.data (4 + 4) (request.countLength / 4) = request.body := rfl
  have hlen := request.length_body
  have hfour : slice request.data 4 4 =
      ofLong request.getMsgId ++ [request.getSeqNo] ++ [.ofNat (4 * request.body.length)] := by
    rw [request.header_eq, List.append_assoc]
    rfl
  have hwhole : slice request.data 4 (4 + request.body.length) =
      slice request.data 4 4 ++ request.body := by
    rw [slice_append, hlen, hbody]
  rw [SessionPrivate.afterWords, hafter, Option.elim_some, wrapInvokeAfter]
  dsimp only
  rw [hbody, ← hlen]
  by_cases hno : (s.requests after).getMsgId = 0 ∨
      s.haveSent.contains (s.requests after).getMsgId = false
  · rw [if_pos hno, if_pos hno, hwhole, hfour, write_plain rfl skip, List.length_nil, zero_add]
    rfl
  · rw [if_neg hno, if_neg hno, hfour, write_after rfl rfl skip]
    have hseven : target.length + 3 ≠ 7 := by omega
    have hlonger : longer target
        (mtpc_invokeAfterMsg :: ofLong (s.requests after).getMsgId).length =
          addAt target 7 (3 * 4) := rfl
    rw [if_pos hseven, hlonger, addAt_append (by omega), ← UInt32.ofNat_add]
    have hcount : 4 * request.body.length + 3 * 4 =
        4 * ((mtpc_invokeAfterMsg :: ofLong (s.requests after).getMsgId).length +
          request.body.length) := by
      rw [List.length_cons, length_ofLong]
      omega
    rw [hcount]

theorem length_longer (target : List UInt32) (words : ℕ) :
    (longer target words).length = target.length := by
  rw [longer]
  split
  · rfl
  · rw [addAt, List.length_set]

/-- The layer is put in the room before the body, and counted. -/
theorem write_layer {header layer body : List UInt32} (hheader : header.length = 3)
    (target : List UInt32) (n : ℕ) :
    addAt (splice (target ++ (header ++ [.ofNat (4 * n)] ++
        (List.replicate layer.length 0 ++ body))) (target.length + 4) layer) (target.length + 3)
        (4 * layer.length) =
      target ++ (header ++ [.ofNat (4 * (layer.length + n))] ++ (layer ++ body)) := by
  have hroom : target ++ (header ++ [.ofNat (4 * n)] ++ (List.replicate layer.length 0 ++ body)) =
      (target ++ (header ++ [.ofNat (4 * n)])) ++ (List.replicate layer.length 0 ++ body) := by
    simp only [List.append_assoc]
  have hcount : (target ++ (header ++ [.ofNat (4 * n)])) ++ (layer ++ body) =
      (target ++ header) ++ .ofNat (4 * n) :: (layer ++ body) := by
    simp only [List.append_assoc, List.cons_append, List.nil_append]
  have hsum : 4 * n + 4 * layer.length = 4 * (layer.length + n) := by omega
  rw [hroom, splice_over ?_ List.length_replicate, hcount, addAt_at, ← UInt32.ofNat_add, hsum]
  · simp only [List.append_assoc, List.cons_append, List.nil_append]
  · rw [List.length_append, hheader]
  · rw [List.length_append, List.length_append, hheader]
    rfl

namespace RequestData

variable (r : RequestData)

theorem words_contained (body : List UInt32) :
    (r.contained body).words =
      ofLong r.getMsgId ++ [r.getSeqNo] ++ [.ofNat (4 * body.length)] ++ body := by
  rw [Contained.words, contained]
  simp only [List.append_assoc, List.cons_append, List.nil_append]

end RequestData

/-- The layer and the body of a request without an order. -/
theorem write_layer_message (target : List UInt32) (request : RequestData) (layer : List UInt32) :
    addAt (splice (splice (splice (resize target (target.length + layer.length +
        request.messageSize)) target.length (slice request.data 4 4)) (target.length + 4) layer)
      (target.length + 4 + layer.length) (slice request.data 8 (request.countLength / 4)))
      (target.length + 3) (4 * layer.length) =
      target ++ (request.contained (layer ++ request.body)).words := by
  let header := ofLong request.getMsgId ++ [request.getSeqNo]
  have hheader : header.length = 3 := rfl
  have hbody : slice request.data 8 (request.countLength / 4) = request.body := rfl
  have hfour : slice request.data 4 4 = header ++ [.ofNat (4 * request.body.length)] := by
    rw [request.header_eq, List.append_assoc]
    rfl
  have hresized : resize target (target.length + layer.length + request.messageSize) =
      target ++ (List.replicate 4 0 ++ (List.replicate layer.length 0 ++
        (List.replicate request.body.length 0 ++ []))) := by
    have hsum : target.length + layer.length + request.messageSize =
        target.length + (4 + (layer.length + request.body.length)) := by
      rw [request.messageSize_eq]
      omega
    rw [hsum, resize_append, List.replicate_add, List.replicate_add, List.append_nil]
  have hlength : (List.replicate 4 (0 : UInt32)).length =
      (header ++ [UInt32.ofNat (4 * request.body.length)]).length := rfl
  have hroom : target ++ (header ++ [.ofNat (4 * request.body.length)] ++
      (List.replicate layer.length 0 ++ (List.replicate request.body.length 0 ++ []))) =
      (target ++ (header ++ [.ofNat (4 * request.body.length)])) ++
        (List.replicate layer.length 0 ++ (List.replicate request.body.length 0 ++ [])) := by
    simp only [List.append_assoc]
  have hbehind : (target ++ (header ++ [.ofNat (4 * request.body.length)])) ++
      (layer ++ (List.replicate request.body.length 0 ++ [])) =
      (target ++ (header ++ [.ofNat (4 * request.body.length)]) ++ layer) ++
        (List.replicate request.body.length 0 ++ []) := by
    simp only [List.append_assoc]
  have hcount : (target ++ (header ++ [.ofNat (4 * request.body.length)]) ++ layer) ++
      (request.body ++ []) =
      (target ++ header) ++ .ofNat (4 * request.body.length) :: (layer ++ request.body) := by
    simp only [List.append_assoc, List.cons_append, List.nil_append, List.append_nil]
  have hsum : 4 * request.body.length + 4 * layer.length =
      4 * (layer ++ request.body).length := by
    rw [List.length_append]
    omega
  have hbefore : (target ++ (header ++ [UInt32.ofNat (4 * request.body.length)])).length =
      target.length + 4 := by
    rw [List.length_append, List.length_append, hheader]
    rfl
  rw [hbody, hfour, hresized, splice_over rfl hlength, hroom,
    splice_over hbefore.symm List.length_replicate, hbehind,
    splice_over (by rw [List.length_append, hbefore]) List.length_replicate, hcount,
    addAt_at (by rw [List.length_append, hheader]), ← UInt32.ofNat_add, hsum,
    request.words_contained]
  simp only [List.append_assoc, List.cons_append, List.nil_append, header]

/-- A request that is kept is put as a message whose body is wrapped, with its length. -/
theorem wrapToContainer_eq {target : List UInt32} (htarget : 8 ≤ target.length)
    (s : SessionPrivate) (request : RequestData) {initSerialized : List UInt32}
    (hinit : initSerialized ≠ []) (needsLayer : Bool) :
    s.wrapToContainer target request initSerialized needsLayer =
      longer target (s.afterWords request).length ++
        (request.contained (s.wrappedBody request initSerialized needsLayer)).words := by
  have hsize : target.length ≠ 0 := by omega
  have hskip : initSerialized.length ≠ 0 := (List.length_pos_of_ne_nil hinit).ne'
  rw [request.words_contained, SessionPrivate.wrappedBody, SessionPrivate.wrapToContainer]
  cases hlayer : needsLayer && request.needsLayer with
  | true =>
    dsimp only
    rw [if_pos rfl, if_pos rfl, if_pos hsize]
    cases hafter : request.after with
    | some after =>
      dsimp only
      have hlength := length_longer target (s.afterWords request).length
      rw [if_pos hsize, wrapInvokeAfter_eq htarget s hafter, ← hlength,
        write_layer rfl]
      simp only [List.append_assoc, List.length_append]
    | none =>
      have hnone : s.afterWords request = [] := by
        rw [SessionPrivate.afterWords, hafter]
        rfl
      dsimp only
      rw [if_pos hsize, hnone, write_layer_message _ request, request.words_contained,
        List.append_nil, List.length_append]
      rfl
  | false =>
    dsimp only
    rw [if_neg Bool.false_ne_true, if_neg Bool.false_ne_true]
    cases hafter : request.after with
    | some after =>
      dsimp only
      rw [if_neg (not_not.mpr rfl), if_neg (not_not.mpr rfl),
        wrapInvokeAfter_eq htarget s hafter]
      simp only [List.append_assoc, List.length_append, List.replicate_zero, List.nil_append]
    | none =>
      have hnone : s.afterWords request = [] := by
        rw [SessionPrivate.afterWords, hafter]
        rfl
      dsimp only
      rw [if_neg (not_not.mpr rfl), hnone, appendMessage_eq, request.words_contained]
      rfl

end TelegramDesktop.Mtproto
