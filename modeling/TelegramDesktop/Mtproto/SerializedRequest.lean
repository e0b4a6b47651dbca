import TelegramDesktop.Base.Slice
import TelegramDesktop.Base.Words

namespace TelegramDesktop.Mtproto
open Base Base.Words

abbrev MsgId := Fin (2 ^ 64)

abbrev RequestId := ℤ

def kMessageIdPosition : ℕ := 4

def kSeqNoPosition : ℕ := 6

def kMessageLengthPosition : ℕ := 7

def kMessageBodyPosition : ℕ := 8

def mtpc_msg_container : UInt32 := 0x73f1f8dc

def mtpc_msgs_ack : UInt32 := 0x62d6b459

def mtpc_http_wait : UInt32 := 0x9299359f

def mtpc_bad_msg_notification : UInt32 := 0xa7eff811

def mtpc_msgs_all_info : UInt32 := 0x8cc0d131

def mtpc_msgs_state_info : UInt32 := 0x04deb57d

def mtpc_msg_detailed_info : UInt32 := 0x276d3ec6

def mtpc_msg_new_detailed_info : UInt32 := 0x809db6df

def mtpc_invokeAfterMsg : UInt32 := 0xcb9f372d

def mtpc_invokeWithLayer : UInt32 := 0xda9b0d0d

def kCurrentLayer : UInt32 := 186

/-- `tl::count_length`: the bytes that writing the request puts. -/
def countLength (data : List UInt32) : ℕ := (data.getD kMessageLengthPosition 0).toNat

def getMsgId (data : List UInt32) : MsgId :=
  long (data.getD kMessageIdPosition 0) (data.getD (kMessageIdPosition + 1) 0)

def getSeqNo (data : List UInt32) : UInt32 := data.getD kSeqNoPosition 0

def messageSize (data : List UInt32) : ℕ := 2 + 1 + 1 + countLength data / 4

def needAck (data : List UInt32) : Bool :=
  data.getD kMessageBodyPosition 0 ∉ [
    mtpc_msg_container, mtpc_msgs_ack, mtpc_http_wait, mtpc_bad_msg_notification,
    mtpc_msgs_all_info, mtpc_msgs_state_info, mtpc_msg_detailed_info, mtpc_msg_new_detailed_info]

/-- `Prepare`: an empty header with the length of the body in bytes. -/
def prepare (size : ℕ) : List UInt32 := List.replicate 7 0 ++ [.ofNat (4 * size)]

def setMsgId (data : List UInt32) (msgId : MsgId) : List UInt32 :=
  splice data kMessageIdPosition (ofLong msgId)

def setSeqNo (data : List UInt32) (seqNo : UInt32) : List UInt32 :=
  splice data kSeqNoPosition [seqNo]

/-- A body that the generated writers put. -/
structure Body where
  words : List UInt32
  nonempty : words ≠ []
  fits : 4 * words.length < 2 ^ 32

/-- The length of the body is there, and the body itself. -/
structure Serialized (data : List UInt32) : Prop where
  aligned : 4 ∣ countLength data
  nonempty : 0 < countLength data
  whole : kMessageBodyPosition + countLength data / 4 ≤ data.length

/-- A request and what its sender asks for: a sender that asks for a layer or for an order has
given the request an id, and its body is content. -/
structure RequestData where
  data : List UInt32
  after : Option ℕ := none
  requestId : RequestId := 0
  needsLayer : Bool := false
  forceSendInContainer : Bool := false
  serialized : Serialized data
  sent : needsLayer = true ∨ after.isSome = true → requestId ≠ 0 ∧ needAck data = true

theorem Serialized.size {data : List UInt32} (h : Serialized data) :
    kMessageBodyPosition < data.length := by
  have haligned := h.aligned
  have hnonempty := h.nonempty
  have hwhole := h.whole
  omega

theorem Serialized.rewrite {data data' : List UInt32} (h : Serialized data)
    (hlength : data'.getD kMessageLengthPosition 0 = data.getD kMessageLengthPosition 0)
    (hsize : kMessageBodyPosition + countLength data / 4 ≤ data'.length) : Serialized data' := by
  have hcount : countLength data' = countLength data := congrArg UInt32.toNat hlength
  exact ⟨hcount ▸ h.aligned, hcount ▸ h.nonempty, hcount ▸ hsize⟩

namespace RequestData

/-- The request with another buffer, for the same body. -/
def rewrite (r : RequestData) (data : List UInt32)
    (hlength : data.getD kMessageLengthPosition 0 = r.data.getD kMessageLengthPosition 0)
    (hbody : data.getD kMessageBodyPosition 0 = r.data.getD kMessageBodyPosition 0)
    (hsize : kMessageBodyPosition + countLength r.data / 4 ≤ data.length) : RequestData :=
  { r with
    data := data
    serialized := r.serialized.rewrite hlength hsize
    sent := fun h => by
      have hsent := r.sent h
      rw [needAck] at hsent ⊢
      rwa [hbody] }

theorem header_fits (r : RequestData) {i : ℕ} {xs : List UInt32}
    (h : i + xs.length ≤ kMessageLengthPosition) : i + xs.length ≤ r.data.length := by
  have hsize := r.serialized.size
  rw [kMessageBodyPosition] at hsize
  rw [kMessageLengthPosition] at h
  omega

/-- A write to the header, before the length. -/
def writeHeader (r : RequestData) (i : ℕ) (xs : List UInt32)
    (h : i + xs.length ≤ kMessageLengthPosition) : RequestData :=
  r.rewrite (splice r.data i xs)
    (getD_splice_apart (r.header_fits h) (.inr h) 0)
    (getD_splice_apart (r.header_fits h) (.inr (h.trans (by decide))) 0)
    (by
      rw [length_splice (r.header_fits h)]
      exact r.serialized.whole)

def setMsgId (r : RequestData) (msgId : MsgId) : RequestData :=
  r.writeHeader kMessageIdPosition (ofLong msgId) (show 4 + 2 ≤ 7 by decide)

def setSeqNo (r : RequestData) (seqNo : UInt32) : RequestData :=
  r.writeHeader kSeqNoPosition [seqNo] (show 6 + 1 ≤ 7 by decide)

def getMsgId (r : RequestData) : MsgId := Mtproto.getMsgId r.data

def getSeqNo (r : RequestData) : UInt32 := Mtproto.getSeqNo r.data

def needAck (r : RequestData) : Bool := Mtproto.needAck r.data

def countLength (r : RequestData) : ℕ := Mtproto.countLength r.data

def messageSize (r : RequestData) : ℕ := Mtproto.messageSize r.data

/-- The body, without what padding may follow it. -/
def body (r : RequestData) : List UInt32 :=
  slice r.data kMessageBodyPosition (r.countLength / 4)

/-- `Serialize`: a fresh request with a body. -/
def serialize (body : Body) : RequestData where
  data := prepare body.words.length ++ body.words
  serialized := by
    have hfits := body.fits
    have hlen : 0 < body.words.length := List.length_pos_iff.mpr body.nonempty
    have hcount : Mtproto.countLength (prepare body.words.length ++ body.words) =
        4 * body.words.length := by
      change (UInt32.ofNat (4 * body.words.length)).toNat = _
      rw [UInt32.toNat_ofNat']
      omega
    refine ⟨?_, ?_, ?_⟩
    · rw [hcount]
      omega
    · omega
    · rw [hcount, List.length_append]
      change 8 + _ ≤ 8 + _
      omega
  sent := by simp

section Header

variable (r : RequestData) {i : ℕ} {xs : List UInt32}
  (h : i + xs.length ≤ kMessageLengthPosition)

theorem needAck_writeHeader : (r.writeHeader i xs h).needAck = r.needAck := by
  have hbody := getD_splice_apart (r.header_fits h) (j := kMessageBodyPosition)
    (.inr (h.trans (by decide))) 0
  rw [needAck, needAck, Mtproto.needAck, Mtproto.needAck]
  exact congrArg (fun word => decide (word ∉ _)) hbody

theorem countLength_writeHeader : (r.writeHeader i xs h).countLength = r.countLength := by
  have hlength := getD_splice_apart (r.header_fits h) (.inr h) 0
  exact congrArg UInt32.toNat hlength

theorem body_writeHeader : (r.writeHeader i xs h).body = r.body := by
  rw [body, countLength_writeHeader]
  exact slice_splice_apart (r.header_fits h) (.inr (h.trans (by decide)))

variable (msgId : MsgId) (seqNo : UInt32)

@[simp] theorem needAck_setMsgId : (r.setMsgId msgId).needAck = r.needAck :=
  needAck_writeHeader r _

@[simp] theorem needAck_setSeqNo : (r.setSeqNo seqNo).needAck = r.needAck :=
  needAck_writeHeader r _

@[simp] theorem countLength_setMsgId : (r.setMsgId msgId).countLength = r.countLength :=
  countLength_writeHeader r _

@[simp] theorem countLength_setSeqNo : (r.setSeqNo seqNo).countLength = r.countLength :=
  countLength_writeHeader r _

@[simp] theorem body_setMsgId : (r.setMsgId msgId).body = r.body := body_writeHeader r _

@[simp] theorem body_setSeqNo : (r.setSeqNo seqNo).body = r.body := body_writeHeader r _

theorem msgId_fits : kMessageIdPosition + (ofLong msgId).length ≤ r.data.length :=
  r.header_fits (show 4 + 2 ≤ 7 by decide)

theorem seqNo_fits : kSeqNoPosition + [seqNo].length ≤ r.data.length :=
  r.header_fits (show 6 + 1 ≤ 7 by decide)

@[simp] theorem getMsgId_setMsgId : (r.setMsgId msgId).getMsgId = msgId := by
  have hslice := slice_splice_self (r.msgId_fits msgId)
  have hget : ∀ (l : List UInt32) (i : ℕ), i < 2 →
      l.getD (kMessageIdPosition + i) 0 = (slice l kMessageIdPosition 2).getD i 0 := by
    intro l i hi
    simp [slice, List.getD_eq_getElem?_getD, hi]
  change long ((splice r.data kMessageIdPosition (ofLong msgId)).getD (kMessageIdPosition + 0) 0)
    ((splice r.data kMessageIdPosition (ofLong msgId)).getD (kMessageIdPosition + 1) 0) = msgId
  rw [length_ofLong] at hslice
  rw [hget _ 0 (by decide), hget _ 1 (by decide), hslice]
  exact long_ofLong msgId

@[simp] theorem getMsgId_setSeqNo : (r.setSeqNo seqNo).getMsgId = r.getMsgId := by
  have hfits := r.seqNo_fits seqNo
  change long ((splice r.data kSeqNoPosition [seqNo]).getD 4 0)
    ((splice r.data kSeqNoPosition [seqNo]).getD 5 0) = _
  rw [getD_splice_apart hfits (.inl (by decide)), getD_splice_apart hfits (.inl (by decide))]
  rfl

@[simp] theorem getSeqNo_setSeqNo : (r.setSeqNo seqNo).getSeqNo = seqNo := by
  have hslice := slice_splice_self (r.seqNo_fits seqNo)
  have hget := congrArg (fun l => List.getD l 0 0) hslice
  change (splice r.data kSeqNoPosition [seqNo]).getD kSeqNoPosition 0 = seqNo
  simpa [slice, List.getD_eq_getElem?_getD] using hget

end Header

end RequestData

end TelegramDesktop.Mtproto
