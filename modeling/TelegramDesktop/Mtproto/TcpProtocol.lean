import TelegramDesktop.Base.Slice
import TelegramDesktop.Base.Words

namespace TelegramDesktop.Mtproto.TcpProtocol
open Base

def kPacketSizeMax : ℕ := 0x01000000 * 4

def kUnknownSize : ℤ := -1

def kInvalidSize : ℤ := -2

/-- What `finalizePacket` expects of its buffer. -/
def Expected (buffer : List UInt32) : Prop := 2 < buffer.length ∧ buffer.length < 0x1000003

instance (buffer : List UInt32) : Decidable (Expected buffer) := by
  unfold Expected
  infer_instance

namespace Version0

def finalizePacket (buffer : List UInt32) : Option (List UInt8) :=
  if Expected buffer then
    let intsSize := buffer.length - 2
    let bytesSize := intsSize * 4
    let data := Words.bytes buffer
    if intsSize < 0x7F then
      let data := data.set 7 (.ofNat intsSize)
      some (slice data (8 - 1) (1 + bytesSize))
    else
      let data := data.set 4 0x7F
      let data := data.set 5 (.ofNat (intsSize &&& 0xFF))
      let data := data.set 6 (.ofNat ((intsSize >>> 8) &&& 0xFF))
      let data := data.set 7 (.ofNat ((intsSize >>> 16) &&& 0xFF))
      some (slice data (8 - 4) (4 + bytesSize))
  else none

def readPacketLength (bytes : List UInt8) : ℤ :=
  match bytes with
  | [] => kUnknownSize
  | first :: rest =>
    if first = 0x7F then
      match rest with
      | b₁ :: b₂ :: b₃ :: _ =>
        let ints := b₁.toNat ||| (b₂.toNat <<< 8) ||| (b₃.toNat <<< 16)
        if 0x7F ≤ ints then (ints <<< 2 : ℕ) + 4 else kInvalidSize
      | _ => kUnknownSize
    -- The comparison is signed in the source, so bytes from 0x80 on are negative.
    else if 0 < first ∧ first < 0x7F then (first.toNat <<< 2 : ℕ) + 1
    else kInvalidSize

def readPacket (bytes : List UInt8) : Option (List UInt8) :=
  let size := readPacketLength bytes
  if size ≠ kUnknownSize ∧ size ≠ kInvalidSize ∧ size ≤ bytes.length then
    let sizeLength := if bytes.head? = some 0x7F then 4 else 1
    some (slice bytes sizeLength (size.toNat - sizeLength))
  else none

end Version0

namespace VersionD

/-- The random padding is up to fifteen bytes of whole random words. -/
def finalizePacket (paddingRandom : UInt32) (random : ℕ → UInt32) (buffer : List UInt32) :
    Option (List UInt8) :=
  if Expected buffer then
    let intsSize := buffer.length - 2
    let padding := (paddingRandom &&& 0x0F).toNat
    let bytesSize := intsSize * 4 + padding
    let buffer := buffer.set 1 (.ofNat bytesSize)
    let buffer := buffer ++ (List.range ((padding + 3) / 4)).map random
    some (slice (Words.bytes buffer) 4 (4 + bytesSize))
  else none

def readPacketLength (bytes : List UInt8) : ℤ :=
  match bytes with
  | b₀ :: b₁ :: b₂ :: b₃ :: _ =>
    let value := Words.word b₀ b₁ b₂ b₃ + 4
    if 8 ≤ value.toNat ∧ value.toNat < kPacketSizeMax then value.toNat else kInvalidSize
  | _ => kUnknownSize

def readPacket (bytes : List UInt8) : Option (List UInt8) :=
  let size := readPacketLength bytes
  if size ≠ kUnknownSize ∧ size ≠ kInvalidSize ∧ size ≤ bytes.length then
    let sizeLength := 4
    some (slice bytes sizeLength (size.toNat - sizeLength))
  else none

end VersionD

/-- Reading the packet at the start of a stream back. The words are those `parsePacket`
takes from it; `padded` says that words may follow the payload. -/
def RoundTrips (out : Option (List UInt8)) (readPacketLength : List UInt8 → ℤ)
    (readPacket : List UInt8 → Option (List UInt8)) (payload : List UInt32) (padded : Prop)
    (more : List UInt8) : Prop :=
  ∃ bytes packet, out = some bytes ∧ readPacketLength (bytes ++ more) = bytes.length ∧
    readPacket (bytes ++ more) = some packet ∧ payload <+: Words.words packet ∧
    (¬ padded → Words.words packet = payload)

theorem exists_payload {buffer : List UInt32} (h : Expected buffer) :
    ∃ a b, buffer = a :: b :: buffer.drop 2 ∧ 0 < (buffer.drop 2).length := by
  unfold Expected at h
  match buffer, h with
  | a :: b :: c :: rest, _ => exact ⟨a, b, rfl, by simp⟩

namespace Version0

/-- The length in front of a payload of `n` words. -/
def header (n : ℕ) : List UInt8 :=
  if n < 0x7F then [.ofNat n]
  else [0x7F, .ofNat (n % 256), .ofNat (n / 256 % 256), .ofNat (n / 65536 % 256)]

theorem finalizePacket_eq {buffer : List UInt32} (h : Expected buffer) :
    finalizePacket buffer =
      some (header (buffer.length - 2) ++ Words.bytes (buffer.drop 2)) := by
  obtain ⟨a, b, heq, -⟩ := exists_payload h
  have hlen : buffer.length - 2 = (buffer.drop 2).length := by simp
  have h255 (n : ℕ) : n &&& 0xFF = n % 256 := Nat.and_two_pow_sub_one_eq_mod n 8
  rw [finalizePacket, if_pos h, hlen]
  generalize buffer.drop 2 = payload at heq
  subst heq
  simp only [header, h255, Nat.shiftRight_eq_div_pow]
  split_ifs with hs
  · simp [slice, Words.ofWord, Nat.mul_comm]
  · simp [slice, Words.ofWord, Nat.mul_comm]
    omega

theorem lor_bytes (b₁ b₂ b₃ : UInt8) :
    b₁.toNat ||| (b₂.toNat <<< 8) ||| (b₃.toNat <<< 16) =
      b₁.toNat + 2 ^ 8 * b₂.toNat + 2 ^ 16 * b₃.toNat := by
  have h₁ := b₁.toNat_lt
  have h₂ := b₂.toNat_lt
  have h₁₂ : b₁.toNat ||| (b₂.toNat <<< 8) = b₁.toNat + 2 ^ 8 * b₂.toNat := by
    rw [Nat.or_comm, ← Nat.shiftLeft_add_eq_or_of_lt h₁, Nat.shiftLeft_eq]
    omega
  rw [h₁₂, Nat.or_comm, ← Nat.shiftLeft_add_eq_or_of_lt (by omega), Nat.shiftLeft_eq]
  omega

/-- The reader takes the length back as long as it fits into three bytes. -/
theorem readPacketLength_header {n : ℕ} (hpos : 0 < n) (hn : n < 2 ^ 24) (rest : List UInt8) :
    readPacketLength (header n ++ rest) = (header n).length + 4 * n := by
  unfold header
  split_ifs with hs
  · have h0 : (UInt8.ofNat n).toNat = n := by
      rw [UInt8.toNat_ofNat']
      omega
    have h1 : UInt8.ofNat n ≠ 0x7F := by
      intro he
      have := congrArg UInt8.toNat he
      rw [h0] at this
      exact hs.ne this
    have h2 : 0 < UInt8.ofNat n ∧ UInt8.ofNat n < 0x7F := by
      rw [UInt8.lt_iff_toNat_lt, UInt8.lt_iff_toNat_lt, h0]
      exact ⟨hpos, hs⟩
    simp only [List.cons_append, readPacketLength, h1, h2, if_false, if_true, h0, and_self,
      Nat.shiftLeft_eq]
    push_cast
    simp
    omega
  · have h1 : (UInt8.ofNat (n % 256)).toNat = n % 256 := by
      rw [UInt8.toNat_ofNat']
      omega
    have h2 : (UInt8.ofNat (n / 256 % 256)).toNat = n / 256 % 256 := by
      rw [UInt8.toNat_ofNat']
      omega
    have h3 : (UInt8.ofNat (n / 65536 % 256)).toNat = n / 65536 % 256 := by
      rw [UInt8.toNat_ofNat']
      omega
    have hn' : n % 256 + 2 ^ 8 * (n / 256 % 256) + 2 ^ 16 * (n / 65536 % 256) = n := by omega
    simp only [List.cons_append, readPacketLength, lor_bytes]
    simp only [h1, h2, h3, hn', if_true, not_lt.mp hs, Nat.shiftLeft_eq]
    push_cast
    simp
    omega

/-- One word more, and the three bytes read zero. -/
theorem readPacketLength_overflow (rest : List UInt8) :
    readPacketLength (header (2 ^ 24) ++ rest) = kInvalidSize := rfl

theorem length_header (n : ℕ) : (header n).length = if n < 0x7F then 1 else 4 := by
  unfold header
  split_ifs <;> rfl

theorem header_head? {n : ℕ} (hpos : 0 < n) :
    (header n).head? = some 0x7F ↔ 0x7F ≤ n := by
  unfold header
  split_ifs with hs
  · have h0 : UInt8.ofNat n ≠ 0x7F := by
      intro he
      have := congrArg UInt8.toNat he
      rw [UInt8.toNat_ofNat', Nat.mod_eq_of_lt (by omega)] at this
      exact hs.ne this
    simp [h0]
    omega
  · simp
    omega

end Version0

theorem Version0.readPacket_eq {n : ℕ} (hpos : 0 < n) (hn : n < 2 ^ 24) {packet : List UInt8}
    (hlen : packet.length = 4 * n) (more : List UInt8) :
    readPacket (header n ++ packet ++ more) = some packet := by
  have hread := readPacketLength_header hpos hn (packet ++ more)
  have hhead : (header n ++ packet ++ more).head? = (header n).head? := by
    unfold header
    split_ifs <;> rfl
  have hsize : (if (header n).head? = some 0x7F then 4 else 1) = (header n).length := by
    rw [length_header]
    simp only [header_head? hpos]
    split_ifs <;> omega
  have hcount : ((header n).length + 4 * n : ℤ).toNat - (header n).length = packet.length := by
    omega
  rw [readPacket, hhead, hsize, List.append_assoc, hread, if_pos]
  · change some (slice _ _ _) = _
    rw [hcount, ← List.append_assoc, slice_middle]
  · rw [List.length_append, List.length_append, hlen]
    unfold kUnknownSize kInvalidSize
    omega

/-- The framing of `Version0` brings a payload back unless its length takes more than
three bytes. -/
theorem version0_roundTrips_iff {buffer : List UInt32} (h : Expected buffer)
    (more : List UInt8) :
    RoundTrips (Version0.finalizePacket buffer) Version0.readPacketLength Version0.readPacket
        (buffer.drop 2) False more ↔ buffer.length ≠ 0x1000002 := by
  obtain ⟨a, b, -, hpos⟩ := exists_payload h
  have hlen : (buffer.drop 2).length = buffer.length - 2 := by simp
  rw [RoundTrips, Version0.finalizePacket_eq h, ← hlen]
  unfold Expected at h
  generalize buffer.drop 2 = payload at *
  constructor
  · rintro ⟨bytes, packet, hout, hread, -⟩ heq
    have hn : payload.length = 2 ^ 24 := by omega
    rw [← Option.some.inj hout, List.append_assoc, hn, Version0.readPacketLength_overflow] at hread
    unfold kInvalidSize at hread
    omega
  · intro hne
    have hn : payload.length < 2 ^ 24 := by omega
    refine ⟨_, Words.bytes payload, rfl, ?_, ?_, ?_, ?_⟩
    · rw [List.append_assoc, Version0.readPacketLength_header hpos hn, List.length_append,
        Words.length_bytes]
      push_cast
      rfl
    · exact Version0.readPacket_eq hpos hn (Words.length_bytes _) more
    · rw [Words.words_bytes]
    · intro _
      rw [Words.words_bytes]

namespace VersionD

/-- The padding words, cut to the number of bytes drawn. -/
def tail (padding : ℕ) (random : ℕ → UInt32) : List UInt8 :=
  (Words.bytes ((List.range ((padding + 3) / 4)).map random)).take padding

theorem length_tail (padding : ℕ) (random : ℕ → UInt32) :
    (tail padding random).length = padding := by
  rw [tail, List.length_take, Words.length_bytes, List.length_map, List.length_range]
  omega

theorem finalizePacket_eq {buffer : List UInt32} (h : Expected buffer) (paddingRandom : UInt32)
    (random : ℕ → UInt32) :
    finalizePacket paddingRandom random buffer =
      some (Words.ofWord (.ofNat ((buffer.length - 2) * 4 + (paddingRandom &&& 0x0F).toNat)) ++
        (Words.bytes (buffer.drop 2) ++ tail (paddingRandom &&& 0x0F).toNat random)) := by
  obtain ⟨a, b, heq, -⟩ := exists_payload h
  have hlen : buffer.length - 2 = (buffer.drop 2).length := by simp
  rw [finalizePacket, if_pos h, hlen]
  generalize buffer.drop 2 = payload at heq
  subst heq
  generalize (paddingRandom &&& 0x0F).toNat = padding
  have hset : (a :: b :: payload).set 1 (UInt32.ofNat (payload.length * 4 + padding)) =
      a :: UInt32.ofNat (payload.length * 4 + padding) :: payload := rfl
  simp only [hset, tail]
  generalize UInt32.ofNat (payload.length * 4 + padding) = length
  have hcount : 4 + (payload.length * 4 + padding) - (Words.ofWord length).length -
      (Words.bytes payload).length = padding := by
    rw [Words.length_ofWord, Words.length_bytes]
    omega
  simp only [slice, List.cons_append, Words.bytes_cons, Words.bytes_append]
  rw [List.drop_append_of_le_length (by simp), List.drop_of_length_le (by simp), List.nil_append,
    List.take_append, List.take_of_length_le (by simp), List.take_append,
    List.take_of_length_le (by simp; omega), hcount]

theorem readPacketLength_ofWord (x : UInt32) (rest : List UInt8) :
    readPacketLength (Words.ofWord x ++ rest) =
      if 8 ≤ (x + 4).toNat ∧ (x + 4).toNat < kPacketSizeMax then ((x + 4).toNat : ℤ)
      else kInvalidSize := by
  simp only [readPacketLength, Words.ofWord, List.cons_append, Words.word_ofWord]

theorem readPacket_eq {x : UInt32} {packet : List UInt8}
    (hx : (x + 4).toNat = 4 + packet.length) (hpos : 4 ≤ packet.length)
    (hmax : 4 + packet.length < kPacketSizeMax) (more : List UInt8) :
    readPacketLength (Words.ofWord x ++ packet ++ more) = 4 + packet.length ∧
      readPacket (Words.ofWord x ++ packet ++ more) = some packet := by
  have hread : readPacketLength (Words.ofWord x ++ packet ++ more) = 4 + packet.length := by
    rw [List.append_assoc, readPacketLength_ofWord, hx, if_pos ⟨by omega, hmax⟩]
    push_cast
    rfl
  refine ⟨hread, ?_⟩
  have hcount : ((4 : ℤ) + packet.length).toNat - 4 = packet.length := by omega
  rw [readPacket, hread, if_pos]
  · change some (slice _ _ _) = _
    rw [hcount]
    exact congrArg some (slice_middle (Words.ofWord x) packet more)
  · rw [List.length_append, List.length_append, Words.length_ofWord]
    unfold kUnknownSize kInvalidSize
    omega

end VersionD

/-- The framing of `VersionD` brings a payload back unless payload and padding reach
the largest packet size. -/
theorem versionD_roundTrips_iff {buffer : List UInt32} (h : Expected buffer)
    (paddingRandom : UInt32) (random : ℕ → UInt32) (more : List UInt8) :
    RoundTrips (VersionD.finalizePacket paddingRandom random buffer) VersionD.readPacketLength
        VersionD.readPacket (buffer.drop 2) (paddingRandom &&& 0x0F ≠ 0) more ↔
      (buffer.length - 2) * 4 + (paddingRandom &&& 0x0F).toNat + 4 < kPacketSizeMax := by
  obtain ⟨a, b, -, hpos⟩ := exists_payload h
  have hlen : (buffer.drop 2).length = buffer.length - 2 := by simp
  have hpadding : (paddingRandom &&& 0x0F).toNat < 16 := by
    rw [UInt32.toNat_and]
    exact Nat.lt_succ_of_le Nat.and_le_right
  have hzero : paddingRandom &&& 0x0F = 0 → (paddingRandom &&& 0x0F).toNat = 0 := by
    intro hp
    rw [hp]
    rfl
  rw [RoundTrips, VersionD.finalizePacket_eq h, ← hlen]
  unfold Expected at h
  generalize buffer.drop 2 = payload at *
  generalize (paddingRandom &&& 0x0F).toNat = padding at *
  have hx : ((UInt32.ofNat (payload.length * 4 + padding)) + 4).toNat =
      4 + (payload.length * 4 + padding) := by
    rw [UInt32.toNat_add, UInt32.toNat_ofNat']
    have h4 : (4 : UInt32).toNat = 4 := rfl
    omega
  have hpacket : (Words.bytes payload ++ VersionD.tail padding random).length =
      payload.length * 4 + padding := by
    rw [List.length_append, Words.length_bytes, VersionD.length_tail]
    omega
  constructor
  · rintro ⟨bytes, packet, hout, hread, -⟩
    by_contra hlt
    rw [← Option.some.inj hout, List.append_assoc, VersionD.readPacketLength_ofWord, hx,
      if_neg (by omega)] at hread
    unfold kInvalidSize at hread
    omega
  · intro hlt
    obtain ⟨hread, hpacket'⟩ := VersionD.readPacket_eq (hx.trans (by rw [hpacket])) (by omega)
      (by omega) more
    refine ⟨_, Words.bytes payload ++ VersionD.tail padding random, rfl, ?_, hpacket', ?_, ?_⟩
    · simp only [hread, List.length_append, Words.length_ofWord]
      push_cast
      rfl
    · rw [Words.words_bytes_append]
      exact List.prefix_append _ _
    · intro hp
      have hnil : VersionD.tail padding random = [] :=
        List.eq_nil_of_length_eq_zero (by rw [VersionD.length_tail, hzero (not_not.mp hp)])
      rw [hnil, List.append_nil, Words.words_bytes]

/-- A buffer is framed and read back by both versions unless its length overflows the
three bytes of the one, or reaches the packet size the other accepts. -/
theorem finalizePacket_readPacket_iff (buffer : List UInt32) (h : Expected buffer)
    (paddingRandom : UInt32) (random : ℕ → UInt32) (more : List UInt8) :
    (RoundTrips (Version0.finalizePacket buffer) Version0.readPacketLength Version0.readPacket
        (buffer.drop 2) False more ↔ buffer.length ≠ 0x1000002) ∧
    (RoundTrips (VersionD.finalizePacket paddingRandom random buffer) VersionD.readPacketLength
        VersionD.readPacket (buffer.drop 2) (paddingRandom &&& 0x0F ≠ 0) more ↔
      (buffer.length - 2) * 4 + (paddingRandom &&& 0x0F).toNat + 4 < kPacketSizeMax) :=
  ⟨version0_roundTrips_iff h more, versionD_roundTrips_iff h paddingRandom random more⟩

/-- Five words with six bytes of padding. -/
theorem finalizePacket_readPacket_five :
    (RoundTrips (Version0.finalizePacket [0, 0, 1, 2, 3]) Version0.readPacketLength
        Version0.readPacket [1, 2, 3] False [7] ↔ 5 ≠ 0x1000002) ∧
    (RoundTrips (VersionD.finalizePacket 6 (fun _ => 9) [0, 0, 1, 2, 3])
        VersionD.readPacketLength VersionD.readPacket [1, 2, 3] (6 &&& 0x0F ≠ (0 : UInt32)) [7] ↔
      (5 - 2) * 4 + ((6 : UInt32) &&& 0x0F).toNat + 4 < kPacketSizeMax) :=
  finalizePacket_readPacket_iff [0, 0, 1, 2, 3] (by decide) 6 (fun _ => 9) [7]

/-- The largest buffer that `finalizePacket` expects is framed as an invalid one. -/
theorem finalizePacket_largest :
    Expected (List.replicate 0x1000002 0) ∧
      ¬ RoundTrips (Version0.finalizePacket (List.replicate 0x1000002 0))
        Version0.readPacketLength Version0.readPacket ((List.replicate 0x1000002 0).drop 2) False
        [] ∧
      ¬ RoundTrips (VersionD.finalizePacket 0 (fun _ => 0) (List.replicate 0x1000002 0))
        VersionD.readPacketLength VersionD.readPacket ((List.replicate 0x1000002 0).drop 2)
        ((0 : UInt32) &&& 0x0F ≠ 0) [] := by
  have h : Expected (List.replicate 0x1000002 0) := by
    rw [Expected, List.length_replicate]
    omega
  refine ⟨h, fun hr => ?_, fun hr => ?_⟩
  · exact (version0_roundTrips_iff h []).mp hr List.length_replicate
  · have := (versionD_roundTrips_iff h 0 (fun _ => 0) []).mp hr
    rw [List.length_replicate] at this
    unfold kPacketSizeMax at this
    omega

end TelegramDesktop.Mtproto.TcpProtocol
