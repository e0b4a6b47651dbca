import TelegramDesktop.Mtproto.TcpConnection

namespace TelegramDesktop.Mtproto
open Base

namespace TcpProtocol

def packetLength (size : ℤ) : PacketLength :=
  if size = kUnknownSize then .unknown else if size ≤ 0 then .invalid else .size size.toNat

theorem packetLength_unknown_iff {size : ℤ} :
    packetLength size = .unknown ↔ size = kUnknownSize := by
  unfold packetLength
  split_ifs with h <;> simp [h]

theorem packetLength_size {size : ℤ} {n : ℕ} (h : packetLength size = .size n) :
    0 < n ∧ size = n := by
  unfold packetLength at h
  split_ifs at h
  have := PacketLength.size.inj h
  omega

theorem Version0.readPacketLength_append (bs cs : List UInt8)
    (h : readPacketLength bs ≠ kUnknownSize) :
    readPacketLength (bs ++ cs) = readPacketLength bs := by
  match bs with
  | [] => exact absurd rfl h
  | first :: rest =>
    by_cases hf : first = 0x7F
    · subst hf
      match rest with
      | [] | [_] | [_, _] => exact absurd rfl h
      | b₁ :: b₂ :: b₃ :: rest => rfl
    · simp only [List.cons_append, readPacketLength, hf, if_false]

theorem Version0.length_of_unknown {bs : List UInt8} (h : readPacketLength bs = kUnknownSize) :
    bs.length < 4 := by
  match bs with
  | [] | [_] | [_, _] | [_, _, _] => simp
  | first :: b₁ :: b₂ :: b₃ :: rest =>
    exfalso
    simp only [readPacketLength, kUnknownSize, kInvalidSize] at h
    split_ifs at h <;> omega

theorem VersionD.readPacketLength_append (bs cs : List UInt8)
    (h : readPacketLength bs ≠ kUnknownSize) :
    readPacketLength (bs ++ cs) = readPacketLength bs := by
  match bs with
  | [] | [_] | [_, _] | [_, _, _] => exact absurd rfl h
  | b₀ :: b₁ :: b₂ :: b₃ :: rest => rfl

theorem VersionD.length_of_unknown {bs : List UInt8} (h : readPacketLength bs = kUnknownSize) :
    bs.length < 4 := by
  match bs with
  | [] | [_] | [_, _] | [_, _, _] => simp
  | b₀ :: b₁ :: b₂ :: b₃ :: rest =>
    exfalso
    simp only [readPacketLength, kUnknownSize, kInvalidSize] at h
    split_ifs at h
    omega

theorem packetLength_invalid {size : ℤ} (h : packetLength size = .invalid) :
    size ≠ kUnknownSize ∧ size ≤ 0 := by
  unfold packetLength at h
  split_ifs at h
  constructor <;> assumption

end TcpProtocol

namespace Version

theorem readPacketLength_append (v : Version) (bs cs : List UInt8)
    (h : v.readPacketLength bs ≠ TcpProtocol.kUnknownSize) :
    v.readPacketLength (bs ++ cs) = v.readPacketLength bs := by
  cases v with
  | version0 | version1 => exact TcpProtocol.Version0.readPacketLength_append bs cs h
  | versionD => exact TcpProtocol.VersionD.readPacketLength_append bs cs h

theorem length_of_unknown (v : Version) {bs : List UInt8}
    (h : v.readPacketLength bs = TcpProtocol.kUnknownSize) : bs.length < 4 := by
  cases v with
  | version0 | version1 => exact TcpProtocol.Version0.length_of_unknown h
  | versionD => exact TcpProtocol.VersionD.length_of_unknown h

/-- The reference: a stream is cut into packets by `readPacketLength` alone. -/
def framing (v : Version) : Framing UInt8 where
  length bs := TcpProtocol.packetLength (v.readPacketLength bs)
  nil := by cases v <;> rfl
  stable bs cs h := by
    rw [v.readPacketLength_append bs cs (mt TcpProtocol.packetLength_unknown_iff.mpr h)]
  pos bs n h := (TcpProtocol.packetLength_size h).1

end Version

namespace TcpConnection

/-- What the buffer in use holds of the stream. -/
def live (c : TcpConnection) : List UInt8 :=
  slice (c.buffer c.usingLargeBuffer) c.offsetBytes c.readBytes

/-- The small buffer is there and in use. -/
structure Small (c : TcpConnection) : Prop where
  small : c.smallBuffer.length = kSmallBufferSize
  large : c.largeBuffer = []
  inUse : c.usingLargeBuffer = false

theorem Small.live_eq {c : TcpConnection} (h : Small c) :
    c.live = slice c.smallBuffer c.offsetBytes c.readBytes := by
  simp [live, buffer, h.inUse]

theorem Small.buffer_eq {c : TcpConnection} (h : Small c) :
    c.buffer c.usingLargeBuffer = c.smallBuffer := by
  simp [buffer, h.inUse]

theorem store_small {c : TcpConnection} {start : ℕ} {bytes : List UInt8}
    (h : start + bytes.length ≤ c.smallBuffer.length) :
    c.store false start bytes =
      .ok { c with smallBuffer := splice c.smallBuffer start bytes } := if_pos h

theorem store_large {c : TcpConnection} {start : ℕ} {bytes : List UInt8}
    (h : start + bytes.length ≤ c.largeBuffer.length) :
    c.store true start bytes =
      .ok { c with largeBuffer := splice c.largeBuffer start bytes } := if_pos h

theorem ensureAvailableInBuffer_enough {c : TcpConnection} (h : Small c) {amount : ℕ}
    (hroom : c.offsetBytes + amount ≤ kSmallBufferSize) :
    c.ensureAvailableInBuffer amount = .ok c := by
  have hfull : c.inUse = ⟨false, 0, kSmallBufferSize⟩ := by
    simp [TcpConnection.inUse, buffer, h.inUse, h.small]
  rw [ensureAvailableInBuffer, hfull, Span.subspanFrom_eq (by simp only; omega)]
  have hle : amount ≤ kSmallBufferSize - c.offsetBytes := by omega
  simp [hle, bind, Except.bind, pure, Except.pure]

/-- What was read, at the start of the small buffer. -/
def moved (c : TcpConnection) : TcpConnection :=
  { c with smallBuffer := splice c.smallBuffer 0 c.live, offsetBytes := 0 }

/-- What was read, at the start of a new large buffer. -/
def enlarged (c : TcpConnection) (amount : ℕ) : TcpConnection :=
  { c with
    largeBuffer := splice (List.replicate amount 0) 0 c.live
    usingLargeBuffer := true
    offsetBytes := 0 }

theorem Small.length_live {c : TcpConnection} (h : Small c)
    (hread : c.offsetBytes + c.readBytes ≤ kSmallBufferSize) : c.live.length = c.readBytes := by
  rw [h.live_eq]
  exact length_slice (by rw [h.small]; exact hread)

theorem Small.moved {c : TcpConnection} (h : Small c)
    (hread : c.offsetBytes + c.readBytes ≤ kSmallBufferSize) :
    Small c.moved ∧ c.moved.live = c.live := by
  have hlen := h.length_live hread
  have hfit : 0 + c.live.length ≤ c.smallBuffer.length := by
    rw [hlen, h.small]
    omega
  have hsmall : Small c.moved := ⟨(length_splice hfit).trans h.small, h.large, h.inUse⟩
  refine ⟨hsmall, ?_⟩
  rw [hsmall.live_eq]
  change slice (splice c.smallBuffer 0 c.live) 0 c.readBytes = _
  rw [← hlen, slice_splice_self hfit]

theorem Small.enlarged {c : TcpConnection} (h : Small c) {amount : ℕ}
    (hread : c.offsetBytes + c.readBytes ≤ kSmallBufferSize) (hamount : c.readBytes ≤ amount) :
    (c.enlarged amount).largeBuffer.length = amount ∧ (c.enlarged amount).live = c.live := by
  have hlen := h.length_live hread
  have hfit : 0 + c.live.length ≤ (List.replicate amount (0 : UInt8)).length := by
    rw [hlen, List.length_replicate]
    omega
  refine ⟨(length_splice hfit).trans List.length_replicate, ?_⟩
  change slice (splice (List.replicate amount 0) 0 c.live) 0 c.readBytes = _
  rw [← hlen, slice_splice_self hfit]

/-- With too little space behind it, what was read moves to the start of the small
buffer, or to a large one. -/
theorem ensureAvailableInBuffer_move {c : TcpConnection} (h : Small c) (amount : ℕ)
    (hroom : kSmallBufferSize < c.offsetBytes + amount)
    (hread : c.offsetBytes + c.readBytes ≤ kSmallBufferSize) (hamount : c.readBytes ≤ amount) :
    c.ensureAvailableInBuffer amount =
      .ok (if amount ≤ kSmallBufferSize then c.moved else c.enlarged amount) := by
  have hfull : c.inUse = ⟨false, 0, kSmallBufferSize⟩ := by
    simp [TcpConnection.inUse, buffer, h.inUse, h.small]
  have hle : ¬ amount ≤ kSmallBufferSize - c.offsetBytes := by omega
  have hload : c.load ⟨false, 0 + c.offsetBytes + 0, c.readBytes⟩ = c.live := by
    rw [h.live_eq, load, Nat.zero_add]
    rfl
  have hlen := h.length_live hread
  rw [ensureAvailableInBuffer, hfull, Span.subspanFrom_eq (by simp only; omega)]
  simp only [bind, Except.bind, hle, if_false]
  rw [Span.subspan_eq (by simp only; omega)]
  simp only [hload, h.small, h.large, List.length_nil]
  by_cases hs : amount ≤ kSmallBufferSize
  · rw [if_pos hs, if_pos hs, store_small (by rw [h.small]; omega)]
    simp only [h.inUse, Bool.false_eq_true, if_false]
    rw [TcpConnection.moved, ← h.inUse]
    rfl
  · rw [if_neg hs, if_neg hs, if_neg (by omega),
      store_large (by rw [List.length_replicate]; omega)]
    rfl

/-- The packets handed over so far. -/
def packets (c : TcpConnection) : List (List UInt8) :=
  c.events.filterMap fun e => match e with
    | .socketPacket bytes => some bytes
    | _ => none

@[simp] theorem packets_emit_packet (c : TcpConnection) (bytes : List UInt8) :
    (c.emit (.socketPacket bytes)).packets = c.packets ++ [bytes] := by
  simp [packets, emit]

@[simp] theorem packets_emit_some (c : TcpConnection) :
    (c.emit .receivedSome).packets = c.packets := by
  simp [packets, emit]

@[simp] theorem packets_emit_error (c : TcpConnection) : (c.emit .error).packets = c.packets := by
  simp [packets, emit]

/-- Between two reads `rest` is in the buffer in use: a packet that is not complete, with
room for all of it, or the first bytes of a length with room for more in the small buffer. -/
structure Holds (v : Version) (c : TcpConnection) (rest : List UInt8) : Prop where
  small : c.smallBuffer.length = kSmallBufferSize
  live : c.live = rest
  large : c.usingLargeBuffer = false → c.largeBuffer = []
  unknown : c.leftBytes = 0 →
    c.usingLargeBuffer = false ∧ c.offsetBytes + kMinPacketBuffer ≤ kSmallBufferSize ∧
      c.readBytes < 4 ∧ v.framing.length rest = .unknown
  short : c.leftBytes ≠ 0 →
    c.offsetBytes + (c.readBytes + c.leftBytes) ≤ (c.buffer c.usingLargeBuffer).length ∧
      v.framing.length rest = .size (c.readBytes + c.leftBytes)

theorem Holds.emit {v : Version} {c : TcpConnection} {rest : List UInt8} (h : Holds v c rest)
    (e : Event) : Holds v (c.emit e) rest :=
  ⟨h.small, h.live, h.large, h.unknown, h.short⟩

/-- The connection with `n` bytes of a packet still to come. -/
def waitFor (c : TcpConnection) (n : ℕ) : TcpConnection := { c with leftBytes := n }

/-- The connection with a packet of `n` bytes taken off what it has read. -/
def advance (c : TcpConnection) (packet : List UInt8) (n : ℕ) : TcpConnection :=
  { c.emit (.socketPacket packet) with
    offsetBytes := c.offsetBytes + n
    readBytes := c.readBytes - n }

section Extract

variable {v : Version} {c : TcpConnection} {s : Span}

theorem extract_unknown (h : v.readPacketLength (c.load s) = TcpProtocol.kUnknownSize) :
    extract v c s = .ok (c, true) := by
  rw [extract, h]
  split_ifs <;> rfl

theorem extract_invalid (hread : 0 < c.readBytes)
    (hu : v.readPacketLength (c.load s) ≠ TcpProtocol.kUnknownSize)
    (hi : v.readPacketLength (c.load s) ≤ 0) :
    extract v c s = .ok (c.emit .error, false) := by
  rw [extract, if_pos hread]
  simp only
  rw [if_neg hu, dif_pos hi]

theorem extract_short (hread : 0 < c.readBytes) {n : ℕ}
    (hn : v.readPacketLength (c.load s) = n) (hshort : s.size < n) :
    extract v c s = ((c.waitFor (n - s.size)).ensureAvailableInBuffer n >>=
      fun c => .ok (c.emit .receivedSome, true)) := by
  have hu : ¬ (n : ℤ) = TcpProtocol.kUnknownSize := by
    unfold TcpProtocol.kUnknownSize
    omega
  rw [extract, hn, if_pos hread, if_neg hu, dif_neg (by omega), if_neg (by omega)]
  simp only [Int.toNat_natCast]
  split
  · rename_i f hf
    have hwait : (c.waitFor (n - s.size)).ensureAvailableInBuffer n = .error f := hf
    rw [hwait]
    rfl
  · rename_i c' hc
    have hwait : (c.waitFor (n - s.size)).ensureAvailableInBuffer n = .ok c' := hc
    rw [hwait]
    rfl

theorem extract_packet (hread : 0 < c.readBytes)
    {n : ℕ} (hn : v.readPacketLength (c.load s) = n) (hpos : 0 < n) (hfits : n ≤ s.size) :
    extract v c s = (c.advance ((c.load s).take n) n).ensureAvailableInBuffer kMinPacketBuffer >>=
      fun c => extract v c ⟨s.large, s.start + n, s.size - n⟩ := by
  have hu : ¬ (n : ℤ) = TcpProtocol.kUnknownSize := by
    unfold TcpProtocol.kUnknownSize
    omega
  have htake : c.load ⟨s.large, s.start, n⟩ = (c.load s).take n := (take_slice hfits).symm
  rw [extract, hn, if_pos hread, if_neg hu, dif_neg (by omega), if_pos (by omega),
    Span.subspan_eq (by omega)]
  simp only [Int.toNat_natCast]
  split
  · rename_i f hrest
    rw [Span.subspanFrom_eq hfits] at hrest
    cases hrest
  · rename_i rest hrest
    rw [Span.subspanFrom_eq hfits] at hrest
    obtain rfl := Except.ok.inj hrest
    rw [Nat.add_zero, htake]
    split
    · rename_i f hf
      have hroom : (c.advance ((c.load s).take n) n).ensureAvailableInBuffer kMinPacketBuffer =
          .error f := hf
      rw [hroom]
      rfl
    · rename_i c' hc
      have hroom : (c.advance ((c.load s).take n) n).ensureAvailableInBuffer kMinPacketBuffer =
          .ok c' := hc
      rw [hroom]
      rfl

end Extract

/-- `s` shows what was read, where it is or, once that is at the start of the buffer,
where it was before it moved there. -/
structure Shows (c : TcpConnection) (s : Span) : Prop where
  small : Small c
  large : s.large = false
  size : s.size = c.readBytes
  bound : s.start + s.size ≤ kSmallBufferSize
  left : c.leftBytes = 0
  room : c.offsetBytes + kMinPacketBuffer ≤ kSmallBufferSize
  read : c.offsetBytes + c.readBytes ≤ kSmallBufferSize
  load : c.load s = c.live
  place : s.start = c.offsetBytes ∨ c.offsetBytes + c.readBytes ≤ kMinPacketBuffer

theorem Shows.length_live {c : TcpConnection} {s : Span} (h : Shows c s) :
    c.live.length = c.readBytes := h.small.length_live h.read

/-- A packet is taken off; what is behind it may move, but stays as it is where it is shown. -/
theorem Shows.advance {c : TcpConnection} {s : Span} (h : Shows c s) (packet : List UInt8) {n : ℕ}
    (hn : n ≤ s.size) :
    ∃ c', (c.advance packet n).ensureAvailableInBuffer kMinPacketBuffer = .ok c' ∧
      Shows c' ⟨s.large, s.start + n, s.size - n⟩ ∧ c'.live = c.live.drop n ∧
      c'.events = c.events ++ [.socketPacket packet] ∧ c'.receiveState = c.receiveState := by
  have hsize := h.size
  have hbound := h.bound
  have hread := h.read
  have hsmall : Small (c.advance packet n) := ⟨h.small.small, h.small.large, h.small.inUse⟩
  have hlive : (c.advance packet n).live = c.live.drop n := by
    rw [hsmall.live_eq, h.small.live_eq, drop_slice]
    rfl
  have hload : c.load ⟨s.large, s.start + n, s.size - n⟩ = c.live.drop n := by
    rw [← h.load]
    exact (drop_slice _ _ _ _).symm
  have hoffset : (c.advance packet n).offsetBytes = c.offsetBytes + n := rfl
  have hreadBytes : (c.advance packet n).readBytes = c.readBytes - n := rfl
  by_cases hroom : c.offsetBytes + n + kMinPacketBuffer ≤ kSmallBufferSize
  · refine ⟨c.advance packet n, ensureAvailableInBuffer_enough hsmall hroom, ?_, hlive, rfl, rfl⟩
    refine ⟨hsmall, h.large, ?_, ?_, h.left, hroom, by omega, hload.trans hlive.symm, ?_⟩
    · rw [hreadBytes, hsize]
    · simp only
      omega
    · rw [hoffset, hreadBytes]
      exact h.place.imp (congrArg (· + n)) fun hp => by omega
  · -- The rest is shown at the end of the buffer, apart from where it moves to.
    have hmin : kMinPacketBuffer + kMinPacketBuffer ≤ kSmallBufferSize := by decide
    have hplace : s.start = c.offsetBytes := h.place.resolve_right (by omega)
    have hmove := ensureAvailableInBuffer_move hsmall kMinPacketBuffer (by omega)
      (by omega) (by omega)
    rw [if_pos (by decide)] at hmove
    obtain ⟨hsmall', hlive'⟩ := hsmall.moved (by omega)
    have hlen := hsmall.length_live (by omega)
    have hfit : 0 + (c.advance packet n).live.length ≤ c.smallBuffer.length := by
      rw [hlen, h.small.small]
      omega
    have hoffset' : (c.advance packet n).moved.offsetBytes = 0 := rfl
    have hread' : (c.advance packet n).moved.readBytes = c.readBytes - n := rfl
    refine ⟨_, hmove, ⟨hsmall', h.large, ?_, ?_, h.left, by omega, by omega, ?_, ?_⟩,
      hlive'.trans hlive, rfl, rfl⟩
    · exact congrArg (· - n) hsize
    · simp only
      omega
    · rw [hlive', hlive, ← hload]
      simp only [h.large]
      exact slice_splice_apart hfit (.inr (by simp only; omega))
    · exact .inr (by omega)

/-- A packet that is not complete stays, with room for the rest of it. -/
theorem Shows.wait {v : Version} {c : TcpConnection} {s : Span} (h : Shows c s) {n : ℕ}
    (hl : v.framing.length c.live = .size n) (hn : c.readBytes < n) :
    ∃ c', (c.waitFor (n - s.size)).ensureAvailableInBuffer n = .ok c' ∧ Holds v c' c.live ∧
      c'.events = c.events ∧ c'.receiveState = c.receiveState := by
  have hsize := h.size
  have hread := h.read
  have hsmall : Small (c.waitFor (n - s.size)) := ⟨h.small.small, h.small.large, h.small.inUse⟩
  have hlive : (c.waitFor (n - s.size)).live = c.live := rfl
  have hleft : n - s.size ≠ 0 := by omega
  have hn' : c.readBytes + (n - s.size) = n := by omega
  have hoffset : (c.waitFor (n - s.size)).offsetBytes = c.offsetBytes := rfl
  by_cases hroom : c.offsetBytes + n ≤ kSmallBufferSize
  · refine ⟨_, ensureAvailableInBuffer_enough hsmall hroom,
      ⟨h.small.small, rfl, fun _ => h.small.large, fun h0 => absurd h0 hleft, fun _ => ?_⟩,
      rfl, rfl⟩
    rw [hsmall.buffer_eq, hsmall.small]
    change c.offsetBytes + (c.readBytes + (n - s.size)) ≤ _ ∧
      _ = PacketLength.size (c.readBytes + (n - s.size))
    rw [hn']
    exact ⟨hroom, hl⟩
  · have hmove := ensureAvailableInBuffer_move hsmall n (by omega) hread hn.le
    by_cases hfit : n ≤ kSmallBufferSize
    · rw [if_pos hfit] at hmove
      obtain ⟨hsmall', hlive'⟩ := hsmall.moved hread
      refine ⟨_, hmove, ⟨hsmall'.small, hlive'.trans hlive, fun _ => h.small.large,
        fun h0 => absurd h0 hleft, fun _ => ?_⟩, rfl, rfl⟩
      rw [hsmall'.buffer_eq, hsmall'.small]
      change 0 + (c.readBytes + (n - s.size)) ≤ _ ∧
        _ = PacketLength.size (c.readBytes + (n - s.size))
      rw [hn', Nat.zero_add]
      exact ⟨hfit, hl⟩
    · rw [if_neg hfit] at hmove
      obtain ⟨hlarge, hlive'⟩ := hsmall.enlarged hread hn.le
      refine ⟨_, hmove, ⟨h.small.small, hlive'.trans hlive, fun hu => Bool.noConfusion hu,
        fun h0 => absurd h0 hleft, fun _ => ?_⟩, rfl, rfl⟩
      change 0 + (c.readBytes + (n - s.size)) ≤ (enlarged _ n).largeBuffer.length ∧
        _ = PacketLength.size (c.readBytes + (n - s.size))
      rw [hn', hlarge, Nat.zero_add]
      exact ⟨le_rfl, hl⟩

/-- Looking for packets in what was read cuts it as the reference does. -/
theorem extract_spec (v : Version) {c : TcpConnection} {s : Span} (h : Shows c s) :
    ∃ c', extract v c s = .ok (c', !(v.framing.cut c.live).invalid) ∧
      c'.receiveState = c.receiveState ∧
      c'.packets = c.packets ++ (v.framing.cut c.live).packets ∧
      (.error ∈ c'.events ↔ .error ∈ c.events ∨ (v.framing.cut c.live).invalid = true) ∧
      ((v.framing.cut c.live).invalid = false → Holds v c' (v.framing.cut c.live).rest) := by
  induction hn : s.size using Nat.strong_induction_on generalizing c s with
  | _ k ih =>
  have hlen := h.length_live
  have hread0 (hl : v.framing.length c.live ≠ .unknown) : 0 < c.readBytes := by
    by_contra h0
    apply hl
    rw [List.eq_nil_of_length_eq_zero (by omega : c.live.length = 0)]
    exact v.framing.nil
  cases hl : v.framing.length c.live with
  | unknown =>
    -- Not enough bytes yet.
    have hu := TcpProtocol.packetLength_unknown_iff.mp hl
    have hlt := v.length_of_unknown hu
    rw [extract_unknown (h.load ▸ hu), Framing.cut_unknown hl]
    refine ⟨c, rfl, rfl, by simp, by simp, fun _ =>
      ⟨h.small.small, rfl, fun _ => h.small.large, fun _ => ?_, fun h0 => absurd h.left h0⟩⟩
    exact ⟨h.small.inUse, h.room, by omega, hl⟩
  | invalid =>
    obtain ⟨hu, hi⟩ := TcpProtocol.packetLength_invalid hl
    rw [extract_invalid (hread0 (by rw [hl]; exact PacketLength.noConfusion)) (h.load ▸ hu)
      (h.load ▸ hi), Framing.cut_invalid hl]
    exact ⟨c.emit .error, rfl, rfl, by simp, by simp [emit], by simp⟩
  | size n =>
    obtain ⟨hpos, hps⟩ := TcpProtocol.packetLength_size hl
    have hread0 := hread0 (Framing.length_ne_unknown hl)
    have hsize := h.size
    by_cases hfits : n ≤ c.readBytes
    · obtain ⟨c1, hc1, hshows, hlive, hevents, hstate⟩ := h.advance (c.live.take n)
        (by omega : n ≤ s.size)
      obtain ⟨c', hc', hstate', hpackets', herror', hholds'⟩ :=
        ih (s.size - n) (by omega) hshows rfl
      rw [hlive] at hc' hpackets' herror' hholds'
      rw [extract_packet hread0 (h.load ▸ hps) hpos (by omega), Framing.cut_packet hl (by omega),
        h.load, hc1]
      refine ⟨c', hc', hstate'.trans hstate, ?_, ?_, hholds'⟩
      · rw [hpackets']
        simp [packets, hevents]
      · rw [herror', hevents]
        simp
    · obtain ⟨c1, hc1, hholds, hevents, hstate⟩ := h.wait hl (by omega)
      rw [extract_short hread0 (h.load ▸ hps) (by omega), Framing.cut_short hl (by omega), hc1]
      refine ⟨c1.emit .receivedSome, rfl, hstate, ?_, ?_, fun _ => hholds.emit _⟩
      · simp [packets, hevents, emit]
      · simp [emit, hevents]

/-- The connection with decrypted bytes written behind what it holds. -/
def receive (c : TcpConnection) (bytes : List UInt8) : TcpConnection :=
  { c with
    smallBuffer := if c.usingLargeBuffer then c.smallBuffer
      else splice c.smallBuffer (c.offsetBytes + c.readBytes) bytes
    largeBuffer := if c.usingLargeBuffer then
        splice c.largeBuffer (c.offsetBytes + c.readBytes) bytes
      else c.largeBuffer
    receiveState := c.receiveState + bytes.length
    readBytes := c.readBytes + bytes.length }

section Receive

variable {c : TcpConnection} {bytes : List UInt8}
  (h : c.offsetBytes + c.readBytes + bytes.length ≤ (c.buffer c.usingLargeBuffer).length)
include h

omit h in
theorem buffer_receive :
    (c.receive bytes).buffer c.usingLargeBuffer =
      splice (c.buffer c.usingLargeBuffer) (c.offsetBytes + c.readBytes) bytes := by
  cases hu : c.usingLargeBuffer <;> simp [receive, buffer, hu]

theorem length_buffer_receive :
    ((c.receive bytes).buffer c.usingLargeBuffer).length =
      (c.buffer c.usingLargeBuffer).length := by
  rw [buffer_receive, length_splice h]

theorem live_receive : (c.receive bytes).live = c.live ++ bytes := by
  have hle : c.offsetBytes ≤ c.offsetBytes + c.readBytes := by omega
  have := slice_splice_append h hle
  rw [Nat.add_sub_cancel_left, ← buffer_receive] at this
  exact this

theorem store_receive (n : ℕ) (hn : bytes.length = n) :
    ∃ c', c.store c.usingLargeBuffer (c.offsetBytes + c.readBytes) bytes = .ok c' ∧
      { c' with receiveState := c'.receiveState + n, readBytes := c'.readBytes + n } =
        c.receive bytes := by
  subst hn
  unfold store
  rw [if_pos h]
  cases hu : c.usingLargeBuffer <;> exact ⟨_, rfl, by simp [receive, hu]⟩

end Receive

/-- What one turn of the loop that reads `got` bytes leaves behind, where `t` is the cut
of all it holds and reads. -/
structure Reads (v : Version) (c c' : TcpConnection) (t : Cut UInt8) (got : ℕ) (goes : Bool) :
    Prop where
  state : c'.receiveState = c.receiveState + got
  packets : c'.packets = c.packets ++ t.packets
  error : .error ∈ c'.events ↔ .error ∈ c.events ∨ t.invalid = true
  holds : t.invalid = false → Holds v c' t.rest
  stops : goes = false → got = 0 ∨ t.invalid = true
  goes : goes = true → t.invalid = false

namespace Holds

variable {v : Version} {c : TcpConnection} {rest : List UInt8}

theorem length_buffer (h : Holds v c rest) (hl : c.leftBytes = 0) :
    (c.buffer c.usingLargeBuffer).length = kSmallBufferSize := by
  simp [buffer, (h.unknown hl).1, h.small]

theorem length_rest (h : Holds v c rest) : rest.length = c.readBytes := by
  rw [← h.live]
  apply length_slice
  by_cases hl : c.leftBytes = 0
  · have hmin : 4 ≤ kMinPacketBuffer := by decide
    have := h.unknown hl
    rw [h.length_buffer hl]
    omega
  · have := h.short hl
    omega

/-- What is held does not make a packet yet. -/
theorem cut (h : Holds v c rest) : v.framing.cut rest = ⟨[], rest, false⟩ := by
  by_cases hl : c.leftBytes = 0
  · exact Framing.cut_unknown (h.unknown hl).2.2.2
  · exact Framing.cut_short (h.short hl).2 (by rw [h.length_rest]; omega)

/-- There is room for what may be read at once. -/
theorem limit (h : Holds v c rest) : ∃ limit : ℕ, 0 < limit ∧
    c.readLimit = limit ∧
    c.offsetBytes + c.readBytes + limit ≤ (c.buffer c.usingLargeBuffer).length ∧
    (0 < c.leftBytes → limit = c.leftBytes) := by
  by_cases hl : c.leftBytes = 0
  · have hmin : 4 ≤ kMinPacketBuffer := by decide
    have := h.unknown hl
    refine ⟨kSmallBufferSize - c.offsetBytes - c.readBytes, by omega, ?_, ?_, by omega⟩
    · rw [readLimit, if_neg (by omega)]
      omega
    · rw [h.length_buffer hl]
      omega
  · have := h.short hl
    refine ⟨c.leftBytes, by omega, if_pos (by omega), by omega, fun _ => rfl⟩

end Holds

namespace Holds

variable {v : Version} {c : TcpConnection} {rest bytes : List UInt8}

theorem small_receive (h : Holds v c rest)
    (hfit : c.offsetBytes + c.readBytes + bytes.length ≤ (c.buffer c.usingLargeBuffer).length) :
    (c.receive bytes).smallBuffer.length = kSmallBufferSize := by
  cases hu : c.usingLargeBuffer with
  | false =>
    have hlen := length_buffer_receive hfit
    simp only [buffer, hu, Bool.false_eq_true, if_false] at hlen
    rw [hlen, h.small]
  | true => simp [receive, hu, h.small]

theorem large_receive (h : Holds v c rest) (hu : c.usingLargeBuffer = false) :
    (c.receive bytes).largeBuffer = [] := by
  simp [receive, hu, h.large hu]

end Holds

/-- The connection after a packet that was waited for: both buffers are free again. -/
def completed (c : TcpConnection) (packet : List UInt8) : TcpConnection :=
  { (c.waitFor 0).emit (.socketPacket packet) with
    usingLargeBuffer := false, largeBuffer := [], offsetBytes := 0, readBytes := 0 }

theorem handleRead_complete {v : Version} {c : TcpConnection} {full : Span} {readCount : ℕ}
    (hl : 0 < c.leftBytes) (hcount : readCount = c.leftBytes) (hfull : c.readBytes ≤ full.size) :
    handleRead v c full readCount =
      .ok (c.completed (c.load ⟨full.large, full.start, c.readBytes⟩), true) := by
  rw [handleRead, if_pos hl, if_neg (by omega), hcount]
  simp only [Nat.sub_self, if_true]
  rw [Span.subspan_eq (by omega)]
  rfl

theorem handleRead_more {v : Version} {c : TcpConnection} {full : Span} {readCount : ℕ}
    (hcount : readCount < c.leftBytes) :
    handleRead v c full readCount =
      .ok ((c.waitFor (c.leftBytes - readCount)).emit .receivedSome, true) := by
  rw [handleRead, if_pos (by omega), if_neg (by omega)]
  simp only
  rw [if_neg (by omega)]
  rfl

theorem handleRead_idle {v : Version} {c : TcpConnection} {full : Span} {readCount : ℕ}
    (hl : c.leftBytes = 0) (hfull : c.readBytes ≤ full.size) :
    handleRead v c full readCount = extract v c ⟨full.large, full.start, c.readBytes⟩ := by
  rw [handleRead, if_neg (by omega), Span.subspan_eq (by omega)]
  rfl

/-- Bytes that belong to a packet whose length is known complete it or are added to it. -/
theorem handleRead_short {v : Version} {c : TcpConnection} {rest bytes : List UInt8}
    (h : Holds v c rest) (hl : 0 < c.leftBytes) (hle : bytes.length ≤ c.leftBytes) {n : ℕ}
    (hn : c.readBytes + bytes.length ≤ n) :
    ∃ c', handleRead v (c.receive bytes) ⟨c.usingLargeBuffer, c.offsetBytes, n⟩ bytes.length =
        .ok (c', true) ∧ Reads v c c' (v.framing.cut (rest ++ bytes)) bytes.length true := by
  obtain ⟨hroom, hsize⟩ := h.short hl.ne'
  have hfit : c.offsetBytes + c.readBytes + bytes.length ≤
      (c.buffer c.usingLargeBuffer).length := by omega
  have hlive : (c.receive bytes).live = rest ++ bytes := by rw [live_receive hfit, h.live]
  have hsmall := h.small_receive hfit
  have hsize' := (v.framing.stable rest bytes (Framing.length_ne_unknown hsize)).trans hsize
  have hlen : (rest ++ bytes).length = c.readBytes + bytes.length := by
    rw [List.length_append, h.length_rest]
  by_cases hdone : bytes.length = c.leftBytes
  · -- The packet is complete.
    have hcut : v.framing.cut (rest ++ bytes) = ⟨[rest ++ bytes], [], false⟩ := by
      rw [Framing.cut_packet hsize' (by omega), List.take_of_length_le (by omega),
        List.drop_of_length_le (by omega), Framing.cut_nil]
    have hmin : 0 + kMinPacketBuffer ≤ kSmallBufferSize := by decide
    rw [hcut]
    refine ⟨_, handleRead_complete hl hdone hn, rfl, ?_, ?_, fun _ => ?_, Bool.noConfusion,
      fun _ => rfl⟩
    · rw [← hlive]
      exact packets_emit_packet _ _
    · simp [completed, emit, waitFor, receive]
    · exact ⟨hsmall, rfl, fun _ => rfl, fun _ => ⟨rfl, hmin, Nat.zero_lt_succ 3, v.framing.nil⟩,
        fun h0 => absurd rfl h0⟩
  · have hcut := Framing.cut_short hsize' (by omega)
    have hleft : c.leftBytes - bytes.length ≠ 0 := by omega
    have htotal : c.readBytes + bytes.length + (c.leftBytes - bytes.length) =
        c.readBytes + c.leftBytes := by omega
    rw [hcut]
    refine ⟨_, handleRead_more (by omega : bytes.length < c.leftBytes), rfl, ?_, ?_, fun _ => ?_,
      Bool.noConfusion, fun _ => rfl⟩
    · simp [packets, emit, waitFor, receive]
    · simp [emit, waitFor, receive]
    · refine ⟨hsmall, hlive, h.large_receive, fun h0 => absurd h0 hleft, fun _ => ?_⟩
      change c.offsetBytes + (c.readBytes + bytes.length + (c.leftBytes - bytes.length)) ≤
        ((c.receive bytes).buffer c.usingLargeBuffer).length ∧
          _ = PacketLength.size (c.readBytes + bytes.length + (c.leftBytes - bytes.length))
      rw [htotal, length_buffer_receive hfit]
      exact ⟨hroom, hsize'⟩

/-- Bytes read while no length is known are searched for packets. -/
theorem handleRead_unknown {v : Version} {c : TcpConnection} {rest bytes : List UInt8}
    (h : Holds v c rest) (hl : c.leftBytes = 0)
    (hle : c.offsetBytes + c.readBytes + bytes.length ≤ kSmallBufferSize) {n : ℕ}
    (hn : c.readBytes + bytes.length ≤ n) :
    ∃ c' goes, handleRead v (c.receive bytes) ⟨c.usingLargeBuffer, c.offsetBytes, n⟩ bytes.length =
        .ok (c', goes) ∧ Reads v c c' (v.framing.cut (rest ++ bytes)) bytes.length goes := by
  obtain ⟨hu, hroom, -, -⟩ := h.unknown hl
  have hfit : c.offsetBytes + c.readBytes + bytes.length ≤
      (c.buffer c.usingLargeBuffer).length := by rw [h.length_buffer hl]; exact hle
  have hlive : (c.receive bytes).live = rest ++ bytes := by rw [live_receive hfit, h.live]
  have hshows : Shows (c.receive bytes)
      ⟨c.usingLargeBuffer, c.offsetBytes, c.readBytes + bytes.length⟩ :=
    ⟨⟨h.small_receive hfit, h.large_receive hu, hu⟩, hu, rfl, by simp only; omega, hl, hroom,
      by change c.offsetBytes + (c.readBytes + bytes.length) ≤ _; omega, rfl, .inl rfl⟩
  obtain ⟨c', hc', hstate, hpackets, herror, hholds⟩ := extract_spec v hshows
  rw [hlive] at hc' hpackets herror hholds
  have hread : (c.receive bytes).readBytes ≤ n := hn
  have hidle : handleRead v (c.receive bytes) ⟨c.usingLargeBuffer, c.offsetBytes, n⟩
      bytes.length = extract v (c.receive bytes)
        ⟨c.usingLargeBuffer, c.offsetBytes, c.readBytes + bytes.length⟩ := handleRead_idle hl hread
  refine ⟨c', _, hidle.trans hc', hstate, hpackets, herror, hholds, ?_, ?_⟩
  · exact fun hg => .inr (by simpa using hg)
  · exact fun hg => by simpa using hg

/-- One turn of the loop: the socket gives what it has, up to the limit, and that is cut as the
reference cuts it. -/
theorem readOnce_spec {v : Version} {c : TcpConnection} {rest : List UInt8} (h : Holds v c rest)
    (dec : ℕ → UInt8 → UInt8) (stream : List UInt8) (count : ℕ) :
    ∃ c' got stream' goes, readOnce v dec c stream count = .ok (c', stream', goes) ∧
      stream = got ++ stream' ∧ 0 < c.readLimit ∧
      got = stream.take (min count c.readLimit.toNat) ∧
      Reads v c c' (v.framing.cut (rest ++ got.mapIdx fun i b => dec (c.receiveState + i) b))
        got.length goes := by
  obtain ⟨limit, hpos, hlimit, hfit, hleft⟩ := h.limit
  have hbuffer : c.inUse = ⟨c.usingLargeBuffer, 0, (c.buffer c.usingLargeBuffer).length⟩ := rfl
  have hlimitPos : (0 : ℤ) < limit := by omega
  rw [readOnce, hlimit, hbuffer]
  generalize hsize : (c.buffer c.usingLargeBuffer).length = size at *
  rw [if_neg (by omega), Span.subspanFrom_eq (by simp only; omega)]
  simp only [bind, Except.bind]
  rw [Span.subspanFrom_eq (by simp only; omega)]
  simp only
  rw [Span.subspan_eq (by simp only; omega)]
  simp only [Int.toNat_natCast]
  generalize hgot : stream.take (min count limit) = got
  have hlen : got.length ≤ limit := by
    rw [← hgot, List.length_take]
    omega
  have hsplit : stream = got ++ stream.drop got.length := by
    rw [← hgot]
    exact (List.prefix_iff_eq_append.mp (List.take_prefix _ stream)).symm
  by_cases hzero : got.length = 0
  · rw [if_pos hzero]
    refine ⟨c, [], stream, false, rfl, rfl, hlimitPos,
      (List.eq_nil_of_length_eq_zero hzero).symm, ?_⟩
    simp only [List.mapIdx_nil, List.append_nil]
    refine ⟨rfl, ?_, ?_, ?_, fun _ => .inl rfl, ?_⟩
    · simp [h.cut]
    · simp [h.cut]
    · rw [h.cut]
      exact fun _ => h
    · rw [h.cut]
      exact fun _ => rfl
  · rw [if_neg hzero, Span.subspan_eq (by simp only; omega)]
    simp only
    generalize hbytes : (got.mapIdx fun i b => dec (c.receiveState + i) b) = bytes
    have hlen' : bytes.length = got.length := by
      rw [← hbytes, List.length_mapIdx]
    obtain ⟨c1, hstore, hc1⟩ := store_receive (c := c) (by omega) got.length hlen'
    have hread : ∃ c' goes, handleRead v (c.receive bytes)
        ⟨c.usingLargeBuffer, c.offsetBytes, size - c.offsetBytes⟩ got.length = .ok (c', goes) ∧
          Reads v c c' (v.framing.cut (rest ++ bytes)) got.length goes := by
      rw [← hlen']
      by_cases hl : c.leftBytes = 0
      · have := h.length_buffer hl
        exact handleRead_unknown h hl (by omega) (by omega)
      · have := hleft (by omega)
        obtain ⟨c', hc'⟩ := handleRead_short h (by omega) (by omega) (by omega :
          c.readBytes + bytes.length ≤ size - c.offsetBytes)
        exact ⟨c', true, hc'⟩
    obtain ⟨c', goes, hc', hreads⟩ := hread
    refine ⟨c', got, stream.drop got.length, goes, ?_, hsplit, hlimitPos, rfl,
      by rwa [hbytes]⟩
    rw [Nat.zero_add, Nat.add_zero, hstore]
    simp only [hc1, hc']
    rfl

end TcpConnection

end TelegramDesktop.Mtproto
