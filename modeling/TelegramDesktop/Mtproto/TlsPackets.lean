import TelegramDesktop.Base.Run
import TelegramDesktop.Mtproto.TlsServerHello

namespace TelegramDesktop.Mtproto.TlsSocket
open Base

/-- The length in the header of the first record. -/
def recordLength (stream : List UInt8) : ℕ := Vectors.toNat (slice stream 3 2)

/-- The payloads of the records, up to a header with wrong bytes. -/
def payloads (stream : List UInt8) : List UInt8 :=
  if _ : stream.length ≤ 5 then []
  else if stream.take 3 ≠ kServerHeader then []
  else
    (stream.drop 5).take (recordLength stream) ++ payloads (stream.drop (5 + recordLength stream))
termination_by stream.length
decreasing_by
  rw [List.length_drop]
  omega

/-- A header with wrong bytes comes after whole records. -/
def badHeader (stream : List UInt8) : Bool :=
  if _ : stream.length ≤ 5 then false
  else if stream.take 3 ≠ kServerHeader then true
  else badHeader (stream.drop (5 + recordLength stream))
termination_by stream.length
decreasing_by
  rw [List.length_drop]
  omega

theorem payloads_short {stream : List UInt8} (h : stream.length ≤ 5) : payloads stream = [] := by
  rw [payloads, dif_pos h]

theorem payloads_nil : payloads [] = [] := payloads_short (Nat.zero_le _)

theorem badHeader_short {stream : List UInt8} (h : stream.length ≤ 5) :
    badHeader stream = false := by
  rw [badHeader, dif_pos h]

theorem badHeader_nil : badHeader [] = false := badHeader_short (Nat.zero_le _)

section Long

variable {stream : List UInt8} (hlong : 5 < stream.length)
include hlong

theorem payloads_bad (h : stream.take 3 ≠ kServerHeader) : payloads stream = [] := by
  rw [payloads, dif_neg (by omega), if_pos h]

theorem badHeader_bad (h : stream.take 3 ≠ kServerHeader) : badHeader stream = true := by
  rw [badHeader, dif_neg (by omega), if_pos h]

theorem payloads_good (h : stream.take 3 = kServerHeader) :
    payloads stream = (stream.drop 5).take (recordLength stream) ++
      payloads (stream.drop (5 + recordLength stream)) := by
  rw [payloads, dif_neg (by omega), if_neg (not_not.mpr h)]

theorem badHeader_good (h : stream.take 3 = kServerHeader) :
    badHeader stream = badHeader (stream.drop (5 + recordLength stream)) := by
  rw [badHeader, dif_neg (by omega), if_neg (not_not.mpr h)]

end Long

namespace Socket

/-- What is still to be read from the bytes at hand and from those that come after them. -/
def ahead (s : Socket) (more : List UInt8) : List UInt8 :=
  ((s.incoming ++ more).drop s.incomingGoodDataOffset.toNat).take s.incomingGoodDataLimit.toNat ++
    payloads ((s.incoming ++ more).drop
      (s.incomingGoodDataOffset.toNat + s.incomingGoodDataLimit.toNat))

def badAhead (s : Socket) (more : List UInt8) : Bool :=
  badHeader ((s.incoming ++ more).drop
    (s.incomingGoodDataOffset.toNat + s.incomingGoodDataLimit.toNat))

/-- No record is being read. -/
structure Idle (s : Socket) : Prop where
  offset : s.incomingGoodDataOffset = 0
  limit : s.incomingGoodDataLimit = 0

theorem Idle.ahead_eq {s : Socket} (h : s.Idle) (more : List UInt8) :
    s.ahead more = payloads (s.incoming ++ more) := by
  rw [ahead, h.offset, h.limit]
  rfl

theorem Idle.badAhead_eq {s : Socket} (h : s.Idle) (more : List UInt8) :
    s.badAhead more = badHeader (s.incoming ++ more) := by
  rw [badAhead, h.offset, h.limit]
  rfl

/-- What a look for the next packet finds, from `offset` on. -/
inductive Looks (s : Socket) (offset : ℕ) : Socket × Bool → Prop
  | waits (hpayloads : payloads (s.incoming.drop offset) = [])
      (hbad : badHeader (s.incoming.drop offset) = false) : Looks s offset (s, true)
  | fails (hpayloads : ∀ more, payloads (s.incoming.drop offset ++ more) = [])
      (hbad : ∀ more, badHeader (s.incoming.drop offset ++ more) = true) :
      Looks s offset (s, false)
  | finds (s' : Socket) (hpos : 0 < s'.incomingGoodDataLimit)
      (hoffset : s'.incomingGoodDataOffset = fullHeader)
      (hlong : fullHeader < s'.incoming.length)
      (hrest : s' = { s with
        incoming := s'.incoming
        incomingGoodDataOffset := s'.incomingGoodDataOffset
        incomingGoodDataLimit := s'.incomingGoodDataLimit })
      (hpayloads : ∀ more, s'.ahead more = payloads (s.incoming.drop offset ++ more))
      (hbad : ∀ more, s'.badAhead more = badHeader (s.incoming.drop offset ++ more)) :
      Looks s offset (s', true)

theorem fullHeader_eq : fullHeader = 5 := rfl

theorem checkPart_header (data : List UInt8) (more : List UInt8) (h : 3 ≤ data.length) :
    checkPart data kServerHeader = true ↔ (data ++ more).take 3 = kServerHeader := by
  rw [checkPart_iff, List.take_append_of_le_length h]
  rfl

theorem readPartLength_drop {data : List UInt8} {offset : ℕ} (h : offset + 5 ≤ data.length)
    (more : List UInt8) :
    readPartLength data (offset + kServerHeader.length) =
      some (recordLength (data.drop offset ++ more) : ℤ) := by
  have hslice : slice (data.drop offset ++ more) 3 2 = slice data (offset + 3) 2 := by
    rw [slice_append_left (by rw [List.length_drop]; omega), slice, slice, List.drop_drop]
  have hread := readPartLength_eq (show offset + 3 + 2 ≤ data.length by omega)
  rw [recordLength, hslice]
  exact hread

theorem checkNextPacketFrom_looks {s : Socket} (hidle : s.Idle) (offset : ℕ) :
    ∃ r, s.checkNextPacketFrom offset = some r ∧ Looks s offset r := by
  induction hleft : s.incoming.length - offset using Nat.strong_induction_on
    generalizing offset with
  | _ left ih =>
    have hdrop : (s.incoming.drop offset).length = s.incoming.length - offset := List.length_drop
    rw [checkNextPacketFrom, if_neg (not_not.mpr hidle.limit)]
    by_cases hshort : s.incoming.length ≤ offset + fullHeader
    · rw [dif_pos hshort]
      rw [fullHeader_eq] at hshort
      exact ⟨_, rfl, .waits (payloads_short (by omega)) (badHeader_short (by omega))⟩
    rw [dif_neg hshort]
    rw [fullHeader_eq] at hshort
    have hlong : ∀ more, 5 < (s.incoming.drop offset ++ more).length := by
      intro more
      rw [List.length_append]
      omega
    have hcheck := fun more => checkPart_header (s.incoming.drop offset) more (by omega)
    by_cases hgood : checkPart (s.incoming.drop offset) kServerHeader = true
    · rw [if_neg (by rw [hgood]; decide),
        readPartLength_drop (show offset + 5 ≤ s.incoming.length by omega) []]
      rw [List.append_nil]
      dsimp only
      have hlength : ∀ more, recordLength (s.incoming.drop offset ++ more) =
          recordLength (s.incoming.drop offset) := by
        intro more
        rw [recordLength, recordLength, slice_append_left (by omega)]
      have hpayloads := fun more => payloads_good (hlong more) ((hcheck more).mp hgood)
      have hbad := fun more => badHeader_good (hlong more) ((hcheck more).mp hgood)
      simp only [hlength] at hpayloads hbad
      by_cases hpos : (0 : ℤ) < (recordLength (s.incoming.drop offset) : ℤ)
      · rw [if_pos hpos]
        have hshift : (if 0 < offset then s.shiftIncomingBy offset else some s) =
            some { s with incoming := s.incoming.drop offset } := by
          split_ifs with hoffset
          · rw [shiftIncomingBy, if_pos ⟨hidle.offset, hidle.limit⟩]
          · rw [show offset = 0 by omega]
            rfl
        rw [hshift]
        refine ⟨_, rfl, .finds _ hpos rfl ?_ rfl ?_ ?_⟩
        · change 5 < (s.incoming.drop offset).length
          omega
        · exact fun more => (hpayloads more).symm
        · exact fun more => (hbad more).symm
      · -- An empty record is passed over.
        have hzero : recordLength (s.incoming.drop offset) = 0 := by omega
        rw [if_neg hpos]
        obtain ⟨r, hr, hlooks⟩ := ih (s.incoming.length - (offset + fullHeader))
          (by rw [fullHeader_eq]; omega) (offset + fullHeader) rfl
        rw [fullHeader_eq] at hlooks
        refine ⟨r, hr, ?_⟩
        have hskip : ∀ more, (s.incoming.drop offset ++ more).drop (5 + 0) =
            s.incoming.drop (offset + 5) ++ more := by
          intro more
          rw [List.drop_append_of_le_length (by omega), List.drop_drop]
        simp only [hzero, hskip, List.take_zero, List.nil_append] at hpayloads hbad
        cases hlooks with
        | waits hp hb =>
          have hp0 := hpayloads []
          have hb0 := hbad []
          simp only [List.append_nil] at hp0 hb0
          exact .waits (hp0.trans hp) (hb0.trans hb)
        | fails hp hb =>
          exact .fails (fun more => (hpayloads more).trans (hp more))
            (fun more => (hbad more).trans (hb more))
        | finds s' hpos hoffset hlong hrest hp hb =>
          exact .finds s' hpos hoffset hlong hrest
            (fun more => (hp more).trans (hpayloads more).symm)
            (fun more => (hb more).trans (hbad more).symm)
    · rw [if_pos (by rw [Bool.not_eq_true', ← Bool.not_eq_true]; exact hgood)]
      exact ⟨_, rfl, .fails (fun more => payloads_bad (hlong more) (mt (hcheck more).mpr hgood))
        (fun more => badHeader_bad (hlong more) (mt (hcheck more).mpr hgood))⟩

/-- A connected socket that has given out `delivered` of what it received. -/
structure Open (received delivered : List UInt8) (s : Socket) : Prop where
  state : s.state = .connected
  limit_nonneg : 0 ≤ s.incomingGoodDataLimit
  offset_nonneg : 0 ≤ s.incomingGoodDataOffset
  idle : s.incomingGoodDataLimit = 0 → s.incomingGoodDataOffset = 0
  within : s.incomingGoodDataOffset ≤ s.incoming.length
  payloads : ∀ more, payloads (received ++ more) = delivered ++ s.ahead more
  bad : ∀ more, badHeader (received ++ more) = s.badAhead more

/-- The next bytes are a header with wrong bytes, and all before it is given out. -/
structure Failed (received delivered : List UInt8) (s : Socket) : Prop where
  idle : s.Idle
  payloads : ∀ more, TlsSocket.payloads (received ++ more) = delivered
  bad : ∀ more, badHeader (received ++ more) = true
  nothing : ∀ more, TlsSocket.payloads (s.incoming ++ more) = []
  badNext : ∀ more, badHeader (s.incoming ++ more) = true

/-- What is at hand outside a record was looked at and is too short for the next. -/
def Checked (s : Socket) : Prop :=
  s.incomingGoodDataLimit = 0 → payloads s.incoming = [] ∧ badHeader s.incoming = false

variable {received delivered : List UInt8} {s : Socket}

theorem Open.isIdle (h : Open received delivered s) (hlimit : s.incomingGoodDataLimit = 0) :
    s.Idle := ⟨h.idle hlimit, hlimit⟩

theorem checkNextPacket_busy (h : s.incomingGoodDataLimit ≠ 0) :
    s.checkNextPacket = some (s, true) := by
  rw [checkNextPacket, checkNextPacketFrom, if_pos h]

/-- A look for the next packet keeps what is given out and what is ahead. -/
theorem Open.checkNextPacket (h : Open received delivered s) :
    ∃ s' good, s.checkNextPacket = some (s', good) ∧
      (good = true → Open received delivered s' ∧ s'.queue = s.queue ∧ Checked s') ∧
      (good = false → s' = s ∧ Failed received delivered s) := by
  by_cases hlimit : s.incomingGoodDataLimit = 0
  · have hidle := h.isIdle hlimit
    obtain ⟨r, hr, hlooks⟩ := checkNextPacketFrom_looks hidle 0
    refine ⟨r.1, r.2, hr, ?_⟩
    cases hlooks with
    | waits hpayloads hbad =>
      exact ⟨fun _ => ⟨h, rfl, fun _ => ⟨hpayloads, hbad⟩⟩, fun hfalse => Bool.noConfusion hfalse⟩
    | fails hpayloads hbad =>
      refine ⟨fun htrue => Bool.noConfusion htrue, fun _ => ⟨rfl, hidle, ?_, ?_, hpayloads, hbad⟩⟩
      · intro more
        rw [h.payloads, hidle.ahead_eq]
        exact (congrArg (delivered ++ ·) (hpayloads more)).trans (List.append_nil _)
      · intro more
        rw [h.bad, hidle.badAhead_eq]
        exact hbad more
    | finds s' hpos hoffset hlong hrest hpayloads hbad =>
      rw [fullHeader_eq] at hoffset hlong
      refine ⟨fun _ => ⟨⟨?_, hpos.le, ?_, ?_, ?_, ?_, ?_⟩, ?_, ?_⟩,
        fun hfalse => Bool.noConfusion hfalse⟩
      · rw [hrest]
        exact h.state
      · dsimp only
        omega
      · intro hzero
        exact absurd hzero hpos.ne'
      · dsimp only
        omega
      · intro more
        rw [h.payloads, hidle.ahead_eq, hpayloads, List.drop_zero]
      · intro more
        rw [h.bad, hidle.badAhead_eq, hbad, List.drop_zero]
      · rw [hrest]
      · exact fun hzero => absurd hzero hpos.ne'
  · exact ⟨s, true, checkNextPacket_busy hlimit,
      fun _ => ⟨h, rfl, fun hzero => absurd hzero hlimit⟩, fun hfalse => Bool.noConfusion hfalse⟩

/-- Where the next header is wrong, another look says so again. -/
theorem Failed.checkNextPacket (h : Failed received delivered s) :
    s.checkNextPacket = some (s, false) := by
  obtain ⟨r, hr, hlooks⟩ := checkNextPacketFrom_looks h.idle 0
  have hnothing := h.nothing []
  have hbadNext := h.badNext []
  rw [List.append_nil] at hnothing hbadNext
  cases hlooks with
  | waits hpayloads hbad => exact absurd (hbadNext.symm.trans hbad) (by decide)
  | fails hpayloads hbad => exact hr
  | finds s' hpos hoffset hlong hrest hpayloads hbad =>
    -- A record found has a byte of payload.
    have hahead := hpayloads []
    rw [List.drop_zero, List.append_nil, hnothing, ahead, List.append_eq_nil_iff] at hahead
    have hlen := congrArg List.length hahead.1
    rw [fullHeader_eq] at hoffset hlong
    rw [List.length_take, List.length_drop, List.append_nil, List.length_nil] at hlen
    omega

theorem Failed.of_eq (h : Failed received delivered s) {s' : Socket}
    (hincoming : s'.incoming = s.incoming)
    (hoffset : s'.incomingGoodDataOffset = s.incomingGoodDataOffset)
    (hlimit : s'.incomingGoodDataLimit = s.incomingGoodDataLimit) :
    Failed received delivered s' where
  idle := ⟨hoffset.trans h.idle.offset, hlimit.trans h.idle.limit⟩
  payloads := h.payloads
  bad := h.bad
  nothing := by rw [hincoming]; exact h.nothing
  badNext := by rw [hincoming]; exact h.badNext

theorem ahead_append (data more : List UInt8) :
    (s.append data).ahead more = s.ahead (data ++ more) := by
  rw [ahead, ahead, append, List.append_assoc]

theorem badAhead_append (data more : List UInt8) :
    (s.append data).badAhead more = s.badAhead (data ++ more) := by
  rw [badAhead, badAhead, append, List.append_assoc]

theorem Open.append (h : Open received delivered s) (data : List UInt8) :
    Open (received ++ data) delivered (s.append data) where
  state := h.state
  limit_nonneg := h.limit_nonneg
  offset_nonneg := h.offset_nonneg
  idle := h.idle
  within := by
    have := h.within
    rw [Socket.append, List.length_append]
    push_cast
    omega
  payloads more := by rw [ahead_append, List.append_assoc, h.payloads]
  bad more := by rw [badAhead_append, List.append_assoc, h.bad]

theorem Failed.append (h : Failed received delivered s) (data : List UInt8) :
    Failed (received ++ data) delivered s where
  idle := h.idle
  payloads more := by rw [List.append_assoc, h.payloads]
  bad more := by rw [List.append_assoc, h.bad]
  nothing := h.nothing
  badNext := h.badNext

theorem take_drop_split {α : Type*} (l : List α) (i : ℕ) {m n : ℕ} (h : m ≤ n) :
    (l.drop i).take n = slice l i m ++ (l.drop (i + m)).take (n - m) := by
  have hn : n = m + (n - m) := by omega
  have happend := slice_append l i m (n - m)
  rw [← hn] at happend
  exact happend

@[simp] theorem advance_incoming (s : Socket) (write : ℕ) :
    (s.advance write).incoming = s.incoming := rfl

@[simp] theorem advance_offset (s : Socket) (write : ℕ) :
    (s.advance write).incomingGoodDataOffset = s.incomingGoodDataOffset + write := rfl

@[simp] theorem advance_limit (s : Socket) (write : ℕ) :
    (s.advance write).incomingGoodDataLimit = s.incomingGoodDataLimit - write := rfl

/-- The bytes taken out of the packet come before what is ahead then. -/
theorem Open.advance (h : Open received delivered s) {write : ℕ} (hwrite : write ≤ s.available) :
    (∀ more, s.ahead more =
      slice s.incoming s.incomingGoodDataOffset.toNat write ++ (s.advance write).ahead more) ∧
    (∀ more, s.badAhead more = (s.advance write).badAhead more) := by
  have hlimit := h.limit_nonneg
  have hoffset := h.offset_nonneg
  have hwithin := h.within
  rw [available] at hwrite
  have hoffset' : (s.advance write).incomingGoodDataOffset.toNat =
      s.incomingGoodDataOffset.toNat + write := by
    rw [advance_offset]
    omega
  have hlimit' : (s.advance write).incomingGoodDataLimit.toNat =
      s.incomingGoodDataLimit.toNat - write := by
    rw [advance_limit]
    omega
  have hsum : s.incomingGoodDataOffset.toNat + s.incomingGoodDataLimit.toNat =
      s.incomingGoodDataOffset.toNat + write + (s.incomingGoodDataLimit.toNat - write) := by
    omega
  constructor
  · intro more
    have hslice : slice (s.incoming ++ more) s.incomingGoodDataOffset.toNat write =
        slice s.incoming s.incomingGoodDataOffset.toNat write := slice_append_left (by omega)
    rw [ahead, ahead, hoffset', hlimit', ← hsum, ← List.append_assoc, ← hslice,
      advance_incoming, ← take_drop_split _ _ (by omega)]
  · intro more
    rw [badAhead, badAhead, hoffset', hlimit', ← hsum]
    rfl

/-- The packet read to its end is dropped. -/
def finishPacket (s : Socket) : Socket :=
  { s with incoming := s.incoming.drop s.incomingGoodDataOffset.toNat, incomingGoodDataOffset := 0 }

theorem finishPacket_eq (h : s.incomingGoodDataLimit = 0) :
    ({ s with incomingGoodDataOffset := 0 } : Socket).shiftIncomingBy
      s.incomingGoodDataOffset.toNat = some s.finishPacket := by
  rw [shiftIncomingBy, if_pos ⟨rfl, h⟩, finishPacket]

theorem finishPacket_ahead (hlimit : s.incomingGoodDataLimit = 0)
    (hwithin : s.incomingGoodDataOffset.toNat ≤ s.incoming.length) (more : List UInt8) :
    s.finishPacket.ahead more = s.ahead more ∧ s.finishPacket.badAhead more = s.badAhead more := by
  have hidle : s.finishPacket.Idle := ⟨rfl, hlimit⟩
  have hdrop : (s.incoming ++ more).drop s.incomingGoodDataOffset.toNat =
      s.incoming.drop s.incomingGoodDataOffset.toNat ++ more :=
    List.drop_append_of_le_length hwithin
  rw [hidle.ahead_eq, hidle.badAhead_eq, ahead, badAhead, hlimit, Int.toNat_zero, Nat.add_zero,
    hdrop]
  exact ⟨rfl, rfl⟩

theorem Open.advanced (h : Open received delivered s) {write : ℕ} (hwrite : write ≤ s.available)
    (hleft : (s.advance write).incomingGoodDataLimit ≠ 0) :
    Open received (delivered ++ slice s.incoming s.incomingGoodDataOffset.toNat write)
      (s.advance write) := by
  obtain ⟨hahead, hbad⟩ := h.advance hwrite
  have hlimit := h.limit_nonneg
  have hoffset := h.offset_nonneg
  have hwithin := h.within
  rw [available] at hwrite
  refine ⟨h.state, ?_, ?_, fun hzero => absurd hzero hleft, ?_, ?_, ?_⟩
  · rw [advance_limit]
    omega
  · rw [advance_offset]
    omega
  · rw [advance_offset, advance_incoming]
    omega
  · intro more
    rw [h.payloads, hahead, List.append_assoc]
  · intro more
    rw [h.bad, hbad]

theorem Open.finished (h : Open received delivered s) {write : ℕ} (hwrite : write ≤ s.available)
    (hleft : (s.advance write).incomingGoodDataLimit = 0) :
    Open received (delivered ++ slice s.incoming s.incomingGoodDataOffset.toNat write)
      (s.advance write).finishPacket := by
  obtain ⟨hahead, hbad⟩ := h.advance hwrite
  have hlimit := h.limit_nonneg
  have hoffset := h.offset_nonneg
  have hwithin := h.within
  rw [available] at hwrite
  have hat : (s.advance write).incomingGoodDataOffset.toNat ≤
      (s.advance write).incoming.length := by
    rw [advance_offset, advance_incoming]
    omega
  have hfinish := finishPacket_ahead hleft hat
  refine ⟨h.state, hleft.ge, le_rfl, fun _ => rfl, Nat.cast_nonneg _, ?_, ?_⟩
  · intro more
    rw [h.payloads, hahead, (hfinish more).1, List.append_assoc]
  · intro more
    rw [h.bad, hbad, (hfinish more).2]

/-- Nothing at hand belongs to the packet being read. -/
def Drained (s : Socket) : Prop :=
  s.incomingGoodDataLimit = 0 ∨ s.available ≤ 0

theorem Open.drained (h : Open received delivered s) (hdrained : s.Drained) (hchecked : Checked s) :
    delivered = TlsSocket.payloads received ∧ badHeader received = false := by
  have hpayloads := h.payloads []
  have hbad := h.bad []
  rw [List.append_nil] at hpayloads hbad
  by_cases hlimit : s.incomingGoodDataLimit = 0
  · have hidle := h.isIdle hlimit
    obtain ⟨hnothing, hgood⟩ := hchecked hlimit
    rw [hidle.ahead_eq, List.append_nil, hnothing, List.append_nil] at hpayloads
    rw [hidle.badAhead_eq, List.append_nil, hgood] at hbad
    exact ⟨hpayloads.symm, hbad⟩
  · have hle : s.incoming.length ≤ s.incomingGoodDataOffset.toNat := by
      have := h.limit_nonneg
      have := hdrained.resolve_left hlimit
      rw [available] at this
      omega
    rw [ahead, List.append_nil, List.drop_of_length_le hle,
      List.drop_of_length_le (by omega), List.take_nil, payloads_nil,
      List.append_nil, List.append_nil] at hpayloads
    rw [badAhead, List.append_nil, List.drop_of_length_le (by omega),
      badHeader_nil] at hbad
    exact ⟨hpayloads.symm, hbad⟩

theorem Open.all_drained (h : Open received delivered s)
    (hall : delivered = TlsSocket.payloads received) : s.Drained := by
  have hpayloads := h.payloads []
  rw [List.append_nil, ← hall, List.self_eq_append_right, ahead, List.append_eq_nil_iff,
    List.append_nil] at hpayloads
  have hlen := congrArg List.length hpayloads.1
  rw [List.length_take, List.length_drop, List.length_nil] at hlen
  have hlimit := h.limit_nonneg
  have hoffset := h.offset_nonneg
  rw [Drained, available]
  omega

/-- Whatever fits the buffer is given out next. A read that does not fill its buffer leaves
nothing behind. -/
theorem Open.read (size : ℕ) (h : Open received delivered s) :
    ∃ s' written, s.read size = some (s', written) ∧ written.length ≤ size ∧
      (Open received (delivered ++ written) s' ∧ s'.queue = s.queue ∧
          (Checked s → Checked s') ∧ (written.length < size → s'.Drained) ∨
        s'.state = .error ∧ Failed received (delivered ++ written) s') := by
  induction size using Nat.strong_induction_on generalizing s delivered with
  | _ size ih =>
    rw [Socket.read]
    have hnothing : s.Drained ∨ size = 0 → some (s, ([] : List UInt8)) = some (s, []) ∧
        ([] : List UInt8).length ≤ size ∧
        Open received (delivered ++ []) s ∧ (([] : List UInt8).length < size → s.Drained) := by
      intro hstop
      refine ⟨rfl, Nat.zero_le _, by rwa [List.append_nil], fun hlt => ?_⟩
      rw [List.length_nil] at hlt
      exact hstop.resolve_right hlt.ne'
    by_cases hlimit : s.incomingGoodDataLimit = 0
    · obtain ⟨heq, hle, hopen, hdrained⟩ := hnothing (.inl (.inl hlimit))
      rw [if_pos hlimit]
      exact ⟨s, [], heq, hle, .inl ⟨hopen, rfl, id, hdrained⟩⟩
    rw [if_neg hlimit]
    by_cases havailable : s.available ≤ 0
    · obtain ⟨heq, hle, hopen, hdrained⟩ := hnothing (.inl (.inr havailable))
      rw [if_pos havailable]
      exact ⟨s, [], heq, hle, .inl ⟨hopen, rfl, id, hdrained⟩⟩
    rw [if_neg havailable]
    dsimp only
    by_cases hzero : min s.available.toNat size = 0
    · obtain ⟨heq, hle, hopen, hdrained⟩ := hnothing (.inr (by omega))
      rw [dif_pos hzero]
      exact ⟨s, [], heq, hle, .inl ⟨hopen, rfl, id, hdrained⟩⟩
    rw [dif_neg hzero]
    obtain ⟨write, hwrite⟩ : ∃ write, min s.available.toNat size = write := ⟨_, rfl⟩
    have hlimit0 := h.limit_nonneg
    have hoffset0 := h.offset_nonneg
    have hle : write ≤ s.available := by omega
    have havail := hle
    rw [available] at havail
    have hspan : subspan s.incoming s.incomingGoodDataOffset write =
        some (slice s.incoming s.incomingGoodDataOffset.toNat write) := by
      rw [← Int.toNat_of_nonneg hoffset0, subspan_of_le (by omega), Int.toNat_natCast]
    have hlen : (slice s.incoming s.incomingGoodDataOffset.toNat write).length = write :=
      length_slice (by omega)
    rw [hwrite, hspan]
    dsimp only
    by_cases hleft : (s.advance write).incomingGoodDataLimit = 0
    · rw [if_neg (not_not.mpr hleft), finishPacket_eq hleft]
      dsimp only
      have hfinished := h.finished hle hleft
      obtain ⟨s', good, hcheck, hgood, hfail⟩ := hfinished.checkNextPacket
      rw [hcheck]
      cases good with
      | false =>
        obtain ⟨rfl, hfailed⟩ := hfail rfl
        exact ⟨_, _, rfl, by omega, .inr ⟨rfl, hfailed.of_eq rfl rfl rfl⟩⟩
      | true =>
        obtain ⟨hopen, hqueue, hchecked⟩ := hgood rfl
        obtain ⟨s'', more, hread, hmore, hresult⟩ := ih (size - write) (by omega) hopen
        dsimp only
        rw [hread]
        refine ⟨s'', _, rfl, by rw [List.length_append]; omega, ?_⟩
        rw [← List.append_assoc]
        apply Or.imp_left _ hresult
        intro ⟨hopen', hqueue', hkeeps, hdrained⟩
        refine ⟨hopen', hqueue'.trans hqueue, fun _ => hkeeps hchecked, fun hlt => hdrained ?_⟩
        rw [List.length_append] at hlt
        omega
    · rw [if_pos hleft]
      refine ⟨_, _, rfl, by omega, .inl ⟨h.advanced hle hleft, rfl,
        fun _ hzero => absurd hzero hleft, fun hlt => .inr ?_⟩⟩
      rw [advance_limit] at hleft
      rw [available, advance_limit, advance_offset, advance_incoming]
      have hfull : (write : ℤ) = s.available := by omega
      rw [available] at hfull
      omega

/-- What holds of a socket that went on from the hello. -/
def Delivers (received delivered : List UInt8) (s : Socket) : Prop :=
  Open received delivered s ∧ (.checkNextPacket ∉ s.queue → Checked s) ∧
      .handleError ∉ s.queue ∨
    s.state = .error ∧ Failed received delivered s

/-- A look for the next packet, and `handleError` when it fails. -/
theorem Open.checked (h : Open received delivered s) (hqueue : .handleError ∉ s.queue) :
    ∃ s' good, s.checkNextPacket = some (s', good) ∧
      (good = true → Open received delivered s' ∧ s'.queue = s.queue ∧ Checked s') ∧
      (good = false → Delivers received delivered s'.handleError) := by
  obtain ⟨s', good, hcheck, hgood, hfail⟩ := h.checkNextPacket
  refine ⟨s', good, hcheck, hgood, fun hfalse => ?_⟩
  obtain ⟨rfl, hfailed⟩ := hfail hfalse
  exact .inr ⟨rfl, hfailed.of_eq rfl rfl rfl⟩

theorem Open.of_eq (h : Open received delivered s) {s' : Socket} (hstate : s'.state = s.state)
    (hincoming : s'.incoming = s.incoming)
    (hoffset : s'.incomingGoodDataOffset = s.incomingGoodDataOffset)
    (hlimit : s'.incomingGoodDataLimit = s.incomingGoodDataLimit) :
    Open received delivered s' := by
  refine ⟨hstate.trans h.state, ?_, ?_, ?_, ?_, ?_, ?_⟩
  · rw [hlimit]
    exact h.limit_nonneg
  · rw [hoffset]
    exact h.offset_nonneg
  · rw [hlimit, hoffset]
    exact h.idle
  · rw [hoffset, hincoming]
    exact h.within
  · intro more
    rw [h.payloads, ahead, ahead, hincoming, hoffset, hlimit]
  · intro more
    rw [h.bad, badAhead, badAhead, hincoming, hoffset, hlimit]

theorem Delivers.readData (h : Delivers received delivered s) (data : List UInt8) :
    ∃ s', s.readData data = some s' ∧ Delivers (received ++ data) delivered s' := by
  rcases h with ⟨hopen, -, hqueue⟩ | ⟨hstate, hfailed⟩
  · have hconnected : s.isConnected = true := decide_eq_true hopen.state
    obtain ⟨s', good, hcheck, hgood, hfail⟩ := (hopen.append data).checked hqueue
    rw [Socket.readData, if_neg (by rw [hconnected]; decide), hcheck]
    cases good with
    | false => exact ⟨_, rfl, hfail rfl⟩
    | true =>
      obtain ⟨hopen', hqueue', hchecked⟩ := hgood rfl
      have hleft : .handleError ∉ s'.queue := by rwa [hqueue']
      by_cases havailable : s'.hasBytesAvailable = true
      · exact ⟨_, if_pos havailable,
          .inl ⟨hopen'.of_eq rfl rfl rfl rfl, fun _ => hchecked, hleft⟩⟩
      · exact ⟨s', if_neg havailable, .inl ⟨hopen', fun _ => hchecked, hleft⟩⟩
  · have hconnected : s.isConnected = false := by
      rw [isConnected, hstate]
      rfl
    rw [Socket.readData, if_pos (by rw [hconnected]; decide)]
    exact ⟨s, rfl, .inr ⟨hstate, hfailed.append data⟩⟩

theorem Delivers.invokeQueued (h : Delivers received delivered s) :
    ∃ s', s.invokeQueued = some s' ∧ Delivers received delivered s' := by
  rw [Socket.invokeQueued]
  match hcalls : s.queue with
  | [] => exact ⟨s, rfl, h⟩
  | .handleError :: queue =>
    rcases h with ⟨-, -, hqueue⟩ | ⟨-, hfailed⟩
    · rw [hcalls] at hqueue
      exact absurd (List.mem_cons_self ..) hqueue
    · exact ⟨_, rfl, .inr ⟨rfl, hfailed.of_eq rfl rfl rfl⟩⟩
  | .checkNextPacket :: queue =>
    dsimp only
    rcases h with ⟨hopen, -, hqueue⟩ | ⟨hstate, hfailed⟩
    · rw [hcalls] at hqueue
      have hrest : .handleError ∉ queue := fun hmem => hqueue (List.mem_cons_of_mem _ hmem)
      have hpopped : Open received delivered { s with queue } := hopen.of_eq rfl rfl rfl rfl
      obtain ⟨s', good, hcheck, hgood, hfail⟩ := hpopped.checked hrest
      rw [hcheck]
      cases good with
      | false => exact ⟨_, rfl, hfail rfl⟩
      | true =>
        obtain ⟨hopen', hqueue', hchecked⟩ := hgood rfl
        exact ⟨s', rfl, .inl ⟨hopen', fun _ => hchecked, by rwa [hqueue']⟩⟩
    · have hpopped : Failed received delivered { s with queue } := hfailed.of_eq rfl rfl rfl
      rw [hpopped.checkNextPacket]
      exact ⟨_, rfl, .inr ⟨rfl, hpopped.of_eq rfl rfl rfl⟩⟩

theorem Failed.all (h : Failed received delivered s) :
    delivered = TlsSocket.payloads received ∧ badHeader received = true := by
  have hpayloads := h.payloads []
  have hbad := h.bad []
  rw [List.append_nil] at hpayloads hbad
  exact ⟨hpayloads.symm, hbad⟩

theorem Delivers.read (h : Delivers received delivered s) (size : ℕ) :
    ∃ s' written, s.read size = some (s', written) ∧ written.length ≤ size ∧
      Delivers received (delivered ++ written) s' ∧
      (.checkNextPacket ∉ s.queue → written.length < size →
        delivered ++ written = TlsSocket.payloads received) := by
  rcases h with ⟨hopen, hchecked, hqueue⟩ | ⟨hstate, hfailed⟩
  · obtain ⟨s', written, hread, hle, hresult⟩ := hopen.read size
    refine ⟨s', written, hread, hle, ?_⟩
    rcases hresult with ⟨hopen', hqueue', hkeeps, hdrained⟩ | ⟨hstate', hfailed'⟩
    · constructor
      · apply Or.inl
        rw [hqueue']
        exact ⟨hopen', fun hnone => hkeeps (hchecked hnone), hqueue⟩
      · intro hnone hlt
        exact (hopen'.drained (hdrained hlt) (hkeeps (hchecked hnone))).1
    · exact ⟨.inr ⟨hstate', hfailed'⟩, fun _ _ => hfailed'.all.1⟩
  · refine ⟨s, [], ?_, Nat.zero_le _, ?_, ?_⟩
    · rw [Socket.read, if_pos hfailed.idle.limit]
    · rw [List.append_nil]
      exact .inr ⟨hstate, hfailed⟩
    · intro _ _
      rw [List.append_nil]
      exact hfailed.all.1

end Socket

inductive Event
  | readyRead (data : List UInt8)
  | read (size : ℕ)
  | invokeQueued

def Event.data : Event → List UInt8
  | .readyRead data => data
  | _ => []

/-- A step of the socket with the bytes it gives out, `none` once an `Expects` is violated. -/
def step : Option Socket → Event → Option Socket × List UInt8
  | none, _ => (none, [])
  | some s, .readyRead data => (s.readData data, [])
  | some s, .read size =>
    match s.read size with
    | none => (none, [])
    | some (s, written) => (some s, written)
  | some s, .invokeQueued => (s.invokeQueued, [])

/-- A socket as the hello leaves it, with the bytes that came behind the hello. -/
def opened (s : Socket) (left : List UInt8) : Socket :=
  { s with
    state := .connected
    incoming := left
    incomingGoodDataOffset := 0
    incomingGoodDataLimit := 0
    queue := if left = [] then [] else [.checkNextPacket]
    fired := s.fired ++ [.connected] }

theorem startPackets_eq {s : Socket} (hidle : s.Idle) (hqueue : s.queue = []) (helloSize : ℕ) :
    s.startPackets helloSize = some (opened s (s.incoming.drop helloSize)) := by
  rw [Socket.startPackets, Socket.shiftIncomingBy, if_pos ⟨hidle.offset, hidle.limit⟩, opened]
  dsimp only [Option.bind_eq_bind, Option.bind_some]
  rw [hqueue, List.nil_append]
  rfl

def received (left : List UInt8) (events : List Event) : List UInt8 :=
  left ++ events.flatMap Event.data

theorem opened_delivers (s : Socket) (left : List UInt8) : (opened s left).Delivers left [] := by
  have hidle : (opened s left).Idle := ⟨rfl, rfl⟩
  refine .inl ⟨⟨rfl, le_rfl, le_rfl, fun _ => rfl, Nat.cast_nonneg _, ?_, ?_⟩, ?_, ?_⟩
  · intro more
    rw [hidle.ahead_eq]
    rfl
  · intro more
    rw [hidle.badAhead_eq]
    rfl
  · intro hnone
    have hleft : left = [] := by
      by_contra hne
      rw [opened, if_neg hne] at hnone
      exact hnone (List.mem_singleton.mpr rfl)
    rw [hleft]
    exact fun _ => ⟨payloads_short (Nat.zero_le _), badHeader_short (Nat.zero_le _)⟩
  · rw [opened]
    dsimp only
    split_ifs <;> decide

theorem step_delivers {s : Socket} {stream delivered : List UInt8}
    (h : s.Delivers stream delivered) (event : Event) :
    ∃ s', (step (some s) event).1 = some s' ∧
      s'.Delivers (stream ++ event.data) (delivered ++ (step (some s) event).2) := by
  cases event with
  | readyRead data =>
    obtain ⟨s', hs', hdelivers⟩ := h.readData data
    exact ⟨s', hs', by rwa [step, List.append_nil]⟩
  | read size =>
    obtain ⟨s', written, hread, -, hdelivers, -⟩ := h.read size
    refine ⟨s', by rw [step, hread], ?_⟩
    rw [step, hread]
    change s'.Delivers (stream ++ []) (delivered ++ written)
    rwa [List.append_nil]
  | invokeQueued =>
    obtain ⟨s', hs', hdelivers⟩ := h.invokeQueued
    refine ⟨s', hs', ?_⟩
    change s'.Delivers (stream ++ []) (delivered ++ [])
    rwa [List.append_nil, List.append_nil]

/-- Every run keeps to what it received. -/
theorem run_delivers (s : Socket) (left : List UInt8) (events : List Event) :
    ∃ s', (run step (some (opened s left)) events).1 = some s' ∧
      s'.Delivers (received left events) (run step (some (opened s left)) events).2 := by
  apply run_invariant step fun events state delivered =>
    ∃ s', state = some s' ∧ s'.Delivers (received left events) delivered
  · refine ⟨_, rfl, ?_⟩
    rw [received, List.flatMap_nil, List.append_nil]
    exact opened_delivers s left
  · intro events state delivered event hstate
    obtain ⟨s', rfl, hdelivers⟩ := hstate
    obtain ⟨s'', hs'', hdelivers'⟩ := step_delivers hdelivers event
    refine ⟨s'', hs'', ?_⟩
    rw [received, List.flatMap_append, List.flatMap_singleton, ← List.append_assoc]
    exact hdelivers'

structure Record where
  payload : List UInt8
  fits : payload.length < 2 ^ 16

def Record.bytes (record : Record) : List UInt8 := kServerHeader ++ Vectors.vec 2 record.payload

/-- The reference reads a stream of records as their payloads. -/
theorem payloads_record (record : Record) (rest : List UInt8) :
    payloads (record.bytes ++ rest) = record.payload ++ payloads rest := by
  have hfits : record.payload.length < 256 ^ 2 := record.fits
  have hheader : (record.bytes ++ rest).take 3 = kServerHeader := rfl
  have hlen : recordLength (record.bytes ++ rest) = record.payload.length :=
    Vectors.toNat_ofNat hfits
  have hdrop : (record.bytes ++ rest).drop 5 = record.payload ++ rest := rfl
  have hlength : (record.bytes ++ rest).length = 5 + record.payload.length + rest.length := by
    rw [Record.bytes, List.length_append, List.length_append, Vectors.length_vec]
    change 3 + _ + _ = _
    omega
  by_cases hlong : 5 < (record.bytes ++ rest).length
  · rw [payloads_good hlong hheader, hlen, ← List.drop_drop, hdrop, List.take_left,
      List.drop_left]
  · have hnil : record.payload = [] := List.length_eq_zero_iff.mp (by omega)
    rw [payloads_short (by omega), payloads_short (by omega), hnil, List.nil_append]

theorem payloads_records (records : List Record) (rest : List UInt8) :
    payloads (records.flatMap Record.bytes ++ rest) =
      records.flatMap Record.payload ++ payloads rest := by
  induction records with
  | nil => rfl
  | cons record records ih =>
    rw [List.flatMap_cons, List.append_assoc, payloads_record, ih, List.flatMap_cons,
      List.append_assoc]

/-- What is given out is a prefix of the payloads of whatever stream the bytes belong to. A read
that does not fill its buffer leaves nothing received behind, and the socket fails exactly when
all before a wrong header is given out. -/
theorem read_delivers_payloads (s : Socket) (left : List UInt8) (events : List Event) :
    ∃ s', (run step (some (opened s left)) events).1 = some s' ∧
      (∀ more (records : List Record) rest,
        received left events ++ more = records.flatMap Record.bytes ++ rest →
          (run step (some (opened s left)) events).2 <+:
            records.flatMap Record.payload ++ payloads rest) ∧
      (.checkNextPacket ∉ s'.queue → ∀ size, (step (some s') (.read size)).2.length < size →
        (run step (some (opened s left)) (events ++ [.read size])).2 =
          payloads (received left events)) ∧
      (s'.state = .error → badHeader (received left events) = true ∧
        (run step (some (opened s left)) events).2 = payloads (received left events)) ∧
      (.checkNextPacket ∉ s'.queue → badHeader (received left events) = true →
        (run step (some (opened s left)) events).2 = payloads (received left events) →
          s'.state = .error) := by
  obtain ⟨s', hs', hdelivers⟩ := run_delivers s left events
  refine ⟨s', hs', ?_, ?_, ?_, ?_⟩
  · intro more records rest hstream
    rw [← payloads_records, ← hstream]
    rcases hdelivers with ⟨hopen, -⟩ | ⟨-, hfailed⟩
    · rw [hopen.payloads]
      exact List.prefix_append ..
    · rw [hfailed.payloads]
  · intro hnone size hlt
    obtain ⟨s'', written, hread, -, -, hall⟩ := hdelivers.read size
    have hwritten : (step (some s') (.read size)).2 = written := by rw [step, hread]
    rw [run_concat, hs', hwritten]
    rw [hwritten] at hlt
    exact hall hnone hlt
  · intro hstate
    rcases hdelivers with ⟨hopen, -⟩ | ⟨-, hfailed⟩
    · exact absurd (hopen.state.symm.trans hstate) (by decide)
    · exact ⟨hfailed.all.2, hfailed.all.1⟩
  · intro hnone hbad hall
    rcases hdelivers with ⟨hopen, hchecked, -⟩ | ⟨hstate, -⟩
    · exact absurd (hopen.drained (hopen.all_drained hall) (hchecked hnone)).2
        (by rw [hbad]; decide)
    · exact hstate

/-- A read of one byte of a payload of two leaves the other. -/
theorem read_leaves_received :
    ¬ ∀ (s : Socket) (left : List UInt8) (events : List Event),
      payloads (received left events) <+: (run step (some (opened s left)) events).2 := by
  intro h
  let stream : List UInt8 := [0x17, 0x03, 0x03, 0x00, 0x02, 0x07, 0x08]
  let secret : Secret := ⟨0xEE :: List.replicate 20 0, by decide, rfl⟩
  let start : Socket := { secret, state := .waitingHello }
  have hstarts := h start [] [.readyRead stream, .read 1]
  have hpayloads : payloads (received [] [.readyRead stream, .read 1]) = [0x07, 0x08] := by
    have hrecord := payloads_record ⟨[0x07, 0x08], by decide⟩ []
    rw [payloads_nil] at hrecord
    exact hrecord
  obtain ⟨s', hs', hdelivers⟩ := run_delivers start [] [.readyRead stream]
  obtain ⟨s'', written, hread, hle, -⟩ := hdelivers.read 1
  have hrun : (run step (some (opened start [])) [.readyRead stream, .read 1]).2 = written := by
    have hconcat := run_concat step (some (opened start [])) [.readyRead stream] (.read 1)
    rw [hs', step, hread] at hconcat
    exact congrArg Prod.snd hconcat
  rw [hpayloads, hrun] at hstarts
  have hlen := hstarts.length_le
  rw [List.length_cons, List.length_singleton] at hlen
  omega

end TelegramDesktop.Mtproto.TlsSocket
