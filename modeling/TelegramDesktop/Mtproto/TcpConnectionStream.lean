import TelegramDesktop.Mtproto.TcpConnectionRead

namespace TelegramDesktop.Mtproto.TcpConnection
open Base

/-- A connection that has read `consumed` from its socket has cut it, decrypted, as the
reference does. -/
structure Tracks (v : Version) (dec : ℕ → UInt8 → UInt8) (c : TcpConnection)
    (consumed : List UInt8) : Prop where
  state : c.receiveState = consumed.length
  packets : c.packets = (v.framing.cut (consumed.mapIdx dec)).packets
  error : .error ∈ c.events ↔ (v.framing.cut (consumed.mapIdx dec)).invalid = true
  holds : (v.framing.cut (consumed.mapIdx dec)).invalid = false →
    Holds v c (v.framing.cut (consumed.mapIdx dec)).rest

variable {v : Version} {dec : ℕ → UInt8 → UInt8} {c : TcpConnection} {consumed : List UInt8}

/-- What is read next continues the cut. -/
theorem Tracks.reads (h : Tracks v dec c consumed)
    (hvalid : (v.framing.cut (consumed.mapIdx dec)).invalid = false) {c' : TcpConnection}
    {got : List UInt8} {goes : Bool}
    (hreads : Reads v c c' (v.framing.cut ((v.framing.cut (consumed.mapIdx dec)).rest ++
      got.mapIdx fun i b => dec (c.receiveState + i) b)) got.length goes) :
    Tracks v dec c' (consumed ++ got) ∧
      (goes = true → (v.framing.cut ((consumed ++ got).mapIdx dec)).invalid = false) := by
  have hsplit : (consumed ++ got).mapIdx dec =
      consumed.mapIdx dec ++ got.mapIdx fun i b => dec (c.receiveState + i) b := by
    rw [List.mapIdx_append, h.state]
    simp only [Nat.add_comm]
  have hcut := Framing.cut_append (F := v.framing) (consumed.mapIdx dec)
    (got.mapIdx fun i b => dec (c.receiveState + i) b) hvalid
  rw [← hsplit] at hcut
  have herror : .error ∉ c.events := by
    rw [h.error, hvalid]
    exact Bool.noConfusion
  refine ⟨⟨?_, ?_, ?_, ?_⟩, ?_⟩
  · rw [hreads.state, h.state, List.length_append]
  · rw [hcut, hreads.packets, h.packets]
  · rw [hcut, hreads.error]
    exact or_iff_right herror
  · rw [hcut]
    exact hreads.holds
  · rw [hcut]
    exact hreads.goes

/-- A read of at least a byte takes one while there is one. -/
theorem length_take_pos {stream : List UInt8} {count : ℕ} {limit : ℤ} (hcount : 0 < count)
    (hlimit : 0 < limit) (hstream : stream ≠ []) :
    0 < (stream.take (min count limit.toNat)).length := by
  have hpos := List.length_pos_iff.mpr hstream
  rw [List.length_take]
  omega

/-- The loop, whatever the sizes of its reads. If each may take a byte, each does, until the
stream ends or an error stops the loop. -/
theorem readLoop_tracks (counts : List ℕ) (c : TcpConnection) (consumed stream : List UInt8)
    (h : Tracks v dec c consumed)
    (hvalid : (v.framing.cut (consumed.mapIdx dec)).invalid = false) :
    ∃ c' got stream', readLoop v dec c stream counts = .ok (c', stream') ∧
      stream = got ++ stream' ∧ Tracks v dec c' (consumed ++ got) ∧
      ((∀ count ∈ counts, 0 < count) →
        counts.length ≤ got.length ∨ stream' = [] ∨ .error ∈ c'.events) := by
  induction counts generalizing c consumed stream with
  | nil => exact ⟨c, [], stream, rfl, rfl, by simpa using h, fun _ => .inl le_rfl⟩
  | cons count counts ih =>
    obtain ⟨c1, got, stream1, goes, hread, rfl, hlimit, hgot, hreads⟩ :=
      readOnce_spec (h.holds hvalid) dec stream count
    obtain ⟨htracks, hgoes⟩ := h.reads hvalid hreads
    have htakes : 0 < count → 0 < got.length ∨ stream1 = [] := by
      intro hcount
      by_cases hnil : got ++ stream1 = []
      · exact .inr (List.append_eq_nil_iff.mp hnil).2
      · rw [hgot]
        exact .inl (length_take_pos hcount hlimit hnil)
    rw [readLoop, hread]
    cases goes with
    | false =>
      refine ⟨c1, got, stream1, rfl, rfl, htracks, fun hcounts => .inr ?_⟩
      rcases hreads.stops rfl with hnone | hinvalid
      · exact .inl ((htakes (hcounts count List.mem_cons_self)).resolve_left (by omega))
      · exact .inr (hreads.error.mpr (.inr hinvalid))
    | true =>
      obtain ⟨c', got', stream', hloop, rfl, htracks', hall⟩ :=
        ih c1 _ stream1 htracks (hgoes rfl)
      refine ⟨c', got ++ got', stream', hloop, by simp, ?_, fun hcounts => ?_⟩
      · rwa [List.append_assoc] at htracks'
      · rw [List.length_cons, List.length_append]
        rcases htakes (hcounts count List.mem_cons_self) with hpos | hnil
        · exact (hall fun n hn => hcounts n (List.mem_cons_of_mem _ hn)).imp_left (by omega)
        · exact .inr (.inl (List.append_eq_nil_iff.mp hnil).2)

theorem withSmallBuffer_eq (c : TcpConnection) :
    c.withSmallBuffer.leftBytes = c.leftBytes ∧
      c.withSmallBuffer.usingLargeBuffer = c.usingLargeBuffer ∧
      c.withSmallBuffer.receiveState = c.receiveState ∧ c.withSmallBuffer.events = c.events := by
  unfold withSmallBuffer
  split_ifs <;> exact ⟨rfl, rfl, rfl, rfl⟩

theorem Holds.withSmallBuffer {rest : List UInt8} (h : Holds v c rest) :
    c.withSmallBuffer = c := by
  refine if_neg fun hnil => ?_
  have := h.small
  rw [hnil] at this
  exact absurd this (by decide)

theorem Tracks.withSmallBuffer (h : Tracks v dec c consumed) :
    Tracks v dec c.withSmallBuffer consumed := by
  obtain ⟨-, -, hstate, hevents⟩ := c.withSmallBuffer_eq
  refine ⟨hstate.trans h.state, ?_, ?_, fun hvalid => ?_⟩
  · unfold TcpConnection.packets
    rw [hevents]
    exact h.packets
  · rw [hevents]
    exact h.error
  · have hholds := h.holds hvalid
    rwa [hholds.withSmallBuffer]

theorem init_tracks : Tracks v dec (withSmallBuffer {}) [] := by
  have hcut : v.framing.cut ([] : List UInt8) = ⟨[], [], false⟩ := Framing.cut_nil
  have hmin : 0 + kMinPacketBuffer ≤ kSmallBufferSize := by decide
  refine ⟨rfl, ?_, ?_, fun _ => ?_⟩
  · rw [List.mapIdx_nil, hcut]
    rfl
  · rw [List.mapIdx_nil, hcut]
    simp [TcpConnection.withSmallBuffer]
  · rw [List.mapIdx_nil, hcut]
    exact ⟨List.length_replicate, rfl, fun _ => rfl, fun _ => ⟨rfl, hmin, Nat.zero_lt_succ 3,
      v.framing.nil⟩, fun h0 => absurd rfl h0⟩

theorem socketRead_tracks (h : Tracks v dec c.withSmallBuffer consumed)
    (hvalid : (v.framing.cut (consumed.mapIdx dec)).invalid = false) (stream : List UInt8)
    (count : ℕ) (counts : List ℕ) :
    ∃ c' got stream', socketRead v dec c stream count counts = .ok (c', stream') ∧
      stream = got ++ stream' ∧ Tracks v dec c' (consumed ++ got) ∧
      ((0 < count ∧ ∀ n ∈ counts, 0 < n) →
        counts.length + 1 ≤ got.length ∨ stream' = [] ∨ .error ∈ c'.events) := by
  obtain ⟨hleft, husing, -, -⟩ := c.withSmallBuffer_eq
  have hexpects : 0 < c.leftBytes ∨ c.usingLargeBuffer = false := by
    by_cases hl : c.leftBytes = 0
    · exact .inr (husing ▸ ((h.holds hvalid).unknown (hleft.trans hl)).1)
    · exact .inl (by omega)
  rw [socketRead, if_pos hexpects]
  have hloop := readLoop_tracks (count :: counts) _ consumed stream h hvalid
  rwa [List.forall_mem_cons, List.length_cons] at hloop

/-- One read of the socket takes what it is offered, up to the limit. -/
theorem socketRead_takes (h : Tracks v dec c.withSmallBuffer consumed)
    (hvalid : (v.framing.cut (consumed.mapIdx dec)).invalid = false) (stream : List UInt8)
    (count : ℕ) :
    ∃ c', 0 < c.readLimit ∧ socketRead v dec c stream count [] =
      .ok (c', stream.drop (min count c.readLimit.toNat)) := by
  obtain ⟨hleft, husing, -, -⟩ := c.withSmallBuffer_eq
  have hlimit : c.withSmallBuffer.readLimit = c.readLimit := by
    unfold withSmallBuffer
    split_ifs <;> rfl
  obtain ⟨c', got, stream', goes, hread, hstream, hpos, hgot, -⟩ :=
    readOnce_spec (h.holds hvalid) dec stream count
  rw [hlimit] at hpos hgot
  refine ⟨c', hpos, ?_⟩
  have hrest : stream.drop (min count c.readLimit.toNat) = stream' := by
    have hboth := List.take_append_drop (min count c.readLimit.toNat) stream
    rw [← hgot] at hboth
    exact List.append_cancel_left (hboth.trans hstream)
  have hexpects : 0 < c.leftBytes ∨ c.usingLargeBuffer = false := by
    by_cases hl : c.leftBytes = 0
    · exact .inr (husing ▸ ((h.holds hvalid).unknown (hleft.trans hl)).1)
    · exact .inl (by omega)
  rw [socketRead, if_pos hexpects, readLoop, hread, hrest]
  cases goes <;> rfl

/-- How often the socket is read. -/
def turns (calls : List (ℕ × List ℕ)) : ℕ := (calls.map fun call => call.2.length + 1).sum

theorem turns_cons (call : ℕ × List ℕ) (calls : List (ℕ × List ℕ)) :
    turns (call :: calls) = call.2.length + 1 + turns calls := rfl

/-- The calls, whatever they read. -/
theorem socketReads_tracks (calls : List (ℕ × List ℕ)) (c : TcpConnection)
    (consumed stream : List UInt8) (h : Tracks v dec c.withSmallBuffer consumed)
    (hvalid : (v.framing.cut (consumed.mapIdx dec)).invalid = false) :
    ∃ c' got stream', socketReads v dec c stream calls = .ok (c', stream') ∧
      stream = got ++ stream' ∧ Tracks v dec c'.withSmallBuffer (consumed ++ got) ∧
      ((∀ call ∈ calls, 0 < call.1 ∧ ∀ count ∈ call.2, 0 < count) →
        turns calls ≤ got.length ∨ stream' = [] ∨ .error ∈ c'.events) := by
  induction calls generalizing c consumed stream with
  | nil => exact ⟨c, [], stream, rfl, rfl, by rwa [List.append_nil], fun _ => .inl le_rfl⟩
  | cons call calls ih =>
    obtain ⟨c1, got, stream1, hread, rfl, htracks, htakes⟩ :=
      socketRead_tracks h hvalid stream call.1 call.2
    have hstep : socketReads v dec c (got ++ stream1) (call :: calls) =
        if .error ∈ c1.events then .ok (c1, stream1) else socketReads v dec c1 stream1 calls := by
      rw [socketReads, hread]
      rfl
    rw [hstep]
    split_ifs with herror
    · exact ⟨c1, got, stream1, rfl, rfl, htracks.withSmallBuffer, fun _ => .inr (.inr herror)⟩
    · have hvalid1 := Bool.not_eq_true _ ▸ mt htracks.error.mpr herror
      obtain ⟨c', got', stream', hreads, rfl, htracks', htakes'⟩ :=
        ih c1 _ stream1 htracks.withSmallBuffer hvalid1
      refine ⟨c', got ++ got', stream', hreads, by simp, ?_, fun hcounts => ?_⟩
      · rwa [List.append_assoc] at htracks'
      · obtain ⟨hcall, hcalls⟩ := List.forall_mem_cons.mp hcounts
        rw [turns_cons, List.length_append]
        rcases htakes hcall with hmore | hnil | herror'
        · exact (htakes' hcalls).imp_left (by omega)
        · exact .inr (.inl (List.append_eq_nil_iff.mp hnil).2)
        · exact absurd herror' herror

/-- However the socket chunks the stream, no check fails, and the packets and the error
are those of the reference cut of what was read; once all of the stream is read, or an
error is raised, they are those of the whole stream. Each read takes what it is offered, up to
the limit, so that reads of at least a byte come to the end of the stream or to an error. -/
theorem socketReads_cut (v : Version) (dec : ℕ → UInt8 → UInt8) (stream : List UInt8)
    (calls : List (ℕ × List ℕ)) :
    ∃ c consumed left, socketReads v dec {} stream calls = .ok (c, left) ∧
      stream = consumed ++ left ∧
      c.packets = (v.framing.cut (consumed.mapIdx dec)).packets ∧
      (.error ∈ c.events ↔ (v.framing.cut (consumed.mapIdx dec)).invalid = true) ∧
      (left = [] ∨ .error ∈ c.events →
        c.packets = (v.framing.cut (stream.mapIdx dec)).packets ∧
        (.error ∈ c.events ↔ (v.framing.cut (stream.mapIdx dec)).invalid = true)) ∧
      ((∀ call ∈ calls, 0 < call.1 ∧ ∀ count ∈ call.2, 0 < count) →
        stream.length ≤ turns calls → left = [] ∨ .error ∈ c.events) ∧
      (.error ∉ c.events → ∀ count, ∃ c', 0 < c.readLimit ∧
        socketRead v dec c left count [] = .ok (c', left.drop (min count c.readLimit.toNat))) := by
  have hnil : (v.framing.cut (([] : List UInt8).mapIdx dec)).invalid = false := by
    rw [List.mapIdx_nil, Framing.cut_nil]
  obtain ⟨c, consumed, left, hreads, hstream, htracks, htakes⟩ :=
    socketReads_tracks calls {} [] stream init_tracks hnil
  obtain ⟨-, -, -, hevents⟩ := c.withSmallBuffer_eq
  have hpackets : c.packets = (v.framing.cut (consumed.mapIdx dec)).packets := by
    have := htracks.packets
    unfold packets at this ⊢
    rwa [hevents] at this
  have herror : .error ∈ c.events ↔ (v.framing.cut (consumed.mapIdx dec)).invalid = true := by
    have := htracks.error
    rwa [hevents] at this
  refine ⟨c, consumed, left, hreads, hstream, hpackets, herror, fun hend => ?_,
    fun hcounts hall => ?_, fun hnone count => ?_⟩
  · rcases hend with rfl | hend
    · rw [hstream, List.append_nil]
      exact ⟨hpackets, herror⟩
    · -- An invalid length stays one, whatever follows it.
      have hinvalid := herror.mp hend
      rw [hstream, List.mapIdx_append, Framing.cut_append_invalid _ _ hinvalid]
      exact ⟨hpackets, iff_of_true hend rfl⟩
  · rcases htakes hcounts with hmore | hend
    · have hlength := congrArg List.length hstream
      rw [List.length_append] at hlength
      exact .inl (List.eq_nil_of_length_eq_zero (by omega))
    · exact hend
  · exact socketRead_takes htracks (Bool.not_eq_true _ ▸ mt herror.mpr hnone) left count

end TelegramDesktop.Mtproto.TcpConnection
