import TelegramDesktop.Base.Framing
import TelegramDesktop.Mtproto.TcpProtocol

namespace TelegramDesktop.Mtproto
open Base

/-- The protocol versions; `Version1` reads packets as `Version0` does. -/
inductive Version
  | version0
  | version1
  | versionD
  deriving DecidableEq, Repr

def Version.readPacketLength : Version → List UInt8 → ℤ
  | .version0 | .version1 => TcpProtocol.Version0.readPacketLength
  | .versionD => TcpProtocol.VersionD.readPacketLength

namespace TcpConnection

def kSmallBufferSize : ℕ := 256 * 1024

def kMinPacketBuffer : ℕ := 256

/-- What `socketRead` lets out. -/
inductive Event
  | socketPacket (bytes : List UInt8)
  | receivedSome
  | error
  deriving DecidableEq, Repr

/-- The checks that can fail: the `Expects`, the two `Assert`s on counts, the bounds of
a span, and the `Assert` in `ensureAvailableInBuffer`. -/
inductive Fault
  | socketRead
  | readLimit
  | readCount
  | subspan
  | copy
  | ensureAvailableInBuffer
  deriving DecidableEq, Repr

/-- A view into the large or the small buffer. -/
structure Span where
  large : Bool
  start : ℕ
  size : ℕ
  deriving DecidableEq, Repr

namespace Span

def subspan (s : Span) (offset count : ℕ) : Except Fault Span :=
  if offset + count ≤ s.size then .ok ⟨s.large, s.start + offset, count⟩ else .error .subspan

/-- `subspan` to the end. -/
def subspanFrom (s : Span) (offset : ℕ) : Except Fault Span :=
  if offset ≤ s.size then .ok ⟨s.large, s.start + offset, s.size - offset⟩
  else .error .subspan

theorem subspan_eq {s : Span} {offset count : ℕ} (h : offset + count ≤ s.size) :
    s.subspan offset count = .ok ⟨s.large, s.start + offset, count⟩ := if_pos h

theorem subspanFrom_eq {s : Span} {offset : ℕ} (h : offset ≤ s.size) :
    s.subspanFrom offset = .ok ⟨s.large, s.start + offset, s.size - offset⟩ := if_pos h

theorem size_subspanFrom {s r : Span} {offset : ℕ} (h : s.subspanFrom offset = .ok r) :
    r.size + offset = s.size := by
  unfold subspanFrom at h
  split_ifs at h
  obtain rfl := Except.ok.inj h
  simp only
  omega

end Span

end TcpConnection

/-- The part of `TcpConnection` that receives; `receiveState` is how far the receive
cipher has gone. -/
structure TcpConnection where
  smallBuffer : List UInt8 := []
  largeBuffer : List UInt8 := []
  usingLargeBuffer : Bool := false
  offsetBytes : ℕ := 0
  readBytes : ℕ := 0
  leftBytes : ℕ := 0
  receiveState : ℕ := 0
  events : List TcpConnection.Event := []

namespace TcpConnection

def emit (c : TcpConnection) (e : Event) : TcpConnection := { c with events := c.events ++ [e] }

def buffer (c : TcpConnection) (large : Bool) : List UInt8 :=
  if large then c.largeBuffer else c.smallBuffer

/-- The buffer in use, as a span. -/
def inUse (c : TcpConnection) : Span :=
  ⟨c.usingLargeBuffer, 0, (c.buffer c.usingLargeBuffer).length⟩

def load (c : TcpConnection) (s : Span) : List UInt8 := slice (c.buffer s.large) s.start s.size

/-- Write to a buffer, as `bytes::copy` and `bytes::move` do. -/
def store (c : TcpConnection) (large : Bool) (start : ℕ) (bytes : List UInt8) :
    Except Fault TcpConnection :=
  if start + bytes.length ≤ (c.buffer large).length then
    if large then .ok { c with largeBuffer := splice c.largeBuffer start bytes }
    else .ok { c with smallBuffer := splice c.smallBuffer start bytes }
  else .error .copy

def ensureAvailableInBuffer (c : TcpConnection) (amount : ℕ) : Except Fault TcpConnection := do
  let full ← c.inUse.subspanFrom c.offsetBytes
  if amount ≤ full.size then
    return c
  let read ← full.subspan 0 c.readBytes
  let bytes := c.load read
  if amount ≤ c.smallBuffer.length then
    let c ← c.store false 0 bytes
    if c.usingLargeBuffer then
      return { c with usingLargeBuffer := false, largeBuffer := [], offsetBytes := 0 }
    return { c with offsetBytes := 0 }
  if amount ≤ c.largeBuffer.length then
    if c.usingLargeBuffer then
      let c ← c.store true 0 bytes
      return { c with offsetBytes := 0 }
    throw .ensureAvailableInBuffer
  let c ← { c with largeBuffer := List.replicate amount 0 }.store true 0 bytes
  return { c with usingLargeBuffer := true, offsetBytes := 0 }

/-- The loop over the packets that are `available`; `false` when it returns with an error.
The span stays where it is when `ensureAvailableInBuffer` moves what it shows. -/
def extract (v : Version) (c : TcpConnection) (available : Span) :
    Except Fault (TcpConnection × Bool) :=
  if 0 < c.readBytes then
    let packetSize := v.readPacketLength (c.load available)
    if packetSize = TcpProtocol.kUnknownSize then .ok (c, true)
    else if hpos : packetSize ≤ 0 then .ok (c.emit .error, false)
    else if packetSize ≤ available.size then
      match available.subspan 0 packetSize.toNat with
      | .error f => .error f
      | .ok packet =>
        match hrest : available.subspanFrom packetSize.toNat with
        | .error f => .error f
        | .ok rest =>
          let c := c.emit (.socketPacket (c.load packet))
          let c := { c with
            offsetBytes := c.offsetBytes + packetSize.toNat
            readBytes := c.readBytes - packetSize.toNat }
          -- If we have too little space left in the buffer.
          match c.ensureAvailableInBuffer kMinPacketBuffer with
          | .error f => .error f
          | .ok c => extract v c rest
    else
      let c := { c with leftBytes := packetSize.toNat - available.size }
      -- If the next packet won't fit in the buffer.
      match c.ensureAvailableInBuffer packetSize.toNat with
      | .error f => .error f
      | .ok c => .ok (c.emit .receivedSome, true)
  else .ok (c, true)
termination_by available.size
decreasing_by
  have := Span.size_subspanFrom hrest
  omega

/-- What `socketRead` does with `readCount` new bytes at the end of what it has read. -/
def handleRead (v : Version) (c : TcpConnection) (full : Span) (readCount : ℕ) :
    Except Fault (TcpConnection × Bool) :=
  if 0 < c.leftBytes then
    if c.leftBytes < readCount then .error .readCount
    else
      let c := { c with leftBytes := c.leftBytes - readCount }
      if c.leftBytes = 0 then do
        let packet ← full.subspan 0 c.readBytes
        let c := c.emit (.socketPacket (c.load packet))
        return ({ c with
          usingLargeBuffer := false, largeBuffer := [], offsetBytes := 0, readBytes := 0 }, true)
      else .ok (c.emit .receivedSome, true)
  else do
    let available ← full.subspan 0 c.readBytes
    extract v c available

/-- How much may be read at once. -/
def readLimit (c : TcpConnection) : ℤ :=
  if 0 < c.leftBytes then c.leftBytes else kSmallBufferSize - c.offsetBytes - c.readBytes

/-- One turn of the loop in `socketRead` over a socket that still has `stream` to give
and gives at most `count` bytes; `dec` is the receive cipher, by place in the stream.
The flag is whether the loop goes on. -/
def readOnce (v : Version) (dec : ℕ → UInt8 → UInt8) (c : TcpConnection) (stream : List UInt8)
    (count : ℕ) : Except Fault (TcpConnection × List UInt8 × Bool) :=
  if c.readLimit ≤ 0 then .error .readLimit
  else do
    let full ← c.inUse.subspanFrom c.offsetBytes
    let free ← full.subspanFrom c.readBytes
    let target ← free.subspan 0 c.readLimit.toNat
    let received := stream.take (min count target.size)
    let readCount := received.length
    if readCount = 0 then
      return (c, stream, false)
    let read ← free.subspan 0 readCount
    let c ← c.store read.large read.start (received.mapIdx fun i b => dec (c.receiveState + i) b)
    let c := { c with
      receiveState := c.receiveState + readCount
      readBytes := c.readBytes + readCount }
    let r ← handleRead v c full readCount
    return (r.1, stream.drop readCount, r.2)

/-- The loop: the socket has bytes available for as long as counts are left. -/
def readLoop (v : Version) (dec : ℕ → UInt8 → UInt8) (c : TcpConnection) (stream : List UInt8) :
    List ℕ → Except Fault (TcpConnection × List UInt8)
  | [] => .ok (c, stream)
  | count :: counts => do
    let (c, stream, goes) ← readOnce v dec c stream count
    if goes then readLoop v dec c stream counts else return (c, stream)

/-- The small buffer is allocated by the first call. -/
def withSmallBuffer (c : TcpConnection) : TcpConnection :=
  if c.smallBuffer = [] then { c with smallBuffer := List.replicate kSmallBufferSize 0 } else c

/-- One call, for a socket that stays connected. -/
def socketRead (v : Version) (dec : ℕ → UInt8 → UInt8) (c : TcpConnection) (stream : List UInt8)
    (count : ℕ) (counts : List ℕ) : Except Fault (TcpConnection × List UInt8) :=
  if 0 < c.leftBytes ∨ c.usingLargeBuffer = false then
    readLoop v dec c.withSmallBuffer stream (count :: counts)
  else .error .socketRead

/-- The calls over the life of a connection, which an error ends. -/
def socketReads (v : Version) (dec : ℕ → UInt8 → UInt8) (c : TcpConnection)
    (stream : List UInt8) : List (ℕ × List ℕ) → Except Fault (TcpConnection × List UInt8)
  | [] => .ok (c, stream)
  | (count, counts) :: calls => do
    let (c, stream) ← socketRead v dec c stream count counts
    if .error ∈ c.events then return (c, stream) else socketReads v dec c stream calls

end TcpConnection

end TelegramDesktop.Mtproto
