import TelegramDesktop.Base.Vectors
import TelegramDesktop.Mtproto.TlsClientHello

namespace TelegramDesktop.Mtproto.TlsSocket
open Base

def kServerHelloPart1 : List UInt8 := [0x16, 0x03, 0x03]

def kServerHelloPart3 : List UInt8 := [0x14, 0x03, 0x03, 0x00, 0x01, 0x01, 0x17, 0x03, 0x03]

def kServerHelloDigestPosition : ℕ := 11

def kServerHeader : List UInt8 := [0x17, 0x03, 0x03]

inductive State
  | notConnected
  | connecting
  | waitingHello
  | connected
  | error
  deriving DecidableEq

/-- The streams the socket fires. -/
inductive Fired
  | syncTimeRequests
  | error
  | connected
  | readyRead
  deriving DecidableEq

/-- The calls left with `InvokeQueued`. -/
inductive Queued
  | checkNextPacket
  | handleError
  deriving DecidableEq

structure Socket where
  secret : Secret
  state : State
  incoming : List UInt8 := []
  incomingGoodDataOffset : ℤ := 0
  incomingGoodDataLimit : ℤ := 0
  serverHelloLength : ℤ := 0
  queue : List Queued := []
  fired : List Fired := []

/-- What an `int16` keeps of a number. -/
def int16 (n : ℤ) : ℤ := n.bmod (2 ^ 16)

/-- A `subspan`, `none` outside the data. The count `-1` asks for all that is left. -/
def subspan (data : List UInt8) (offset count : ℤ) : Option (List UInt8) :=
  if 0 ≤ offset ∧ offset ≤ data.length then
    if count = -1 then some (data.drop offset.toNat)
    else if 0 ≤ count ∧ offset + count ≤ data.length then
      some (slice data offset.toNat count.toNat)
    else none
  else none

def checkPart (data check : List UInt8) : Bool :=
  if data.length < check.length then false else data.take check.length == check

def readPartLength (data : List UInt8) (offset : ℤ) : Option ℤ :=
  (subspan data offset kLengthSize).map fun storage => (Vectors.toNat storage : ℤ)

namespace Socket

def handleError (s : Socket) : Socket :=
  let sync := if s.state ≠ .connected then [Fired.syncTimeRequests] else []
  { s with state := .error, fired := s.fired ++ sync ++ [.error] }

def shiftIncomingBy (s : Socket) (amount : ℕ) : Option Socket :=
  if s.incomingGoodDataOffset = 0 ∧ s.incomingGoodDataLimit = 0 then
    some { s with incoming := s.incoming.drop amount }
  else none

def requiredHelloPartReady (s : Socket) : Bool :=
  kHelloDigestLength + s.serverHelloLength ≤ s.incoming.length

section Hello

variable (hmacSha256 : List UInt8 → List UInt8 → Vector UInt8 32)

def startPackets (s : Socket) (helloSize : ℕ) : Option Socket := do
  let s ← s.shiftIncomingBy helloSize
  let queued := if s.incoming = [] then [] else [Queued.checkNextPacket]
  return { s with
    queue := s.queue ++ queued
    incomingGoodDataOffset := 0
    incomingGoodDataLimit := 0
    state := .connected
    fired := s.fired ++ [.connected] }

/-- The comparison at the end of `checkHelloDigest`, made on data with the digest zeroed. -/
def compareDigest (s : Socket) (fulldata digestCopy : List UInt8) : Option Socket :=
  let position := kHelloDigestLength + kServerHelloDigestPosition
  let zeros := List.replicate kHelloDigestLength (0 : UInt8)
  let check := hmacSha256 s.secret.keyFromSecret (splice fulldata position zeros)
  let s := { s with incoming := splice s.incoming position zeros }
  if digestCopy = check.toList then s.startPackets fulldata.length else some s.handleError

def checkHelloDigest (s : Socket) : Option Socket := do
  let fulldata ← subspan s.incoming 0 (kHelloDigestLength + s.serverHelloLength)
  let position := kHelloDigestLength + kServerHelloDigestPosition
  let digestCopy ← subspan fulldata position kHelloDigestLength
  s.compareDigest hmacSha256 fulldata digestCopy

def checkHelloParts34 (s : Socket) (parts123Size : ℤ) : Option (Socket × Bool) := do
  let data ← subspan s.incoming kHelloDigestLength parts123Size
  let part4Size ← readPartLength data (parts123Size - kLengthSize)
  let full := parts123Size + part4Size
  if s.serverHelloLength = parts123Size then
    let part3Offset := parts123Size - kLengthSize - kServerHelloPart3.length
    let part3 ← subspan data part3Offset (-1)
    if !checkPart part3 kServerHelloPart3 then return (s.handleError, false)
    let s := { s with serverHelloLength := int16 full }
    if !s.requiredHelloPartReady then return (s, true)
    return (← s.checkHelloDigest hmacSha256, false)
  else return (← s.checkHelloDigest hmacSha256, false)

def parts1Size : ℤ := kServerHelloPart1.length + kLengthSize

def checkHelloParts12 (s : Socket) : Option (Socket × Bool) := do
  let data ← subspan s.incoming kHelloDigestLength parts1Size
  let part2Size ← readPartLength data (parts1Size - kLengthSize)
  let parts123Size := parts1Size + part2Size + kServerHelloPart3.length + kLengthSize
  if s.serverHelloLength = parts1Size then
    let part1Offset := parts1Size - kLengthSize - kServerHelloPart1.length
    let part1 ← subspan data part1Offset (-1)
    if !checkPart part1 kServerHelloPart1 then return (s.handleError, false)
    let s := { s with serverHelloLength := int16 parts123Size }
    if !s.requiredHelloPartReady then return (s, true)
    s.checkHelloParts34 hmacSha256 parts123Size
  else s.checkHelloParts34 hmacSha256 parts123Size

def startHello (s : Socket) : Socket :=
  if s.serverHelloLength = 0 then { s with serverHelloLength := parts1Size } else s

def append (s : Socket) (data : List UInt8) : Socket := { s with incoming := s.incoming ++ data }

/-- The chunks are what `readAll` returns, one call after another, until nothing is available. A
check that calls `readHello` again has found the next part missing, so it goes on to the next
chunk. -/
def readHello (s : Socket) : List (List UInt8) → Option Socket
  | [] =>
    let s := s.startHello
    if s.requiredHelloPartReady then (s.checkHelloParts12 hmacSha256).map Prod.fst else some s
  | chunk :: chunks =>
    let s := s.startHello
    if s.requiredHelloPartReady then
      match s.checkHelloParts12 hmacSha256 with
      | none => none
      | some (s, false) => some s
      | some (s, true) => readHello (s.startHello.append chunk) chunks
    else readHello (s.append chunk) chunks

/-- `plainReadyRead` called again and again, as long as the socket waits for the hello. -/
def waitHello (s : Socket) : List (List (List UInt8)) → Option Socket
  | [] => some s
  | chunks :: events => do
    let s ← s.readHello hmacSha256 chunks
    if s.state = .waitingHello then s.waitHello events else return s

end Hello

def isConnected (s : Socket) : Bool := s.state = .connected

def fullHeader : ℕ := kServerHeader.length + kLengthSize

/-- The loop of `checkNextPacket` from a local offset on. -/
def checkNextPacketFrom (s : Socket) (offset : ℕ) : Option (Socket × Bool) :=
  if s.incomingGoodDataLimit ≠ 0 then some (s, true)
  else if _ : s.incoming.length ≤ offset + fullHeader then some (s, true)
  else if !checkPart (s.incoming.drop offset) kServerHeader then some (s, false)
  else
    match readPartLength s.incoming (offset + kServerHeader.length) with
    | none => none
    | some length =>
      if 0 < length then
        (if 0 < offset then s.shiftIncomingBy offset else some s).map fun s =>
          ({ s with
            incomingGoodDataOffset := fullHeader, incomingGoodDataLimit := length }, true)
      else s.checkNextPacketFrom (offset + fullHeader)
termination_by s.incoming.length - offset
decreasing_by
  rw [fullHeader, kServerHeader, kLengthSize] at *
  simp only [List.length_cons, List.length_nil] at *
  omega

def checkNextPacket (s : Socket) : Option (Socket × Bool) := s.checkNextPacketFrom 0

def hasBytesAvailable (s : Socket) : Bool :=
  0 < s.incomingGoodDataLimit ∧ s.incomingGoodDataOffset < s.incoming.length

def readData (s : Socket) (data : List UInt8) : Option Socket :=
  if !s.isConnected then some s
  else do
    let (s, good) ← (s.append data).checkNextPacket
    if !good then return s.handleError
    else if s.hasBytesAvailable then return { s with fired := s.fired ++ [.readyRead] }
    else return s

/-- The bytes taken out of the current packet. -/
def advance (s : Socket) (write : ℕ) : Socket :=
  { s with
    incomingGoodDataLimit := s.incomingGoodDataLimit - write
    incomingGoodDataOffset := s.incomingGoodDataOffset + write }

def available (s : Socket) : ℤ :=
  min s.incomingGoodDataLimit (s.incoming.length - s.incomingGoodDataOffset)

/-- The bytes put to a buffer of a size. -/
def read (s : Socket) (size : ℕ) : Option (Socket × List UInt8) :=
  if s.incomingGoodDataLimit = 0 then some (s, [])
  else if s.available ≤ 0 then some (s, [])
  else
    let write := min s.available.toNat size
    if _ : write = 0 then some (s, [])
    else
      match subspan s.incoming s.incomingGoodDataOffset write with
      | none => none
      | some written =>
        let s := s.advance write
        if s.incomingGoodDataLimit ≠ 0 then some (s, written)
        else
          let offset := s.incomingGoodDataOffset.toNat
          match ({ s with incomingGoodDataOffset := 0 } : Socket).shiftIncomingBy offset with
          | none => none
          | some s =>
            match s.checkNextPacket with
            | none => none
            | some (s, false) =>
              some ({ s with state := .error, queue := s.queue ++ [.handleError] }, written)
            | some (s, true) =>
              match s.read (size - write) with
              | none => none
              | some (s, more) => some (s, written ++ more)
termination_by size
decreasing_by omega

/-- The first of the calls left with `InvokeQueued` is made. -/
def invokeQueued (s : Socket) : Option Socket :=
  match s.queue with
  | [] => some s
  | .handleError :: queue => some ({ s with queue } : Socket).handleError
  | .checkNextPacket :: queue => do
    let (s, good) ← ({ s with queue } : Socket).checkNextPacket
    if !good then return s.handleError else return s

end Socket

end TelegramDesktop.Mtproto.TlsSocket
