import TelegramDesktop.Base.Slice
import TelegramDesktop.Base.Words

namespace TelegramDesktop.Mtproto.TlsSocket
open Base

def kMaxGrease : ℕ := 8

def kClientHelloLength : ℕ := 517

def kHelloDigestLength : ℕ := 32

def kLengthSize : ℕ := 2

inductive TlsBlock
  | string (data : List UInt8)
  | zero (length : ℤ)
  | grease (seed : ℤ)
  | random (length : ℤ)
  | domain
  | publicKey
  | scope (entries : List TlsBlock)
  | permutation (entries : List (List TlsBlock))

inductive StackElement
  | scope (blocks : List TlsBlock)
  | permutation (elements : List (List TlsBlock))

def pushToBack (block : TlsBlock) : List StackElement → Option (List StackElement)
  | [] => none
  | .scope blocks :: stack => some (.scope (blocks ++ [block]) :: stack)
  | .permutation elements :: stack => do
    let last ← elements.getLast?
    return .permutation (elements.dropLast ++ [last ++ [block]]) :: stack

/-- The calls `PrepareClientHelloRules` is written in. -/
inductive Rule
  | s (data : List UInt8)
  | z (length : ℤ)
  | g (seed : ℤ)
  | r (length : ℤ)
  | d
  | k
  | openScope
  | closeScope
  | openPermutation
  | closePermutation
  | startPermutationElement

def Rule.apply (stack : List StackElement) : Rule → Option (List StackElement)
  | .s data => pushToBack (.string data) stack
  | .z length => pushToBack (.zero length) stack
  | .g seed => pushToBack (.grease seed) stack
  | .r length => pushToBack (.random length) stack
  | .d => pushToBack .domain stack
  | .k => pushToBack .publicKey stack
  | .openScope => some (.scope [] :: stack)
  | .closeScope =>
    match stack with
    | .scope blocks :: element :: stack => pushToBack (.scope blocks) (element :: stack)
    | _ => none
  | .openPermutation => some (.permutation [] :: stack)
  | .closePermutation =>
    match stack with
    | .permutation list :: element :: stack => pushToBack (.permutation list) (element :: stack)
    | _ => none
  | .startPermutationElement =>
    match stack with
    | .permutation list :: element :: stack =>
      some (.permutation (list ++ [[]]) :: element :: stack)
    | _ => none

def finish : List StackElement → Option (List TlsBlock)
  | [.scope blocks] => some blocks
  | _ => none

def clientHelloRules : List Rule := [
  .s [0x16, 0x03, 0x01, 0x02, 0x00, 0x01, 0x00, 0x01, 0xfc, 0x03, 0x03],
  .z 32,
  .s [0x20],
  .r 32,
  .s [0x00, 0x20],
  .g 0,
  .s [
    0x13, 0x01, 0x13, 0x02, 0x13, 0x03, 0xc0, 0x2b, 0xc0, 0x2f, 0xc0, 0x2c, 0xc0, 0x30, 0xcc, 0xa9,
    0xcc, 0xa8, 0xc0, 0x13, 0xc0, 0x14, 0x00, 0x9c, 0x00, 0x9d, 0x00, 0x2f, 0x00, 0x35, 0x01, 0x00,
    0x01, 0x93],
  .g 2,
  .s [0x00, 0x00],
  .openPermutation,
  .startPermutationElement,
  .s [0x00, 0x00],
  .openScope,
  .openScope,
  .s [0x00],
  .openScope,
  .d,
  .closeScope,
  .closeScope,
  .closeScope,
  .startPermutationElement,
  .s [0x00, 0x05, 0x00, 0x05, 0x01, 0x00, 0x00, 0x00, 0x00],
  .startPermutationElement,
  .s [0x00, 0x0a, 0x00, 0x0a, 0x00, 0x08],
  .g 4,
  .s [0x00, 0x1d, 0x00, 0x17, 0x00, 0x18],
  .startPermutationElement,
  .s [0x00, 0x0b, 0x00, 0x02, 0x01, 0x00],
  .startPermutationElement,
  .s [
    0x00, 0x0d, 0x00, 0x12, 0x00, 0x10, 0x04, 0x03, 0x08, 0x04, 0x04, 0x01, 0x05, 0x03,
    0x08, 0x05, 0x05, 0x01, 0x08, 0x06, 0x06, 0x01],
  .startPermutationElement,
  .s [
    0x00, 0x10, 0x00, 0x0e, 0x00, 0x0c, 0x02, 0x68, 0x32, 0x08, 0x68, 0x74, 0x74, 0x70,
    0x2f, 0x31, 0x2e, 0x31],
  .startPermutationElement,
  .s [0x00, 0x12, 0x00, 0x00],
  .startPermutationElement,
  .s [0x00, 0x17, 0x00, 0x00],
  .startPermutationElement,
  .s [0x00, 0x1b, 0x00, 0x03, 0x02, 0x00, 0x02],
  .startPermutationElement,
  .s [0x00, 0x23, 0x00, 0x00],
  .startPermutationElement,
  .s [0x00, 0x2b, 0x00, 0x07, 0x06],
  .g 6,
  .s [0x03, 0x04, 0x03, 0x03],
  .startPermutationElement,
  .s [0x00, 0x2d, 0x00, 0x02, 0x01, 0x01],
  .startPermutationElement,
  .s [0x00, 0x33, 0x00, 0x2b, 0x00, 0x29],
  .g 4,
  .s [0x00, 0x01, 0x00, 0x00, 0x1d, 0x00, 0x20],
  .k,
  .startPermutationElement,
  .s [0x44, 0x69, 0x00, 0x05, 0x00, 0x03, 0x02, 0x68, 0x32],
  .startPermutationElement,
  .s [0xff, 0x01, 0x00, 0x01, 0x00],
  .closePermutation,
  .g 3,
  .s [0x00, 0x01, 0x00, 0x00, 0x15]]

def prepareClientHelloRules : Option (List TlsBlock) := do
  finish (← clientHelloRules.foldlM Rule.apply [.scope []])

/-- What the generator draws: random bytes one after another, keys and shuffles. A key is
32 bytes, as `GeneratePublicKey` allocates it; a digest is what SHA-256 gives. -/
structure Random where
  byte : ℕ → UInt8
  publicKey : ℕ → Vector UInt8 32
  shuffle : (list : List (List UInt8)) → { l : List (List UInt8) // l.Perm list }
  hmacSha256 : List UInt8 → List UInt8 → Vector UInt8 32
  now : UInt32

def Random.draw (random : Random) (drawn count : ℕ) : List UInt8 :=
  (List.range count).map fun i => random.byte (drawn + i)

/-- The second of two greases, made to differ from the first. -/
def separate (result : List UInt8) (i : ℕ) : List UInt8 :=
  if result.getD i 0 = result.getD (i + 1) 0 then
    result.set (i + 1) (result.getD (i + 1) 0 ^^^ 0x10)
  else result

def prepareGreases (random : Random) : List UInt8 :=
  [0, 2, 4, 6].foldl separate
    ((random.draw 0 kMaxGrease).map fun byte => (byte &&& 0xF0) + 0x0A)

structure Env where
  random : Random
  domain : List UInt8
  greases : List UInt8

/-- `detached`: the data has left the place that was reserved for it. -/
structure Part where
  result : List UInt8 := []
  detached : Bool := false
  digestPosition : ℤ := -1
  error : Bool := false
  drawn : ℕ

namespace Part

/-- The data, which must not have moved. -/
def take (p : Part) : Option (List UInt8) :=
  if p.error ∨ p.detached = false then some (if p.error then [] else p.result) else none

/-- The part with `size` more bytes, and where they start. -/
def grow (p : Part) (size : ℤ) : Part × Option ℕ :=
  if p.error ∨ size ≤ 0 ∨ kClientHelloLength < p.result.length + size then
    ({ p with error := true }, none)
  else
    ({ p with
      result := p.result ++ List.replicate size.toNat 0
      detached := p.detached || decide (kClientHelloLength < p.result.length + size) },
      some p.result.length)

def store (p : Part) (storage : ℕ) (bytes : List UInt8) : Part :=
  { p with result := splice p.result storage bytes }

/-- Grow by the size of some bytes and copy them. -/
def put (p : Part) (bytes : List UInt8) : Part :=
  match p.grow bytes.length with
  | (p, none) => p
  | (p, some storage) => p.store storage bytes

/-- The loop over the shuffled elements of a permutation. -/
def putAll (p : Part) : List (List UInt8) → Part
  | [] => p
  | element :: list =>
    match p.grow element.length with
    | (p, none) => p
    | (p, some storage) => (p.store storage element).putAll list

def extractDigest (p : Part) : List UInt8 :=
  if p.digestPosition < 0 then [] else slice p.result p.digestPosition.toNat kHelloDigestLength

end Part

/-- `qToBigEndian(uint16(length))`. -/
def bigEndian16 (length : ℕ) : List UInt8 := [.ofNat (length / 2 ^ 8), .ofNat length]

mutual

def writeBlock (env : Env) (p : Part) : TlsBlock → Option Part
  | .string data => some (p.put data)
  | .zero length =>
    match p.grow length with
    | (q, none) => some q
    | (q, some storage) =>
      let q := if length = kHelloDigestLength ∧ q.digestPosition < 0 then
        { q with digestPosition := p.result.length } else q
      some (q.store storage (List.replicate length.toNat 0))
  | .grease seed =>
    if seed < 0 ∨ env.greases.length ≤ seed then some { p with error := true }
    else some (p.put (List.replicate 2 (env.greases.getD seed.toNat 0)))
  | .random length =>
    match p.grow length with
    | (q, none) => some q
    | (q, some storage) => some { q.store storage (env.random.draw q.drawn length.toNat) with
        drawn := q.drawn + length.toNat }
  | .domain => some (p.put env.domain)
  | .publicKey =>
    some ({ p with drawn := p.drawn + 1 }.put (env.random.publicKey p.drawn).toList)
  | .scope entries =>
    match p.grow kLengthSize with
    | (q, none) => some q
    | (q, some storage) =>
      match writeBlocks env q entries with
      | none => none
      | some r => some (r.store storage (bigEndian16 (r.result.length - q.result.length)))
  | .permutation entries =>
    match writeElements env p entries with
    | none => none
    | some (q, none) => some q
    | some (q, some list) => some (q.putAll (env.random.shuffle list).1)

def writeBlocks (env : Env) (p : Part) : List TlsBlock → Option Part
  | [] => some p
  | block :: blocks =>
    match writeBlock env p block with
    | none => none
    | some q => writeBlocks env q blocks

/-- Each element of a permutation is written to a part of its own. -/
def writeElements (env : Env) (p : Part) :
    List (List TlsBlock) → Option (Part × Option (List (List UInt8)))
  | [] => some (p, some [])
  | inner :: entries =>
    match writeBlocks env { drawn := p.drawn } inner with
    | none => none
    | some part =>
      if part.error then some ({ p with drawn := part.drawn, error := true }, none)
      else
        match part.take, writeElements env { p with drawn := part.drawn } entries with
        | some element, some (q, list) => some (q, list.map (element :: ·))
        | _, _ => none

end

namespace Part

def writePadding (env : Env) (p : Part) : Option Part :=
  if p.result.length ≤ kClientHelloLength - kLengthSize then
    let padding : ℤ := kClientHelloLength - kLengthSize - p.result.length
    writeBlock env p (.scope [.zero padding])
  else none

def writeDigest (env : Env) (key : List UInt8) (p : Part) : Option Part :=
  if 0 ≤ p.digestPosition ∧ p.digestPosition + kHelloDigestLength ≤ p.result.length then
    some (p.store p.digestPosition.toNat (env.random.hmacSha256 key p.result).toList)
  else none

def injectTimestamp (env : Env) (p : Part) : Option Part :=
  if 0 ≤ p.digestPosition ∧ p.digestPosition + kHelloDigestLength ≤ p.result.length then
    let storage := (p.digestPosition + kHelloDigestLength - 4).toNat
    let already := slice p.result storage 4
    some (p.store storage (List.zipWith (· ^^^ ·) already (Words.ofWord env.random.now)))
  else none

def finalize (env : Env) (key : List UInt8) (p : Part) : Option Part :=
  if p.error then some p
  else if p.digestPosition < 0 then some { p with error := true }
  else do
    let p ← p.writePadding env
    let p ← p.writeDigest env key
    p.injectTimestamp env

end Part

structure ClientHello where
  data : List UInt8
  digest : List UInt8

def prepareClientHello (random : Random) (rules : List TlsBlock) (domain key : List UInt8) :
    Option ClientHello := do
  let env : Env := ⟨random, domain, prepareGreases random⟩
  let p ← writeBlocks env { drawn := kMaxGrease } rules
  let p ← p.finalize env key
  let digest := p.extractDigest
  let data ← p.take
  return ⟨data, digest⟩

/-- A proxy secret as the socket expects it. -/
structure Secret where
  bytes : List UInt8
  long : 21 ≤ bytes.length
  tag : bytes.head? = some 0xEE

def Secret.domainFromSecret (secret : Secret) : List UInt8 := secret.bytes.drop 17

def Secret.keyFromSecret (secret : Secret) : List UInt8 := slice secret.bytes 1 16

/-- The hello sent for a proxy secret. -/
def clientHello (random : Random) (secret : Secret) : Option ClientHello := do
  let rules ← prepareClientHelloRules
  prepareClientHello random rules secret.domainFromSecret secret.keyFromSecret

end TelegramDesktop.Mtproto.TlsSocket
