import TelegramDesktop.Base.DataStream
import TelegramDesktop.Base.FlatMapFold

namespace TelegramDesktop.Mtproto.DcOptions
open Base DataStream

abbrev DcId := Int32

def kDcShift : ℤ := 10000

def kTemporaryMainDc : ℤ := 1000

def kVersion : Int32 := 2

def kMaxIpSize : Int32 := 45

def kMaxSecretSize : Int32 := 32

inductive Environment
  | production
  | test
  deriving DecidableEq

/-- The bits of `MTPDdcOption::Flag` that the built-in options use. -/
def f_ipv6 : Int32 := 1

def f_static : Int32 := 16

structure Endpoint where
  id : DcId
  flags : Int32
  ip : List UInt8
  port : Int32
  secret : List UInt8
  deriving DecidableEq

abbrev Data := FlatMap DcId (List Endpoint)

/-- The keys of each dc by their fingerprints. -/
abbrev PublicKeys (Key : Type) := FlatMap DcId (FlatMap (Fin (2 ^ 64)) Key)

/-- What is used of `RSAPublicKey`; `none` is a key that is not `valid()`. -/
structure RSAPublicKey (Key : Type) where
  fromBytes : List UInt8 → Option Key
  fromNE : List UInt8 → List UInt8 → Option Key
  getN : Key → List UInt8
  getE : Key → List UInt8
  fingerprint : Key → Fin (2 ^ 64)

structure DcOptions (Key : Type) where
  environment : Environment
  data : Data := ∅
  cdnPublicKeys : PublicKeys Key := ∅
  immutable : Bool := false

variable {Key : Type}

def validateSecret (secret : List UInt8) : Bool :=
  (21 ≤ secret.length && secret.head? == some 0xEE)
    || (secret.length == 17 && secret.head? == some 0xDD)
    || secret.length == 16
    || secret.isEmpty

/-- `BareDcId`, with the remainder of the source's `%`. -/
def bareDcId (shiftedDcId : DcId) : ℤ := shiftedDcId.toInt.tmod kDcShift

def isTemporaryDcId (shiftedDcId : DcId) : Bool := kTemporaryMainDc ≤ bareDcId shiftedDcId

/-- The fields an endpoint is known by inside its dc. -/
def sameAddress (a b : Endpoint) : Bool := a.ip == b.ip && a.port == b.port

/-- The result says whether the option was new. -/
def applyOneOption (data : Data) (option : Endpoint) : Data × Bool :=
  match data.get? option.id with
  | some list =>
    if list.any (sameAddress option) then (data, false)
    else ((data.erase option.id).emplace option.id (list ++ [option]), true)
  | none => (data.emplace option.id [option], true)

structure BuiltInDc where
  id : DcId
  ip : String
  port : Int32

def kBuiltInDcs : List BuiltInDc :=
  [⟨1, "149.154.175.50", 443⟩,
    ⟨2, "149.154.167.51", 443⟩,
    ⟨2, "95.161.76.100", 443⟩,
    ⟨3, "149.154.175.100", 443⟩,
    ⟨4, "149.154.167.91", 443⟩,
    ⟨5, "149.154.171.5", 443⟩]

def kBuiltInDcsIPv6 : List BuiltInDc :=
  [⟨1, "2001:0b28:f23d:f001:0000:0000:0000:000a", 443⟩,
    ⟨2, "2001:067c:04e8:f002:0000:0000:0000:000a", 443⟩,
    ⟨3, "2001:0b28:f23d:f003:0000:0000:0000:000a", 443⟩,
    ⟨4, "2001:067c:04e8:f004:0000:0000:0000:000a", 443⟩,
    ⟨5, "2001:0b28:f23f:f005:0000:0000:0000:000a", 443⟩]

def kBuiltInDcsTest : List BuiltInDc :=
  [⟨1, "149.154.175.10", 443⟩,
    ⟨2, "149.154.167.40", 443⟩,
    ⟨3, "149.154.175.117", 443⟩]

def kBuiltInDcsIPv6Test : List BuiltInDc :=
  [⟨1, "2001:0b28:f23d:f001:0000:0000:0000:000e", 443⟩,
    ⟨2, "2001:067c:04e8:f002:0000:0000:0000:000e", 443⟩,
    ⟨3, "2001:0b28:f23d:f003:0000:0000:0000:000e", 443⟩]

def BuiltInDc.option (entry : BuiltInDc) (flags : Int32) : Endpoint where
  id := entry.id
  flags := flags
  ip := entry.ip.toList.map fun c => .ofNat c.toNat
  port := entry.port
  secret := []

/-- `constructFromBuiltIn`. -/
def builtInOptions (environment : Environment) : List Endpoint :=
  let list := if environment ≠ .production then kBuiltInDcsTest else kBuiltInDcs
  let listv6 := if environment ≠ .production then kBuiltInDcsIPv6Test else kBuiltInDcsIPv6
  list.map (·.option f_static) ++ listv6.map (·.option (f_static ||| f_ipv6))

def applyAll (data : Data) (options : List Endpoint) : Data :=
  options.foldl (fun data option => (applyOneOption data option).1) data

def constructFromBuiltIn (environment : Environment) : DcOptions Key where
  environment := environment
  data := applyAll ∅ (builtInOptions environment)

/-- The inner `equal` of `CountOptionsDifference`. -/
def equalLists (m n : List Endpoint) : Bool :=
  m.length == n.length && m.all fun endpoint => n.any (sameAddress endpoint)

/-- An ended map stands for the id `max`; `none` is an ended map that is read after all. -/
def countOptionsDifference : List (DcId × List Endpoint) → List (DcId × List Endpoint) →
    Option (List DcId)
  | [], [] => some []
  | a :: as, [] =>
    if a.1 < Int32.maxValue then (countOptionsDifference as []).map (a.1 :: ·) else none
  | [], b :: bs =>
    if b.1 < Int32.maxValue then (countOptionsDifference [] bs).map (b.1 :: ·) else none
  | a :: as, b :: bs =>
    if a.1 < b.1 then (countOptionsDifference as (b :: bs)).map (a.1 :: ·)
    else if b.1 < a.1 then (countOptionsDifference (a :: as) bs).map (b.1 :: ·)
    else if equalLists a.2 b.2 then countOptionsDifference as bs
    else (countOptionsDifference as bs).map (a.1 :: ·)
  termination_by as bs => as.length + bs.length

def processFromList (d : DcOptions Key) (options : List Endpoint) (overwrite : Bool) :
    Option (DcOptions Key) :=
  if options.isEmpty || d.immutable then some d
  else
    let data := applyAll (if overwrite then ∅ else d.data) options
    (countOptionsDifference d.data.entries data.entries).map fun result =>
      if result.isEmpty then d else { d with data := data }

def setFromList (d : DcOptions Key) (options : List Endpoint) : Option (DcOptions Key) :=
  processFromList d options true

def addFromList (d : DcOptions Key) (options : List Endpoint) : Option (DcOptions Key) :=
  processFromList d options false

/-- `_cdnPublicKeys[dcId].emplace(key.fingerprint(), key)`. -/
def emplaceKey (rsa : RSAPublicKey Key) (keys : PublicKeys Key) (dcId : DcId) (key : Key) :
    PublicKeys Key :=
  keys.upsert dcId fun inner => (inner.getD ∅).emplace (rsa.fingerprint key) key

structure CdnPublicKey where
  dcId : DcId
  publicKey : List UInt8

def setCDNConfig (rsa : RSAPublicKey Key) (d : DcOptions Key) (config : List CdnPublicKey) :
    DcOptions Key :=
  { d with
    cdnPublicKeys := config.foldl (fun keys data =>
      match rsa.fromBytes data.publicKey with
      | some key => emplaceKey rsa keys data.dcId key
      | none => keys) ∅ }

/-- `qint32(size)`. -/
def ofSize (size : ℕ) : List UInt8 := ofInt (.ofNat size)

def ofEndpoint (endpoint : Endpoint) : List UInt8 :=
  ofInt endpoint.id ++ ofInt endpoint.flags ++ ofInt endpoint.port
    ++ ofSize endpoint.ip.length ++ endpoint.ip
    ++ ofSize endpoint.secret.length ++ endpoint.secret

def ofPublicKey (rsa : RSAPublicKey Key) (key : DcId × Key) : List UInt8 :=
  ofInt key.1 ++ ofBytes (rsa.getN key.2) ++ ofBytes (rsa.getE key.2)

/-- The endpoints that are saved, in the order of the map. -/
def savedEndpoints (data : Data) : List Endpoint :=
  (data.entries.filter fun item => !isTemporaryDcId item.1).flatMap Prod.snd

/-- The keys that are saved, in the order of the maps. -/
def savedKeys (keys : PublicKeys Key) : List (DcId × Key) :=
  keys.entries.flatMap fun keysInDc => keysInDc.2.entries.map fun entry => (keysInDc.1, entry.2)

def serializeOptions (rsa : RSAPublicKey Key) (data : Data) (keys : PublicKeys Key) :
    List UInt8 :=
  ofInt (-kVersion)
    ++ ofSize (savedEndpoints data).length ++ (savedEndpoints data).flatMap ofEndpoint
    ++ ofSize (savedKeys keys).length ++ (savedKeys keys).flatMap (ofPublicKey rsa)

/-- The size that is reserved. -/
def serializedSize (rsa : RSAPublicKey Key) (data : Data) (keys : PublicKeys Key) : ℕ :=
  4 + 4 + ((savedEndpoints data).map fun endpoint =>
      4 + 4 + 4 + (4 + endpoint.ip.length) + (4 + endpoint.secret.length)).sum
    + 4 + ((savedKeys keys).map fun key =>
      4 + (4 + (rsa.getN key.2).length) + (4 + (rsa.getE key.2).length)).sum

/-- `none` is a size that a `QByteArray` does not have. -/
def serialize (rsa : RSAPublicKey Key) (d : DcOptions Key) : Option (List UInt8) :=
  let d := if d.immutable then constructFromBuiltIn d.environment else d
  if serializedSize rsa d.data d.cdnPublicKeys < 2 ^ 31 then
    some (serializeOptions rsa d.data d.cdnPublicKeys)
  else none

/-- Options of the first version have no secret. -/
def takeSecret (version : Int32) (stream : List UInt8) : Option (List UInt8 × List UInt8) :=
  if 0 < version then
    (takeInt stream).bind fun secretSize =>
      if secretSize.1 < 0 ∨ kMaxSecretSize < secretSize.1 then none
      else takeRaw secretSize.1.toInt.toNat secretSize.2
  else some ([], stream)

def takeEndpoint (version : Int32) (stream : List UInt8) : Option (Endpoint × List UInt8) :=
  (takeInt stream).bind fun id =>
  (takeInt id.2).bind fun flags =>
  (takeInt flags.2).bind fun port =>
  (takeInt port.2).bind fun ipSize =>
    if ipSize.1 ≤ 0 ∨ kMaxIpSize < ipSize.1 then none
    else
      (takeRaw ipSize.1.toInt.toNat ipSize.2).bind fun ip =>
      (takeSecret version ip.2).map fun secret =>
        (⟨id.1, flags.1, ip.1, port.1, secret.1⟩, secret.2)

def takeOptions (version : Int32) : ℕ → Data → List UInt8 → Option (Data × List UInt8)
  | 0, data, stream => some (data, stream)
  | count + 1, data, stream =>
    (takeEndpoint version stream).bind fun endpoint =>
      takeOptions version count (applyOneOption data endpoint.1).1 endpoint.2

def takePublicKey (rsa : RSAPublicKey Key) (keys : PublicKeys Key) (stream : List UInt8) :
    Option (PublicKeys Key × List UInt8) :=
  (takeInt stream).bind fun dcId =>
  (takeBytes dcId.2).bind fun n =>
  (takeBytes n.2).bind fun e =>
  (rsa.fromNE n.1 e.1).map fun key => (emplaceKey rsa keys dcId.1 key, e.2)

def takePublicKeys (rsa : RSAPublicKey Key) :
    ℕ → PublicKeys Key → List UInt8 → Option (PublicKeys Key × List UInt8)
  | 0, keys, stream => some (keys, stream)
  | count + 1, keys, stream =>
    (takePublicKey rsa keys stream).bind fun next => takePublicKeys rsa count next.1 next.2

/-- The loops count up to a negative number only past the end of the stream. -/
def takeCount (stream : List UInt8) : Option (ℕ × List UInt8) :=
  (takeInt stream).bind fun count =>
    if count.1 < 0 then none else some (count.1.toInt.toNat, count.2)

/-- The version and the number of options; the first version has no number of its own. -/
def takeHeader (serialized : List UInt8) : Option (Int32 × ℕ × List UInt8) :=
  (takeInt serialized).bind fun minusVersion =>
    if minusVersion.1 < 0 then
      (takeCount minusVersion.2).map fun count => (-minusVersion.1, count)
    else some (0, minusVersion.1.toInt.toNat, minusVersion.2)

def constructFromSerialized (rsa : RSAPublicKey Key) (d : DcOptions Key)
    (serialized : List UInt8) : Option (DcOptions Key) :=
  (takeHeader serialized).bind fun header =>
  (takeOptions header.1 header.2.1 ∅ header.2.2).bind fun options =>
    if options.2 ≠ [] ∧ 1 < header.1 then
      (takeCount options.2).bind fun count =>
      (takePublicKeys rsa count.1 d.cdnPublicKeys count.2).map fun keys =>
        { d with data := options.1, cdnPublicKeys := keys.1 }
    else some { d with data := options.1 }

end TelegramDesktop.Mtproto.DcOptions
