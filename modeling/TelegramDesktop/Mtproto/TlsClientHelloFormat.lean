import TelegramDesktop.Base.Vectors
import TelegramDesktop.Mtproto.TlsClientHello

namespace TelegramDesktop.Mtproto.TlsSocket
open Base Base.Vectors

abbrev Extension := List UInt8 × List UInt8

structure HelloFields where
  random : List UInt8
  session : List UInt8
  cipherSuites : List UInt8
  compression : List UInt8
  extensions : List Extension

namespace HelloFields

def extensionBytes (f : HelloFields) : List UInt8 := f.extensions.flatMap tagged

def handshake (f : HelloFields) : List UInt8 :=
  [0x03, 0x03] ++ (f.random ++ (vec 1 f.session ++ (vec 2 f.cipherSuites ++
    (vec 1 f.compression ++ vec 2 f.extensionBytes))))

def record (f : HelloFields) : List UInt8 := [0x01] ++ vec 3 f.handshake

def encode (f : HelloFields) : List UInt8 := [0x16, 0x03, 0x01] ++ vec 2 f.record

/-- The sizes that the length fields can hold. -/
structure Sized (f : HelloFields) : Prop where
  random : f.random.length = kHelloDigestLength
  session : f.session.length < 256 ^ 1
  cipherSuites : f.cipherSuites.length < 256 ^ 2
  compression : f.compression.length < 256 ^ 1
  extensions : ∀ extension ∈ f.extensions,
    extension.1.length = 2 ∧ extension.2.length < 256 ^ 2
  extensionBytes : f.extensionBytes.length < 256 ^ 2
  handshake : f.handshake.length < 256 ^ 3
  record : f.record.length < 256 ^ 2

end HelloFields

/-- The fields with the lengths that were read before them. -/
structure ParsedHello where
  recordLength : ℕ
  handshakeLength : ℕ
  extensionsLength : ℕ
  fields : HelloFields

def readExtensions (l : List UInt8) : Option (List Extension) :=
  readItems (readTagged 2) l.length l

/-- The entries of a server-name extension: kind and name. -/
def readServerNames (body : List UInt8) : Option (List (List UInt8 × List UInt8)) :=
  match readVec 2 body with
  | some (list, []) => readItems (readTagged 1) list.length list
  | _ => none

/-- The bytes behind an expected prefix. -/
def readPrefix (start l : List UInt8) : Option (List UInt8) :=
  if l.take start.length = start then some (l.drop start.length) else none

def readEnd (l : List UInt8) : Option Unit := if l = [] then some () else none

def readHello (data : List UInt8) : Option ParsedHello := do
  let (record, rest) ← readVec 2 (← readPrefix [0x16, 0x03, 0x01] data)
  readEnd rest
  let (handshake, rest) ← readVec 3 (← readPrefix [0x01] record)
  readEnd rest
  let body ← readPrefix [0x03, 0x03] handshake
  let (session, rest) ← readVec 1 (body.drop kHelloDigestLength)
  let (cipherSuites, rest) ← readVec 2 rest
  let (compression, rest) ← readVec 1 rest
  let (list, rest) ← readVec 2 rest
  readEnd rest
  let extensions ← readExtensions list
  return ⟨record.length, handshake.length, list.length,
    ⟨body.take kHelloDigestLength, session, cipherSuites, compression, extensions⟩⟩

theorem readPrefix_append (start l : List UInt8) : readPrefix start (start ++ l) = some l := by
  rw [readPrefix, List.take_left, if_pos rfl, List.drop_left]

/-- A vector that ends the input. -/
theorem readVec_whole {width : ℕ} {body : List UInt8} (h : body.length < 256 ^ width) :
    readVec width (vec width body) = some (body, []) := by
  have := readVec_vec h []
  rwa [List.append_nil] at this

/-- Tagged vectors one after another, each read back with nothing left over. -/
theorem readItems_tagged {size : ℕ} {items : List (List UInt8 × List UInt8)}
    (h : ∀ item ∈ items, item.1.length = size ∧ item.2.length < 256 ^ 2) :
    readItems (readTagged size) (items.flatMap tagged).length (items.flatMap tagged) =
      some items := by
  apply readItems_flatMap
  · intro item hitem rest
    have hitem := h item hitem
    have := readTagged_tagged hitem.2 rest
    rwa [hitem.1] at this
  · intro item _ hnil
    have := congrArg List.length hnil
    simp [tagged, length_vec] at this
  · induction items with
    | nil => exact le_rfl
    | cons item items ih =>
      have ih := ih fun a ha => h a (List.mem_cons_of_mem _ ha)
      rw [List.flatMap_cons, List.length_append, List.length_cons, tagged, List.length_append,
        length_vec]
      omega

theorem readServerNames_vec {names : List (List UInt8 × List UInt8)}
    (h : ∀ name ∈ names, name.1.length = 1 ∧ name.2.length < 256 ^ 2)
    (hlen : (names.flatMap tagged).length < 256 ^ 2) :
    readServerNames (vec 2 (names.flatMap tagged)) = some names := by
  rw [readServerNames, readVec_whole hlen]
  exact readItems_tagged h

/-- Reading a hello gives back what was encoded. -/
theorem readHello_encode {f : HelloFields} (h : f.Sized) :
    readHello f.encode =
      some ⟨f.record.length, f.handshake.length, f.extensionBytes.length, f⟩ := by
  have hrecord : readVec 2 (vec 2 f.record) = some (f.record, []) := readVec_whole h.record
  have hmessage : readPrefix [0x01] f.record = some (vec 3 f.handshake) := readPrefix_append ..
  have hhandshake : readVec 3 (vec 3 f.handshake) = some (f.handshake, []) :=
    readVec_whole h.handshake
  have hextensions : readExtensions f.extensionBytes = some f.extensions :=
    readItems_tagged h.extensions
  have hbody : readPrefix [0x03, 0x03] f.handshake = some (f.random ++ (vec 1 f.session ++
      (vec 2 f.cipherSuites ++ (vec 1 f.compression ++ vec 2 f.extensionBytes)))) :=
    readPrefix_append ..
  simp only [readHello, HelloFields.encode, readPrefix_append, hrecord, hmessage,
    hhandshake, hbody, hextensions, List.drop_left' h.random, List.take_left' h.random,
    readVec_vec h.session, readVec_vec h.cipherSuites, readVec_vec h.compression,
    readVec_whole h.extensionBytes, readEnd, if_true, Option.bind_eq_bind, Option.bind_some]
  rfl

end TelegramDesktop.Mtproto.TlsSocket
