import TelegramDesktop.Mtproto.TlsClientHelloFormat
import TelegramDesktop.Mtproto.TlsClientHelloWrite

namespace TelegramDesktop.Mtproto.TlsSocket
open Base Base.Vectors

def serverNameElement : List TlsBlock :=
  [.string [0x00, 0x00], .scope [.scope [.string [0x00], .scope [.domain]]]]

/-- The elements that are shuffled. -/
def helloElements : List (List TlsBlock) := [
  serverNameElement,
  [.string [0x00, 0x05, 0x00, 0x05, 0x01, 0x00, 0x00, 0x00, 0x00]],
  [.string [0x00, 0x0a, 0x00, 0x0a, 0x00, 0x08], .grease 4,
    .string [0x00, 0x1d, 0x00, 0x17, 0x00, 0x18]],
  [.string [0x00, 0x0b, 0x00, 0x02, 0x01, 0x00]],
  [.string [
    0x00, 0x0d, 0x00, 0x12, 0x00, 0x10, 0x04, 0x03, 0x08, 0x04, 0x04, 0x01, 0x05, 0x03,
    0x08, 0x05, 0x05, 0x01, 0x08, 0x06, 0x06, 0x01]],
  [.string [
    0x00, 0x10, 0x00, 0x0e, 0x00, 0x0c, 0x02, 0x68, 0x32, 0x08, 0x68, 0x74, 0x74, 0x70,
    0x2f, 0x31, 0x2e, 0x31]],
  [.string [0x00, 0x12, 0x00, 0x00]],
  [.string [0x00, 0x17, 0x00, 0x00]],
  [.string [0x00, 0x1b, 0x00, 0x03, 0x02, 0x00, 0x02]],
  [.string [0x00, 0x23, 0x00, 0x00]],
  [.string [0x00, 0x2b, 0x00, 0x07, 0x06], .grease 6, .string [0x03, 0x04, 0x03, 0x03]],
  [.string [0x00, 0x2d, 0x00, 0x02, 0x01, 0x01]],
  [.string [0x00, 0x33, 0x00, 0x2b, 0x00, 0x29], .grease 4,
    .string [0x00, 0x01, 0x00, 0x00, 0x1d, 0x00, 0x20], .publicKey],
  [.string [0x44, 0x69, 0x00, 0x05, 0x00, 0x03, 0x02, 0x68, 0x32]],
  [.string [0xff, 0x01, 0x00, 0x01, 0x00]]]

def helloStart : List UInt8 := [0x16, 0x03, 0x01, 0x02, 0x00, 0x01, 0x00, 0x01, 0xfc, 0x03, 0x03]

/-- The blocks behind the digest. -/
def helloRest : List TlsBlock := [
  .string [0x20],
  .random 32,
  .string [0x00, 0x20],
  .grease 0,
  .string [
    0x13, 0x01, 0x13, 0x02, 0x13, 0x03, 0xc0, 0x2b, 0xc0, 0x2f, 0xc0, 0x2c, 0xc0, 0x30, 0xcc, 0xa9,
    0xcc, 0xa8, 0xc0, 0x13, 0xc0, 0x14, 0x00, 0x9c, 0x00, 0x9d, 0x00, 0x2f, 0x00, 0x35, 0x01, 0x00,
    0x01, 0x93],
  .grease 2,
  .string [0x00, 0x00],
  .permutation helloElements,
  .grease 3,
  .string [0x00, 0x01, 0x00, 0x00, 0x15]]

theorem prepareClientHelloRules_eq :
    prepareClientHelloRules = some (.string helloStart :: .zero 32 :: helloRest) := rfl

/-- The part with space for the digest. -/
def digestReserved : Part where
  result := helloStart ++ List.replicate kHelloDigestLength 0
  digestPosition := helloStart.length
  drawn := kMaxGrease

theorem writeBlocks_start (env : Env) (blocks : List TlsBlock) :
    writeBlocks env { drawn := kMaxGrease } (.string helloStart :: .zero 32 :: blocks) =
      writeBlocks env digestReserved blocks := rfl

def grease (env : Env) (seed : ℕ) : List UInt8 := List.replicate 2 (env.greases.getD seed 0)

def serverName (env : Env) : Extension := ([0x00, 0x00], vec 2 (tagged ([0x00], env.domain)))

def shuffledExtensions (env : Env) : List Extension := [
  serverName env,
  ([0x00, 0x05], [0x01, 0x00, 0x00, 0x00, 0x00]),
  ([0x00, 0x0a], [0x00, 0x08] ++ grease env 4 ++ [0x00, 0x1d, 0x00, 0x17, 0x00, 0x18]),
  ([0x00, 0x0b], [0x01, 0x00]),
  ([0x00, 0x0d], [
    0x00, 0x10, 0x04, 0x03, 0x08, 0x04, 0x04, 0x01, 0x05, 0x03, 0x08, 0x05, 0x05, 0x01, 0x08, 0x06,
    0x06, 0x01]),
  ([0x00, 0x10], [
    0x00, 0x0c, 0x02, 0x68, 0x32, 0x08, 0x68, 0x74, 0x74, 0x70, 0x2f, 0x31, 0x2e, 0x31]),
  ([0x00, 0x12], []),
  ([0x00, 0x17], []),
  ([0x00, 0x1b], [0x02, 0x00, 0x02]),
  ([0x00, 0x23], []),
  ([0x00, 0x2b], [0x06] ++ grease env 6 ++ [0x03, 0x04, 0x03, 0x03]),
  ([0x00, 0x2d], [0x01, 0x01]),
  ([0x00, 0x33], [0x00, 0x29] ++ grease env 4 ++ [0x00, 0x01, 0x00, 0x00, 0x1d, 0x00, 0x20] ++
    (env.random.publicKey 40).toList),
  ([0x44, 0x69], [0x00, 0x03, 0x02, 0x68, 0x32]),
  ([0xff, 0x01], [0x00])]

theorem encodeBlocks_serverName {env : Env} (hne : env.domain ≠ []) (drawn : ℕ) :
    encodeBlocks env drawn serverNameElement = some (tagged (serverName env), drawn) := by
  simp [serverNameElement, serverName, encodeBlocks, encode, hne, tagged, vec, bigEndian16,
    Vectors.ofNat]

theorem length_serverName (env : Env) :
    (tagged (serverName env)).length = env.domain.length + 9 := by
  simp [serverName, tagged, length_vec]
  omega

theorem encodeElements_helloElements {env : Env} (hlen : env.greases.length = kMaxGrease)
    (hne : env.domain ≠ []) (hdomain : env.domain.length ≤ 508) :
    encodeElements env 40 helloElements = some ((shuffledExtensions env).map tagged, 41) := by
  have hfit : ¬ kClientHelloLength < (tagged (serverName env)).length := by
    rw [length_serverName, kClientHelloLength]
    omega
  rw [helloElements, encodeElements, encodeBlocks_serverName hne]
  simp only [if_neg hfit]
  simp [encodeElements, encodeBlocks, encode, shuffledExtensions, hlen, kMaxGrease,
    kClientHelloLength, tagged, vec, grease, Vectors.ofNat]

theorem encodeElements_none {env : Env} (hdomain : env.domain = [] ∨ 508 < env.domain.length) :
    encodeElements env 40 helloElements = none := by
  rw [helloElements, encodeElements]
  by_cases hne : env.domain = []
  · simp [serverNameElement, encodeBlocks, encode, hne]
  · have hlong : kClientHelloLength < (tagged (serverName env)).length := by
      rw [length_serverName, kClientHelloLength]
      simp only [hne, false_or] at hdomain
      omega
    rw [encodeBlocks_serverName hne]
    exact if_pos hlong

/-- The fields of a hello, for an order of the shuffled extensions. -/
def helloFields (env : Env) (shuffled : List Extension) (digest : List UInt8) : HelloFields where
  random := digest
  session := env.random.draw kMaxGrease 32
  cipherSuites := grease env 0 ++ [
    0x13, 0x01, 0x13, 0x02, 0x13, 0x03, 0xc0, 0x2b, 0xc0, 0x2f, 0xc0, 0x2c, 0xc0, 0x30, 0xcc, 0xa9,
    0xcc, 0xa8, 0xc0, 0x13, 0xc0, 0x14, 0x00, 0x9c, 0x00, 0x9d, 0x00, 0x2f, 0x00, 0x35]
  compression := [0x00]
  extensions := (grease env 2, []) :: shuffled ++
    [(grease env 3, [0x00]), ([0x00, 0x15], List.replicate (215 - env.domain.length) 0)]

/-- What the rules write behind the digest, up to the length of the padding. -/
def restBytes (env : Env) (shuffled : List Extension) : List UInt8 :=
  let f := helloFields env shuffled []
  vec 1 f.session ++ (vec 2 f.cipherSuites ++ (vec 1 f.compression ++ ([0x01, 0x93] ++
    (tagged (grease env 2, []) ++ (shuffled.flatMap tagged ++
      (tagged (grease env 3, [0x00]) ++ [0x00, 0x15]))))))

/-- Shuffled elements are those of the extensions in some order. -/
theorem exists_shuffled (env : Env) :
    ∃ shuffled : List Extension, shuffled.Perm (shuffledExtensions env) ∧
      (env.random.shuffle ((shuffledExtensions env).map tagged)).1 = shuffled.map tagged := by
  have h := (env.random.shuffle ((shuffledExtensions env).map tagged)).2
  have hcomp := congrFun₂ (List.eq_map_comp_perm tagged)
    (env.random.shuffle ((shuffledExtensions env).map tagged)).1 (shuffledExtensions env)
  obtain ⟨shuffled, heq, hperm⟩ := hcomp.mpr h
  exact ⟨shuffled, hperm, heq⟩

theorem encodeBlocks_helloRest {env : Env} (hlen : env.greases.length = kMaxGrease)
    (hne : env.domain ≠ []) (hdomain : env.domain.length ≤ 508) {shuffled : List Extension}
    (hshuffled : (env.random.shuffle ((shuffledExtensions env).map tagged)).1 =
      shuffled.map tagged) :
    encodeBlocks env kMaxGrease helloRest = some (restBytes env shuffled, 41) := by
  have := encodeElements_helloElements hlen hne hdomain
  simp [helloRest, encodeBlocks, encode, hlen, kMaxGrease, this, restBytes, helloFields, grease,
    vec, tagged, Vectors.ofNat, hshuffled]
  rfl

theorem encodeBlocks_none {env : Env} (hlen : env.greases.length = kMaxGrease)
    (hdomain : env.domain = [] ∨ 508 < env.domain.length) :
    encodeBlocks env kMaxGrease helloRest = none := by
  simp [helloRest, encodeBlocks, encode, hlen, kMaxGrease, encodeElements_none hdomain]

theorem length_shuffled {env : Env} {shuffled : List Extension}
    (h : shuffled.Perm (shuffledExtensions env)) :
    (shuffled.flatMap tagged).length = env.domain.length + 175 := by
  have := (h.flatMap_right tagged).length_eq
  rw [this, shuffledExtensions, List.flatMap_cons, List.length_append, length_serverName]
  simp [tagged, length_vec, grease]

theorem length_restBytes {env : Env} {shuffled : List Extension}
    (h : shuffled.Perm (shuffledExtensions env)) :
    (restBytes env shuffled).length = env.domain.length + 257 := by
  have := length_shuffled h
  simp [restBytes, helloFields, length_vec, tagged, grease] at this ⊢
  omega

section Padded

variable {env : Env} {shuffled : List Extension} {digest : List UInt8}
  (h : shuffled.Perm (shuffledExtensions env)) (hdomain : env.domain.length ≤ 215)
  (hdigest : digest.length = kHelloDigestLength)

include h hdomain

theorem length_extensionBytes (digest : List UInt8) :
    (helloFields env shuffled digest).extensionBytes.length = 403 := by
  have := length_shuffled h
  simp [HelloFields.extensionBytes, helloFields, length_vec, tagged, grease] at this ⊢
  omega

include hdigest

theorem length_handshake : (helloFields env shuffled digest).handshake.length = 508 := by
  have := length_extensionBytes h hdomain digest
  rw [HelloFields.handshake]
  simp only [List.length_append, length_vec, this]
  simp [helloFields, grease, hdigest, kHelloDigestLength]

theorem length_record : (helloFields env shuffled digest).record.length = 512 := by
  rw [HelloFields.record, List.length_append, length_vec, length_handshake h hdomain hdigest]
  rfl

/-- With the padding, the hard-coded lengths are those of what follows them. -/
theorem encode_helloFields :
    (helloFields env shuffled digest).encode =
      helloStart ++ digest ++ (restBytes env shuffled ++
        vec 2 (List.replicate (215 - env.domain.length) 0)) := by
  rw [HelloFields.encode, vec, length_record h hdomain hdigest, HelloFields.record, vec,
    length_handshake h hdomain hdigest, HelloFields.handshake,
    vec.eq_1 2 (HelloFields.extensionBytes _), length_extensionBytes h hdomain]
  simp [helloStart, restBytes, HelloFields.extensionBytes, helloFields, Vectors.ofNat, tagged]

end Padded

end TelegramDesktop.Mtproto.TlsSocket
