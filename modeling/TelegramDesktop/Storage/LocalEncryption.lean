import TelegramDesktop.Base.DataStream
import TelegramDesktop.Base.Slice
import TelegramDesktop.Storage.WriteManagerFiles

namespace TelegramDesktop.Storage
open Base

/-- The functions of OpenSSL; those of AES-IGE take a key, an initial vector and the data. -/
structure Openssl where
  sha1 : List UInt8 → List UInt8
  aesIgeEncrypt : List UInt8 → List UInt8 → List UInt8 → List UInt8
  aesIgeDecrypt : List UInt8 → List UInt8 → List UInt8 → List UInt8

structure Openssl.Laws (ssl : Openssl) : Prop where
  length_sha1 : ∀ bytes, (ssl.sha1 bytes).length = 20
  length_encrypt : ∀ key iv bytes, key.length = 32 → iv.length = 32 → bytes.length % 16 = 0 →
    (ssl.aesIgeEncrypt key iv bytes).length = bytes.length
  length_decrypt : ∀ key iv bytes, key.length = 32 → iv.length = 32 → bytes.length % 16 = 0 →
    (ssl.aesIgeDecrypt key iv bytes).length = bytes.length
  decrypt_encrypt : ∀ key iv bytes, key.length = 32 → iv.length = 32 → bytes.length % 16 = 0 →
    ssl.aesIgeDecrypt key iv (ssl.aesIgeEncrypt key iv bytes) = bytes
  encrypt_decrypt : ∀ key iv bytes, key.length = 32 → iv.length = 32 → bytes.length % 16 = 0 →
    ssl.aesIgeEncrypt key iv (ssl.aesIgeDecrypt key iv bytes) = bytes

structure AuthKey where
  data : List UInt8
  length_data : data.length = 256

/-- `send` is false for the local files. -/
def AuthKey.prepareAES_oldmtp (ssl : Openssl) (authKey : AuthKey) (msgKey : List UInt8)
    (send : Bool) : List UInt8 × List UInt8 :=
  let key := authKey.data
  let x := if send then 0 else 8
  let sha1_a := ssl.sha1 (msgKey ++ slice key x 32)
  let sha1_b := ssl.sha1 (slice key (32 + x) 16 ++ msgKey ++ slice key (48 + x) 16)
  let sha1_c := ssl.sha1 (slice key (64 + x) 32 ++ msgKey)
  let sha1_d := ssl.sha1 (msgKey ++ slice key (96 + x) 32)
  (slice sha1_a 0 8 ++ slice sha1_b 8 12 ++ slice sha1_c 4 12,
    slice sha1_a 8 12 ++ slice sha1_b 0 8 ++ slice sha1_c 16 4 ++ slice sha1_d 0 8)

section
variable (ssl : Openssl)

def aesEncryptLocal (src : List UInt8) (authKey : AuthKey) (key128 : List UInt8) : List UInt8 :=
  let aes := authKey.prepareAES_oldmtp ssl key128 false
  ssl.aesIgeEncrypt aes.1 aes.2 src

def aesDecryptLocal (src : List UInt8) (authKey : AuthKey) (key128 : List UInt8) : List UInt8 :=
  let aes := authKey.prepareAES_oldmtp ssl key128 false
  ssl.aesIgeDecrypt aes.1 aes.2 src

/-- The data of a descriptor to which a payload was written, after a place for its size. -/
def encryptedDescriptor (payload : List UInt8) : List UInt8 := List.replicate 4 0 ++ payload

/-- What is missing to whole blocks. -/
def paddingOf (size : ℕ) : ℕ := if size % 0x10 = 0 then 0 else 0x10 - size % 0x10

def prepareEncrypted (random : ℕ → UInt8) (data : List UInt8) (key : AuthKey) : List UInt8 :=
  let size := data.length
  let filled := data ++ (List.range (paddingOf size)).map random
  let toEncrypt := splice filled 0 (Words.ofWord (.ofNat size))
  let msgKey := (ssl.sha1 toEncrypt).take 0x10
  msgKey ++ aesEncryptLocal ssl toEncrypt key msgKey

/-- The data of the descriptor that is filled; its stream starts after the size. -/
def decryptLocal (encrypted : List UInt8) (key : AuthKey) : Option (List UInt8) :=
  if encrypted.length ≤ 16 ∨ encrypted.length % 0x10 ≠ 0 then none
  else
    let fullLen := encrypted.length - 16
    let encryptedKey := encrypted.take 16
    let decrypted := aesDecryptLocal ssl (encrypted.drop 16) key encryptedKey
    if (ssl.sha1 decrypted).take 16 ≠ encryptedKey then none
    else
      let dataLen := ((Words.words decrypted).headD 0).toNat
      if dataLen > decrypted.length ∨ dataLen ≤ fullLen - 16 ∨ dataLen < 4 then none
      else some (decrypted.take dataLen)

end

variable {ssl : Openssl} {key : AuthKey}

theorem length_prepareAES (hssl : ssl.Laws) (msgKey : List UInt8) (send : Bool) :
    (key.prepareAES_oldmtp ssl msgKey send).1.length = 32 ∧
      (key.prepareAES_oldmtp ssl msgKey send).2.length = 32 := by
  have hslice (bytes : List UInt8) (i n : ℕ) (h : i + n ≤ 20) :
      (slice (ssl.sha1 bytes) i n).length = n := by
    apply length_slice
    rw [hssl.length_sha1]
    exact h
  constructor
  · rw [AuthKey.prepareAES_oldmtp, List.length_append, List.length_append, hslice _ _ _ (by omega),
      hslice _ _ _ (by omega), hslice _ _ _ (by omega)]
  · rw [AuthKey.prepareAES_oldmtp]
    dsimp only
    rw [List.length_append, List.length_append, List.length_append, hslice _ _ _ (by omega),
      hslice _ _ _ (by omega), hslice _ _ _ (by omega), hslice _ _ _ (by omega)]

theorem length_aesEncryptLocal (hssl : ssl.Laws) (key : AuthKey) {src : List UInt8}
    (h : src.length % 16 = 0) (key128 : List UInt8) :
    (aesEncryptLocal ssl src key key128).length = src.length :=
  hssl.length_encrypt _ _ _ (length_prepareAES hssl _ _).1 (length_prepareAES hssl _ _).2 h

theorem length_aesDecryptLocal (hssl : ssl.Laws) (key : AuthKey) {src : List UInt8}
    (h : src.length % 16 = 0) (key128 : List UInt8) :
    (aesDecryptLocal ssl src key key128).length = src.length :=
  hssl.length_decrypt _ _ _ (length_prepareAES hssl _ _).1 (length_prepareAES hssl _ _).2 h

theorem aesDecryptLocal_encrypt (hssl : ssl.Laws) (key : AuthKey) {src : List UInt8}
    (h : src.length % 16 = 0) (key128 : List UInt8) :
    aesDecryptLocal ssl (aesEncryptLocal ssl src key key128) key key128 = src :=
  hssl.decrypt_encrypt _ _ _ (length_prepareAES hssl _ _).1 (length_prepareAES hssl _ _).2 h

theorem aesEncryptLocal_decrypt (hssl : ssl.Laws) (key : AuthKey) {src : List UInt8}
    (h : src.length % 16 = 0) (key128 : List UInt8) :
    aesEncryptLocal ssl (aesDecryptLocal ssl src key key128) key key128 = src :=
  hssl.encrypt_decrypt _ _ _ (length_prepareAES hssl _ _).1 (length_prepareAES hssl _ _).2 h

/-- What is encrypted for a payload: the size, the payload and the padding. -/
def plain (payload padding : List UInt8) : List UInt8 :=
  Words.ofWord (.ofNat (4 + payload.length)) ++ payload ++ padding

theorem length_plain (payload padding : List UInt8) :
    (plain payload padding).length = 4 + payload.length + padding.length := by
  rw [plain, List.length_append, List.length_append, Words.length_ofWord]

theorem add_paddingOf (size : ℕ) : (size + paddingOf size) % 16 = 0 := by
  rw [paddingOf]
  split <;> omega

theorem paddingOf_lt (size : ℕ) : paddingOf size < 16 := by
  rw [paddingOf]
  split <;> omega

/-- The padding is the only one that fits. -/
theorem eq_paddingOf {size padding : ℕ} (hlt : padding < 16) (h : (size + padding) % 16 = 0) :
    padding = paddingOf size := by
  rw [paddingOf]
  split <;> omega

theorem prepareEncrypted_eq (random : ℕ → UInt8) (payload : List UInt8) :
    prepareEncrypted ssl random (encryptedDescriptor payload) key =
      let toEncrypt := plain payload ((List.range (paddingOf (4 + payload.length))).map random)
      let msgKey := (ssl.sha1 toEncrypt).take 16
      msgKey ++ aesEncryptLocal ssl toEncrypt key msgKey := by
  have hlength : (encryptedDescriptor payload).length = 4 + payload.length := by
    rw [encryptedDescriptor, List.length_append, List.length_replicate]
  rw [prepareEncrypted, hlength]
  rfl

theorem length_prepareEncrypted (hssl : ssl.Laws) (key : AuthKey) (random : ℕ → UInt8)
    (payload : List UInt8) :
    (prepareEncrypted ssl random (encryptedDescriptor payload) key).length =
      16 + (4 + payload.length + paddingOf (4 + payload.length)) := by
  have hplain := length_plain payload ((List.range (paddingOf (4 + payload.length))).map random)
  rw [List.length_map, List.length_range] at hplain
  have hblocks := add_paddingOf (4 + payload.length)
  rw [← hplain] at hblocks
  rw [prepareEncrypted_eq, List.length_append, List.length_take, hssl.length_sha1,
    length_aesEncryptLocal hssl key hblocks, hplain]
  rfl

theorem ofWord_word (b₀ b₁ b₂ b₃ : UInt8) :
    Words.ofWord (Words.word b₀ b₁ b₂ b₃) = [b₀, b₁, b₂, b₃] := by
  have hword := Words.word_toNat b₀ b₁ b₂ b₃
  have h₀ := b₀.toNat_lt
  have h₁ := b₁.toNat_lt
  have h₂ := b₂.toNat_lt
  have h₃ := b₃.toNat_lt
  have hbyte (x : UInt32) (b : UInt8) (h : x.toNat % 2 ^ 8 = b.toNat) : x.toUInt8 = b := by
    apply UInt8.toNat_inj.mp
    rw [UInt32.toNat_toUInt8]
    exact h
  have hshift (x : UInt32) (k : ℕ) (hk : k < 32) :
      (x >>> UInt32.ofNat k).toNat = x.toNat / 2 ^ k := by
    rw [UInt32.toNat_shiftRight, UInt32.toNat_ofNat', Nat.mod_eq_of_lt (by omega : k < 2 ^ 32),
      Nat.mod_eq_of_lt hk, Nat.shiftRight_eq_div_pow]
  rw [Words.ofWord, hbyte _ b₀ (by omega), hbyte _ b₁, hbyte _ b₂, hbyte _ b₃]
  · exact (congrArg (· % 2 ^ 8) (hshift _ 24 (by omega))).trans (by omega)
  · exact (congrArg (· % 2 ^ 8) (hshift _ 16 (by omega))).trans (by omega)
  · exact (congrArg (· % 2 ^ 8) (hshift _ 8 (by omega))).trans (by omega)

/-- The decrypted bytes as what was encrypted for a payload. -/
theorem eq_plain {decrypted : List UInt8} {dataLen : ℕ}
    (hdataLen : ((Words.words decrypted).headD 0).toNat = dataLen)
    (hfits : dataLen ≤ decrypted.length) (hsize : 4 ≤ dataLen) :
    decrypted = plain ((decrypted.take dataLen).drop 4) (decrypted.drop dataLen) := by
  have hpayload : 4 + ((decrypted.take dataLen).drop 4).length = dataLen := by
    rw [List.length_drop, List.length_take]
    omega
  have hword : Words.ofWord (.ofNat dataLen) = decrypted.take 4 := by
    rw [← hdataLen, UInt32.ofNat_toNat]
    rcases decrypted with _ | ⟨b₀, _ | ⟨b₁, _ | ⟨b₂, _ | ⟨b₃, rest⟩⟩⟩⟩
    · exact absurd (hsize.trans hfits) (by simp)
    · exact absurd (hsize.trans hfits) (by simp)
    · exact absurd (hsize.trans hfits) (by simp)
    · exact absurd (hsize.trans hfits) (by simp)
    · exact ofWord_word b₀ b₁ b₂ b₃
  have htake : decrypted.take 4 = (decrypted.take dataLen).take 4 := by
    rw [List.take_take, min_eq_left hsize]
  rw [plain, hpayload, hword, htake, List.take_append_drop, List.take_append_drop]

theorem headD_plain (payload padding : List UInt8) :
    (Words.words (plain payload padding)).headD 0 = .ofNat (4 + payload.length) := by
  have h := Words.words_bytes_append [.ofNat (4 + payload.length)] (payload ++ padding)
  rw [Words.bytes_cons, Words.bytes_nil, List.append_nil, ← List.append_assoc] at h
  rw [plain, h]
  rfl

/-- Whatever the padding is, what was prepared is decrypted. -/
theorem decryptLocal_prepared (hssl : ssl.Laws) (random : ℕ → UInt8) {payload : List UInt8}
    (h : 4 + payload.length < 2 ^ 32) :
    decryptLocal ssl (prepareEncrypted ssl random (encryptedDescriptor payload) key) key =
      some (Words.ofWord (.ofNat (4 + payload.length)) ++ payload) := by
  rw [prepareEncrypted_eq]
  dsimp only
  generalize hpadding : (List.range (paddingOf (4 + payload.length))).map random = padding
  have hlength : padding.length = paddingOf (4 + payload.length) := by
    rw [← hpadding, List.length_map, List.length_range]
  have hplain := length_plain payload padding
  have hblocks : (plain payload padding).length % 16 = 0 := by
    rw [hplain, hlength]
    exact add_paddingOf _
  have hmsgKey : ((ssl.sha1 (plain payload padding)).take 16).length = 16 := by
    rw [List.length_take, hssl.length_sha1]
    rfl
  generalize hkey : (ssl.sha1 (plain payload padding)).take 16 = msgKey at hmsgKey
  have hencrypted := length_aesEncryptLocal hssl key hblocks msgKey
  have hlt := paddingOf_lt (4 + payload.length)
  have hdataLen : (UInt32.ofNat (4 + payload.length)).toNat = 4 + payload.length := by
    rw [UInt32.toNat_ofNat', Nat.mod_eq_of_lt h]
  have htaken : (plain payload padding).take (4 + payload.length) =
      Words.ofWord (.ofNat (4 + payload.length)) ++ payload := by
    apply List.take_left'
    rw [List.length_append, Words.length_ofWord]
  rw [decryptLocal, if_neg]
  · rw [← hmsgKey, List.take_left, List.drop_left, hmsgKey]
    dsimp only
    rw [aesDecryptLocal_encrypt hssl key hblocks, headD_plain, hdataLen, hkey,
      if_neg (not_not.mpr rfl), if_neg, htaken]
    rw [List.length_append, hmsgKey, hencrypted, hplain]
    omega
  · rw [List.length_append, hmsgKey, hencrypted]
    omega

/-- A padding as random bytes. -/
theorem range_map_padding (padding : List UInt8) :
    (List.range padding.length).map (fun i => padding.getD i 0) = padding := by
  apply List.ext_getElem
  · rw [List.length_map, List.length_range]
  · intro i hi hi'
    rw [List.getElem_map, List.getElem_range, List.getD_eq_getElem _ _ hi']

/-- What is decrypted was prepared, for this payload with some padding and this key. -/
theorem prepared_of_decryptLocal (hssl : ssl.Laws) {encrypted data : List UInt8}
    (hsize : encrypted.length < 2 ^ 32) (h : decryptLocal ssl encrypted key = some data) :
    ∃ random, encrypted = prepareEncrypted ssl random (encryptedDescriptor (data.drop 4)) key := by
  rw [decryptLocal] at h
  by_cases hbad : encrypted.length ≤ 16 ∨ encrypted.length % 0x10 ≠ 0
  · rw [if_pos hbad] at h
    cases h
  rw [if_neg hbad] at h
  dsimp only at h
  rw [not_or, not_not] at hbad
  have hcipher : (encrypted.drop 16).length = encrypted.length - 16 := List.length_drop
  have hblocks : (encrypted.drop 16).length % 16 = 0 := by omega
  have hlength := length_aesDecryptLocal hssl key hblocks (encrypted.take 16)
  have hback := aesEncryptLocal_decrypt hssl key hblocks (encrypted.take 16)
  generalize aesDecryptLocal ssl (encrypted.drop 16) key (encrypted.take 16) = decrypted
    at h hlength hback
  by_cases hhash : (ssl.sha1 decrypted).take 16 ≠ encrypted.take 16
  · rw [if_pos hhash] at h
    cases h
  rw [if_neg hhash, not_not] at *
  generalize hdataLen : ((Words.words decrypted).headD 0).toNat = dataLen at h
  by_cases hrange : dataLen > decrypted.length ∨ dataLen ≤ encrypted.length - 16 - 16 ∨ dataLen < 4
  · rw [if_pos hrange] at h
    cases h
  rw [if_neg hrange, Option.some.injEq] at h
  rw [not_or, not_or] at hrange
  have hplain := eq_plain hdataLen (by omega) (by omega)
  have hpayload : 4 + (data.drop 4).length = dataLen := by
    rw [← h, List.length_drop, List.length_take]
    omega
  have hpadding : (decrypted.drop dataLen).length = paddingOf (4 + (data.drop 4).length) := by
    rw [hpayload]
    have hdrop : (decrypted.drop dataLen).length = decrypted.length - dataLen := List.length_drop
    apply eq_paddingOf
    · omega
    · omega
  refine ⟨fun i => (decrypted.drop dataLen).getD i 0, ?_⟩
  rw [prepareEncrypted_eq, ← hpadding, range_map_padding, ← h, ← hplain]
  dsimp only
  rw [hhash, hback, List.take_append_drop]

/-- Some bytes are decrypted to a payload exactly when they were prepared for it with the key and
some padding. -/
theorem decryptLocal_iff (hssl : ssl.Laws) {encrypted payload : List UInt8}
    (hsize : encrypted.length < 2 ^ 32) :
    (decryptLocal ssl encrypted key).map (List.drop 4) = some payload ↔
      ∃ random, encrypted = prepareEncrypted ssl random (encryptedDescriptor payload) key := by
  constructor
  · intro h
    obtain ⟨data, hdata, rfl⟩ := Option.map_eq_some_iff.mp h
    exact prepared_of_decryptLocal hssl hsize hdata
  · intro h
    obtain ⟨random, rfl⟩ := h
    have hpayload : 4 + payload.length < 2 ^ 32 := by
      rw [length_prepareEncrypted hssl] at hsize
      omega
    rw [decryptLocal_prepared hssl random hpayload]
    rfl

open FileUtilities

/-- What is read, from the place of the stream on, and the files after it: the decryption comes
after the reading has removed an older file. -/
def readEncryptedFile (md5 : List UInt8 → List UInt8) (ssl : Openssl) (d : Directory)
    (key : AuthKey) : Option (List UInt8) × Directory :=
  match readFile md5 d with
  | none => (none, d)
  | some (result, d') =>
    let encrypted := (DataStream.takeBytes result.data).elim [] Prod.fst
    ((decryptLocal ssl encrypted key).map (List.drop 4), d')

/-- What `writeEncrypted` writes to a descriptor. -/
def writeEncrypted (ssl : Openssl) (random : ℕ → UInt8) (payload : List UInt8) (key : AuthKey) :
    Option (List UInt8) :=
  some (prepareEncrypted ssl random (encryptedDescriptor payload) key)

theorem takeBytes_streamed {bytes : List UInt8} (hne : bytes ≠ []) (h : bytes.length < 2 ^ 31) :
    DataStream.takeBytes (streamed (some bytes)) = some (bytes, []) := by
  have htake := DataStream.takeBytes_ofBytes h []
  rw [DataStream.ofBytes, if_neg hne, List.append_nil] at htake
  exact htake

/-- One encrypted payload in a file is read back. -/
theorem readEncryptedFile_of_readFile {md5 : List UInt8 → List UInt8} {d : Directory}
    (hssl : ssl.Laws) (random : ℕ → UInt8) {payload : List UInt8} (h : payload.length < 2 ^ 31 - 36)
    (hread : (readFile md5 d).map Prod.fst = some
      ⟨AppVersion, (written md5 [writeEncrypted ssl random payload key]).data⟩) :
    (readEncryptedFile md5 ssl d key).1 = some payload := by
  obtain ⟨⟨result, d'⟩, hfile, hresult⟩ := Option.map_eq_some_iff.mp hread
  have hlt := paddingOf_lt (4 + payload.length)
  have hlength := length_prepareEncrypted hssl key random payload
  have hdata : result.data =
      streamed (some (prepareEncrypted ssl random (encryptedDescriptor payload) key)) :=
    congrArg FileReadDescriptor.data hresult
  have htake := takeBytes_streamed
    (List.ne_nil_of_length_pos (by omega :
      0 < (prepareEncrypted ssl random (encryptedDescriptor payload) key).length)) (by omega)
  rw [readEncryptedFile, hfile]
  dsimp only
  rw [hdata, htake, Option.elim_some, decryptLocal_prepared hssl random (by omega)]
  rfl

/-- After any uses in any order and such an ending, a key whose last use wrote an encrypted
payload is decrypted to that payload. -/
theorem readEncryptedFile_saved {md5 : List UInt8 → List UInt8} {basePath : String}
    (hmd5 : ∀ x, (md5 x).length = 16) (hssl : ssl.Laws) {outcome : ℕ → Outcome}
    (hsaved : ∀ n, (outcome n).saveOpened = true ∧ (outcome n).committed = true)
    (files : String → Directory) {uses ending : List Use}
    (hend : Use.Ending md5 basePath uses ending) (fkey : FileKey) (random : ℕ → UInt8)
    {payload : List UInt8} (hpayload : payload.length < 2 ^ 31 - 36)
    (hlast : Use.lastData fkey uses = some [writeEncrypted ssl random payload key]) :
    (readEncryptedFile md5 ssl (WriteManager.filesAfter outcome 0 files
      (Use.after md5 basePath (uses ++ ending)).2 (basePath ++ toFilePart fkey)) key).1 =
      some payload := by
  have hread := Use.read_saved hmd5 hsaved files hend fkey
  rw [hlast, Option.elim_some] at hread
  exact readEncryptedFile_of_readFile hssl random hpayload hread

/-- A block that holds the payload, and that block encrypted with the sample key. -/
def samplePlain : List UInt8 := [7, 0, 0, 0, 1, 2, 3] ++ List.replicate 9 9

def sampleCipher : List UInt8 :=
  [123, 50, 148, 38, 34, 141, 249, 43, 94, 136, 241, 63, 82, 254, 137, 86]

def sampleMsgKey : List UInt8 :=
  [229, 10, 100, 146, 32, 170, 76, 105, 4, 22, 6, 76, 254, 163, 86, 101]

/-- The hashes that the sample takes. -/
def sampleHashes : List (List UInt8 × List UInt8) :=
  [(samplePlain, sampleMsgKey ++ [30, 106, 211, 200]),
    (sampleMsgKey ++ List.replicate 32 7,
      [60, 197, 194, 240, 203, 131, 23, 134, 193, 197, 60, 254, 134, 98, 204, 103, 138, 30, 38,
        84]),
    (List.replicate 16 7 ++ sampleMsgKey ++ List.replicate 16 7,
      [50, 156, 224, 25, 242, 142, 8, 182, 235, 90, 208, 72, 125, 3, 69, 199, 122, 53, 201, 132]),
    (List.replicate 32 7 ++ sampleMsgKey,
      [178, 207, 174, 36, 213, 174, 60, 86, 58, 130, 194, 177, 231, 231, 251, 119, 24, 145, 115,
        75])]

def sampleExchange (_ _ bytes : List UInt8) : List UInt8 :=
  if bytes = samplePlain then sampleCipher
  else if bytes = sampleCipher then samplePlain
  else bytes

def sampleSsl : Openssl where
  sha1 bytes := ((sampleHashes.lookup bytes).getD [] ++ List.replicate 20 0).take 20
  aesIgeEncrypt := sampleExchange
  aesIgeDecrypt := sampleExchange

theorem length_sampleExchange (key iv bytes : List UInt8) :
    (sampleExchange key iv bytes).length = bytes.length := by
  rw [sampleExchange]
  split
  · next hplain => rw [hplain]; rfl
  · split
    · next hcipher => rw [hcipher]; rfl
    · rfl

theorem sampleExchange_twice (key iv bytes : List UInt8) :
    sampleExchange key iv (sampleExchange key iv bytes) = bytes := by
  have hne : ¬ sampleCipher = samplePlain := by decide
  by_cases hplain : bytes = samplePlain
  · rw [hplain, sampleExchange, sampleExchange, if_pos rfl, if_neg hne, if_pos rfl]
  · by_cases hcipher : bytes = sampleCipher
    · rw [hcipher, sampleExchange, sampleExchange, if_neg hne, if_pos rfl, if_pos rfl]
    · rw [sampleExchange, sampleExchange, if_neg hplain, if_neg hcipher, if_neg hplain,
        if_neg hcipher]

theorem sampleSsl_laws : sampleSsl.Laws where
  length_sha1 bytes := by
    rw [sampleSsl, List.length_take, List.length_append, List.length_replicate]
    omega
  length_encrypt key iv bytes _ _ _ := length_sampleExchange key iv bytes
  length_decrypt key iv bytes _ _ _ := length_sampleExchange key iv bytes
  decrypt_encrypt key iv bytes _ _ _ := sampleExchange_twice key iv bytes
  encrypt_decrypt key iv bytes _ _ _ := sampleExchange_twice key iv bytes

def sampleKey : AuthKey where
  data := List.replicate 256 7
  length_data := List.length_replicate

theorem decryptLocal_iff_sample :
    ∃ random, sampleMsgKey ++ sampleCipher =
      prepareEncrypted sampleSsl random (encryptedDescriptor [1, 2, 3]) sampleKey :=
  (decryptLocal_iff sampleSsl_laws (by decide +kernel)).mp (by decide +kernel)

/-- The payload of a key is written over other data that waits. -/
def sampleUses : List Use :=
  [.finish 1 [some [5]] false,
    .finish 1 [writeEncrypted sampleSsl (fun _ => 9) [1, 2, 3] sampleKey] false, .thread]

theorem readEncryptedFile_saved_sample :
    (readEncryptedFile noHash sampleSsl (WriteManager.filesAfter Use.savedOutcome 0 (fun _ => {})
      (Use.after noHash "tdata/" (sampleUses ++ [.stop])).2 ("tdata/" ++ toFilePart 1))
      sampleKey).1 = some [1, 2, 3] :=
  readEncryptedFile_saved (fun _ => List.length_replicate) sampleSsl_laws (fun _ => ⟨rfl, rfl⟩)
    (fun _ => {}) .stop 1 (fun _ => 9) (by decide) rfl

end TelegramDesktop.Storage
