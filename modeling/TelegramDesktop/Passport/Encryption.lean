import TelegramDesktop.Base.Slice

namespace TelegramDesktop.Passport
open Base

abbrev Bytes := List UInt8

def kAesKeyLength : ℕ := 32
def kAesIvLength : ℕ := 16
def kSecretSize : ℕ := 32
def kAesParamsHashSize : ℕ := 64
def kMinPadding : ℕ := 32
def kMaxPadding : ℕ := 255
def kAlignTo : ℕ := 16

/-- The functions of OpenSSL; those of AES-CBC take a key, an initial vector and the data. -/
structure Openssl where
  sha256 : Bytes → Bytes
  sha512 : Bytes → Bytes
  aesCbcEncrypt : Bytes → Bytes → Bytes → Bytes
  aesCbcDecrypt : Bytes → Bytes → Bytes → Bytes

structure Openssl.Laws (ssl : Openssl) : Prop where
  length_sha256 : ∀ bytes, (ssl.sha256 bytes).length = 32
  length_sha512 : ∀ bytes, (ssl.sha512 bytes).length = 64
  length_encrypt : ∀ key iv bytes, key.length = 32 → iv.length = 16 → bytes.length % 16 = 0 →
    (ssl.aesCbcEncrypt key iv bytes).length = bytes.length
  decrypt_encrypt : ∀ key iv bytes, key.length = 32 → iv.length = 16 → bytes.length % 16 = 0 →
    ssl.aesCbcDecrypt key iv (ssl.aesCbcEncrypt key iv bytes) = bytes

section
variable (ssl : Openssl)

structure AesParams where
  key : Bytes
  iv : Bytes

/-- `none` is a failed `Expects` or `Assert`, here and below. -/
def prepareAesParamsWithHash (hashForEncryptionKey : Bytes) : Option AesParams :=
  if hashForEncryptionKey.length ≠ kAesParamsHashSize then none
  else some {
    key := slice hashForEncryptionKey 0 kAesKeyLength
    iv := slice hashForEncryptionKey kAesKeyLength kAesIvLength }

def prepareAesParams (bytesForEncryptionKey : Bytes) : Option AesParams :=
  prepareAesParamsWithHash (ssl.sha512 bytesForEncryptionKey)

/-- The key schedule does not fail for a key of 256 bits. -/
def encryptOrDecrypt (cipher : Bytes → Bytes → Bytes → Bytes) (initial : Bytes)
    (params : AesParams) : Option Bytes :=
  if initial.length % 16 ≠ 0 then none
  else if params.key.length ≠ kAesKeyLength then none
  else if params.iv.length ≠ kAesIvLength then none
  else some (cipher params.key params.iv initial)

def encrypt (decrypted : Bytes) (params : AesParams) : Option Bytes :=
  encryptOrDecrypt ssl.aesCbcEncrypt decrypted params

def decrypt (encrypted : Bytes) (params : AesParams) : Option Bytes :=
  encryptOrDecrypt ssl.aesCbcDecrypt encrypted params

/-- `ranges::accumulate` over the bytes. -/
def fullSum (bytes : Bytes) : UInt64 := bytes.foldl (fun sum value => sum + value.toUInt64) 0

def checkBytesMod255 (bytes : Bytes) : Bool := fullSum bytes % 255 == 239

def checkSecretBytes (secret : Bytes) : Bool := checkBytesMod255 secret

def generateSecretBytes (random : Vector UInt8 kSecretSize) : Bytes :=
  let mod := fullSum random.toList % 255
  let add := 255 + 239 - mod
  let first := (random[0].toUInt64 + add) % 255
  random.toList.set 0 first.toUInt8

def decryptSecretBytesWithHash (encryptedSecret hashForEncryptionKey : Bytes) : Option Bytes :=
  if encryptedSecret.isEmpty then some []
  else if encryptedSecret.length ≠ kSecretSize then some []
  else do
    let params ← prepareAesParamsWithHash hashForEncryptionKey
    let result ← decrypt ssl encryptedSecret params
    if !checkSecretBytes result then some [] else some result

def decryptSecretBytes (encryptedSecret bytesForEncryptionKey : Bytes) : Option Bytes :=
  decryptSecretBytesWithHash ssl encryptedSecret (ssl.sha512 bytesForEncryptionKey)

def encryptSecretBytesWithHash (secret hashForEncryptionKey : Bytes) : Option Bytes :=
  if secret.length ≠ kSecretSize then none
  else if checkSecretBytes secret ≠ true then none
  else do
    let params ← prepareAesParamsWithHash hashForEncryptionKey
    encrypt ssl secret params

def encryptSecretBytes (secret bytesForEncryptionKey : Bytes) : Option Bytes :=
  if secret.length ≠ kSecretSize then none
  else if checkSecretBytes secret ≠ true then none
  else do
    let params ← prepareAesParams ssl bytesForEncryptionKey
    encrypt ssl secret params

def decryptSecureSecret (encryptedSecret passwordHashForSecret : Bytes) : Option Bytes :=
  if encryptedSecret.isEmpty then none
  else decryptSecretBytesWithHash ssl encryptedSecret passwordHashForSecret

def encryptSecureSecret (secret passwordHashForSecret : Bytes) : Option Bytes :=
  if secret.length ≠ kSecretSize then none
  else encryptSecretBytesWithHash ssl secret passwordHashForSecret

def encryptValueSecret (valueSecret secret valueHash : Bytes) : Option Bytes :=
  encryptSecretBytes ssl valueSecret (secret ++ valueHash)

def decryptValueSecret (encrypted secret valueHash : Bytes) : Option Bytes :=
  decryptSecretBytes ssl encrypted (secret ++ valueHash)

structure EncryptedData where
  secret : Bytes
  hash : Bytes
  bytes : Bytes

def kFromPadding : ℕ := kMinPadding + kAlignTo - 1
def kPaddingDelta : ℕ := kMaxPadding - kFromPadding

/-- The padding for so many bytes, by a random value. -/
def countPadding (size : ℕ) (random : UInt32) : ℕ :=
  let randomPadding := kFromPadding + random.toNat % kPaddingDelta
  randomPadding - (size + randomPadding) % kAlignTo

/-- `random` gives the base of the padding, `fill` the bytes of `RandomFill`. -/
def encryptData (bytes dataSecret : Bytes) (random : UInt32) (fill : ℕ → UInt8) :
    Option EncryptedData :=
  let padding := countPadding bytes.length random
  if ¬ (kMinPadding ≤ padding ∧ padding ≤ kMaxPadding) then none
  else
    let unencrypted := UInt8.ofNat padding :: (List.range (padding - 1)).map fill ++ bytes
    if unencrypted.length % kAlignTo ≠ 0 then none
    else do
      let dataHash := ssl.sha256 unencrypted
      let params ← prepareAesParams ssl (dataSecret ++ dataHash)
      let encrypted ← encrypt ssl unencrypted params
      some { secret := dataSecret, hash := dataHash, bytes := encrypted }

def kDataHashSize : ℕ := 32

def decryptData (encrypted dataHash dataSecret : Bytes) : Option Bytes :=
  if encrypted.isEmpty then some []
  else if dataHash.length ≠ kDataHashSize then some []
  else if dataSecret.length ≠ kSecretSize then some []
  else do
    let params ← prepareAesParams ssl (dataSecret ++ dataHash)
    let decrypted ← decrypt ssl encrypted params
    if ssl.sha256 decrypted ≠ dataHash then some []
    else
      let first ← decrypted.head?
      let padding := first.toNat
      if padding < kMinPadding ∨ kMaxPadding < padding ∨ decrypted.length < padding then some []
      else some (decrypted.drop padding)

end

section
variable {ssl : Openssl}

/-- The sum does not overflow for bytes that fit in memory. -/
theorem toNat_fullSum (bytes : Bytes) (h : bytes.length < 2 ^ 56) :
    (fullSum bytes).toNat = (bytes.map UInt8.toNat).sum := by
  have key : ∀ (rest : Bytes) (sum : UInt64), sum.toNat + 255 * rest.length < 2 ^ 64 →
      (rest.foldl (fun sum value => sum + value.toUInt64) sum).toNat =
        sum.toNat + (rest.map UInt8.toNat).sum := by
    intro rest
    induction rest with
    | nil => exact fun sum _ => rfl
    | cons value rest ih =>
      intro sum hsum
      have hvalue := value.toNat_lt
      rw [List.length_cons] at hsum
      have hadd : (sum + value.toUInt64).toNat = sum.toNat + value.toNat := by
        rw [UInt64.toNat_add, UInt8.toNat_toUInt64]
        omega
      rw [List.foldl_cons, ih _ (by omega), hadd, List.map_cons, List.sum_cons, Nat.add_assoc]
  rw [fullSum, key bytes 0 (by rw [UInt64.toNat_zero]; omega), UInt64.toNat_zero, Nat.zero_add]

theorem checkSecretBytes_iff {secret : Bytes} (h : secret.length < 2 ^ 56) :
    checkSecretBytes secret = true ↔ (secret.map UInt8.toNat).sum % 255 = 239 := by
  rw [checkSecretBytes, checkBytesMod255, beq_iff_eq, ← UInt64.toNat_inj, UInt64.toNat_mod,
    toNat_fullSum secret h]
  rfl

/-- Whatever the random bytes are, the repaired ones pass the check. -/
theorem generateSecretBytes_checked (random : Vector UInt8 kSecretSize) :
    checkSecretBytes (generateSecretBytes random) = true := by
  obtain ⟨⟨bytes⟩, hsize⟩ := random
  have hlength : bytes.length = 32 := hsize
  obtain ⟨first, rest, rfl⟩ : ∃ first rest, bytes = first :: rest :=
    List.exists_cons_of_length_pos (by omega)
  rw [List.length_cons] at hlength
  have hfull : (fullSum (first :: rest)).toNat = first.toNat + (rest.map UInt8.toNat).sum := by
    rw [toNat_fullSum _ (by rw [List.length_cons]; omega), List.map_cons, List.sum_cons]
  have hfirst := first.toNat_lt
  have hrepaired : generateSecretBytes ⟨⟨first :: rest⟩, hsize⟩ =
      ((first.toUInt64 + (255 + 239 - fullSum (first :: rest) % 255)) % 255).toUInt8 :: rest := rfl
  rw [hrepaired, checkSecretBytes_iff (by rw [List.length_cons]; omega), List.map_cons,
    List.sum_cons, UInt64.toNat_toUInt8, UInt64.toNat_mod, UInt64.toNat_add, UInt64.toNat_sub,
    UInt64.toNat_mod, hfull, UInt8.toNat_toUInt64]
  change ((first.toNat + (2 ^ 64 - (first.toNat + (rest.map UInt8.toNat).sum) % 255 + 494) % 2 ^ 64)
    % 2 ^ 64 % 255 % 2 ^ 8 + (rest.map UInt8.toNat).sum) % 255 = 239
  omega

theorem prepareAesParamsWithHash_eq {hash : Bytes} (h : hash.length = 64) :
    prepareAesParamsWithHash hash = some ⟨slice hash 0 32, slice hash 32 16⟩ :=
  if_neg (not_not.mpr h)

theorem encryptOrDecrypt_eq (cipher : Bytes → Bytes → Bytes → Bytes) {initial key iv : Bytes}
    (hinitial : initial.length % 16 = 0) (hkey : key.length = kAesKeyLength)
    (hiv : iv.length = kAesIvLength) :
    encryptOrDecrypt cipher initial ⟨key, iv⟩ = some (cipher key iv initial) := by
  rw [encryptOrDecrypt, if_neg (not_not.mpr hinitial), if_neg (not_not.mpr hkey),
    if_neg (not_not.mpr hiv)]

theorem encrypt_decrypt (hssl : ssl.Laws) {hash bytes : Bytes} (hhash : hash.length = 64)
    (hbytes : bytes.length % 16 = 0) :
    ∃ encrypted, encrypt ssl bytes ⟨slice hash 0 32, slice hash 32 16⟩ = some encrypted ∧
      encrypted.length = bytes.length ∧
      decrypt ssl encrypted ⟨slice hash 0 32, slice hash 32 16⟩ = some bytes := by
  have hkey : (slice hash 0 32).length = 32 := length_slice (by omega)
  have hiv : (slice hash 32 16).length = 16 := length_slice (by omega)
  have hlength := hssl.length_encrypt _ _ _ hkey hiv hbytes
  refine ⟨ssl.aesCbcEncrypt (slice hash 0 32) (slice hash 32 16) bytes, ?_, hlength, ?_⟩
  · exact encryptOrDecrypt_eq _ hbytes hkey hiv
  · rw [decrypt, encryptOrDecrypt_eq _ (hlength ▸ hbytes) hkey hiv,
      hssl.decrypt_encrypt _ _ _ hkey hiv hbytes]

theorem isEmpty_of_length {bytes : Bytes} {n : ℕ} (h : bytes.length = n) (hn : 0 < n) :
    bytes.isEmpty = false := by
  rw [List.isEmpty_eq_false_iff, ← List.length_pos_iff]
  omega

/-- A secret that passes the check comes back from its encrypted form. -/
theorem secretBytes_roundTrip (hssl : ssl.Laws) {secret hash : Bytes}
    (hsize : secret.length = kSecretSize) (hcheck : checkSecretBytes secret = true)
    (hhash : hash.length = kAesParamsHashSize) :
    ∃ encrypted, encryptSecretBytesWithHash ssl secret hash = some encrypted ∧
      encrypted.length = kSecretSize ∧
      decryptSecretBytesWithHash ssl encrypted hash = some secret := by
  have haligned : secret.length % 16 = 0 := by rw [hsize]; rfl
  obtain ⟨encrypted, hencrypt, hlength, hdecrypt⟩ := encrypt_decrypt hssl hhash haligned
  refine ⟨encrypted, ?_, hlength.trans hsize, ?_⟩
  · rw [encryptSecretBytesWithHash, if_neg (not_not.mpr hsize), if_neg (not_not.mpr hcheck),
      prepareAesParamsWithHash_eq hhash]
    exact hencrypt
  · rw [decryptSecretBytesWithHash,
      if_neg (by
        rw [isEmpty_of_length (hlength.trans hsize) (by decide)]
        exact Bool.false_ne_true),
      if_neg (not_not.mpr (hlength.trans hsize)), prepareAesParamsWithHash_eq hhash,
      Option.bind_eq_bind, Option.bind_some, hdecrypt, Option.bind_eq_bind, Option.bind_some,
      if_neg (by rw [hcheck]; exact Bool.false_ne_true)]

theorem secureSecret_roundTrip (hssl : ssl.Laws) {secret hash : Bytes}
    (hsize : secret.length = kSecretSize) (hcheck : checkSecretBytes secret = true)
    (hhash : hash.length = kAesParamsHashSize) :
    ∃ encrypted, encryptSecureSecret ssl secret hash = some encrypted ∧
      decryptSecureSecret ssl encrypted hash = some secret := by
  obtain ⟨encrypted, hencrypt, hlength, hdecrypt⟩ :=
    secretBytes_roundTrip hssl hsize hcheck hhash
  refine ⟨encrypted, ?_, ?_⟩
  · rw [encryptSecureSecret, if_neg (not_not.mpr hsize), hencrypt]
  · rw [decryptSecureSecret,
      if_neg (by rw [isEmpty_of_length hlength (by decide)]; exact Bool.false_ne_true), hdecrypt]

theorem valueSecret_roundTrip (hssl : ssl.Laws) {valueSecret : Bytes} (secret hash : Bytes)
    (hsize : valueSecret.length = kSecretSize) (hcheck : checkSecretBytes valueSecret = true) :
    ∃ encrypted, encryptValueSecret ssl valueSecret secret hash = some encrypted ∧
      decryptValueSecret ssl encrypted secret hash = some valueSecret := by
  obtain ⟨encrypted, hencrypt, -, hdecrypt⟩ :=
    secretBytes_roundTrip hssl hsize hcheck (hssl.length_sha512 (secret ++ hash))
  exact ⟨encrypted, hencrypt, hdecrypt⟩

theorem countPadding_bounds (size : ℕ) (random : UInt32) :
    kMinPadding ≤ countPadding size random ∧ countPadding size random ≤ kMaxPadding ∧
      (countPadding size random + size) % kAlignTo = 0 := by
  change 32 ≤ 47 + random.toNat % 208 - (size + (47 + random.toNat % 208)) % 16 ∧
    47 + random.toNat % 208 - (size + (47 + random.toNat % 208)) % 16 ≤ 255 ∧
    (47 + random.toNat % 208 - (size + (47 + random.toNat % 208)) % 16 + size) % 16 = 0
  omega

/-- Any data comes back from its encrypted form. -/
theorem data_roundTrip (hssl : ssl.Laws) (bytes : Bytes) {secret : Bytes}
    (hsecret : secret.length = kSecretSize) (random : UInt32) (fill : ℕ → UInt8) :
    ∃ e, encryptData ssl bytes secret random fill = some e ∧
      e.bytes.length = countPadding bytes.length random + bytes.length ∧
      decryptData ssl e.bytes e.hash secret = some bytes := by
  obtain ⟨hmin, hmax, haligned⟩ := countPadding_bounds bytes.length random
  obtain ⟨padding, hpadding⟩ : ∃ padding, countPadding bytes.length random = padding := ⟨_, rfl⟩
  rw [hpadding] at hmin hmax haligned ⊢
  obtain ⟨unencrypted, hunencrypted⟩ : ∃ unencrypted, unencrypted =
      UInt8.ofNat padding :: (List.range (padding - 1)).map fill ++ bytes := ⟨_, rfl⟩
  have hhead : (UInt8.ofNat padding :: (List.range (padding - 1)).map fill).length = padding := by
    rw [List.length_cons, List.length_map, List.length_range]
    have hpos : 32 ≤ padding := hmin
    omega
  have hlength : unencrypted.length = padding + bytes.length := by
    rw [hunencrypted, List.length_append, hhead]
  have haligned' : unencrypted.length % kAlignTo = 0 := by rw [hlength]; exact haligned
  have hhash := hssl.length_sha512 (secret ++ ssl.sha256 unencrypted)
  obtain ⟨encrypted, hencrypt, hsize, hdecrypt⟩ := encrypt_decrypt hssl hhash haligned'
  have hparams : prepareAesParams ssl (secret ++ ssl.sha256 unencrypted) = some
      ⟨slice (ssl.sha512 (secret ++ ssl.sha256 unencrypted)) 0 32,
        slice (ssl.sha512 (secret ++ ssl.sha256 unencrypted)) 32 16⟩ :=
    prepareAesParamsWithHash_eq hhash
  refine ⟨⟨secret, ssl.sha256 unencrypted, encrypted⟩, ?_, hsize.trans hlength, ?_⟩
  · rw [encryptData, hpadding]
    dsimp only
    rw [if_neg (not_not.mpr ⟨hmin, hmax⟩), ← hunencrypted, if_neg (not_not.mpr haligned'), hparams]
    simp only [Option.bind_eq_bind, Option.bind_some, hencrypt]
  · have hempty : encrypted.isEmpty = false := by
      apply isEmpty_of_length (hsize.trans hlength)
      have hpos : 32 ≤ padding := hmin
      omega
    have hfirst : unencrypted.head? = some (UInt8.ofNat padding) := by rw [hunencrypted]; rfl
    have hvalue : (UInt8.ofNat padding).toNat = padding := by
      rw [UInt8.toNat_ofNat']
      have hfits : padding ≤ 255 := hmax
      omega
    have hgood : ¬ (padding < kMinPadding ∨ kMaxPadding < padding ∨
        unencrypted.length < padding) := by
      rw [hlength]
      omega
    have hdrop : unencrypted.drop padding = bytes := by
      rw [hunencrypted, List.drop_left' hhead]
    have hdigest : (ssl.sha256 unencrypted).length = kDataHashSize := hssl.length_sha256 _
    rw [decryptData, if_neg (by rw [hempty]; exact Bool.false_ne_true),
      if_neg (not_not.mpr hdigest), if_neg (not_not.mpr hsecret), hparams]
    simp only [Option.bind_eq_bind, Option.bind_some, hdecrypt, ne_eq, not_true_eq_false, if_false,
      hfirst, hvalue, if_neg hgood, hdrop]

/-- Everything that is encrypted comes back. -/
theorem encrypted_roundTrips (hssl : ssl.Laws) :
    (∀ random, checkSecretBytes (generateSecretBytes random) = true) ∧
    (∀ (bytes secret : Bytes) (random : UInt32) (fill : ℕ → UInt8),
      secret.length = kSecretSize →
      ∃ e, encryptData ssl bytes secret random fill = some e ∧
        decryptData ssl e.bytes e.hash secret = some bytes ∧
        kMinPadding ≤ countPadding bytes.length random ∧
        countPadding bytes.length random ≤ kMaxPadding ∧
        e.bytes.length = countPadding bytes.length random + bytes.length ∧
        e.bytes.length % kAlignTo = 0) ∧
    (∀ valueSecret secret hash : Bytes, valueSecret.length = kSecretSize →
      checkSecretBytes valueSecret = true →
      ∃ encrypted, encryptValueSecret ssl valueSecret secret hash = some encrypted ∧
        decryptValueSecret ssl encrypted secret hash = some valueSecret) ∧
    ∀ secret hash : Bytes, secret.length = kSecretSize → hash.length = kAesParamsHashSize →
      checkSecretBytes secret = true →
      ∃ encrypted, encryptSecureSecret ssl secret hash = some encrypted ∧
        decryptSecureSecret ssl encrypted hash = some secret := by
  refine ⟨generateSecretBytes_checked, fun bytes secret random fill hsecret => ?_, ?_, ?_⟩
  · obtain ⟨e, hencrypt, hlength, hdecrypt⟩ := data_roundTrip hssl bytes hsecret random fill
    obtain ⟨hmin, hmax, haligned⟩ := countPadding_bounds bytes.length random
    exact ⟨e, hencrypt, hdecrypt, hmin, hmax, hlength, hlength ▸ haligned⟩
  · exact fun _ secret hash hsize hcheck => valueSecret_roundTrip hssl secret hash hsize hcheck
  · exact fun _ _ hsize hhash hcheck => secureSecret_roundTrip hssl hsize hcheck hhash

end

def sampleSecret : Bytes := 239 :: List.replicate 31 0

def sampleHash : Bytes := (List.range 64).map UInt8.ofNat

def sampleEncrypted : Bytes :=
  [212, 72, 252, 32, 174, 114, 245, 170, 43, 130, 83, 101, 19, 55, 229, 15,
    8, 147, 125, 185, 213, 249, 62, 150, 244, 238, 120, 213, 48, 72, 209, 164]

def exchangeSample (_ _ bytes : Bytes) : Bytes :=
  if bytes = sampleSecret then sampleEncrypted
  else if bytes = sampleEncrypted then sampleSecret
  else bytes

def sampleSsl : Openssl where
  sha256 _ := List.replicate 32 0
  sha512 _ := List.replicate 64 0
  aesCbcEncrypt := exchangeSample
  aesCbcDecrypt := exchangeSample

theorem sampleSsl_laws : sampleSsl.Laws where
  length_sha256 _ := List.length_replicate
  length_sha512 _ := List.length_replicate
  length_encrypt key iv bytes _ _ _ := by
    change (exchangeSample key iv bytes).length = bytes.length
    rw [exchangeSample]
    split_ifs with hsecret hencrypted
    · rw [hsecret]
      decide
    · rw [hencrypted]
      decide
    · rfl
  decrypt_encrypt key iv bytes _ _ _ := by
    change exchangeSample key iv (exchangeSample key iv bytes) = bytes
    by_cases hsecret : bytes = sampleSecret
    · rw [hsecret]
      rfl
    · by_cases hencrypted : bytes = sampleEncrypted
      · rw [hencrypted]
        rfl
      · have hsame : exchangeSample key iv bytes = bytes := by
          rw [exchangeSample, if_neg hsecret, if_neg hencrypted]
        rw [hsame, hsame]

theorem encrypted_roundTrips_secret :
    ∃ encrypted, encryptSecureSecret sampleSsl sampleSecret sampleHash = some encrypted ∧
      decryptSecureSecret sampleSsl encrypted sampleHash = some sampleSecret := by
  apply (encrypted_roundTrips sampleSsl_laws).2.2.2 sampleSecret sampleHash
  · decide
  · decide
  · decide

end TelegramDesktop.Passport
