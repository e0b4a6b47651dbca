import TelegramDesktop.Passport.Encryption

namespace TelegramDesktop.Passport
open Base

/-- For a key and an initial vector the cipher is a bijection on whole blocks. -/
structure Openssl.Bijective (ssl : Openssl) : Prop extends ssl.Laws where
  length_decrypt : ∀ key iv bytes, key.length = 32 → iv.length = 16 → bytes.length % 16 = 0 →
    (ssl.aesCbcDecrypt key iv bytes).length = bytes.length
  encrypt_decrypt : ∀ key iv bytes, key.length = 32 → iv.length = 16 → bytes.length % 16 = 0 →
    ssl.aesCbcEncrypt key iv (ssl.aesCbcDecrypt key iv bytes) = bytes

/-- The encryption, by the key of this secret and this hash, of a padding and the bytes. -/
structure EncryptionOf (ssl : Openssl) (encrypted dataHash dataSecret bytes : Bytes) : Prop where
  secret : dataSecret.length = kSecretSize
  padded : ∃ padding params, prepareAesParams ssl (dataSecret ++ dataHash) = some params ∧
    encrypt ssl (padding ++ bytes) params = some encrypted ∧
    padding.head?.map UInt8.toNat = some padding.length ∧
    kMinPadding ≤ padding.length ∧ padding.length ≤ kMaxPadding ∧
    ssl.sha256 (padding ++ bytes) = dataHash

/-- No `Expects` fails, and only encryptions give something. -/
structure RejectsOthers (ssl : Openssl) (encrypted dataHash dataSecret : Bytes) : Prop where
  returns : (decryptData ssl encrypted dataHash dataSecret).isSome
  encryption : ∀ bytes, decryptData ssl encrypted dataHash dataSecret = some bytes → bytes ≠ [] →
    EncryptionOf ssl encrypted dataHash dataSecret bytes

/-- An empty result, or a secret with the right sum. -/
def EmptyOrSecret (result : Option Bytes) : Prop :=
  ∃ secret, result = some secret ∧
    (secret = [] ∨ secret.length = kSecretSize ∧ checkSecretBytes secret = true)

section
variable {ssl : Openssl}

/-- Whole blocks are decrypted, and encrypt back to the same. -/
theorem decrypt_encrypt (hssl : ssl.Bijective) {hash bytes : Bytes} (hhash : hash.length = 64)
    (hbytes : bytes.length % 16 = 0) :
    ∃ decrypted, decrypt ssl bytes ⟨slice hash 0 32, slice hash 32 16⟩ = some decrypted ∧
      decrypted.length = bytes.length ∧
      encrypt ssl decrypted ⟨slice hash 0 32, slice hash 32 16⟩ = some bytes := by
  have hkey : (slice hash 0 32).length = 32 := length_slice (by omega)
  have hiv : (slice hash 32 16).length = 16 := length_slice (by omega)
  have hlength := hssl.length_decrypt _ _ _ hkey hiv hbytes
  refine ⟨ssl.aesCbcDecrypt (slice hash 0 32) (slice hash 32 16) bytes, ?_, hlength, ?_⟩
  · exact encryptOrDecrypt_eq _ hbytes hkey hiv
  · rw [encrypt, encryptOrDecrypt_eq _ (hlength ▸ hbytes) hkey hiv,
      hssl.encrypt_decrypt _ _ _ hkey hiv hbytes]

/-- The shared routine fails on anything but whole blocks. -/
theorem decrypt_unaligned (params : AesParams) {bytes : Bytes} (h : bytes.length % 16 ≠ 0) :
    decrypt ssl bytes params = none :=
  if_pos h

theorem prepareAesParams_eq (hssl : ssl.Laws) (bytes : Bytes) :
    prepareAesParams ssl bytes =
      some ⟨slice (ssl.sha512 bytes) 0 32, slice (ssl.sha512 bytes) 32 16⟩ :=
  prepareAesParamsWithHash_eq (hssl.length_sha512 bytes)

section
variable {encrypted dataHash dataSecret : Bytes}

/-- The early returns of `decryptData`. -/
theorem decryptData_early (h : encrypted = [] ∨ dataHash.length ≠ kDataHashSize ∨
    dataSecret.length ≠ kSecretSize) : decryptData ssl encrypted dataHash dataSecret = some [] := by
  rw [decryptData]
  by_cases hempty : encrypted.isEmpty = true
  · rw [if_pos hempty]
  · rw [if_neg hempty]
    by_cases hhash : dataHash.length ≠ kDataHashSize
    · rw [if_pos hhash]
    · rw [if_neg hhash]
      obtain hnil | hbad | hsecret := h
      · exact absurd (List.isEmpty_iff.mpr hnil) hempty
      · exact absurd hbad hhash
      · rw [if_pos hsecret]

/-- Past the early returns the cipher runs first. -/
theorem decryptData_eq (hssl : ssl.Laws) (hempty : encrypted ≠ [])
    (hhash : dataHash.length = kDataHashSize) (hsecret : dataSecret.length = kSecretSize) :
    decryptData ssl encrypted dataHash dataSecret =
      (decrypt ssl encrypted ⟨slice (ssl.sha512 (dataSecret ++ dataHash)) 0 32,
        slice (ssl.sha512 (dataSecret ++ dataHash)) 32 16⟩).bind fun decrypted =>
        if ssl.sha256 decrypted ≠ dataHash then some []
        else decrypted.head?.bind fun first =>
          if first.toNat < kMinPadding ∨ kMaxPadding < first.toNat ∨
            decrypted.length < first.toNat then some []
          else some (decrypted.drop first.toNat) := by
  rw [decryptData, if_neg (by rwa [List.isEmpty_iff]), if_neg (not_not.mpr hhash),
    if_neg (not_not.mpr hsecret), prepareAesParams_eq hssl]
  rfl

theorem decryptData_aligned (hssl : ssl.Bijective) (haligned : encrypted.length % 16 = 0) :
    RejectsOthers ssl encrypted dataHash dataSecret := by
  by_cases hearly : encrypted = [] ∨ dataHash.length ≠ kDataHashSize ∨
      dataSecret.length ≠ kSecretSize
  · have hnothing : decryptData ssl encrypted dataHash dataSecret = some [] :=
      decryptData_early hearly
    refine ⟨by rw [hnothing]; rfl, fun bytes hbytes hne => ?_⟩
    rw [hnothing] at hbytes
    exact absurd (Option.some.inj hbytes).symm hne
  rw [not_or, not_or, not_not, not_not] at hearly
  obtain ⟨hempty, hhash, hsecret⟩ := hearly
  obtain ⟨decrypted, hdecrypt, hlength, hencrypt⟩ :=
    decrypt_encrypt hssl (hssl.length_sha512 (dataSecret ++ dataHash)) haligned
  have heq := decryptData_eq hssl.toLaws hempty hhash hsecret
  rw [hdecrypt, Option.bind_some] at heq
  by_cases hdigest : ssl.sha256 decrypted ≠ dataHash
  · rw [if_pos hdigest] at heq
    refine ⟨by rw [heq]; rfl, fun bytes hbytes hne => ?_⟩
    rw [heq] at hbytes
    exact absurd (Option.some.inj hbytes).symm hne
  rw [if_neg hdigest] at heq
  -- the read of `decrypted[0]` is of a byte that is there
  obtain ⟨first, rest, hcons⟩ : ∃ first rest, decrypted = first :: rest := by
    apply List.exists_cons_of_length_pos
    rw [hlength]
    exact List.length_pos_iff.mpr hempty
  have hhead : decrypted.head? = some first := by rw [hcons]; rfl
  rw [hhead, Option.bind_some] at heq
  by_cases hbad : first.toNat < kMinPadding ∨ kMaxPadding < first.toNat ∨
      decrypted.length < first.toNat
  · rw [if_pos hbad] at heq
    refine ⟨by rw [heq]; rfl, fun bytes hbytes hne => ?_⟩
    rw [heq] at hbytes
    exact absurd (Option.some.inj hbytes).symm hne
  rw [if_neg hbad] at heq
  refine ⟨by rw [heq]; rfl, fun bytes hbytes _ => ⟨hsecret, ?_⟩⟩
  rw [heq] at hbytes
  have hdrop : bytes = decrypted.drop first.toNat := (Option.some.inj hbytes).symm
  have hmin : 32 ≤ first.toNat := by
    by_contra hlt
    exact hbad (Or.inl (Nat.lt_of_not_le hlt))
  have htake : (decrypted.take first.toNat).length = first.toNat := by
    rw [List.length_take]
    omega
  have hwhole : decrypted.take first.toNat ++ bytes = decrypted := by
    rw [hdrop, List.take_append_drop]
  refine ⟨decrypted.take first.toNat, _, prepareAesParams_eq hssl.toLaws _, ?_, ?_, ?_, ?_, ?_⟩
  · rw [hwhole, hencrypt]
  · rw [htake, List.head?_take, if_neg (by omega), hhead, Option.map_some]
  · rw [htake]
    exact hmin
  · rw [htake]
    omega
  · rw [hwhole]
    exact not_not.mp hdigest

theorem decryptData_unaligned (hssl : ssl.Laws) (hempty : encrypted ≠ [])
    (haligned : encrypted.length % 16 ≠ 0) (hhash : dataHash.length = kDataHashSize)
    (hsecret : dataSecret.length = kSecretSize) :
    decryptData ssl encrypted dataHash dataSecret = none := by
  rw [decryptData_eq hssl hempty hhash hsecret, decrypt_unaligned _ haligned, Option.bind_none]

/-- `decryptData` checks everything but that it has whole blocks. -/
theorem rejectsOthers_iff (hssl : ssl.Bijective) :
    RejectsOthers ssl encrypted dataHash dataSecret ↔
      encrypted = [] ∨ encrypted.length % 16 = 0 ∨ dataHash.length ≠ kDataHashSize ∨
        dataSecret.length ≠ kSecretSize := by
  constructor
  · intro h
    by_contra hcon
    simp only [not_or, not_not] at hcon
    obtain ⟨hempty, haligned, hhash, hsecret⟩ := hcon
    have hreturns := h.returns
    rw [decryptData_unaligned hssl.toLaws hempty haligned hhash hsecret] at hreturns
    exact Bool.false_ne_true hreturns
  · rintro (hempty | haligned | hsizes)
    · apply decryptData_aligned hssl
      rw [hempty]
      rfl
    · exact decryptData_aligned hssl haligned
    · have hnothing : decryptData ssl encrypted dataHash dataSecret = some [] :=
        decryptData_early (Or.inr hsizes)
      refine ⟨by rw [hnothing]; rfl, fun bytes hbytes hne => ?_⟩
      rw [hnothing] at hbytes
      exact absurd (Option.some.inj hbytes).symm hne

end

/-- A secret is decrypted only from two whole blocks, so nothing fails. -/
theorem decryptSecretBytesWithHash_secret (hssl : ssl.Bijective) (encrypted : Bytes) {hash : Bytes}
    (hhash : hash.length = kAesParamsHashSize) :
    EmptyOrSecret (decryptSecretBytesWithHash ssl encrypted hash) := by
  rw [decryptSecretBytesWithHash]
  by_cases hempty : encrypted.isEmpty = true
  · rw [if_pos hempty]
    exact ⟨[], rfl, Or.inl rfl⟩
  rw [if_neg hempty]
  by_cases hsize : encrypted.length ≠ kSecretSize
  · rw [if_pos hsize]
    exact ⟨[], rfl, Or.inl rfl⟩
  rw [if_neg hsize, prepareAesParamsWithHash_eq hhash]
  have haligned : encrypted.length % 16 = 0 := by rw [not_not.mp hsize]; rfl
  obtain ⟨decrypted, hdecrypt, hlength, -⟩ := decrypt_encrypt hssl hhash haligned
  simp only [Option.bind_eq_bind, Option.bind_some, hdecrypt]
  by_cases hcheck : checkSecretBytes decrypted = true
  · rw [hcheck]
    exact ⟨decrypted, rfl, Or.inr ⟨hlength.trans (not_not.mp hsize), hcheck⟩⟩
  · rw [Bool.not_eq_true] at hcheck
    rw [hcheck]
    exact ⟨[], rfl, Or.inl rfl⟩

/-- The secrets are decrypted without a failure, the data unless it has a part of a block. -/
theorem decryptions_reject_others (hssl : ssl.Bijective) :
    (∀ encrypted dataHash dataSecret, RejectsOthers ssl encrypted dataHash dataSecret ↔
      encrypted = [] ∨ encrypted.length % 16 = 0 ∨ dataHash.length ≠ kDataHashSize ∨
        dataSecret.length ≠ kSecretSize) ∧
    (∀ encrypted passwordHashForSecret : Bytes, encrypted ≠ [] →
      passwordHashForSecret.length = kAesParamsHashSize →
      EmptyOrSecret (decryptSecureSecret ssl encrypted passwordHashForSecret)) ∧
    ∀ encrypted secret valueHash : Bytes,
      EmptyOrSecret (decryptValueSecret ssl encrypted secret valueHash) := by
  refine ⟨fun _ _ _ => rejectsOthers_iff hssl, fun encrypted hash hempty hhash => ?_, ?_⟩
  · rw [decryptSecureSecret, if_neg (by rwa [List.isEmpty_iff])]
    exact decryptSecretBytesWithHash_secret hssl encrypted hhash
  · intro encrypted secret valueHash
    exact decryptSecretBytesWithHash_secret hssl encrypted (hssl.length_sha512 _)

end

theorem sampleSsl_bijective : sampleSsl.Bijective where
  toLaws := sampleSsl_laws
  length_decrypt := sampleSsl_laws.length_encrypt
  encrypt_decrypt := sampleSsl_laws.decrypt_encrypt

theorem decryptions_reject_others_secret :
    EmptyOrSecret (decryptSecureSecret sampleSsl sampleEncrypted sampleHash) := by
  apply (decryptions_reject_others sampleSsl_bijective).2.1 sampleEncrypted sampleHash
  · decide
  · decide

/-- One byte is no block. -/
theorem decryptData_one_byte_fails :
    ¬ RejectsOthers sampleSsl [0] (List.replicate 32 0) (List.replicate 32 0) := by
  intro h
  have hreturns := h.returns
  revert hreturns
  decide

end TelegramDesktop.Passport
