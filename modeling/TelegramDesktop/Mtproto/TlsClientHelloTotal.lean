import TelegramDesktop.Mtproto.TlsClientHelloRules

namespace TelegramDesktop.Mtproto.TlsSocket
open Base Base.Vectors

theorem separate_length (result : List UInt8) (i : ℕ) :
    (separate result i).length = result.length := by
  rw [separate]
  split_ifs
  · exact List.length_set
  · rfl

theorem length_prepareGreases (random : Random) : (prepareGreases random).length = kMaxGrease := by
  simp [prepareGreases, separate_length]

theorem lowNibble_mask (byte : UInt8) : ((byte &&& 0xF0) + 0x0A) &&& 0x0F = 0x0A := by
  have h : ∀ n : Fin 256, ((UInt8.ofFin n &&& 0xF0) + 0x0A) &&& 0x0F = 0x0A := by
    decide +kernel
  exact h byte.toFin

theorem lowNibble_flip (byte : UInt8) : (byte ^^^ 0x10) &&& 0x0F = byte &&& 0x0F := by
  have h : ∀ n : Fin 256, (UInt8.ofFin n ^^^ 0x10) &&& 0x0F = UInt8.ofFin n &&& 0x0F := by
    decide +kernel
  exact h byte.toFin

theorem separate_lowNibble {result : List UInt8} {i : ℕ}
    (h : ∀ byte ∈ result, byte &&& 0x0F = 0x0A) :
    ∀ byte ∈ separate result i, byte &&& 0x0F = 0x0A := by
  intro byte hbyte
  rw [separate] at hbyte
  split_ifs at hbyte with heq
  · by_cases hi : i + 1 < result.length
    · rcases List.mem_or_eq_of_mem_set hbyte with hmem | rfl
      · exact h byte hmem
      · rw [lowNibble_flip, List.getD_eq_getElem _ _ hi]
        exact h _ (List.getElem_mem hi)
    · rw [List.set_eq_of_length_le (by omega)] at hbyte
      exact h byte hbyte
  · exact h byte hbyte

theorem foldl_separate_lowNibble (pairs : List ℕ) {result : List UInt8}
    (h : ∀ byte ∈ result, byte &&& 0x0F = 0x0A) :
    ∀ byte ∈ pairs.foldl separate result, byte &&& 0x0F = 0x0A := by
  induction pairs generalizing result with
  | nil => exact h
  | cons i pairs ih => exact ih (separate_lowNibble h)

theorem prepareGreases_lowNibble (random : Random) :
    ∀ byte ∈ prepareGreases random, byte &&& 0x0F = 0x0A := by
  apply foldl_separate_lowNibble
  intro byte hbyte
  obtain ⟨b, -, rfl⟩ := List.mem_map.mp hbyte
  exact lowNibble_mask b

theorem splice_append {a b c xs : List UInt8} {n : ℕ} (hn : n + xs.length = b.length) :
    splice (a ++ b ++ c) (a.length + n) xs = a ++ (b.take n ++ xs) ++ c := by
  have htake : (a ++ b ++ c).take (a.length + n) = a ++ b.take n := by
    rw [List.append_assoc, List.take_length_add_append, List.take_append_of_le_length (by omega)]
  have hdrop : (a ++ b ++ c).drop (a.length + n + xs.length) = c := by
    rw [show a.length + n + xs.length = (a ++ b).length by rw [List.length_append]; omega,
      List.drop_left]
  rw [splice, htake, hdrop, List.append_assoc a]

theorem writeDigest_eq {env : Env} {key : List UInt8} {p : Part} {a b c : List UInt8}
    (hresult : p.result = a ++ b ++ c) (hpos : p.digestPosition = a.length)
    (hlen : b.length = kHelloDigestLength) :
    p.writeDigest env key =
      some { p with result := a ++ (env.random.hmacSha256 key p.result).toList ++ c } := by
  have hsize : p.result.length = a.length + b.length + c.length := by
    rw [hresult, List.length_append, List.length_append]
  have hsplice : splice p.result (a.length + 0) (env.random.hmacSha256 key p.result).toList =
      a ++ (b.take 0 ++ (env.random.hmacSha256 key p.result).toList) ++ c := by
    nth_rewrite 1 [hresult]
    apply splice_append
    rw [Vector.length_toList, hlen]
    rfl
  have hstorage : p.digestPosition.toNat = a.length + 0 := by omega
  rw [Part.writeDigest, if_pos (by omega), Part.store, hstorage, hsplice]
  rfl

theorem injectTimestamp_eq {env : Env} {p : Part} {a b c : List UInt8}
    (hresult : p.result = a ++ b ++ c) (hpos : p.digestPosition = a.length)
    (hlen : b.length = kHelloDigestLength) :
    ∃ digest : List UInt8, digest.length = kHelloDigestLength ∧
      p.injectTimestamp env = some { p with result := a ++ digest ++ c } := by
  have hsize : p.result.length = a.length + b.length + c.length := by
    rw [hresult, List.length_append, List.length_append]
  have hstorage : (p.digestPosition + kHelloDigestLength - 4).toNat = a.length + 28 := by
    rw [hpos, kHelloDigestLength]
    omega
  have hslice : (slice p.result (a.length + 28) 4).length = 4 := by
    apply length_slice
    rw [kHelloDigestLength] at hlen
    omega
  let time := List.zipWith (· ^^^ ·) (slice p.result (a.length + 28) 4)
    (Words.ofWord env.random.now)
  have htime : time.length = 4 := by
    rw [List.length_zipWith, hslice, Words.length_ofWord]
    rfl
  have hsplice : splice p.result (a.length + 28) time = a ++ (b.take 28 ++ time) ++ c := by
    rw [hresult]
    apply splice_append
    rw [htime, hlen]
    rfl
  refine ⟨b.take 28 ++ time, ?_, ?_⟩
  · rw [List.length_append, List.length_take, htime, hlen]
    rfl
  · rw [Part.injectTimestamp, if_pos (by omega)]
    simp only [hstorage, Part.store]
    exact congrArg (fun result => some { p with result := result }) hsplice

theorem digest_writes (env : Env) (key : List UInt8) {p : Part} {a b c : List UInt8}
    (hresult : p.result = a ++ b ++ c) (hpos : p.digestPosition = a.length)
    (hlen : b.length = kHelloDigestLength) :
    ∃ digest : List UInt8, digest.length = kHelloDigestLength ∧
      ((p.writeDigest env key).bind fun q => q.injectTimestamp env) =
        some { p with result := a ++ digest ++ c } := by
  rw [writeDigest_eq hresult hpos hlen, Option.bind_some]
  exact injectTimestamp_eq rfl hpos Vector.length_toList

/-- The hello parses, with the lengths the rules hard-code, and the digest is its random. -/
structure WellFormed (domain : List UInt8) (hello : ClientHello) (parsed : ParsedHello) : Prop where
  length : hello.data.length = kClientHelloLength
  read : readHello hello.data = some parsed
  record : parsed.recordLength = 512
  handshake : parsed.handshakeLength = 508
  extensions : parsed.extensionsLength = 403
  named : ∃ body, ([0x00, 0x00], body) ∈ parsed.fields.extensions
  serverNames : ∀ body, ([0x00, 0x00], body) ∈ parsed.fields.extensions →
    readServerNames body = some [([0x00], domain)]
  digest : hello.digest = parsed.fields.random

/-- The hello is left empty, or is one that a server understands. -/
def EmptyOrWellFormed (domain : List UInt8) (hello : ClientHello) : Prop :=
  hello.data = [] ∨ ∃ parsed, WellFormed domain hello parsed

theorem shuffledExtensions_sized {env : Env} (hdomain : env.domain.length ≤ 215) :
    ∀ extension ∈ shuffledExtensions env,
      extension.1.length = 2 ∧ extension.2.length < 256 ^ 2 := by
  simp only [shuffledExtensions, List.forall_mem_cons, serverName, length_vec, tagged]
  simp [grease, length_vec]
  omega

theorem shuffledExtensions_serverName {env : Env} (hdomain : env.domain.length ≤ 215) :
    ∀ extension ∈ shuffledExtensions env, extension.1 = [0x00, 0x00] →
      readServerNames extension.2 = some [([0x00], env.domain)] := by
  have h : readServerNames (vec 2 ([([0x00], env.domain)].flatMap tagged)) =
      some [([0x00], env.domain)] := by
    apply readServerNames_vec
    · simp
      omega
    · simp [tagged, length_vec]
      omega
  simp only [shuffledExtensions, List.forall_mem_cons, serverName]
  simpa using h

theorem grease_ne_zero {env : Env} (hgreases : env.greases = prepareGreases env.random) {seed : ℕ}
    (hseed : seed < kMaxGrease) : grease env seed ≠ [0x00, 0x00] := by
  intro hzero
  have hlen := length_prepareGreases env.random
  have hlow := prepareGreases_lowNibble env.random _ (List.getElem_mem (by rwa [hlen]))
  have hbyte : (prepareGreases env.random).getD seed 0 = 0 := by
    rw [grease, hgreases] at hzero
    exact (List.cons.inj hzero).1
  rw [List.getD_eq_getElem _ _ (by rwa [hlen])] at hbyte
  rw [hbyte] at hlow
  exact absurd hlow (by decide)

section Fields

variable {env : Env} {shuffled : List Extension} {digest : List UInt8}
  (h : shuffled.Perm (shuffledExtensions env)) (hdomain : env.domain.length ≤ 215)

include h hdomain

theorem helloFields_sized (hdigest : digest.length = kHelloDigestLength) :
    (helloFields env shuffled digest).Sized where
  random := hdigest
  session := by simp [helloFields]
  cipherSuites := by simp [helloFields, grease]
  compression := by simp [helloFields]
  extensions := by
    have hshuffled : ∀ extension ∈ shuffled,
        extension.1.length = 2 ∧ extension.2.length < 256 ^ 2 := fun extension hmem =>
      shuffledExtensions_sized hdomain extension (h.mem_iff.mp hmem)
    simp only [helloFields, List.forall_mem_cons, List.forall_mem_append, List.cons_append]
    refine ⟨by simp [grease], hshuffled, by simp [grease], ?_⟩
    simp
    omega
  extensionBytes := by
    rw [length_extensionBytes h hdomain]
    decide
  handshake := by
    rw [length_handshake h hdomain hdigest]
    decide
  record := by
    rw [length_record h hdomain hdigest]
    decide

/-- The only extension that names the server is the one with the domain. -/
theorem helloFields_serverName (hgreases : env.greases = prepareGreases env.random) :
    ∀ extension ∈ (helloFields env shuffled digest).extensions, extension.1 = [0x00, 0x00] →
      readServerNames extension.2 = some [([0x00], env.domain)] := by
  have hshuffled : ∀ extension ∈ shuffled, extension.1 = [0x00, 0x00] →
      readServerNames extension.2 = some [([0x00], env.domain)] := fun extension hmem =>
    shuffledExtensions_serverName hdomain extension (h.mem_iff.mp hmem)
  simp only [helloFields, List.forall_mem_cons, List.forall_mem_append, List.cons_append]
  refine ⟨fun h => absurd h (grease_ne_zero hgreases (by decide)), hshuffled,
    fun h => absurd h (grease_ne_zero hgreases (by decide)), ?_⟩
  simp

end Fields

section Generator

variable (random : Random) (secret : Secret)

def helloEnv : Env := ⟨random, secret.domainFromSecret, prepareGreases random⟩

theorem helloEnv_greases :
    (helloEnv random secret).greases = prepareGreases (helloEnv random secret).random := by
  simp only [helloEnv]

theorem helloEnv_domain : (helloEnv random secret).domain = secret.domainFromSecret := by
  simp only [helloEnv]

theorem helloEnv_length_greases : (helloEnv random secret).greases.length = kMaxGrease := by
  rw [helloEnv_greases, length_prepareGreases]

/-- What is left to do once the rules are written. -/
def finished (p : Part) : Option ClientHello :=
  (p.finalize (helloEnv random secret) secret.keyFromSecret).bind fun q =>
    q.take.map fun data => ⟨data, q.extractDigest⟩

theorem clientHello_eq :
    ∃ p, Writes digestReserved p (encodeBlocks (helloEnv random secret) kMaxGrease helloRest) ∧
      clientHello random secret = finished random secret p := by
  obtain ⟨p, hp, hwrites⟩ := writeBlocks_writes (helloEnv random secret) digestReserved helloRest
  refine ⟨p, hwrites, ?_⟩
  have hstart := (writeBlocks_start (helloEnv random secret) helloRest).trans hp
  rw [helloEnv] at hstart
  simp only [clientHello, prepareClientHelloRules_eq, prepareClientHello, Option.bind_eq_bind,
    Option.bind_some, hstart, finished, helloEnv, Option.map_eq_bind]
  rfl

variable {random secret} {p : Part}

theorem finished_error (h : p.error = true) :
    finished random secret p = some ⟨[], p.extractDigest⟩ := by
  rw [finished, Part.finalize, if_pos h, Option.bind_some, Part.take, if_pos (.inl h), h]
  rfl

theorem finished_none (h : p.error = false) (hdigest : 0 ≤ p.digestPosition)
    (hlen : kClientHelloLength - kLengthSize < p.result.length) :
    finished random secret p = none := by
  rw [finished, Part.finalize, if_neg (by simp [h]), if_neg (by omega), Part.writePadding,
    if_neg (by omega)]
  rfl

/-- Padding that does not fit leaves the hello empty. -/
theorem finished_written {q : Part} (h : p.error = false)
    (hpos : p.digestPosition = q.digestPosition)
    (hpadding : p.writePadding (helloEnv random secret) = some q) {a b c : List UInt8}
    (hresult : q.result = a ++ b ++ c) (hdigest : q.digestPosition = a.length)
    (hlen : b.length = kHelloDigestLength) (hdetached : q.detached = false) :
    ∃ digest : List UInt8, digest.length = kHelloDigestLength ∧
      finished random secret p =
        some ⟨if q.error then [] else a ++ digest ++ c, digest⟩ := by
  obtain ⟨digest, hsize, hwrite⟩ := digest_writes (helloEnv random secret)
    secret.keyFromSecret hresult hdigest hlen
  refine ⟨digest, hsize, ?_⟩
  have hfinalize : p.finalize (helloEnv random secret) secret.keyFromSecret =
      some { q with result := a ++ digest ++ c } := by
    rw [Part.finalize, if_neg (by simp [h]), if_neg (by omega), hpadding]
    exact hwrite
  have hextract : Part.extractDigest { q with result := a ++ digest ++ c } = digest := by
    rw [Part.extractDigest, if_neg (by simp only [hdigest]; omega)]
    simp only [hdigest, Int.toNat_natCast, ← hsize]
    exact slice_middle a digest c
  rw [finished, hfinalize, Option.bind_some, hextract, Part.take, if_pos (.inr hdetached)]
  rfl

section Written

variable {shuffled : List Extension}
  (hperm : shuffled.Perm (shuffledExtensions (helloEnv random secret)))
  (hshuffled : ((helloEnv random secret).random.shuffle
    ((shuffledExtensions (helloEnv random secret)).map tagged)).1 = shuffled.map tagged)
  (hwrites : Writes digestReserved p (encodeBlocks (helloEnv random secret) kMaxGrease helloRest))

include hperm hshuffled hwrites

theorem written_error (hdomain : secret.domainFromSecret = [] ∨
    217 < secret.domainFromSecret.length) : p.error = true := by
  have hgreases := helloEnv_length_greases random secret
  have hstart : digestReserved.result.length = 43 := rfl
  apply hwrites.fails (by decide)
  intro bytes drawn hbytes
  rw [← helloEnv_domain random] at hdomain
  by_cases hnone : (helloEnv random secret).domain = [] ∨
      508 < (helloEnv random secret).domain.length
  · rw [encodeBlocks_none hgreases hnone] at hbytes
    cases hbytes
  · rw [not_or, not_lt] at hnone
    rw [encodeBlocks_helloRest hgreases hnone.1 hnone.2 hshuffled] at hbytes
    cases hbytes
    have hlong := hdomain.resolve_left hnone.1
    rw [length_restBytes hperm, hstart, kClientHelloLength]
    omega

theorem written_fits (hne : secret.domainFromSecret ≠ [])
    (hdomain : secret.domainFromSecret.length ≤ 217) :
    p.error = false ∧ p.result = helloStart ++ List.replicate kHelloDigestLength 0 ++
      restBytes (helloEnv random secret) shuffled := by
  have hstart : digestReserved.result.length = 43 := rfl
  rw [← helloEnv_domain random] at hne hdomain
  have hencode := encodeBlocks_helloRest (helloEnv_length_greases random secret) hne (by omega)
    hshuffled
  have hfits := hwrites.fits rfl _ _ hencode (by
    rw [length_restBytes hperm, hstart, kClientHelloLength]
    omega)
  exact ⟨hfits.1, hfits.2.1⟩

end Written

theorem writePadding_writes (env : Env) (count : ℕ) (hcount : count + p.result.length = 515) :
    ∃ q, p.writePadding env = some q ∧
      Writes p q (if count = 0 then none else some (vec 2 (List.replicate count 0), p.drawn)) := by
  obtain ⟨q, hq, hwrites⟩ := writeBlock_writes env p (.scope [.zero count])
  have hpadding : (kClientHelloLength : ℤ) - kLengthSize - p.result.length = count := by
    rw [kClientHelloLength, kLengthSize]
    omega
  have hencode : encode env p.drawn (.scope [.zero count]) =
      if count = 0 then none else some (vec 2 (List.replicate count 0), p.drawn) := by
    rw [encode_scope, encodeBlocks_cons, encode]
    split_ifs with h h' h'
    · rfl
    · omega
    · omega
    · simp [encodeBlocks, vec, bigEndian16, Vectors.ofNat]
  refine ⟨q, ?_, hencode ▸ hwrites⟩
  rw [Part.writePadding, if_pos (by rw [kClientHelloLength, kLengthSize]; omega)]
  simp only [hpadding]
  exact hq

/-- The hello that a finished generator hands over parses. -/
theorem wellFormed_encode {shuffled : List Extension} {digest : List UInt8}
    (hperm : shuffled.Perm (shuffledExtensions (helloEnv random secret)))
    (hdomain : secret.domainFromSecret.length ≤ 215)
    (hdigest : digest.length = kHelloDigestLength) :
    WellFormed secret.domainFromSecret
      ⟨(helloFields (helloEnv random secret) shuffled digest).encode, digest⟩
      ⟨512, 508, 403, helloFields (helloEnv random secret) shuffled digest⟩ where
  length := by
    rw [HelloFields.encode, List.length_append, length_vec, length_record hperm hdomain hdigest]
    rfl
  read := by
    rw [readHello_encode (helloFields_sized hperm hdomain hdigest),
      length_record hperm hdomain hdigest, length_handshake hperm hdomain hdigest,
      length_extensionBytes hperm hdomain]
  record := rfl
  handshake := rfl
  extensions := rfl
  named := by
    refine ⟨(serverName (helloEnv random secret)).2, ?_⟩
    have hmem : serverName (helloEnv random secret) ∈ shuffled := by
      rw [hperm.mem_iff]
      exact List.mem_cons_self
    exact List.mem_append_left _ (List.mem_cons_of_mem _ hmem)
  serverNames body hmem := by
    exact helloFields_serverName hperm hdomain (helloEnv_greases random secret) _ hmem rfl
  digest := rfl

/-- Three parts of a part that are long enough to hold the digest. -/
theorem exists_parts (result : List UInt8)
    (h : helloStart.length + kHelloDigestLength ≤ result.length) :
    ∃ a b c : List UInt8, result = a ++ b ++ c ∧ a.length = helloStart.length ∧
      b.length = kHelloDigestLength := by
  refine ⟨result.take helloStart.length, slice result helloStart.length kHelloDigestLength,
    result.drop (helloStart.length + kHelloDigestLength), ?_, ?_, length_slice h⟩
  · rw [slice, List.append_assoc, ← List.drop_drop, List.take_append_drop, List.take_append_drop]
  · rw [List.length_take]
    omega

/-- What padding makes of a part that has space for its length. -/
theorem finished_padding {shuffled : List Extension}
    (hperm : shuffled.Perm (shuffledExtensions (helloEnv random secret)))
    (herr : p.error = false) (hpos : p.digestPosition = helloStart.length)
    (hdetached : p.detached = false)
    (hresult : p.result = helloStart ++ List.replicate kHelloDigestLength 0 ++
      restBytes (helloEnv random secret) shuffled)
    (hdomain : secret.domainFromSecret.length ≤ 215) :
    ∃ hello, finished random secret p = some hello ∧
      EmptyOrWellFormed secret.domainFromSecret hello := by
  have hstart : helloStart.length + kHelloDigestLength = 43 := rfl
  have hlen : p.result.length = secret.domainFromSecret.length + 300 := by
    rw [hresult, List.length_append, length_restBytes hperm, helloEnv_domain, List.length_append,
      List.length_replicate]
    omega
  obtain ⟨q, hpadding, hq⟩ := writePadding_writes (p := p) (helloEnv random secret)
    (215 - secret.domainFromSecret.length) (by omega)
  have hqpos : q.digestPosition = p.digestPosition := hq.digest (by omega)
  have hqlen := hq.grows
  by_cases hfull : secret.domainFromSecret.length = 215
  · -- no space for a byte of padding: `grow` fails, the digest is still written
    have hqerr : q.error = true := by
      apply hq.fails
      · rw [hlen, kClientHelloLength]
        omega
      · intro bytes drawn hbytes
        rw [if_pos (by omega)] at hbytes
        cases hbytes
    obtain ⟨a, b, c, habc, ha, hb⟩ := exists_parts q.result (by omega)
    obtain ⟨digest, -, hello⟩ := finished_written herr hqpos.symm hpadding habc
      (by rw [hqpos, hpos, ha]) hb (hq.detached hdetached)
    rw [hqerr] at hello
    exact ⟨_, hello, .inl rfl⟩
  · have hvec : (vec 2 (List.replicate (215 - secret.domainFromSecret.length) 0)).length =
        217 - secret.domainFromSecret.length := by
      rw [length_vec, List.length_replicate]
      omega
    obtain ⟨hqerr, hqresult, -⟩ := hq.fits herr _ _ (if_neg (by omega)) (by
      rw [hlen, hvec, kClientHelloLength]
      omega)
    rw [hresult, List.append_assoc _ (restBytes _ _)] at hqresult
    obtain ⟨digest, hdigest, hello⟩ := finished_written herr hqpos.symm hpadding hqresult
      (by rw [hqpos, hpos]) List.length_replicate (hq.detached hdetached)
    have hencode := encode_helloFields hperm hdomain hdigest
    rw [helloEnv_domain] at hencode
    rw [hqerr, ← hencode] at hello
    exact ⟨_, hello, .inr ⟨_, wellFormed_encode hperm hdomain hdigest⟩⟩

/-- The generator by the length of the domain: an empty hello, a violated `Expects` of the padding,
or a hello that fills the whole length. -/
theorem clientHello_cases (random : Random) (secret : Secret) :
    if secret.domainFromSecret.length = 216 ∨ secret.domainFromSecret.length = 217 then
      clientHello random secret = none
    else ∃ hello, clientHello random secret = some hello ∧
      EmptyOrWellFormed secret.domainFromSecret hello := by
  obtain ⟨p, hwrites, heq⟩ := clientHello_eq random secret
  obtain ⟨shuffled, hperm, hshuffled⟩ := exists_shuffled (helloEnv random secret)
  rw [heq]
  by_cases herr : secret.domainFromSecret = [] ∨ 217 < secret.domainFromSecret.length
  · have hnot : ¬ (secret.domainFromSecret.length = 216 ∨
        secret.domainFromSecret.length = 217) := by
      rcases herr with h | h
      · rw [h, List.length_nil]
        omega
      · omega
    rw [if_neg hnot, finished_error (written_error hperm hshuffled hwrites herr)]
    exact ⟨_, rfl, .inl rfl⟩
  · rw [not_or, not_lt] at herr
    obtain ⟨herror, hresult⟩ := written_fits hperm hshuffled hwrites herr.1 herr.2
    have hpos : p.digestPosition = helloStart.length := hwrites.digest (by decide)
    split_ifs with hlong
    · have hstart : helloStart.length + kHelloDigestLength = 43 := rfl
      apply finished_none herror (by omega)
      rw [hresult, List.length_append, length_restBytes hperm, helloEnv_domain, List.length_append,
        List.length_replicate, kClientHelloLength, kLengthSize]
      omega
    · exact finished_padding hperm herror hpos (hwrites.detached rfl) hresult (by omega)

end Generator

/-- The generator meets its `Expects`, and what it returns is empty or parses, for every domain but
those that leave no space for the length of the padding. -/
theorem clientHello_wellFormed_iff (random : Random) (secret : Secret) :
    (∃ hello, clientHello random secret = some hello ∧
      EmptyOrWellFormed secret.domainFromSecret hello) ↔
      secret.bytes.length ≠ 233 ∧ secret.bytes.length ≠ 234 := by
  have hcases := clientHello_cases random secret
  have hlen : secret.domainFromSecret.length = secret.bytes.length - 17 := List.length_drop
  have hlong := secret.long
  split_ifs at hcases with h
  · constructor
    · rintro ⟨hello, hsome, -⟩
      rw [hcases] at hsome
      cases hsome
    · omega
  · constructor
    · intro _
      omega
    · intro _
      exact hcases

/-- A generator that draws zeros and shuffles nothing. -/
def zeroRandom : Random where
  byte _ := 0
  publicKey _ := .replicate 32 0
  shuffle list := ⟨list, .refl list⟩
  hmacSha256 _ _ := .replicate 32 0
  now := 0

def zeroSecret (count : ℕ) : Secret where
  bytes := 0xEE :: List.replicate (20 + count) 0
  long := by simp
  tag := rfl

theorem length_domain_zeroSecret (count : ℕ) :
    (zeroSecret count).domainFromSecret.length = count + 4 := by
  simp only [Secret.domainFromSecret, zeroSecret, List.length_drop, List.length_cons,
    List.length_replicate]
  omega

/-- With a domain of 216 bytes the padding's `Expects` is violated. -/
theorem clientHello_padding_violated :
    ¬ ∀ random secret, ∃ hello, clientHello random secret = some hello ∧
      EmptyOrWellFormed secret.domainFromSecret hello := by
  intro h
  obtain ⟨secret, hlen⟩ : ∃ secret : Secret, secret.domainFromSecret.length = 216 :=
    ⟨zeroSecret 212, length_domain_zeroSecret 212⟩
  have hcases := clientHello_cases zeroRandom secret
  obtain ⟨hello, hsome, -⟩ := h zeroRandom secret
  rw [if_pos (.inl hlen)] at hcases
  rw [hcases] at hsome
  cases hsome

end TelegramDesktop.Mtproto.TlsSocket
