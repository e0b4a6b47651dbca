import TelegramDesktop.Mtproto.ProxyData

namespace TelegramDesktop.Mtproto.ProxyData
open Base DcOptions

variable {fromBase64 : List UInt8 → List UInt8} {password : List QChar} {secret : List UInt8}

theorem validateSecret_iff : validateSecret secret = true ↔
    (21 ≤ secret.length ∧ secret.head? = some 0xEE) ∨
      (secret.length = 17 ∧ secret.head? = some 0xDD) ∨ secret.length = 16 ∨ secret = [] := by
  simp only [validateSecret, Bool.or_eq_true, Bool.and_eq_true, decide_eq_true_eq, beq_iff_eq,
    List.isEmpty_iff, or_assoc]

/-- The protocol is chosen by the same lengths and first bytes. -/
theorem createProtocol_isSome : (createProtocol secret).isSome = validateSecret secret := by
  rw [Bool.eq_iff_iff, validateSecret_iff, createProtocol]
  split_ifs with hversionD hversion1 hversion0
  · exact iff_of_true rfl (or_assoc.mp (.inl hversionD))
  · exact iff_of_true rfl (.inr (.inr (.inl hversion1)))
  · exact iff_of_true rfl (.inr (.inr (.inr hversion0)))
  · refine iff_of_false (fun h => nomatch h) fun h => ?_
    rcases or_assoc.mpr h with h | h | h
    · exact hversionD h
    · exact hversion1 h
    · exact hversion0 h

theorem createSocket_isSome (secret : List UInt8) : (createSocket secret).isSome = true := by
  rw [createSocket]
  split_ifs with htls
  · rw [tlsSocket, dif_pos htls]
    rfl
  · rfl

theorem exists_ofNat {ch : QChar} (h : ch.toNat < 128) : ∃ n < 128, .ofNat n = ch :=
  ⟨ch.toNat, h, UInt16.ofNat_toNat⟩

theorem exists_two {α : Type*} {l : List α} (h : 2 ≤ l.length) :
    ∃ first second rest, l = first :: second :: rest := by
  match l, h with
  | first :: second :: rest, _ => exact ⟨first, second, rest, rfl⟩

theorem between_lt {ch : QChar} {first last : Char} (hlast : last.toNat < 128)
    (h : between ch first last = true) : ch.toNat < 128 := by
  rw [between, Bool.and_eq_true, decide_eq_true_eq, decide_eq_true_eq] at h
  omega

theorem isHexDigit_lt {ch : QChar} (h : isHexDigit ch = true) : ch.toNat < 128 := by
  rw [isHexDigit, Bool.or_eq_true, Bool.or_eq_true] at h
  rcases h with (h | h) | h
  · exact between_lt (by decide) h
  · exact between_lt (by decide) h
  · exact between_lt (by decide) h

theorem isBase64UrlChar_lt {ch : QChar} (h : isBase64UrlChar ch = true) : ch.toNat < 128 := by
  simp only [isBase64UrlChar, Bool.or_eq_true, is, beq_iff_eq] at h
  rcases h with (((h | h) | h) | h) | h
  · exact between_lt (by decide) h
  · exact between_lt (by decide) h
  · exact between_lt (by decide) h
  · rw [h]
    decide
  · rw [h]
    decide

/-- A hex digit, and the letters that a type is compared with. -/
theorem fromHex_of_isHexDigit {ch : QChar} (h : isHexDigit ch = true) :
    ∃ v, fromHex ch = some v ∧ v < 16 ∧ (is (toLower ch) 'd' = true ↔ v = 13) ∧
      (is (toLower ch) 'e' = true ↔ v = 14) := by
  have hall : ∀ n < 128, isHexDigit (.ofNat n) = true → ∃ v ∈ fromHex (.ofNat n), v < 16 ∧
      (is (toLower (.ofNat n)) 'd' = true ↔ v = 13) ∧
      (is (toLower (.ofNat n)) 'e' = true ↔ v = 14) := by
    decide +kernel
  obtain ⟨n, hn, rfl⟩ := exists_ofNat (isHexDigit_lt h)
  exact hall n hn h

/-- The ranges a first and a second character are compared with, by the bits these stand for. -/
theorem value_of_isBase64UrlChar {ch : QChar} (h : isBase64UrlChar ch = true) :
    ∃ v, Base64Url.value (toLatin1 ch) = some v ∧ v < 64 ∧
      (is ch '3' = true ↔ v = 0xDD / 4) ∧ (is ch '7' = true ↔ v = 0xEE / 4) ∧
      ((between ch 'Q' 'Z' || between ch 'a' 'f') = true ↔ v / 16 = 0xDD % 4) ∧
      (between ch 'g' 'v' = true ↔ v / 16 = 0xEE % 4) := by
  have hall : ∀ n < 128, isBase64UrlChar (.ofNat n) = true →
      ∃ v ∈ Base64Url.value (toLatin1 (.ofNat n)), v < 64 ∧
        (is (.ofNat n) '3' = true ↔ v = 0xDD / 4) ∧ (is (.ofNat n) '7' = true ↔ v = 0xEE / 4) ∧
        ((between (.ofNat n) 'Q' 'Z' || between (.ofNat n) 'a' 'f') = true ↔ v / 16 = 0xDD % 4) ∧
        (between (.ofNat n) 'g' 'v' = true ↔ v / 16 = 0xEE % 4) := by
    decide +kernel
  obtain ⟨n, hn, rfl⟩ := exists_ofNat (isBase64UrlChar_lt h)
  exact hall n hn h

theorem ofNat_eq_iff {m n : ℕ} (hm : m < 256) (hn : n < 256) :
    UInt8.ofNat m = UInt8.ofNat n ↔ m = n := by
  rw [← UInt8.toNat_inj, UInt8.toNat_ofNat', UInt8.toNat_ofNat']
  omega

theorem length_bytesFromHex (heven : password.length % 2 = 0)
    (hdigits : ∀ ch ∈ password, isHexDigit ch = true) :
    ∃ secret, bytesFromHex password = some secret ∧ secret.length = password.length / 2 := by
  induction password using bytesFromHex.induct with
  | case1 first second rest ih =>
    obtain ⟨high, hhigh, -⟩ := fromHex_of_isHexDigit (hdigits first List.mem_cons_self)
    obtain ⟨low, hlow, -⟩ := fromHex_of_isHexDigit
      (hdigits second (List.mem_cons_of_mem _ List.mem_cons_self))
    have hrest : rest.length % 2 = 0 := by
      rw [List.length_cons, List.length_cons] at heven
      omega
    obtain ⟨secret, hsecret, hlength⟩ := ih hrest fun ch hch =>
      hdigits ch (List.mem_cons_of_mem _ (List.mem_cons_of_mem _ hch))
    refine ⟨.ofNat (high * 16 + low) :: secret, ?_, ?_⟩
    · rw [bytesFromHex, hhigh, Option.bind_some, hlow, Option.bind_some, hsecret, Option.map_some]
    · rw [List.length_cons, List.length_cons, List.length_cons, hlength]
      omega
  | case2 password hshort =>
    refine ⟨[], bytesFromHex.eq_2 password hshort, ?_⟩
    have hlength : ¬ 2 ≤ password.length := by
      intro htwo
      obtain ⟨first, second, rest, heq⟩ := exists_two htwo
      exact hshort first second rest heq
    rw [List.length_nil]
    omega

theorem validateSecret_cons {b : UInt8} {tail : List UInt8} :
    validateSecret (b :: tail) = true ↔ (b :: tail).length = 16 ∨
      ((b :: tail).length = 17 ∧ b = 0xDD) ∨ (21 ≤ (b :: tail).length ∧ b = 0xEE) := by
  rw [validateSecret_iff, List.head?_cons, Option.some.injEq, Option.some.injEq]
  constructor
  · rintro (h | h | h | h)
    · exact .inr (.inr h)
    · exact .inr (.inl h)
    · exact .inl h
    · exact nomatch h
  · rintro (h | h | h)
    · exact .inr (.inr (.inl h))
    · exact .inr (.inl h)
    · exact .inl h

theorem hexMtprotoPasswordStatus_valid_iff (first second : QChar) (rest : List QChar) :
    hexMtprotoPasswordStatus (first :: second :: rest) = .valid ↔
      (first :: second :: rest).length / 2 = 16 ∨
        ((first :: second :: rest).length / 2 = 17 ∧
          is (toLower first) 'd' = true ∧ is (toLower second) 'd' = true) ∨
        (21 ≤ (first :: second :: rest).length / 2 ∧
          is (toLower first) 'e' = true ∧ is (toLower second) 'e' = true) := by
  have htype : ∀ c, typeIs (first :: second :: rest) 0 c = is (toLower first) c ∧
      typeIs (first :: second :: rest) 1 c = is (toLower second) c := fun _ => ⟨rfl, rfl⟩
  rw [hexMtprotoPasswordStatus]
  simp only [htype, Bool.or_eq_true, Bool.and_eq_true, beq_iff_eq, decide_eq_true_eq, or_assoc,
    and_assoc]
  split_ifs with hvalid
  · exact iff_of_true rfl hvalid
  · exact iff_of_false (fun h => nomatch h) hvalid
  · exact iff_of_false (fun h => nomatch h) hvalid

/-- Two digits make the byte that they name. -/
theorem hexType_iff {high low v : ℕ} (hhigh : high < 16) (hlow : low < 16) (hv : v < 16) :
    (high = v ∧ low = v) ↔ UInt8.ofNat (high * 16 + low) = .ofNat (v * 16 + v) := by
  rw [ofNat_eq_iff (by omega) (by omega)]
  omega

/-- The first byte of a hex secret is the type its first two digits name. -/
theorem hex_status_valid_iff (h : isHexMtprotoPassword password = true) :
    ∃ secret, secretFromHexMtprotoPassword password = some secret ∧ secret ≠ [] ∧
      (hexMtprotoPasswordStatus password = .valid ↔ validateSecret secret = true) := by
  rw [isHexMtprotoPassword] at h
  split_ifs at h with hshort
  simp only [Bool.or_eq_true, decide_eq_true_eq, beq_iff_eq, not_or] at hshort
  have hdigits := List.all_eq_true.mp h
  have heven : password.length % 2 = 0 := by omega
  obtain ⟨secret, hsecret, hlength⟩ := length_bytesFromHex heven hdigits
  obtain ⟨first, second, rest, rfl⟩ := exists_two (l := password) (by omega)
  obtain ⟨high, hhigh, hhighLt, hhighD, hhighE⟩ :=
    fromHex_of_isHexDigit (hdigits first List.mem_cons_self)
  obtain ⟨low, hlow, hlowLt, hlowD, hlowE⟩ := fromHex_of_isHexDigit
    (hdigits second (List.mem_cons_of_mem _ List.mem_cons_self))
  refine ⟨secret, by rw [secretFromHexMtprotoPassword, if_pos heven, hsecret], ?_⟩
  rw [bytesFromHex, hhigh, Option.bind_some, hlow, Option.bind_some] at hsecret
  obtain ⟨tail, -, rfl⟩ := Option.map_eq_some_iff.mp hsecret
  refine ⟨List.cons_ne_nil _ _, ?_⟩
  have htypeD := hexType_iff hhighLt hlowLt (v := 13) (by decide)
  have htypeE := hexType_iff hhighLt hlowLt (v := 14) (by decide)
  rw [hexMtprotoPasswordStatus_valid_iff, validateSecret_cons, hhighD, hlowD, hhighE, hlowE, htypeD,
    htypeE, hlength]
  exact Iff.rfl

/-- Only `=` is skipped at the end. -/
theorem take_skipEquals (password : List QChar) (i : ℕ) {result : ℕ}
    (h : result ≤ password.length) : skipEquals password i result ≤ result ∧
      result ≤ skipEquals password i result + i ∧
      ∀ ch ∈ (password.take result).drop (skipEquals password i result), is ch '=' = true := by
  induction i generalizing result with
  | zero =>
    refine ⟨le_rfl, le_rfl, fun ch hch => ?_⟩
    rw [skipEquals, List.drop_eq_nil_of_le (List.length_take_le _ _)] at hch
    exact nomatch hch
  | succ i ih =>
    rw [skipEquals]
    split_ifs with hequals
    · obtain ⟨hle, hturns, hskipped⟩ := ih (show result - 1 ≤ password.length by omega)
      refine ⟨by omega, by omega, fun ch hch => ?_⟩
      obtain ⟨last, hlast, his⟩ := (Option.any_eq_true _ _).mp hequals
      obtain ⟨hbound, hget⟩ := List.getElem?_eq_some_iff.mp hlast
      by_cases hzero : result = 0
      · rw [hzero, List.take_zero, List.drop_nil] at hch
        exact nomatch hch
      · have hsplit : password.take result = password.take (result - 1) ++ [last] := by
          rw [← hget, List.take_append_getElem]
          congr 1
          omega
        rw [hsplit, List.drop_append_of_le_length (by rw [List.length_take]; omega)] at hch
        rcases List.mem_append.mp hch with hch | hch
        · exact hskipped ch hch
        · rw [List.mem_singleton.mp hch]
          exact his
    · refine ⟨le_rfl, by omega, fun ch hch => ?_⟩
      rw [List.drop_eq_nil_of_le (List.length_take_le _ _)] at hch
      exact nomatch hch

theorem toLatin1_equals {ch : QChar} (h : is ch '=' = true) :
    Base64Url.value (toLatin1 ch) = none := by
  have heq : ch.toNat = 61 := by
    rw [is, beq_iff_eq] at h
    exact h
  have hless : ch.toNat < 128 := by omega
  obtain ⟨n, -, rfl⟩ := exists_ofNat hless
  have hn : UInt16.ofNat n = 61 := UInt16.toNat_inj.mp heq
  rw [hn]
  decide

/-- The characters that count are those of the inner text. -/
theorem alphabetCount_password {inner : List QChar} (h : base64UrlInner password = some inner)
    (hchars : ∀ ch ∈ inner, isBase64UrlChar ch = true) :
    Base64Url.alphabetCount (password.map toLatin1) = inner.length ∧
      password.length ≤ inner.length + 2 ∧ inner <+: password := by
  rw [base64UrlInner] at h
  split_ifs at h
  cases h
  obtain ⟨hle, hturns, hskipped⟩ := take_skipEquals password 2 le_rfl
  rw [List.take_length] at hskipped
  have hcount : ∀ l : List QChar, Base64Url.alphabetCount (l.map toLatin1) =
      l.countP fun ch => (Base64Url.value (toLatin1 ch)).isSome := fun l => List.countP_map ..
  have hinner := List.countP_eq_length.mpr fun ch hch => by
    obtain ⟨v, hv, -⟩ := value_of_isBase64UrlChar (hchars ch hch)
    exact Option.isSome_iff_exists.mpr ⟨v, hv⟩
  have hrest : (password.drop (skipEquals password 2 password.length)).countP
      (fun ch => (Base64Url.value (toLatin1 ch)).isSome) = 0 := by
    apply List.countP_eq_zero.mpr
    intro ch hch
    rw [toLatin1_equals (hskipped ch hch)]
    exact Bool.false_ne_true
  refine ⟨?_, ?_, List.take_prefix _ _⟩
  · conv_lhs => rw [← List.take_append_drop (skipEquals password 2 password.length) password]
    rw [hcount, List.countP_append, hinner, hrest, add_zero]
  · rw [List.length_take]
    omega

theorem base64Type_iff {x y v : ℕ} (hx : x < 64) (hy : y < 64) (hv : v < 256) :
    (x = v / 4 ∧ y / 16 = v % 4) ↔ UInt8.ofNat (x * 4 + y / 16) = .ofNat v := by
  rw [ofNat_eq_iff (by omega) hv]
  omega

theorem base64UrlMtprotoPasswordStatus_valid_iff {inner : List QChar} {first second : QChar}
    {rest : List QChar} (h : base64UrlInner (first :: second :: rest) = some inner) :
    ∃ status, base64UrlMtprotoPasswordStatus (first :: second :: rest) = some status ∧
      (status = .valid ↔ inner.length * 3 / 4 = 16 ∨
        (inner.length * 3 / 4 = 17 ∧ is first '3' = true ∧
          (between second 'Q' 'Z' || between second 'a' 'f') = true) ∨
        (21 ≤ inner.length * 3 / 4 ∧ is first '7' = true ∧ between second 'g' 'v' = true)) := by
  refine ⟨_, by rw [base64UrlMtprotoPasswordStatus, h, Option.map_some], ?_⟩
  simp only [List.getElem?_cons_zero, List.getElem?_cons_succ, Option.any_some]
  split_ifs with hsmall hvalid
  · refine iff_of_false (fun h => nomatch h) ?_
    rintro (h | h | h)
    · omega
    · omega
    · omega
  · simp only [Bool.or_eq_true, Bool.and_eq_true, beq_iff_eq, decide_eq_true_eq, or_assoc,
      and_assoc] at hvalid ⊢
    exact iff_of_true trivial hvalid
  · refine iff_of_false (fun h => nomatch h) fun hholds => hvalid ?_
    simpa only [Bool.or_eq_true, Bool.and_eq_true, beq_iff_eq, decide_eq_true_eq, or_assoc,
      and_assoc] using hholds

/-- The first byte of a base64url secret is the type its first two characters name. -/
theorem base64_status_valid_iff (hbase64 : FromBase64 fromBase64)
    (h : isBase64UrlMtprotoPassword password = some true) :
    ∃ status, base64UrlMtprotoPasswordStatus password = some status ∧
      (status = .valid ↔ secretFromBase64UrlMtprotoPassword fromBase64 password ≠ [] ∧
        validateSecret (secretFromBase64UrlMtprotoPassword fromBase64 password) = true) := by
  rw [isBase64UrlMtprotoPassword] at h
  split_ifs at h with hshort
  · exact nomatch h
  simp only [Bool.or_eq_true, decide_eq_true_eq, beq_iff_eq, not_or] at hshort
  obtain ⟨inner, hinner, hall⟩ := Option.map_eq_some_iff.mp h
  have hchars := List.all_eq_true.mp hall
  obtain ⟨hcount, hlength, hprefix⟩ := alphabetCount_password hinner hchars
  obtain ⟨first, second, rest, rfl⟩ := exists_two (l := inner) (by omega)
  obtain ⟨skipped, rfl⟩ := hprefix
  obtain ⟨x, hx, hxLt, hxD, hxE, -⟩ := value_of_isBase64UrlChar (hchars first List.mem_cons_self)
  obtain ⟨y, hy, hyLt, -, -, hyD, hyE⟩ := value_of_isBase64UrlChar
    (hchars second (List.mem_cons_of_mem _ List.mem_cons_self))
  obtain ⟨status, hstatus, hvalid⟩ := base64UrlMtprotoPasswordStatus_valid_iff hinner
  have hsize := hbase64.length ((first :: second :: rest ++ skipped).map toLatin1)
  have hhead := hbase64.head hx hy ((rest ++ skipped).map toLatin1)
  rw [hcount] at hsize
  refine ⟨status, hstatus, ?_⟩
  rw [secretFromBase64UrlMtprotoPassword]
  cases hsecret : fromBase64 ((first :: second :: rest ++ skipped).map toLatin1) with
  | nil =>
    rw [hsecret, List.length_nil] at hsize
    omega
  | cons b tail =>
    have hfirst : b = .ofNat (x * 4 + y / 16) := by
      change (fromBase64 ((first :: second :: rest ++ skipped).map toLatin1)).head? = _ at hhead
      rw [hsecret, List.head?_cons] at hhead
      exact Option.some.inj hhead
    have hthree : (first :: second :: rest).length * 3 / 4 = (b :: tail).length := by
      rw [← hsecret, hsize]
      omega
    have htypeD := base64Type_iff hxLt hyLt (v := 0xDD) (by decide)
    have htypeE := base64Type_iff hxLt hyLt (v := 0xEE) (by decide)
    have hne : b :: tail ≠ [] := List.cons_ne_nil _ _
    rw [hvalid, validateSecret_cons, hxD, hxE, hyD, hyE, htypeD, htypeE, hthree, hfirst]
    exact (and_iff_right (hfirst ▸ hne)).symm

/-- A password is accepted when its secret is, and then the secret can be used. -/
theorem valid_password_usable (hbase64 : FromBase64 fromBase64) (password : List QChar) :
    ∃ secret, secretFromMtprotoPassword fromBase64 ⟨.mtproto, password⟩ = some secret ∧
      (validMtprotoPassword password = some true ↔
        secret ≠ [] ∧ validateSecret secret = true) ∧
      (validMtprotoPassword password = some true →
        (createProtocol secret).isSome = true ∧ (createSocket secret).isSome = true) := by
  suffices hagree : ∃ secret status,
      secretFromMtprotoPassword fromBase64 ⟨.mtproto, password⟩ = some secret ∧
        mtprotoPasswordStatus password = some status ∧
        (status = .valid ↔ secret ≠ [] ∧ validateSecret secret = true) by
    obtain ⟨secret, status, hsecret, hstatus, hiff⟩ := hagree
    have hvalid : validMtprotoPassword password = some true ↔ status = .valid := by
      rw [validMtprotoPassword, hstatus, Option.map_some, Option.some.injEq, beq_iff_eq]
    refine ⟨secret, hsecret, hvalid.trans hiff, fun h => ?_⟩
    rw [createProtocol_isSome]
    exact ⟨(hiff.mp (hvalid.mp h)).2, createSocket_isSome secret⟩
  rw [secretFromMtprotoPassword, if_pos rfl, mtprotoPasswordStatus]
  by_cases hhex : isHexMtprotoPassword password = true
  · obtain ⟨secret, hsecret, hne, hiff⟩ := hex_status_valid_iff hhex
    rw [if_pos hhex, if_pos hhex]
    exact ⟨secret, _, hsecret, rfl, hiff.trans (and_iff_right hne).symm⟩
  · rw [if_neg hhex, if_neg hhex]
    cases hurl : isBase64UrlMtprotoPassword password with
    | none =>
      rw [isBase64UrlMtprotoPassword] at hurl
      split_ifs at hurl with hshort
      simp only [Bool.or_eq_true, decide_eq_true_eq, beq_iff_eq, not_or] at hshort
      rw [Option.map_eq_none_iff, base64UrlInner, if_pos (by omega)] at hurl
      exact nomatch hurl
    | some isBase64Url =>
      cases isBase64Url with
      | false =>
        refine ⟨[], .invalid, rfl, rfl, ?_⟩
        exact iff_of_false (fun h => nomatch h) fun h => h.1 rfl
      | true =>
        obtain ⟨status, hstatus, hiff⟩ := base64_status_valid_iff hbase64 hurl
        exact ⟨_, status, rfl, hstatus, hiff⟩

/-- `7gAA…` is a password of 28 characters for a secret of 21 bytes. -/
theorem valid_password_usable_base64 :
    ∃ secret, secretFromMtprotoPassword Base64Url.decode
        ⟨.mtproto, 0x37 :: 0x67 :: List.replicate 26 0x41⟩ = some secret ∧
      (validMtprotoPassword (0x37 :: 0x67 :: List.replicate 26 0x41) = some true ↔
        secret ≠ [] ∧ validateSecret secret = true) ∧
      (validMtprotoPassword (0x37 :: 0x67 :: List.replicate 26 0x41) = some true →
        (createProtocol secret).isSome = true ∧ (createSocket secret).isSome = true) :=
  valid_password_usable ⟨Base64Url.length_decode, Base64Url.head?_decode⟩ _

end TelegramDesktop.Mtproto.ProxyData
