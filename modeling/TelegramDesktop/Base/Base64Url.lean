import Mathlib

namespace Base.Base64Url

/-- The six bits a character stands for. -/
def value (c : UInt8) : Option ℕ :=
  let code := c.toNat
  if 65 ≤ code ∧ code ≤ 90 then some (code - 65)
  else if 97 ≤ code ∧ code ≤ 122 then some (code - 97 + 26)
  else if 48 ≤ code ∧ code ≤ 57 then some (code - 48 + 52)
  else if code = 45 then some 62
  else if code = 95 then some 63
  else none

/-- What a text says after some bits that were kept; other characters are skipped. -/
def decodeFrom (buf nbits : ℕ) : List UInt8 → List UInt8
  | [] => []
  | c :: text =>
    match value c with
    | none => decodeFrom buf nbits text
    | some d =>
      if 8 ≤ nbits + 6 then
        .ofNat ((buf * 64 + d) / 2 ^ (nbits - 2)) ::
          decodeFrom ((buf * 64 + d) % 2 ^ (nbits - 2)) (nbits - 2) text
      else decodeFrom (buf * 64 + d) (nbits + 6) text

def decode (text : List UInt8) : List UInt8 := decodeFrom 0 0 text

def alphabetCount (text : List UInt8) : ℕ := text.countP fun c => (value c).isSome

theorem length_decodeFrom (buf : ℕ) {nbits : ℕ} (hnbits : nbits < 8) (text : List UInt8) :
    (decodeFrom buf nbits text).length = (nbits + 6 * alphabetCount text) / 8 := by
  induction text generalizing buf nbits with
  | nil =>
    change 0 = (nbits + 6 * 0) / 8
    omega
  | cons c text ih =>
    rw [decodeFrom, alphabetCount, List.countP_cons, ← alphabetCount]
    cases value c with
    | none => simpa using ih buf hnbits
    | some d =>
      dsimp only [Option.isSome_some]
      rw [if_pos rfl]
      split_ifs with hbyte
      · have hless : nbits - 2 < 8 := by omega
        have hrest := ih ((buf * 64 + d) % 2 ^ (nbits - 2)) hless
        rw [List.length_cons, hrest]
        omega
      · have hless : nbits + 6 < 8 := by omega
        have hrest := ih (buf * 64 + d) hless
        rw [hrest]
        omega

theorem length_decode (text : List UInt8) :
    (decode text).length = 6 * alphabetCount text / 8 := by
  rw [decode, length_decodeFrom 0 (by decide), zero_add]

theorem head?_decode {a b : UInt8} {x y : ℕ} (ha : value a = some x) (hb : value b = some y)
    (text : List UInt8) : (decode (a :: b :: text)).head? = some (.ofNat (x * 4 + y / 16)) := by
  have hfirst : ¬ 8 ≤ 0 + 6 := by decide
  have hsecond : 8 ≤ 0 + 6 + 6 := by decide
  have hbits : (x * 64 + y) / 2 ^ (0 + 6 - 2) = x * 4 + y / 16 := by
    have hpow : 2 ^ (0 + 6 - 2) = 16 := by decide
    rw [hpow]
    omega
  rw [decode, decodeFrom, ha]
  dsimp only
  rw [if_neg hfirst, decodeFrom, hb]
  dsimp only
  rw [if_pos hsecond, List.head?_cons, zero_mul, zero_add, hbits]

end Base.Base64Url
