import TelegramDesktop.Base.Words

instance Int32.linearOrder : LinearOrder Int32 where
  le_refl _ := Int32.le_refl _
  le_trans _ _ _ := Int32.le_trans
  le_antisymm _ _ := Int32.le_antisymm
  le_total := Int32.le_total
  lt_iff_le_not_ge a b := by
    rw [Int32.not_le]
    exact ⟨fun h => ⟨Int32.le_of_lt h, h⟩, And.right⟩
  toDecidableLE := inferInstance
  toDecidableEq := inferInstance
  toDecidableLT := inferInstance

namespace Base.DataStream

def ofInt (x : Int32) : List UInt8 := (Words.ofWord x.toUInt32).reverse

def takeInt : List UInt8 → Option (Int32 × List UInt8)
  | b₃ :: b₂ :: b₁ :: b₀ :: rest => some (⟨Words.word b₀ b₁ b₂ b₃⟩, rest)
  | _ => none

@[simp] theorem takeInt_ofInt (x : Int32) (rest : List UInt8) :
    takeInt (ofInt x ++ rest) = some (x, rest) :=
  congrArg (fun word : UInt32 => some ((⟨word⟩ : Int32), rest)) (Words.word_ofWord x.toUInt32)

def takeRaw (size : ℕ) (data : List UInt8) : Option (List UInt8 × List UInt8) :=
  if data.length < size then none else some (data.take size, data.drop size)

@[simp] theorem takeRaw_append (bytes rest : List UInt8) :
    takeRaw bytes.length (bytes ++ rest) = some (bytes, rest) := by
  have hfit : ¬ (bytes ++ rest).length < bytes.length := by
    rw [List.length_append]
    omega
  rw [takeRaw, if_neg hfit, List.take_left, List.drop_left]

/-- Bytes after their size; there is a size of its own for none. -/
def ofBytes (bytes : List UInt8) : List UInt8 :=
  if bytes = [] then ofInt (-1) else ofInt (.ofNat bytes.length) ++ bytes

def takeBytes (data : List UInt8) : Option (List UInt8 × List UInt8) :=
  (takeInt data).bind fun size =>
    if size.1 = -1 then some ([], size.2) else takeRaw size.1.toUInt32.toNat size.2

theorem takeBytes_ofBytes {bytes : List UInt8} (h : bytes.length < 2 ^ 31) (rest : List UInt8) :
    takeBytes (ofBytes bytes ++ rest) = some (bytes, rest) := by
  rw [ofBytes]
  split_ifs with hnil
  · rw [takeBytes, takeInt_ofInt, Option.bind_some, if_pos rfl, hnil]
  · have hsize : (Int32.ofNat bytes.length).toUInt32.toNat = bytes.length := by
      change (UInt32.ofNat bytes.length).toNat = bytes.length
      rw [UInt32.toNat_ofNat']
      omega
    have hne : Int32.ofNat bytes.length ≠ -1 := by
      intro heq
      have hint := congrArg Int32.toInt heq
      rw [Int32.toInt_ofNat_of_lt h] at hint
      have hminus : (-1 : Int32).toInt = -1 := by decide
      rw [hminus] at hint
      omega
    rw [takeBytes, List.append_assoc, takeInt_ofInt, Option.bind_some, if_neg hne, hsize,
      takeRaw_append]

theorem length_ofInt (x : Int32) : (ofInt x).length = 4 := rfl

theorem length_ofBytes (bytes : List UInt8) : (ofBytes bytes).length = 4 + bytes.length := by
  rw [ofBytes]
  split_ifs with hnil
  · rw [hnil]
    rfl
  · rw [List.length_append, length_ofInt]

def takeByte : List UInt8 → Option (UInt8 × List UInt8)
  | b :: rest => some (b, rest)
  | [] => none

theorem takeByte_append (x : UInt8) (rest : List UInt8) :
    takeByte ([x] ++ rest) = some (x, rest) := rfl

def ofShort (x : UInt16) : List UInt8 := [(x >>> 8).toUInt8, x.toUInt8]

def takeShort : List UInt8 → Option (UInt16 × List UInt8)
  | b₁ :: b₀ :: rest => some (.ofNat (b₀.toNat + 2 ^ 8 * b₁.toNat), rest)
  | _ => none

theorem takeShort_ofShort (x : UInt16) (rest : List UInt8) :
    takeShort (ofShort x ++ rest) = some (x, rest) := by
  have hx := x.toNat_lt
  have h8 : (8 : UInt16).toNat % 16 = 8 := rfl
  have hword : UInt16.ofNat (x.toUInt8.toNat + 2 ^ 8 * (x >>> 8).toUInt8.toNat) = x := by
    apply UInt16.toNat_inj.mp
    rw [UInt16.toNat_ofNat', UInt16.toNat_toUInt8, UInt16.toNat_toUInt8, UInt16.toNat_shiftRight,
      h8, Nat.shiftRight_eq_div_pow]
    omega
  exact congrArg (fun word => some (word, rest)) hword

def highInt (x : UInt64) : Int32 := ⟨(x >>> 32).toUInt32⟩

def lowInt (x : UInt64) : Int32 := ⟨x.toUInt32⟩

def joinInts (high low : Int32) : UInt64 :=
  (high.toUInt32.toUInt64 <<< 32) ||| low.toUInt32.toUInt64

theorem joinInts_high_low (x : UInt64) : joinInts (highInt x) (lowInt x) = x := by
  have hx := x.toNat_lt
  have h32 : (32 : UInt64).toNat % 64 = 32 := rfl
  have hhigh : (highInt x).toUInt32.toUInt64.toNat = x.toNat / 2 ^ 32 := by
    change (x >>> 32).toUInt32.toUInt64.toNat = _
    rw [UInt32.toNat_toUInt64, UInt64.toNat_toUInt32, UInt64.toNat_shiftRight, h32,
      Nat.shiftRight_eq_div_pow]
    omega
  have hlow : (lowInt x).toUInt32.toUInt64.toNat = x.toNat % 2 ^ 32 := by
    change x.toUInt32.toUInt64.toNat = _
    rw [UInt32.toNat_toUInt64, UInt64.toNat_toUInt32]
  apply UInt64.toNat_inj.mp
  rw [joinInts, UInt64.toNat_or, UInt64.toNat_shiftLeft, h32, hhigh, hlow]
  have hfits : x.toNat / 2 ^ 32 * 2 ^ 32 < 2 ^ 64 := by omega
  rw [Nat.shiftLeft_eq, Nat.mod_eq_of_lt hfits, ← Nat.shiftLeft_eq,
    ← Nat.shiftLeft_add_eq_or_of_lt (Nat.mod_lt _ (by decide)), Nat.shiftLeft_eq]
  omega

def ofLong (x : UInt64) : List UInt8 := ofInt (highInt x) ++ ofInt (lowInt x)

def takeLong (data : List UInt8) : Option (UInt64 × List UInt8) :=
  (takeInt data).bind fun high =>
    (takeInt high.2).map fun low => (joinInts high.1 low.1, low.2)

theorem takeLong_ofLong (x : UInt64) (rest : List UInt8) :
    takeLong (ofLong x ++ rest) = some (x, rest) := by
  rw [takeLong, ofLong, List.append_assoc, takeInt_ofInt, Option.bind_some, takeInt_ofInt,
    Option.map_some, joinInts_high_low]

theorem length_ofLong (x : UInt64) : (ofLong x).length = 8 := rfl

end Base.DataStream
