import Mathlib

namespace TelegramDesktop.Lang

structure ShortenedCount where
  number : ℤ
  string : List Char
deriving DecidableEq

/-- `QString::number`. -/
def decimal (number : ℤ) : List Char :=
  if number < 0 then '-' :: Nat.toDigits 10 number.natAbs else Nat.toDigits 10 number.natAbs

/-- The digit after the point, when it is not zero. -/
def tenths (rounded : ℕ) : List Char :=
  if rounded % 10 ≠ 0 then '.' :: Nat.toDigits 10 (rounded % 10) else []

/-- `none` is an overflow of the product, which C++ leaves undefined. -/
def shorten (number divider : ℤ) (multiplier : Char) : Option ShortenedCount :=
  let sign : ℤ := if 0 < number then 1 else -1
  let rounded := number.natAbs / (divider / 10).natAbs
  let string := decimal ((sign * rounded).tdiv 10) ++ tenths rounded ++ [multiplier]
  if (rounded : ℤ) * divider < 2 ^ 63 then some ⟨rounded * divider, string⟩ else none

def formatCountToShort (number : ℤ) : Option ShortenedCount :=
  if 1000000 ≤ number.natAbs then shorten number 1000000 'M'
  else if 10000 ≤ number.natAbs then shorten number 1000 'K'
  else some ⟨number, decimal number⟩

/-- `number6` is the printing of a real number with six digits after the point. -/
def formatDouble (number6 : ℚ → List Char) (value : ℚ) : List Char :=
  let trimmed := (number6 value).rdropWhile (· == '0')
  if trimmed.getLast? = some '.' then trimmed.dropLast else trimmed

def nonZeroPartToInt (value : List Char) : ℤ :=
  let digits := value.dropWhile (· == '0')
  if digits.all Char.isDigit then Nat.ofDigitChars 10 digits 0 else 0

/-- A conversion to `int`; out of range it is undefined. -/
def toInt (value : ℤ) : Option ℤ :=
  if -2 ^ 31 ≤ value ∧ value < 2 ^ 31 then some value else none

def qRound (value : ℚ) : Option ℤ :=
  toInt (if 0 ≤ value then ⌊value + 1 / 2⌋ else ⌈value - 1 / 2⌉)

inductive CountType where
  | count
  | short
  | decimal
deriving DecidableEq

structure PluralResult where
  keyShift : ℤ
  replacement : List Char
deriving DecidableEq

/-- The rules of a language, by the six operands `n`, `i`, `v`, `w`, `f` and `t`. -/
abbrev PluralRules := ℤ → ℤ → ℤ → ℤ → ℤ → ℤ → ℤ

/-- The value is the rational that the `float64` is; `rules` are those chosen for the key and
`localized` is the decimal form with the separators of the locale. -/
def plural (number6 : ℚ → List Char) (localized : ℤ → List Char) (rules : PluralRules)
    (value : ℚ) (type : CountType) : Option PluralResult := do
  let shortened ← if type = .short then formatCountToShort (← qRound value) else some ⟨0, []⟩
  let n := |if shortened.number ≠ 0 then (shortened.number : ℚ) else value|
  let i ← toInt ⌊n⌋
  let integer := (← toInt ⌈n⌉) == i
  let formatted := if integer then [] else formatDouble number6 n
  let fraction := (formatted.dropWhile (· != '.')).tail
  let v : ℤ := fraction.length
  let f := nonZeroPartToInt fraction
  let shift := rules (if integer then i else -1) i v v f f
  if integer then
    let round ← qRound value
    match type with
    | .short => some ⟨shift, shortened.string⟩
    | .decimal => some ⟨shift, localized round⟩
    | .count => some ⟨shift, decimal round⟩
  else some ⟨shift, formatDouble number6 value⟩

def readMultiplier : List Char → Option ℚ
  | [] => some 1
  | ['K'] => some 1000
  | ['M'] => some 1000000
  | _ => none

/-- The digits after a point, and what follows them. -/
def readTenths : List Char → List Char × List Char
  | '.' :: rest => (rest.takeWhile Char.isDigit, rest.dropWhile Char.isDigit)
  | rest => ([], rest)

def readUnsigned (string : List Char) : Option ℚ :=
  let whole := string.takeWhile Char.isDigit
  let (fraction, suffix) := readTenths (string.dropWhile Char.isDigit)
  (readMultiplier suffix).map fun multiplier =>
    (Nat.ofDigitChars 10 (whole ++ fraction) 0 : ℚ) / 10 ^ fraction.length * multiplier

def readCount : List Char → Option ℚ
  | '-' :: rest => (readUnsigned rest).map (- ·)
  | string => readUnsigned string

/-- What a multiplier stands for in the shown form of the number. -/
def multiplierOf (number : ℤ) : ℤ := if 1000000 ≤ |number| then 1000000 else 1000

/-- The string is a reading of the number, the number is the given one cut to tenths, and it is
the number that the plural form is chosen by. -/
structure Denotes (number : ℤ) (result : ShortenedCount) : Prop where
  reading : readCount result.string = some (result.number : ℚ)
  le : |result.number| ≤ |number|
  small : |number| < 10000 → result.number = number
  near : 10000 ≤ |number| → |number| - |result.number| < multiplierOf number / 10
  sign : result.number.sign = number.sign
  chosen : ∀ number6 localized rules, number.natAbs < 2 ^ 31 →
    plural number6 localized rules number .short =
      some ⟨rules |result.number| |result.number| 0 0 0 0, result.string⟩

theorem isDigit_toDigits (n : ℕ) : ∀ c ∈ Nat.toDigits 10 n, c.isDigit = true :=
  fun _ hc => Nat.isDigit_of_mem_toDigits (by decide) (by decide) hc

theorem readUnsigned_digits (n : ℕ) (rest : List Char)
    (hrest : rest.head?.all (fun c => !c.isDigit) = true) :
    readUnsigned (Nat.toDigits 10 n ++ rest) =
      (readMultiplier (readTenths rest).2).map fun multiplier =>
        (Nat.ofDigitChars 10 (Nat.toDigits 10 n ++ (readTenths rest).1) 0 : ℚ) /
          10 ^ (readTenths rest).1.length * multiplier := by
  have htake : rest.takeWhile Char.isDigit = [] := by
    cases rest with
    | nil => rfl
    | cons c rest =>
      have hc : c.isDigit = false := by simpa using hrest
      rw [List.takeWhile_cons, hc]
      rfl
  have hdrop : rest.dropWhile Char.isDigit = rest := by
    cases rest with
    | nil => rfl
    | cons c rest =>
      have hc : c.isDigit = false := by simpa using hrest
      rw [List.dropWhile_cons, hc]
      rfl
  rw [readUnsigned, List.takeWhile_append_of_pos (isDigit_toDigits n), htake,
    List.dropWhile_append_of_pos (isDigit_toDigits n), hdrop, List.append_nil]

theorem readCount_decimal (n : ℤ) (rest : List Char) :
    readCount (decimal n ++ rest) =
      (readUnsigned (Nat.toDigits 10 n.natAbs ++ rest)).map fun value =>
        if n < 0 then -value else value := by
  rw [decimal]
  by_cases hn : n < 0
  · simp only [if_pos hn, List.cons_append, readCount]
  · simp only [if_neg hn]
    obtain ⟨c, digits, hdigits⟩ : ∃ c digits, Nat.toDigits 10 n.natAbs = c :: digits :=
      List.exists_cons_of_length_pos Nat.length_toDigits_pos
    -- the first digit is no sign
    have hc : c ≠ '-' := by
      rintro rfl
      have hdigit := isDigit_toDigits n.natAbs '-' (hdigits ▸ List.mem_cons_self)
      exact absurd hdigit (by decide)
    have hsign : ∀ rest', Nat.toDigits 10 n.natAbs ++ rest = '-' :: rest' → False := by
      intro rest' h
      rw [hdigits, List.cons_append, List.cons.injEq] at h
      exact hc h.1
    rw [readCount, Option.map_id']
    exact hsign

theorem readUnsigned_shortened (rounded : ℕ) {multiplier : Char} {value : ℚ}
    (hvalue : readMultiplier [multiplier] = some value) :
    readUnsigned (Nat.toDigits 10 (rounded / 10) ++ (tenths rounded ++ [multiplier])) =
      some (rounded / 10 * value) := by
  have hletter : multiplier = 'K' ∨ multiplier = 'M' := by
    by_contra h
    rw [not_or] at h
    simp [readMultiplier, h.1, h.2] at hvalue
  have hdigit : multiplier.isDigit = false := by
    obtain rfl | rfl := hletter <;> rfl
  have hpoint : ∀ rest, [multiplier] = '.' :: rest → False := by
    obtain rfl | rfl := hletter <;> simp
  by_cases hzero : rounded % 10 ≠ 0
  · have htenths : tenths rounded = ['.', (rounded % 10).digitChar] := by
      rw [tenths, if_pos hzero, Nat.toDigits_of_lt_base (Nat.mod_lt _ (by decide))]
    have hlast : (rounded % 10).digitChar.isDigit = true := by
      apply isDigit_toDigits (rounded % 10)
      rw [Nat.toDigits_of_lt_base (Nat.mod_lt _ (by decide))]
      exact List.mem_singleton.mpr rfl
    have hread : readTenths (tenths rounded ++ [multiplier]) =
        ([(rounded % 10).digitChar], [multiplier]) := by
      rw [htenths]
      simp only [List.cons_append, List.nil_append, readTenths, List.takeWhile_cons,
        List.dropWhile_cons, hlast, hdigit, if_true]
      rfl
    have hwhole : Nat.ofDigitChars 10 (Nat.toDigits 10 (rounded / 10) ++
        [(rounded % 10).digitChar]) 0 = rounded := by
      rw [Nat.ofDigitChars_append, Nat.ofDigitChars_ten_toDigits,
        Nat.ofDigitChars_cons_digitChar_of_lt_ten (Nat.mod_lt _ (by decide)),
        Nat.ofDigitChars_nil, Nat.div_add_mod]
    rw [readUnsigned_digits, hread, hvalue, Option.map_some, hwhole, List.length_singleton, pow_one]
    rw [htenths]
    rfl
  · have htenths : tenths rounded = [] := if_neg hzero
    have hread : readTenths [multiplier] = ([], [multiplier]) := by
      rw [readTenths]
      exact hpoint
    have hten : (rounded : ℚ) = 10 * (rounded / 10 : ℕ) := by
      have hmul : rounded = 10 * (rounded / 10) := by omega
      exact_mod_cast hmul
    rw [htenths, List.nil_append, readUnsigned_digits, hread, hvalue, Option.map_some,
      List.append_nil, Nat.ofDigitChars_ten_toDigits, List.length_nil, pow_zero, div_one, hten]
    · congr 1
      ring
    · rw [List.head?_cons, Option.all_some, hdigit]
      rfl

/-- The string is right: it has as many tenths of the multiplier as fit in the number. -/
theorem readCount_shorten {number divider : ℤ} {multiplier : Char} {result : ShortenedCount}
    (hvalue : readMultiplier [multiplier] = some (divider : ℚ)) (hdivider : 10 ≤ divider)
    (hlarge : divider ≤ |number|) (h : shorten number divider multiplier = some result) :
    readCount result.string =
        some (number.sign * ((number.natAbs / (divider / 10).natAbs : ℕ) : ℚ) / 10 * divider) ∧
      result.number = (number.natAbs / (divider / 10).natAbs : ℕ) * divider := by
  obtain ⟨rounded, hrounded⟩ : ∃ rounded, number.natAbs / (divider / 10).natAbs = rounded :=
    ⟨_, rfl⟩
  have hten : 10 ≤ rounded := by
    rw [Int.abs_eq_natAbs] at hlarge
    rw [← hrounded, Nat.le_div_iff_mul_le (by omega)]
    omega
  rw [shorten] at h
  rw [hrounded] at h ⊢
  rw [Option.ite_none_right_eq_some] at h
  obtain ⟨-, h⟩ := h
  rw [← Option.some.inj h]
  refine ⟨?_, rfl⟩
  rw [List.append_assoc, readCount_decimal]
  by_cases hpos : 0 < number
  · have hquotient : (1 * (rounded : ℤ)).tdiv 10 = (rounded / 10 : ℕ) := by
      rw [one_mul]
      exact (Int.ofNat_tdiv rounded 10).symm
    have hnonneg : ¬ ((rounded / 10 : ℕ) : ℤ) < 0 := by omega
    rw [if_pos hpos, hquotient, Int.natAbs_natCast, readUnsigned_shortened rounded hvalue,
      Option.map_some, if_neg hnonneg, Int.sign_eq_one_of_pos hpos]
    norm_num
  · have hneg : number < 0 := by
      rw [Int.abs_eq_natAbs] at hlarge
      omega
    have hquotient : (-1 * (rounded : ℤ)).tdiv 10 = -((rounded / 10 : ℕ) : ℤ) := by
      rw [neg_one_mul, Int.neg_tdiv]
      exact congrArg Neg.neg (Int.ofNat_tdiv rounded 10).symm
    have hlt : -((rounded / 10 : ℕ) : ℤ) < 0 := by omega
    rw [if_neg hpos, hquotient, Int.natAbs_neg, Int.natAbs_natCast,
      readUnsigned_shortened rounded hvalue, Option.map_some, if_pos hlt,
      Int.sign_eq_neg_one_of_neg hneg]
    congr 1
    push_cast
    ring

/-- The number beside it is ten times that, without the sign. -/
theorem shorten_not_denotes {number divider : ℤ} {multiplier : Char} {result : ShortenedCount}
    (hvalue : readMultiplier [multiplier] = some (divider : ℚ)) (hdivider : 10 ≤ divider)
    (hlarge : divider ≤ |number|) (h : shorten number divider multiplier = some result) :
    readCount result.string ≠ some (result.number : ℚ) := by
  obtain ⟨hread, hnumber⟩ := readCount_shorten hvalue hdivider hlarge h
  obtain ⟨rounded, hrounded⟩ : ∃ rounded, number.natAbs / (divider / 10).natAbs = rounded :=
    ⟨_, rfl⟩
  have hten : 10 ≤ rounded := by
    rw [Int.abs_eq_natAbs] at hlarge
    rw [← hrounded, Nat.le_div_iff_mul_le (by omega)]
    omega
  rw [hrounded] at hread hnumber
  rw [hread, hnumber]
  intro heq
  have hvalues := Option.some.inj heq
  push_cast at hvalues
  have hpos : (0 : ℚ) < divider := by exact_mod_cast (by omega : 0 < divider)
  have hroundedPos : (0 : ℚ) < rounded := by exact_mod_cast (by omega : 0 < rounded)
  have hsign : ((number.sign : ℤ) : ℚ) ≤ 1 := by
    obtain hone | hzero | hneg := Int.sign_trichotomy number
    · rw [hone, Int.cast_one]
    · rw [hzero]
      norm_num
    · rw [hneg]
      norm_num
  nlinarith [mul_pos hroundedPos hpos]

theorem readCount_decimal_self (number : ℤ) : readCount (decimal number) = some (number : ℚ) := by
  have hread : readUnsigned (Nat.toDigits 10 number.natAbs ++ []) = some (number.natAbs : ℚ) := by
    rw [readUnsigned_digits _ _ rfl]
    change some ((Nat.ofDigitChars 10 (Nat.toDigits 10 number.natAbs ++ []) 0 : ℚ) / 10 ^ 0 * 1) = _
    rw [List.append_nil, Nat.ofDigitChars_ten_toDigits, pow_zero, div_one, mul_one]
  have h := readCount_decimal number []
  rw [List.append_nil, hread, Option.map_some] at h
  rw [h, Nat.cast_natAbs]
  by_cases hneg : number < 0
  · rw [if_pos hneg, abs_of_neg hneg, Int.cast_neg, neg_neg]
  · rw [if_neg hneg, abs_of_nonneg (not_lt.mp hneg)]

theorem qRound_intCast {number : ℤ} (h : number.natAbs < 2 ^ 31) :
    qRound (number : ℚ) = some number := by
  have hround : (if 0 ≤ (number : ℚ) then ⌊(number : ℚ) + 1 / 2⌋ else ⌈(number : ℚ) - 1 / 2⌉) =
      number := by
    have hfloor : ⌊(number : ℚ) + 1 / 2⌋ = number := by
      rw [Int.floor_intCast_add]
      norm_num
    have hceil : ⌈(number : ℚ) - 1 / 2⌉ = number := by
      rw [sub_eq_add_neg, Int.ceil_intCast_add]
      norm_num
    rw [hfloor, hceil, ite_self]
  rw [qRound, hround, toInt, if_pos (by omega)]

/-- A number that is not cut is the operand of the rules. -/
theorem plural_small (number6 : ℚ → List Char) (localized : ℤ → List Char) (rules : PluralRules)
    {number : ℤ} (h : number.natAbs < 10000) :
    plural number6 localized rules number .short =
      some ⟨rules |number| |number| 0 0 0 0, decimal number⟩ := by
  have hshort : formatCountToShort number = some ⟨number, decimal number⟩ := by
    rw [formatCountToShort, if_neg (by omega), if_neg (by omega)]
  have hround : qRound (number : ℚ) = some number := qRound_intCast (by omega)
  have hn : (if number ≠ 0 then (number : ℚ) else (number : ℚ)) = (number : ℚ) := ite_self _
  have habs : |(number : ℚ)| = ((|number| : ℤ) : ℚ) := (Int.cast_abs).symm
  have hint : toInt |number| = some |number| := by
    rw [toInt, if_pos]
    rw [Int.abs_eq_natAbs]
    omega
  rw [plural, if_pos rfl, hround]
  simp only [Option.bind_eq_bind, Option.bind_some, hshort, hn, habs, Int.floor_intCast,
    Int.ceil_intCast, hint, beq_self_eq_true, if_true]
  rfl

theorem formatCountToShort_small {number : ℤ} (h : |number| < 10000) :
    Denotes number ⟨number, decimal number⟩ where
  reading := readCount_decimal_self number
  le := le_rfl
  small _ := rfl
  near hlarge := absurd h (not_lt.mpr hlarge)
  sign := rfl
  chosen number6 localized rules _ := by
    rw [Int.abs_eq_natAbs] at h
    exact plural_small number6 localized rules (by omega)

/-- From ten thousand on the number is not the one that is shown. -/
theorem formatCountToShort_denotes_iff (number : ℤ) :
    (∃ result, formatCountToShort number = some result ∧ Denotes number result) ↔
      |number| < 10000 := by
  have habs := Int.abs_eq_natAbs number
  constructor
  · rintro ⟨result, hresult, hdenotes⟩
    by_contra hlarge
    rw [formatCountToShort] at hresult
    split_ifs at hresult with hmillion hten
    · have hvalue : readMultiplier ['M'] = some ((1000000 : ℤ) : ℚ) := by
        norm_num [readMultiplier]
      exact shorten_not_denotes hvalue (by decide) (by omega) hresult hdenotes.reading
    · have hvalue : readMultiplier ['K'] = some ((1000 : ℤ) : ℚ) := by
        norm_num [readMultiplier]
      exact shorten_not_denotes hvalue (by decide) (by omega) hresult hdenotes.reading
    · omega
  · intro h
    refine ⟨⟨number, decimal number⟩, ?_, formatCountToShort_small h⟩
    rw [formatCountToShort, if_neg (by omega), if_neg (by omega)]

theorem formatCountToShort_12345 :
    ¬ ∃ result, formatCountToShort 12345 = some result ∧ Denotes 12345 result := by
  rintro ⟨result, hresult, hdenotes⟩
  have heq : formatCountToShort 12345 = some ⟨123000, ['1', '2', '.', '3', 'K']⟩ := by decide
  rw [heq] at hresult
  have hle := hdenotes.le
  rw [← Option.some.inj hresult] at hle
  revert hle
  decide

end TelegramDesktop.Lang
