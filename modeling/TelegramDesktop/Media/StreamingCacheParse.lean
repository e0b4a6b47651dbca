import TelegramDesktop.Base.FlatMapFold
import TelegramDesktop.Media.StreamingCache

namespace TelegramDesktop.Media.Streaming
open Base

/-- A part at its place: it is a whole one or ends where the file does. -/
def ValidPart (limit : ℕ) (part : ℕ × List UInt8) : Prop :=
  part.1 % kPartSize = 0 ∧ part.1 < limit ∧ part.2.length = min kPartSize (limit - part.1)

def ValidParts (limit : ℕ) (parts : PartsMap) : Prop :=
  ∀ part ∈ parts.entries, ValidPart limit part

theorem takeInt_appendInt {value : ℕ} (h : value < 2 ^ 32) (rest : List UInt8) :
    takeInt (appendInt value ++ rest) = some (value, rest) := by
  have hword : (Words.word (UInt32.ofNat value).toUInt8 (UInt32.ofNat value >>> 8).toUInt8
      (UInt32.ofNat value >>> 16).toUInt8 (UInt32.ofNat value >>> 24).toUInt8).toNat = value := by
    rw [Words.word_ofWord, UInt32.toNat_ofNat']
    exact Nat.mod_eq_of_lt h
  exact congrArg some (Prod.ext hword rfl)

theorem int32_of_lt {n : ℕ} (h : n < 2 ^ 31) : int32 n = n := by
  rw [int32, Int.bmod_def]
  split_ifs <;> omega

theorem toNat_int32 {n : ℕ} (h : n < 2 ^ 32) : (int32 n % 2 ^ 32).toNat = n := by
  rw [int32, Int.bmod_def]
  split_ifs <;> omega

theorem takeBytes_append {bytes : List UInt8} (hpos : 0 < bytes.length)
    (hlen : bytes.length < 2 ^ 31) (rest : List UInt8) :
    takeBytes (int32 bytes.length) (bytes ++ rest) = (bytes, rest) := by
  have hfit : ¬ ((bytes.length : ℤ) ≤ 0 ∨
      (((bytes ++ rest).length : ℕ) : ℤ) < (bytes.length : ℤ)) := by
    rw [List.length_append]
    omega
  rw [int32_of_lt hlen, takeBytes, if_neg hfit, Int.toNat_natCast, List.take_left', List.drop_left']
  · rfl
  · rfl

/-- A part that is read back whole. -/
def Fits (maxSize : ℕ) (part : ℕ × List UInt8) : Prop :=
  0 < part.2.length ∧ part.2.length ≤ kPartSize ∧ part.1 + part.2.length ≤ maxSize

theorem takePart_serialized {maxSize : ℕ} (hmax : maxSize < 2 ^ 32) {part : ℕ × List UInt8}
    (h : Fits maxSize part) (rest : List UInt8) :
    takePart maxSize (serializePart part ++ rest) = some (part, rest) := by
  obtain ⟨hpos, hlen, hend⟩ := h
  have hsmall : part.2.length < 2 ^ 31 := by
    simp only [kPartSize] at hlen
    omega
  have hoffset : part.1 < 2 ^ 32 := by omega
  have hsize : part.2.length < 2 ^ 32 := by omega
  have hgood : ¬ IsBadPart maxSize part.1 part.2.length part.2 := by
    unfold IsBadPart
    omega
  have hdata : serializePart part ++ rest = appendInt part.1 ++
      (appendInt part.2.length ++ (part.2 ++ rest)) := by
    simp only [serializePart, List.append_assoc]
  unfold takePart
  simp only [hdata, takeInt_appendInt hoffset, takeInt_appendInt hsize,
    takeBytes_append hpos hsmall, Option.getD_some]
  rw [if_neg hgood]

theorem parseParts_succ {maxSize count : ℕ} {result : PartsMap} {part : ℕ × List UInt8}
    {data rest : List UInt8} (h : takePart maxSize data = some (part, rest)) :
    parseParts maxSize (count + 1) result data =
      parseParts maxSize count (result.emplace part.1 part.2) rest := by
  rw [parseParts.eq_2, h]

theorem parseParts_serialized {maxSize : ℕ} (hmax : maxSize < 2 ^ 32)
    {entries : List (ℕ × List UInt8)} (h : ∀ part ∈ entries, Fits maxSize part)
    (result : PartsMap) (rest : List UInt8) :
    parseParts maxSize entries.length result (entries.flatMap serializePart ++ rest) =
      (emplaceAll entries result, rest) := by
  induction entries generalizing result with
  | nil => rfl
  | cons part entries ih =>
    have hpart := takePart_serialized hmax (h part List.mem_cons_self)
      (entries.flatMap serializePart ++ rest)
    have hnext := ih (fun other hother => h other (List.mem_cons_of_mem _ hother))
      (result.emplace part.1 part.2)
    rw [List.length_cons, List.flatMap_cons, List.append_assoc, emplaceAll_cons, ← hnext]
    exact parseParts_succ hpart

theorem parseComplexCachedMap_serialized {maxSize : ℤ} {parts : PartsMap}
    (hcount : parts.size ≤ 80)
    (h : ∀ part ∈ parts.entries, Fits (maxSize % 2 ^ 32).toNat part) (rest : List UInt8) :
    parseComplexCachedMap ∅ (serializeComplexPartsMap parts ++ rest) maxSize = (parts, rest) := by
  have hmax : (maxSize % 2 ^ 32).toNat < 2 ^ 32 := by
    have hlt := Int.emod_lt_of_pos maxSize (show (0 : ℤ) < 2 ^ 32 by norm_num)
    have hnonneg := Int.emod_nonneg maxSize (show (2 : ℤ) ^ 32 ≠ 0 by norm_num)
    omega
  have hsize : parts.size < 2 ^ 32 := by omega
  rw [serializeComplexPartsMap, List.append_assoc, parseComplexCachedMap,
    takeInt_appendInt hsize]
  dsimp only
  by_cases hzero : parts.size = 0
  · have hempty : parts.entries = [] := List.length_eq_zero_iff.mp hzero
    rw [if_pos (.inl hzero), hempty, FlatMap.ext (x := parts) (y := ∅) hempty]
    rfl
  · have hfew : ¬ (parts.size = 0 ∨ kMaxOnlyInHeader / kPartSize < parts.size) := by
      simp only [kMaxOnlyInHeader, kPartSize]
      omega
    rw [if_neg hfew, FlatMap.size, parseParts_serialized hmax h, emplaceAll_entries]

theorem length_serializePart (part : ℕ × List UInt8) :
    (serializePart part).length = 8 + part.2.length := by
  simp [serializePart, appendInt]
  omega

/-- Where the parts are whole ones. -/
theorem length_serializeComplex_whole {parts : PartsMap}
    (h : ∀ part ∈ parts.entries, part.2.length = kPartSize) :
    (serializeComplexPartsMap parts).length = 4 + parts.size * (8 + kPartSize) := by
  have hentries : ∀ entries : List (ℕ × List UInt8),
      (∀ part ∈ entries, part.2.length = kPartSize) →
      (entries.flatMap serializePart).length = entries.length * (8 + kPartSize) := by
    intro entries hall
    induction entries with
    | nil => simp
    | cons part entries ih =>
      rw [List.flatMap_cons, List.length_append, length_serializePart,
        hall part List.mem_cons_self, ih fun other ho => hall other (List.mem_cons_of_mem _ ho),
        List.length_cons]
      ring
  rw [serializeComplexPartsMap, List.length_append, hentries _ h]
  rfl

theorem length_serializeComplex_le {parts : PartsMap}
    (h : ∀ part ∈ parts.entries, part.2.length ≤ kPartSize) :
    (serializeComplexPartsMap parts).length ≤ 4 + parts.size * (8 + kPartSize) := by
  have hentries : ∀ entries : List (ℕ × List UInt8),
      (∀ part ∈ entries, part.2.length ≤ kPartSize) →
      (entries.flatMap serializePart).length ≤ entries.length * (8 + kPartSize) := by
    intro entries hall
    induction entries with
    | nil => simp
    | cons part entries ih =>
      have hlen := hall part List.mem_cons_self
      have hrest := ih fun other ho => hall other (List.mem_cons_of_mem _ ho)
      rw [List.flatMap_cons, List.length_append, length_serializePart, List.length_cons,
        Nat.succ_mul]
      omega
  have hlen := hentries _ h
  rw [serializeComplexPartsMap, List.length_append]
  have hint : (appendInt parts.size).length = 4 := rfl
  rw [FlatMap.size] at hint ⊢
  omega

/-- Data is kept from a contiguous size by at most three bytes. -/
theorem avoidContiguous_spec (data : List UInt8) (maxSize : ℤ) :
    ∃ n, n ≤ 3 ∧ avoidContiguous data maxSize = data ++ List.replicate n 0 ∧
      ¬ IsContiguousSerialization (avoidContiguous data maxSize).length maxSize := by
  have hrank : ∃ n, n ≤ contiguousRank data.length maxSize ∧
      avoidContiguous data maxSize = data ++ List.replicate n 0 ∧
      ¬ IsContiguousSerialization (avoidContiguous data maxSize).length maxSize := by
    induction data using avoidContiguous.induct maxSize with
    | case1 data h ih =>
      obtain ⟨n, hn, heq, hnot⟩ := ih
      rw [avoidContiguous, if_pos h]
      have hlt := contiguousRank_lt h
      rw [List.length_append, List.length_singleton] at hn
      refine ⟨n + 1, by omega, ?_, hnot⟩
      rw [heq, List.append_assoc]
      rfl
    | case2 data h =>
      rw [avoidContiguous, if_neg h]
      exact ⟨0, Nat.zero_le _, by simp, h⟩
  obtain ⟨n, hn, heq⟩ := hrank
  refine ⟨n, hn.trans ?_, heq⟩
  rw [contiguousRank]
  split_ifs <;> omega

/-- Complex data that is kept from a contiguous size is read back, with what follows. -/
theorem parseCachedMap_complex {maxSize : ℤ} {parts : PartsMap} (hcount : parts.size ≤ 80)
    (h : ∀ part ∈ parts.entries, Fits (maxSize % 2 ^ 32).toNat part) {tail : List UInt8}
    (htail : tail.length ≤ 4 + 80 * (8 + kPartSize)) :
    ∃ n, n ≤ 3 ∧
      ¬ IsContiguousSerialization (int32
        (avoidContiguous (serializeComplexPartsMap parts ++ tail) maxSize).length) maxSize ∧
      parseCachedMap ∅ (avoidContiguous (serializeComplexPartsMap parts ++ tail) maxSize) maxSize =
        (parts, tail ++ List.replicate n 0) := by
  obtain ⟨n, hn, heq, hnot⟩ := avoidContiguous_spec (serializeComplexPartsMap parts ++ tail) maxSize
  have hlen := length_serializeComplex_le fun part hp => (h part hp).2.1
  have hsmall : (avoidContiguous (serializeComplexPartsMap parts ++ tail) maxSize).length <
      2 ^ 31 := by
    have hmul := Nat.mul_le_mul_right (8 + kPartSize) hcount
    rw [heq, List.length_append, List.length_append, List.length_replicate]
    simp only [kPartSize] at hlen htail hmul
    omega
  rw [← int32_of_lt hsmall] at hnot
  refine ⟨n, hn, hnot, ?_⟩
  rw [parseCachedMap]
  rw [if_neg hnot, heq, List.append_assoc, parseComplexCachedMap_serialized hcount h]

end TelegramDesktop.Media.Streaming
