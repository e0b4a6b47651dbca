import TelegramDesktop.Base.FlatMap
import TelegramDesktop.Base.Words

namespace TelegramDesktop.Media.Streaming
open Base

def kPartSize : ℕ := 128 * 1024

def kPartsInSlice : ℕ := 64

def kInSlice : ℕ := kPartsInSlice * kPartSize

def kMaxPartsInHeader : ℕ := 64

def kMaxOnlyInHeader : ℕ := 80 * kPartSize

def kPartsOutsideFirstSliceGood : ℕ := 8

/-- Parts of a file by their offset. -/
abbrev PartsMap := FlatMap ℕ (List UInt8)

structure ParsedCacheEntry where
  parts : PartsMap := ∅
  included : Option PartsMap := none

def int32 (n : ℤ) : ℤ := n.bmod (2 ^ 32)

def IsContiguousSerialization (serializedSize maxSliceSize : ℤ) : Prop :=
  serializedSize % kPartSize = 0 ∨ serializedSize = maxSliceSize

instance (serializedSize maxSliceSize : ℤ) :
    Decidable (IsContiguousSerialization serializedSize maxSliceSize) := by
  unfold IsContiguousSerialization
  infer_instance

def isFullInHeader (size : ℕ) : Bool := size ≤ kMaxOnlyInHeader

def computeIsGoodHeader (size : ℕ) (header : PartsMap) : Bool :=
  let outsideFirstSlice := header.entries.dropWhile fun part => decide (part.1 < kInSlice)
  ¬ isFullInHeader size ∧ outsideFirstSlice.length ≤ kPartsOutsideFirstSliceGood

/-- The `Ensures` is left to where the slices are made. -/
def slicesCount (size : ℕ) : ℕ := (size + kInSlice - 1) % 2 ^ 32 / kInSlice

def maxSliceSize (sliceNumber size : ℕ) : ℤ :=
  int32 (if sliceNumber = 0 then size
    else if sliceNumber = slicesCount size then size - (sliceNumber - 1) * kInSlice
    else kInSlice)

def takeInt : List UInt8 → Option (ℕ × List UInt8)
  | b₀ :: b₁ :: b₂ :: b₃ :: data => some ((Words.word b₀ b₁ b₂ b₃).toNat, data)
  | _ => none

def takeBytes (count : ℤ) (data : List UInt8) : List UInt8 × List UInt8 :=
  if count ≤ 0 ∨ data.length < count then ([], data)
  else (data.take count.toNat, data.drop count.toNat)

/-- What `ParseComplexCachedMap` checks of a part. The sum and the size are `uint32`. -/
def IsBadPart (maxSize offset size : ℕ) (bytes : List UInt8) : Prop :=
  maxSize ≤ offset ∨ size = 0 ∨ maxSize < size ∨ maxSize < (offset + size) % 2 ^ 32 ∨
    bytes.length ≠ size

instance (maxSize offset size : ℕ) (bytes : List UInt8) :
    Decidable (IsBadPart maxSize offset size bytes) := by
  unfold IsBadPart
  infer_instance

/-- A turn of the loop of `ParseComplexCachedMap`: the part at the start of the data. -/
def takePart (maxSize : ℕ) (data : List UInt8) : Option ((ℕ × List UInt8) × List UInt8) :=
  let offset := (takeInt data).getD (0, data)
  let size := (takeInt offset.2).getD (0, offset.2)
  let bytes := takeBytes (int32 size.1) size.2
  if IsBadPart maxSize offset.1 size.1 bytes.1 then none else some ((offset.1, bytes.1), bytes.2)

/-- The loop of `ParseComplexCachedMap`. -/
def parseParts (maxSize : ℕ) : ℕ → PartsMap → List UInt8 → PartsMap × List UInt8
  | 0, result, data => (result, data)
  | count + 1, result, data =>
    match takePart maxSize data with
    | none => (result, [])
    | some (part, data) => parseParts maxSize count (result.emplace part.1 part.2) data

def parseComplexCachedMap (result : PartsMap) (data : List UInt8) (maxSize : ℤ) :
    PartsMap × List UInt8 :=
  match takeInt data with
  | none => (result, [])
  | some (count, data) =>
    if count = 0 ∨ kMaxOnlyInHeader / kPartSize < count then (result, data)
    else parseParts (maxSize % 2 ^ 32).toNat count result data

/-- The loop of `ParseCachedMap` over contiguous parts. -/
def parseContiguous (offset : ℕ) (data : List UInt8) (result : PartsMap) : PartsMap :=
  if data = [] then result
  else parseContiguous (offset + kPartSize) (data.drop kPartSize)
    (result.emplace offset (data.take kPartSize))
termination_by data.length
decreasing_by
  have hpos : 0 < data.length := List.length_pos_iff.mpr ‹_›
  rw [List.length_drop, kPartSize]
  omega

def parseCachedMap (result : PartsMap) (data : List UInt8) (maxSize : ℤ) :
    PartsMap × List UInt8 :=
  let size := int32 data.length
  if IsContiguousSerialization size maxSize then
    if maxSize < size then (result, []) else (parseContiguous 0 data result, [])
  else parseComplexCachedMap result data maxSize

def parseCacheEntry (data : List UInt8) (sliceNumber size : ℕ) : ParsedCacheEntry :=
  let parsed := parseCachedMap ∅ data (maxSliceSize sliceNumber size)
  if sliceNumber = 0 ∧ computeIsGoodHeader size parsed.1 then
    ⟨parsed.1, some (parseCachedMap ∅ parsed.2 (maxSliceSize 1 size)).1⟩
  else ⟨parsed.1, none⟩

def findNotLoadedStart : List (ℕ × List UInt8) → ℕ → ℕ
  | [], result => result
  | part :: parts, result =>
    let partEnd := part.1 + part.2.length
    if part.1 ≤ result ∧ result ≤ partEnd then findNotLoadedStart parts partEnd else result

def appendInt (value : ℕ) : List UInt8 := Words.ofWord (.ofNat value)

def serializePart (part : ℕ × List UInt8) : List UInt8 :=
  appendInt part.1 ++ appendInt part.2.length ++ part.2

def serializeComplexPartsMap (parts : PartsMap) : List UInt8 :=
  appendInt parts.size ++ parts.entries.flatMap serializePart

/-- The bytes of the parts one after another. -/
def contiguousData (entries : List (ℕ × List UInt8)) : List UInt8 := entries.flatMap Prod.snd

/-- How the sizes that are taken for contiguous ones go by. -/
def contiguousRank (size : ℕ) (maxSize : ℤ) : ℕ :=
  (if (size : ℤ) ≤ maxSize then 2 else 0) + if size % kPartSize = 0 then 1 else 0

theorem contiguousRank_lt {size : ℕ} {maxSize : ℤ} (h : IsContiguousSerialization size maxSize) :
    contiguousRank (size + 1) maxSize < contiguousRank size maxSize := by
  rw [contiguousRank, contiguousRank]
  have hfit : (if ((size + 1 : ℕ) : ℤ) ≤ maxSize then 2 else 0) ≤
      if (size : ℤ) ≤ maxSize then 2 else 0 := by
    split_ifs <;> omega
  have hnext : (if (size + 1) % kPartSize = 0 then 1 else 0) ≤ 1 := by
    split_ifs <;> omega
  rcases h with h | h
  · have hwhole : size % kPartSize = 0 := by
      simp only [kPartSize] at h ⊢
      omega
    have hrest : ¬ (size + 1) % kPartSize = 0 := by
      simp only [kPartSize] at hwhole ⊢
      omega
    rw [if_neg hrest, if_pos hwhole]
    omega
  · have hlonger : ¬ ((size + 1 : ℕ) : ℤ) ≤ maxSize := by omega
    rw [if_neg hlonger, if_pos h.le]
    omega

/-- The bytes that keep data from being taken for full continuous data. -/
def avoidContiguous (data : List UInt8) (maxSize : ℤ) : List UInt8 :=
  if IsContiguousSerialization data.length maxSize then avoidContiguous (data ++ [0]) maxSize
  else data
termination_by contiguousRank data.length maxSize
decreasing_by
  rename_i h
  rw [List.length_append, List.length_singleton]
  exact contiguousRank_lt h

end TelegramDesktop.Media.Streaming
