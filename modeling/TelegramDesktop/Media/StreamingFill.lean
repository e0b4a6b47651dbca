import TelegramDesktop.Media.StreamingSlicesRun

namespace TelegramDesktop.Media.Streaming
open Base

def kPreloadPartsAhead : ℕ := 8

def kLoadFromRemoteMax : ℕ := 8

def kReadFromCacheMax : ℕ := 2

/-- Values up to a number of them. -/
structure StackIntVector (size : ℕ) where
  values : List ℕ := []
  length_le : values.length ≤ size := by decide

/-- The value is not added, and the answer is `false`, if there is no room. -/
def StackIntVector.add {size : ℕ} (v : StackIntVector size) (value : ℕ) :
    StackIntVector size × Bool :=
  if h : v.values.length < size then
    (⟨v.values ++ [value], by rw [List.length_append]; exact h⟩, true)
  else (v, false)

structure PrepareFillResult where
  offsetsFromLoader : StackIntVector kLoadFromRemoteMax := {}
  /-- The parts from `start` till `finish`. -/
  parts : List (ℕ × List UInt8) := []
  ready : Bool := true

/-- The loop of `offsetsFromLoader` over the offsets that are left, with the parts from `check`. -/
def addNotLoaded (check : List (ℕ × List UInt8)) (result : StackIntVector kLoadFromRemoteMax) :
    List ℕ → StackIntVector kLoadFromRemoteMax
  | [] => result
  | offset :: offsets =>
    let check := check.dropWhile fun part => decide (part.1 < offset)
    if check.head?.any fun part => part.1 == offset then addNotLoaded check result offsets
    else
      let added := result.add offset
      if added.2 then addNotLoaded check added.1 offsets else result

/-- The place behind the parts that do not start after the offset. -/
def upperBound (parts : PartsMap) (offset : ℕ) : ℕ :=
  (parts.entries.takeWhile fun part => decide (part.1 ≤ offset)).length

namespace Slice

/-- The loop goes on until its offset is `till`, which is whole parts after `from_`. -/
def offsetsFromLoader (slice : Slice) (from_ till : ℕ) : StackIntVector kLoadFromRemoteMax :=
  addNotLoaded (slice.parts.entries.drop (upperBound slice.parts from_ - 1)) {}
    ((List.range ((till - from_) / kPartSize)).map fun i => from_ + i * kPartSize)

def prepareFill (slice : Slice) (from_ till : ℕ) : PrepareFillResult :=
  let fromOffset := from_ / kPartSize * kPartSize
  let tillPart := (till + kPartSize - 1) / kPartSize
  let preloadTillOffset := (tillPart + kPreloadPartsAhead) * kPartSize
  let after := upperBound slice.parts from_
  if after = 0 then {
    offsetsFromLoader := slice.offsetsFromLoader fromOffset preloadTillOffset
    ready := false }
  else
    let parts := (slice.parts.entries.drop (after - 1)).takeWhile fun part => decide (part.1 < till)
    let haveTill := findNotLoadedStart parts fromOffset
    if haveTill < till then {
      offsetsFromLoader := slice.offsetsFromLoader haveTill preloadTillOffset
      ready := false }
    else {
      offsetsFromLoader := slice.offsetsFromLoader (tillPart * kPartSize) preloadTillOffset
      parts }

end Slice

/-- What is copied to the buffer, where `none` is a failed `Assert`. -/
def copyLoaded (till : ℕ) : List (ℕ × List UInt8) → ℕ → Option (List UInt8)
  | [], _ => some []
  | part :: parts, filled =>
    let copyTill := min (part.1 + part.2.length) till
    if part.1 ≤ filled ∧ filled < copyTill then
      (copyLoaded till parts copyTill).map fun rest =>
        (part.2.drop (filled - part.1)).take (copyTill - filled) ++ rest
    else none

inductive FillState where
  | success
  | waitingCache
  | waitingRemote
  | failed
  deriving DecidableEq

/-- The result, with what the buffer is filled with. -/
structure FillResult where
  sliceNumbersFromCache : StackIntVector kReadFromCacheMax := {}
  offsetsFromLoader : StackIntVector kLoadFromRemoteMax := {}
  toCache : Option SerializedSlice := none
  state : FillState := .waitingRemote
  buffer : List UInt8 := []

namespace Slices

def cacheNotLoaded (s : Slices) (slice : Slice) : Prop :=
  s.headerMode ≠ .noCache ∧ s.headerMode ≠ .unknown ∧ ¬ slice.loadedFromCache

instance (s : Slices) (slice : Slice) : Decidable (s.cacheNotLoaded slice) := by
  unfold cacheNotLoaded
  infer_instance

/-- The offsets of a slice that are in it and in the file. -/
def addOffsets (size base limit : ℕ) (values : List ℕ)
    (offsets : StackIntVector kLoadFromRemoteMax) : StackIntVector kLoadFromRemoteMax :=
  values.foldl (fun offsets offset =>
    if offset < limit ∧ offset + base < size then (offsets.add (offset + base)).1 else offsets)
    offsets

def handlePrepareResult (s : Slices) (sliceIndex : ℕ) (slice : Slice)
    (prepared : PrepareFillResult) (offsets : StackIntVector kLoadFromRemoteMax) :
    StackIntVector kLoadFromRemoteMax :=
  if s.cacheNotLoaded slice then offsets
  else addOffsets s.size (sliceIndex * kInSlice) kInSlice prepared.offsetsFromLoader.values offsets

/-- `handleReadFromCache` with what it does to the result. -/
def readSlice (sliceIndex : ℕ) (filled : FillResult × Slices) : Option (FillResult × Slices) :=
  filled.2.data[sliceIndex]?.bind fun slice =>
    (filled.2.handleReadFromCache sliceIndex).map fun s =>
      if filled.2.cacheNotLoaded slice then
        ({ filled.1 with
          state := .waitingCache
          sliceNumbersFromCache :=
            if slice.loadingFromCache then filled.1.sliceNumbersFromCache
            else (filled.1.sliceNumbersFromCache.add (sliceIndex + 1)).1 }, s)
      else (filled.1, s)

def fillFromHeader (s : Slices) (offset length : ℕ) : Option FillResult :=
  let till := offset + length
  let prepared := s.header.prepareFill offset till
  let offsetsFromLoader := addOffsets s.size 0 s.size prepared.offsetsFromLoader.values {}
  if prepared.ready then
    (copyLoaded till prepared.parts offset).map fun buffer =>
      { offsetsFromLoader, buffer, state := .success }
  else some { offsetsFromLoader }

/-- `fill` where the range is in one slice. -/
def fillFromSlice (s : Slices) (sliceIndex from_ till : ℕ) : Option (FillResult × Slices) :=
  s.data[sliceIndex]?.bind fun slice =>
    let prepared := slice.prepareFill from_ till
    let offsetsFromLoader := s.handlePrepareResult sliceIndex slice prepared {}
    if prepared.ready then
      (copyLoaded till prepared.parts from_).bind fun buffer =>
        (s.markSliceUsed sliceIndex).serializeAndUnloadUnused.map fun unloaded =>
          ({ offsetsFromLoader, buffer, toCache := unloaded.1, state := .success }, unloaded.2)
    else readSlice sliceIndex ({ offsetsFromLoader }, s)

/-- `fill` where the range is in a slice and the next one. -/
def fillFromSlices (s : Slices) (sliceIndex from_ firstTill secondTill : ℕ) :
    Option (FillResult × Slices) :=
  s.data[sliceIndex]?.bind fun slice =>
    s.data[sliceIndex + 1]?.bind fun next =>
      let first := slice.prepareFill from_ firstTill
      let second := next.prepareFill 0 secondTill
      let offsetsFromLoader := s.handlePrepareResult (sliceIndex + 1) next second
        (s.handlePrepareResult sliceIndex slice first {})
      if first.ready && second.ready then
        (copyLoaded firstTill first.parts from_).bind fun buffer =>
          (copyLoaded secondTill second.parts 0).bind fun rest =>
            ((s.markSliceUsed sliceIndex).markSliceUsed
                (sliceIndex + 1)).serializeAndUnloadUnused.map fun unloaded =>
              ({ offsetsFromLoader, buffer := buffer ++ rest, toCache := unloaded.1,
                 state := .success }, unloaded.2)
      else (readSlice sliceIndex ({ offsetsFromLoader }, s)).bind (readSlice (sliceIndex + 1))

/-- The `Expects` of `fill`. -/
def Admissible (s : Slices) (offset length : ℕ) : Prop :=
  0 < length ∧ offset < s.size ∧ offset + length ≤ s.size ∧ length ≤ kInSlice

instance (s : Slices) (offset length : ℕ) : Decidable (s.Admissible offset length) := by
  unfold Admissible
  infer_instance

def fill (s : Slices) (offset length : ℕ) : Option (FillResult × Slices) :=
  let till := offset + length
  let fromSlice := offset / kInSlice
  let tillSlice := (till + kInSlice - 1) % 2 ^ 32 / kInSlice
  let firstFrom := offset - fromSlice * kInSlice
  let firstTill := min kInSlice (till - fromSlice * kInSlice)
  if ¬ s.Admissible offset length then none
  else if s.headerMode ≠ .noCache ∧ ¬ s.header.loadedFromCache then
    -- The initial cache query is waited for.
    if s.header.loadingFromCache then some ({}, s) else none
  else if s.isFullInHeader then (s.fillFromHeader offset length).map fun result => (result, s)
  else if s.data.length < tillSlice then none
  else if fromSlice + 1 = tillSlice then s.fillFromSlice fromSlice firstFrom firstTill
  else if fromSlice + 2 = tillSlice then
    s.fillFromSlices fromSlice firstFrom firstTill (till - (fromSlice + 1) * kInSlice)
  else none

end Slices

end TelegramDesktop.Media.Streaming
