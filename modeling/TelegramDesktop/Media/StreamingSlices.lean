import TelegramDesktop.Media.StreamingCache

/-! The slices of a streamed file. `none` is a failed `Expects` or `Assert`. -/

namespace TelegramDesktop.Media.Streaming
open Base

def kSlicesInMemory : ℕ := 2

structure Slice where
  parts : PartsMap := ∅
  loadingFromCache : Bool := false
  loadedFromCache : Bool := false
  changedSinceCache : Bool := false
  fullInCache : Bool := false

def Slice.processCacheData (slice : Slice) (data : PartsMap) : Option Slice :=
  if slice.loadingFromCache && !slice.loadedFromCache then
    some { slice with
      parts :=
        if slice.parts.isEmpty then data
        else data.entries.foldl (fun parts part => parts.emplace part.1 part.2) slice.parts
      loadedFromCache := true
      loadingFromCache := false }
  else none

def Slice.addPart (slice : Slice) (offset : ℕ) (bytes : List UInt8) : Option Slice :=
  if slice.parts.contains offset then none
  else some { slice with
    parts := slice.parts.emplace offset bytes
    changedSinceCache := slice.changedSinceCache || slice.loadedFromCache }

inductive HeaderMode where
  | unknown
  | small
  | good
  | full
  | noCache
  deriving DecidableEq

structure Slices where
  data : List Slice
  header : Slice
  usedSlices : List ℕ := []
  size : ℕ
  headerMode : HeaderMode
  fullInCache : Bool := false

structure SerializedSlice where
  number : ℕ
  data : List UInt8

namespace Slices

def init (size : ℕ) (useCache : Bool) : Option Slices :=
  if size = 0 ∨ 0x1FF ≤ slicesCount size ∧ ¬ isFullInHeader size then none
  else some {
    data := if isFullInHeader size then [] else List.replicate (slicesCount size) {}
    header := { loadingFromCache := useCache }
    size := size
    headerMode := if useCache then .unknown else .noCache }

def isFullInHeader (s : Slices) : Bool := Streaming.isFullInHeader s.size

def isGoodHeader (s : Slices) : Bool := s.headerMode = .good

def computeIsGoodHeader (s : Slices) : Bool := Streaming.computeIsGoodHeader s.size s.header.parts

/-- The mode of a header that is done. -/
def doneMode (s : Slices) : HeaderMode :=
  if s.isFullInHeader then .full else if s.computeIsGoodHeader then .good else .small

def headerDone (s : Slices) (fromCache : Bool) : Option Slices :=
  if s.headerMode ≠ .unknown then some s
  else if fromCache then some { s with headerMode := s.doneMode }
  else if s.data.any fun slice => slice.loadingFromCache || slice.loadedFromCache then none
  else some { s with
    headerMode := s.doneMode
    data := s.data.map fun slice => { slice with loadedFromCache := true } }

/-- The slice of a number, where `0` is for the header. -/
def slice? (s : Slices) (sliceNumber : ℕ) : Option Slice :=
  if sliceNumber = 0 then some s.header else s.data[sliceNumber - 1]?

def setSlice (s : Slices) (sliceNumber : ℕ) (slice : Slice) : Slices :=
  if sliceNumber = 0 then { s with header := slice }
  else { s with data := s.data.set (sliceNumber - 1) slice }

/-- `_data[offset / kInSlice].addPart`. -/
def addToData (data : List Slice) (offset : ℕ) (bytes : List UInt8) : Option (List Slice) :=
  let index := offset / kInSlice
  data[index]?.bind fun slice =>
    (slice.addPart (offset - index * kInSlice) bytes).map fun slice => data.set index slice

def applyWhile (predicate : ℕ → Bool) :
    List (ℕ × List UInt8) → List Slice → Option (List Slice)
  | [], data => some data
  | part :: parts, data =>
    if predicate (part.1 / kInSlice) then
      (addToData data part.1 part.2).bind (applyWhile predicate parts)
    else some data

def applyHeaderCacheData (s : Slices) : Option Slices :=
  if s.header.parts.isEmpty then some s
  else if s.headerMode = .good then
    (applyWhile (fun index => index = 0) s.header.parts.entries s.data).map fun data =>
      { s with data := data }
  else if s.headerMode ≠ .unknown then some s
  else if s.isFullInHeader then s.headerDone true
  else
    (applyWhile (fun index => index < s.data.length) s.header.parts.entries s.data).bind
      fun data => headerDone { s with data := data } true

def checkFullInCache (s : Slices) : Bool :=
  if s.isFullInHeader then s.header.fullInCache else s.data.all fun slice => slice.fullInCache

def partsCount (s : Slices) (sliceNumber : ℕ) : ℕ :=
  if sliceNumber = 0 then (s.size + kPartSize - 1) / kPartSize
  else if sliceNumber < s.data.length then kPartsInSlice
  else (s.size - (sliceNumber - 1) * kInSlice + kPartSize - 1) / kPartSize

def checkSliceFullLoaded (s : Slices) (sliceNumber : ℕ) : Option Slices :=
  if sliceNumber = 0 ∧ ¬ s.isFullInHeader then some s
  else (s.slice? sliceNumber).map fun slice =>
    let loaded := decide (slice.parts.size = s.partsCount sliceNumber)
    if slice.fullInCache && !loaded then
      { s.setSlice sliceNumber { slice with fullInCache := false } with fullInCache := false }
    else if !slice.fullInCache && loaded then
      let s := s.setSlice sliceNumber { slice with fullInCache := true }
      { s with fullInCache := s.checkFullInCache }
    else s

/-- What `processCacheResult` does with a slice that may wait for the result. -/
def processSliceResult (s : Slices) (sliceNumber : ℕ) (result : PartsMap) : Option Slices :=
  (s.slice? sliceNumber).bind fun slice =>
    if !slice.loadingFromCache then some s
    else (slice.processCacheData result).bind fun slice =>
      ((s.setSlice sliceNumber slice).checkSliceFullLoaded sliceNumber).bind fun s =>
        if sliceNumber ≠ 0 then some s
        else s.applyHeaderCacheData.bind fun s =>
          if s.isGoodHeader then
            s.data[0]?.map fun first =>
              { s with data := s.data.set 0 { first with loadingFromCache := true } }
          else some s

def processCacheResult (s : Slices) (sliceNumber : ℕ) (result : PartsMap) : Option Slices :=
  if s.data.length < sliceNumber then none
  else if sliceNumber = 0 ∧ s.isGoodHeader then
    s.data[0]?.bind fun first =>
      if !first.loadingFromCache then some s
      else processSliceResult { s with header :=
        { s.header with loadingFromCache := true, loadedFromCache := false } } 0 result
  else s.processSliceResult sliceNumber result

/-- What the whole slice takes in the cache. -/
def cachedSize (s : Slices) (sliceIndex : ℕ) : ℕ :=
  if sliceIndex + 1 < s.data.length then kInSlice else s.size - sliceIndex * kInSlice

def processCachedSizes (s : Slices) (sizes : List ℕ) : Option Slices :=
  if sizes.length ≠ s.data.length then none
  else
    let data := s.data.mapIdx fun i slice =>
      { slice with fullInCache := slice.fullInCache || sizes[i]? == some (s.cachedSize i) }
    some { s with data := data, fullInCache := data.all fun slice => slice.fullInCache }

def processPart (s : Slices) (offset : ℕ) (bytes : List UInt8) : Option Slices :=
  if ¬ s.isFullInHeader ∧ s.data.length ≤ offset / kInSlice then none
  else if s.isFullInHeader then
    (s.header.addPart offset bytes).bind fun header =>
      checkSliceFullLoaded { s with header := header } 0
  else if s.headerMode = .unknown ∧ s.header.parts.contains offset then some s
  else
    let header :=
      if s.headerMode = .unknown ∧ s.header.parts.size < kMaxPartsInHeader then
        s.header.addPart offset bytes
      else some s.header
    header.bind fun header => (addToData s.data offset bytes).bind fun data =>
      checkSliceFullLoaded { s with header := header, data := data } (offset / kInSlice + 1)

/-- What `fill` does with a slice that it has to read from the cache. -/
def handleReadFromCache (s : Slices) (sliceIndex : ℕ) : Option Slices :=
  s.data[sliceIndex]?.map fun slice =>
    if s.headerMode ≠ .noCache ∧ s.headerMode ≠ .unknown ∧ ¬ slice.loadedFromCache then
      { s with data := s.data.set sliceIndex { slice with loadingFromCache := true } }
    else s

def markSliceUsed (s : Slices) (sliceIndex : ℕ) : Slices :=
  if sliceIndex ∈ s.usedSlices then
    { s with usedSlices := s.usedSlices.erase sliceIndex ++ [sliceIndex] }
  else { s with usedSlices := s.usedSlices ++ [sliceIndex] }

def unloadSlice (slice : Slice) : Slice := { fullInCache := slice.fullInCache }

/-- The parts of the first slice that are not in the header. -/
def firstSliceNoHeader (s : Slices) (slice : Slice) : PartsMap :=
  s.header.parts.entries.foldl (fun parts part => parts.erase part.1) slice.parts

def serializeAndUnloadFirstSliceNoHeader (s : Slices) : Option (List UInt8 × Slices) :=
  s.data[0]?.bind fun slice =>
    if slice.loadedFromCache then
      some (serializeComplexPartsMap (s.firstSliceNoHeader slice),
        { s with data := s.data.set 0 (unloadSlice slice) })
    else none

def unloadSerialized (s : Slices) (sliceNumber : ℕ) (slice : Slice) : Slices :=
  if sliceNumber = 0 then { s with header := { s.header with changedSinceCache := false } }
  else s.setSlice sliceNumber (unloadSlice slice)

def writeHeaderAndSlice (s : Slices) (sliceNumber : ℕ) : Prop :=
  s.isGoodHeader ∧ sliceNumber = 0

instance (s : Slices) (sliceNumber : ℕ) : Decidable (s.writeHeaderAndSlice sliceNumber) := by
  unfold writeHeaderAndSlice
  infer_instance

/-- The whole slice is serialized with no offsets. -/
def continuous (s : Slices) (sliceNumber : ℕ) (slice : Slice) : Prop :=
  ¬ s.writeHeaderAndSlice sliceNumber ∧ ∃ back ∈ slice.parts.entries.getLast?,
    back.1 < findNotLoadedStart slice.parts.entries 0

instance (s : Slices) (sliceNumber : ℕ) (slice : Slice) :
    Decidable (s.continuous sliceNumber slice) := by
  unfold continuous
  infer_instance

/-- `serializeAndUnloadSlice` after the number of the first slice has been changed. -/
def serializeAndUnloadNumber (s : Slices) (sliceNumber : ℕ) : Option (SerializedSlice × Slices) :=
  (s.slice? sliceNumber).bind fun slice =>
    if slice.parts.isEmpty then none
    else if s.continuous sliceNumber slice then
      some (⟨sliceNumber, contiguousData slice.parts.entries⟩,
        s.unloadSerialized sliceNumber slice)
    else
      let complex := serializeComplexPartsMap slice.parts
      let serialized :=
        if s.writeHeaderAndSlice sliceNumber then
          s.serializeAndUnloadFirstSliceNoHeader.map fun first => (complex ++ first.1, first.2)
        else some (complex, s)
      serialized.map fun serialized =>
        (⟨sliceNumber, avoidContiguous serialized.1 (maxSliceSize sliceNumber s.size)⟩,
          serialized.2.unloadSerialized sliceNumber slice)

def serializeAndUnloadSlice (s : Slices) (sliceNumber : ℕ) : Option (SerializedSlice × Slices) :=
  if s.headerMode = .unknown ∨ s.headerMode = .noCache ∨ s.data.length < sliceNumber then none
  else s.serializeAndUnloadNumber
    (if s.isGoodHeader ∧ sliceNumber = 1 then 0 else sliceNumber)

/-- The slice is emitted together with the state after it. -/
def emitted (result : SerializedSlice × Slices) : Option SerializedSlice × Slices :=
  (some result.1, result.2)

def noNeedToSaveToCache (s : Slices) (purgeSlice : ℕ) (slice : Slice) : Bool :=
  if s.headerMode = .noCache then true
  else if slice.changedSinceCache then false
  else !s.isGoodHeader || decide (0 < purgeSlice) || !s.header.changedSinceCache

def serializeAndUnloadUnused (s : Slices) : Option (Option SerializedSlice × Slices) :=
  if s.headerMode = .unknown then some (none, s)
  else match s.usedSlices with
    | [] => some (none, s)
    | purgeSlice :: usedSlices =>
      if (purgeSlice :: usedSlices).length ≤ kSlicesInMemory then some (none, s)
      else
        let s := { s with usedSlices := usedSlices }
        s.data[purgeSlice]?.bind fun slice =>
          if !slice.loadedFromCache then some (none, s)
          else if s.noNeedToSaveToCache purgeSlice slice then
            some (none, { s with data := s.data.set purgeSlice (unloadSlice slice) })
          else (s.serializeAndUnloadSlice (purgeSlice + 1)).map emitted

def unloadToCache (s : Slices) : Option (Option SerializedSlice × Slices) :=
  if s.headerMode = .unknown ∨ s.headerMode = .noCache then some (none, s)
  else if s.header.changedSinceCache then (s.serializeAndUnloadSlice 0).map emitted
  else match s.data.findIdx? fun slice => slice.changedSinceCache with
    | none => some (none, s)
    | some i => (s.serializeAndUnloadSlice (i + 1)).map emitted

end Slices

end TelegramDesktop.Media.Streaming
