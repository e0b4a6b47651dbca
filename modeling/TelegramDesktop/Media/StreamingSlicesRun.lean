import Mathlib.Logic.Relation
import TelegramDesktop.Media.StreamingSlicesValid

namespace TelegramDesktop.Media.Streaming.Slices
open Base

theorem valid_of_pair {α : Type*} {result : α × Slices} {a : α} {s : Slices}
    (heq : result = (a, s)) (h : Valid result.2) : Valid s := by
  rw [heq] at h
  exact h

theorem Valid.unload {s : Slices} (h : Valid s) (sliceIndex : ℕ) (slice : Slice) :
    Valid { s with data := s.data.set sliceIndex (unloadSlice slice) } :=
  h.withData List.length_set (h.slices.set (validParts_empty _))

theorem Valid.unloadSerialized {s : Slices} (h : Valid s) (sliceNumber : ℕ) (slice : Slice) :
    Valid (s.unloadSerialized sliceNumber slice) := by
  rw [Slices.unloadSerialized]
  by_cases hzero : sliceNumber = 0
  · rw [if_pos hzero]
    exact h.withHeader rfl
  · rw [if_neg hzero, setSlice, if_neg hzero]
    exact h.unload _ slice

theorem Valid.serializeAndUnloadFirstSliceNoHeader {s s' : Slices} (h : Valid s)
    {bytes : List UInt8}
    (hstep : s.serializeAndUnloadFirstSliceNoHeader = some (bytes, s')) : Valid s' := by
  obtain ⟨slice, hslice, hunload⟩ := Option.bind_eq_some_iff.mp hstep
  split_ifs at hunload with hloaded
  exact valid_of_pair (Option.some.inj hunload) (h.unload 0 slice)

theorem Valid.serializeAndUnloadNumber {s s' : Slices} (h : Valid s) {sliceNumber : ℕ}
    {entry : SerializedSlice}
    (hstep : s.serializeAndUnloadNumber sliceNumber = some (entry, s')) : Valid s' := by
  obtain ⟨slice, hslice, hsome⟩ := Option.bind_eq_some_iff.mp hstep
  split_ifs at hsome with hempty hcontinuous hboth
  · exact valid_of_pair (Option.some.inj hsome) (h.unloadSerialized sliceNumber slice)
  · obtain ⟨serialized, hserialized, hpair⟩ := Option.map_eq_some_iff.mp hsome
    obtain ⟨first, hfirst, rfl⟩ := Option.map_eq_some_iff.mp hserialized
    have hvalid := h.serializeAndUnloadFirstSliceNoHeader hfirst
    exact valid_of_pair hpair (hvalid.unloadSerialized sliceNumber slice)
  · obtain ⟨serialized, hserialized, hpair⟩ := Option.map_eq_some_iff.mp hsome
    rw [← Option.some.inj hserialized] at hpair
    exact valid_of_pair hpair (h.unloadSerialized sliceNumber slice)

theorem Valid.serializeAndUnloadSlice {s s' : Slices} (h : Valid s) {sliceNumber : ℕ}
    {entry : SerializedSlice}
    (hstep : s.serializeAndUnloadSlice sliceNumber = some (entry, s')) : Valid s' := by
  rw [Slices.serializeAndUnloadSlice] at hstep
  by_cases hmode : s.headerMode = .unknown ∨ s.headerMode = .noCache ∨ s.data.length < sliceNumber
  · rw [if_pos hmode] at hstep
    exact nomatch hstep
  · rw [if_neg hmode] at hstep
    exact h.serializeAndUnloadNumber hstep

theorem Valid.emitted {s s' : Slices} (h : Valid s) {sliceNumber : ℕ}
    {entry : Option SerializedSlice}
    (hstep : (s.serializeAndUnloadSlice sliceNumber).map Slices.emitted = some (entry, s')) :
    Valid s' := by
  obtain ⟨result, hresult, hpair⟩ := Option.map_eq_some_iff.mp hstep
  exact valid_of_pair hpair (h.serializeAndUnloadSlice hresult)

theorem Valid.unloadToCache {s s' : Slices} (h : Valid s) {entry : Option SerializedSlice}
    (hstep : s.unloadToCache = some (entry, s')) : Valid s' := by
  rw [Slices.unloadToCache] at hstep
  split_ifs at hstep
  · exact valid_of_pair (Option.some.inj hstep) h
  · exact h.emitted hstep
  · split at hstep
    · exact valid_of_pair (Option.some.inj hstep) h
    · exact h.emitted hstep

theorem Valid.serializeAndUnloadUnused {s s' : Slices} (h : Valid s)
    {entry : Option SerializedSlice}
    (hstep : s.serializeAndUnloadUnused = some (entry, s')) : Valid s' := by
  rw [Slices.serializeAndUnloadUnused] at hstep
  split_ifs at hstep
  · exact valid_of_pair (Option.some.inj hstep) h
  · split at hstep
    · exact valid_of_pair (Option.some.inj hstep) h
    · split_ifs at hstep
      · exact valid_of_pair (Option.some.inj hstep) h
      · obtain ⟨slice, hslice, hpurge⟩ := Option.bind_eq_some_iff.mp hstep
        have hused := h.withUsedSlices
        split_ifs at hpurge
        · exact valid_of_pair (Option.some.inj hpurge) (hused _)
        · exact valid_of_pair (Option.some.inj hpurge) ((hused _).unload _ slice)
        · exact (hused _).emitted hpurge

theorem Valid.handleReadFromCache {s s' : Slices} (h : Valid s) {sliceIndex : ℕ}
    (hstep : s.handleReadFromCache sliceIndex = some s') : Valid s' := by
  obtain ⟨slice, hslice, rfl⟩ := Option.map_eq_some_iff.mp hstep
  split_ifs
  · exact h.withData List.length_set (h.slices.set (h.slices _ slice hslice))
  · exact h

theorem Valid.markSliceUsed {s : Slices} (h : Valid s) (sliceIndex : ℕ) :
    Valid (s.markSliceUsed sliceIndex) := by
  rw [Slices.markSliceUsed]
  split_ifs
  · exact h.withUsedSlices _
  · exact h.withUsedSlices _

theorem Valid.processCachedSizes {s s' : Slices} (h : Valid s) {sizes : List ℕ}
    (hstep : s.processCachedSizes sizes = some s') : Valid s' := by
  rw [Slices.processCachedSizes] at hstep
  split_ifs at hstep
  rw [← Option.some.inj hstep]
  have hdata : ValidData s.size (s.data.mapIdx fun i slice =>
      { slice with fullInCache := slice.fullInCache || sizes[i]? == some (s.cachedSize i) }) := by
    apply h.slices.of_parts
    apply List.ext_getElem?
    intro i
    rw [List.getElem?_map, List.getElem?_map, List.getElem?_mapIdx, Option.map_map]
    rfl
  exact (h.withData List.length_mapIdx hdata).withFullInCache _

theorem valid_init {size : ℕ} (hsize : size < 2 ^ 32) {useCache : Bool} {s : Slices}
    (h : init size useCache = some s) : Valid s := by
  rw [init] at h
  by_cases hbad : size = 0 ∨ 0x1FF ≤ slicesCount size ∧ ¬ Streaming.isFullInHeader size
  · rw [if_pos hbad] at h
    exact nomatch h
  · rw [if_neg hbad] at h
    rw [← Option.some.inj h]
    have hmode : ∀ mode : HeaderMode, mode ≠ .unknown → mode ≠ .noCache →
        (if useCache then HeaderMode.unknown else .noCache) ≠ mode := by
      intro mode hunknown hnoCache
      split_ifs
      · exact hunknown.symm
      · exact hnoCache.symm
    refine ⟨hsize, ?_, validParts_empty _, fun _ => Nat.zero_le _, ?_, ?_, ?_, ?_⟩
    · change (if Streaming.isFullInHeader size then [] else _).length =
        if Streaming.isFullInHeader size then 0 else slicesCount size
      split_ifs
      · rfl
      · exact List.length_replicate
    · intro i slice hslice
      have hin := List.mem_of_getElem? hslice
      have hnew : slice = {} := by
        dsimp only at hin
        split_ifs at hin
        · exact absurd hin (List.not_mem_nil)
        · exact (List.mem_replicate.mp hin).2
      rw [hnew]
      exact validParts_empty _
    · exact fun h => absurd h (hmode .good (nomatch ·) (nomatch ·))
    · exact fun h => absurd h (hmode .small (nomatch ·) (nomatch ·))
    · exact fun h => absurd h (hmode .full (nomatch ·) (nomatch ·))

/-- What the reader does with the slices, in any order. -/
inductive Step : Slices → Slices → Prop
  | part {s s' : Slices} (part : ℕ × List UInt8) : ValidPart s.size part →
      s.processPart part.1 part.2 = some s' → Step s s'
  | cacheResult {s s' : Slices} (sliceNumber : ℕ) (result : PartsMap) :
      s.ValidResult sliceNumber result → s.processCacheResult sliceNumber result = some s' →
      Step s s'
  | cachedSizes {s s' : Slices} (sizes : List ℕ) : s.processCachedSizes sizes = some s' →
      Step s s'
  | headerDone {s s' : Slices} : s.headerDone false = some s' → Step s s'
  | readFromCache {s s' : Slices} (sliceIndex : ℕ) :
      s.handleReadFromCache sliceIndex = some s' → Step s s'
  | used {s : Slices} (sliceIndex : ℕ) : Step s (s.markSliceUsed sliceIndex)
  | unloadUnused {s s' : Slices} (entry : Option SerializedSlice) :
      s.serializeAndUnloadUnused = some (entry, s') → Step s s'
  | unload {s s' : Slices} (entry : Option SerializedSlice) :
      s.unloadToCache = some (entry, s') → Step s s'

theorem Valid.step {s s' : Slices} (h : Valid s) (hstep : Step s s') : Valid s' := by
  cases hstep with
  | part part hpart hstep => exact h.processPart hpart hstep
  | cacheResult sliceNumber result hresult hstep => exact h.processCacheResult hresult hstep
  | cachedSizes sizes hstep => exact h.processCachedSizes hstep
  | headerDone hstep => exact h.headerDone hstep
  | readFromCache sliceIndex hstep => exact h.handleReadFromCache hstep
  | used sliceIndex => exact h.markSliceUsed sliceIndex
  | unloadUnused entry hstep => exact h.serializeAndUnloadUnused hstep
  | unload entry hstep => exact h.unloadToCache hstep

/-- Reached from new slices of a file. -/
def Reachable (s : Slices) : Prop :=
  ∃ size useCache s₀, size < 2 ^ 32 ∧ init size useCache = some s₀ ∧
    Relation.ReflTransGen Step s₀ s

theorem Reachable.valid {s : Slices} (h : Reachable s) : Valid s := by
  obtain ⟨size, useCache, s₀, hsize, hinit, hrun⟩ := h
  induction hrun with
  | refl => exact valid_init hsize hinit
  | tail _ hstep ih => exact ih.step hstep

end TelegramDesktop.Media.Streaming.Slices
