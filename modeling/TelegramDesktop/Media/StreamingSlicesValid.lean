import TelegramDesktop.Media.StreamingSlices
import TelegramDesktop.Media.StreamingCacheRoundTrip

namespace TelegramDesktop.Media.Streaming
open Base

theorem validParts_empty (limit : ℕ) : ValidParts limit ∅ :=
  fun _ h => absurd h (List.not_mem_nil)

theorem ValidParts.emplace {limit : ℕ} {parts : PartsMap} (h : ValidParts limit parts)
    {part : ℕ × List UInt8} (hpart : ValidPart limit part) :
    ValidParts limit (parts.emplace part.1 part.2) := by
  intro other hother
  rcases (FlatMap.mem_emplace parts part.1 part.2 other).mp hother with hother | hother
  · exact h other hother
  · rw [hother.1]
    exact hpart

theorem ValidParts.emplaceAll {limit : ℕ} {entries : List (ℕ × List UInt8)} {parts : PartsMap}
    (h : ValidParts limit parts) (hentries : ∀ part ∈ entries, ValidPart limit part) :
    ValidParts limit (emplaceAll entries parts) := by
  induction entries generalizing parts with
  | nil => exact h
  | cons part entries ih =>
    rw [emplaceAll_cons]
    exact ih (h.emplace (hentries part List.mem_cons_self))
      fun other hother => hentries other (List.mem_cons_of_mem _ hother)

/-- What is there already is not changed. -/
theorem emplaceAll_of_contains {entries : List (ℕ × List UInt8)} {parts : PartsMap}
    (h : ∀ part ∈ entries, parts.contains part.1) : emplaceAll entries parts = parts := by
  induction entries with
  | nil => rfl
  | cons part entries ih =>
    have hpart := h part List.mem_cons_self
    obtain ⟨bytes, hbytes⟩ := Option.isSome_iff_exists.mp hpart
    rw [emplaceAll_cons, FlatMap.emplace_of_get? hbytes]
    exact ih fun other hother => h other (List.mem_cons_of_mem _ hother)

theorem room_in_slice {offset size base start part slice : ℕ} (hbase : base + start = offset)
    (hlt : offset < size) (hpos : 0 < part) (hroom : start + part ≤ slice) :
    start < min slice (size - base) ∧
      min part (size - offset) = min part (min slice (size - base) - start) := by
  omega

/-- A part of the file is a part of its slice. -/
theorem ValidPart.in_slice {size offset : ℕ} {bytes : List UInt8}
    (h : ValidPart size (offset, bytes)) :
    ValidPart (sliceLimit (offset / kInSlice + 1) size)
      (offset - offset / kInSlice * kInSlice, bytes) := by
  obtain ⟨hmod, hlt, hlen⟩ := h
  rw [sliceLimit, if_neg (Nat.succ_ne_zero _), Nat.add_sub_cancel]
  have hdvd : kPartSize ∣ kInSlice := Dvd.intro_left kPartsInSlice rfl
  have hdiv := Nat.div_add_mod offset kInSlice
  have hlt' := Nat.mod_lt offset (show 0 < kInSlice by decide)
  have hmod' : offset % kInSlice % kPartSize = 0 := (Nat.mod_mod_of_dvd _ hdvd).trans hmod
  have hroom := next_le hmod' (Nat.mod_eq_zero_of_dvd hdvd) hlt'
  rw [Nat.mul_comm] at hdiv
  obtain ⟨hin, hmin⟩ := room_in_slice hdiv hlt (show 0 < kPartSize by decide) hroom
  have hsub : offset - offset / kInSlice * kInSlice = offset % kInSlice :=
    Nat.sub_eq_of_eq_add' hdiv.symm
  rw [hsub]
  exact ⟨hmod', hin, hlen.trans hmin⟩

def ValidData (size : ℕ) (data : List Slice) : Prop :=
  ∀ i slice, data[i]? = some slice → ValidParts (sliceLimit (i + 1) size) slice.parts

theorem ValidData.set {size : ℕ} {data : List Slice} (h : ValidData size data) {i : ℕ}
    {slice : Slice} (hslice : ValidParts (sliceLimit (i + 1) size) slice.parts) :
    ValidData size (data.set i slice) := by
  intro j other hother
  rw [List.getElem?_set] at hother
  split_ifs at hother with hij hlt
  · subst hij
    rw [← Option.some.inj hother]
    exact hslice
  · exact h j other hother

/-- Only the flags of the slices are changed. -/
theorem ValidData.of_parts {size : ℕ} {data data' : List Slice} (h : ValidData size data)
    (hparts : data'.map Slice.parts = data.map Slice.parts) : ValidData size data' := by
  intro i slice hslice
  have hmap : (data'.map Slice.parts)[i]? = some slice.parts := by
    rw [List.getElem?_map, hslice]
    rfl
  rw [hparts, List.getElem?_map] at hmap
  obtain ⟨other, hother, heq⟩ := Option.map_eq_some_iff.mp hmap
  rw [← heq]
  exact h i other hother

theorem addPart_parts {slice slice' : Slice} {offset : ℕ} {bytes : List UInt8}
    (h : slice.addPart offset bytes = some slice') :
    slice.parts.get? offset = none ∧ slice'.parts = slice.parts.emplace offset bytes := by
  rw [Slice.addPart] at h
  split_ifs at h with hin
  rw [← Option.some.inj h]
  exact ⟨by simpa [FlatMap.contains] using hin, rfl⟩

theorem ValidData.addToData {size : ℕ} {data data' : List Slice} (h : ValidData size data)
    {part : ℕ × List UInt8} (hpart : ValidPart size part)
    (hadd : Slices.addToData data part.1 part.2 = some data') :
    ValidData size data' ∧ data'.length = data.length := by
  obtain ⟨slice, hslice, hadd⟩ := Option.bind_eq_some_iff.mp hadd
  obtain ⟨slice', hslice', rfl⟩ := Option.map_eq_some_iff.mp hadd
  refine ⟨h.set ?_, List.length_set⟩
  rw [(addPart_parts hslice').2]
  exact (h _ slice hslice).emplace hpart.in_slice

theorem ValidData.applyWhile {size : ℕ} {predicate : ℕ → Bool} {entries : List (ℕ × List UInt8)}
    {data data' : List Slice} (h : ValidData size data)
    (hentries : ∀ part ∈ entries, ValidPart size part)
    (happly : Slices.applyWhile predicate entries data = some data') :
    ValidData size data' ∧ data'.length = data.length := by
  induction entries generalizing data with
  | nil =>
    rw [Slices.applyWhile] at happly
    rw [← Option.some.inj happly]
    exact ⟨h, rfl⟩
  | cons part entries ih =>
    rw [Slices.applyWhile] at happly
    split_ifs at happly
    · obtain ⟨next, hnext, happly⟩ := Option.bind_eq_some_iff.mp happly
      obtain ⟨hvalid, hlen⟩ := h.addToData (hentries part List.mem_cons_self) hnext
      obtain ⟨hvalid', hlen'⟩ := ih hvalid
        (fun other hother => hentries other (List.mem_cons_of_mem _ hother)) happly
      exact ⟨hvalid', hlen'.trans hlen⟩
    · rw [← Option.some.inj happly]
      exact ⟨h, rfl⟩

namespace Slices

/-- The parts that are held are parts of the file, and the mode is that of the header. -/
structure Valid (s : Slices) : Prop where
  size_lt : s.size < 2 ^ 32
  length_eq : s.data.length = if s.isFullInHeader then 0 else slicesCount s.size
  header : ValidParts s.size s.header.parts
  few : ¬ s.isFullInHeader → s.header.parts.size ≤ kMaxPartsInHeader
  slices : ValidData s.size s.data
  good : s.headerMode = .good → s.computeIsGoodHeader
  small : s.headerMode = .small → ¬ s.isFullInHeader ∧ ¬ s.computeIsGoodHeader
  full : s.headerMode = .full → s.isFullInHeader

theorem Valid.withData {s : Slices} (h : Valid s) {data : List Slice}
    (hlen : data.length = s.data.length) (hdata : ValidData s.size data) :
    Valid { s with data := data } :=
  ⟨h.size_lt, hlen.trans h.length_eq, h.header, h.few, hdata, h.good, h.small, h.full⟩

theorem Valid.withHeader {s : Slices} (h : Valid s) {header : Slice}
    (hparts : header.parts = s.header.parts) : Valid { s with header := header } := by
  have hgood : Streaming.computeIsGoodHeader s.size header.parts = s.computeIsGoodHeader := by
    rw [hparts]
    rfl
  refine ⟨h.size_lt, h.length_eq, ?_, ?_, h.slices, ?_, ?_, h.full⟩
  · exact hparts ▸ h.header
  · exact hparts ▸ h.few
  · intro hmode
    exact hgood.trans (h.good hmode)
  · intro hmode
    obtain ⟨hfull, hnot⟩ := h.small hmode
    refine ⟨hfull, ?_⟩
    rw [← hgood] at hnot
    exact hnot

theorem Valid.withFullInCache {s : Slices} (h : Valid s) (fullInCache : Bool) :
    Valid { s with fullInCache := fullInCache } :=
  ⟨h.size_lt, h.length_eq, h.header, h.few, h.slices, h.good, h.small, h.full⟩

theorem Valid.withUsedSlices {s : Slices} (h : Valid s) (usedSlices : List ℕ) :
    Valid { s with usedSlices := usedSlices } :=
  ⟨h.size_lt, h.length_eq, h.header, h.few, h.slices, h.good, h.small, h.full⟩

/-- The mode that is taken when the header is done. -/
theorem Valid.withMode {s : Slices} (h : Valid s) : Valid { s with headerMode := s.doneMode } := by
  refine ⟨h.size_lt, h.length_eq, h.header, h.few, h.slices, ?_, ?_, ?_⟩
  · intro hmode
    change s.doneMode = _ at hmode
    rw [doneMode] at hmode
    split_ifs at hmode with hfull hgood
    exact hgood
  · intro hmode
    change s.doneMode = _ at hmode
    rw [doneMode] at hmode
    split_ifs at hmode with hfull hgood
    exact ⟨hfull, hgood⟩
  · intro hmode
    change s.doneMode = _ at hmode
    rw [doneMode] at hmode
    split_ifs at hmode with hfull hgood
    exact hfull

theorem Valid.setSlice_flags {s : Slices} (h : Valid s) {sliceNumber : ℕ} {slice slice' : Slice}
    (hslice : s.slice? sliceNumber = some slice) (hparts : slice'.parts = slice.parts) :
    Valid (s.setSlice sliceNumber slice') := by
  rw [slice?] at hslice
  rw [setSlice]
  by_cases hzero : sliceNumber = 0
  · rw [if_pos hzero] at hslice ⊢
    apply h.withHeader
    rw [hparts, ← Option.some.inj hslice]
  · rw [if_neg hzero] at hslice ⊢
    apply h.withData List.length_set
    apply h.slices.set
    rw [hparts]
    exact h.slices _ slice hslice

theorem Valid.checkSliceFullLoaded {s s' : Slices} (h : Valid s) {sliceNumber : ℕ}
    (hstep : s.checkSliceFullLoaded sliceNumber = some s') : Valid s' := by
  rw [Slices.checkSliceFullLoaded] at hstep
  split_ifs at hstep
  · exact Option.some.inj hstep ▸ h
  · obtain ⟨slice, hslice, rfl⟩ := Option.map_eq_some_iff.mp hstep
    dsimp only
    split_ifs
    · have hset : Valid (s.setSlice sliceNumber { slice with fullInCache := false }) :=
        h.setSlice_flags hslice rfl
      exact hset.withFullInCache _
    · have hset : Valid (s.setSlice sliceNumber { slice with fullInCache := true }) :=
        h.setSlice_flags hslice rfl
      exact hset.withFullInCache _
    · exact h

theorem Valid.headerDone {s s' : Slices} (h : Valid s) {fromCache : Bool}
    (hstep : s.headerDone fromCache = some s') : Valid s' := by
  rw [Slices.headerDone] at hstep
  split_ifs at hstep with hmode hcache hany
  · exact Option.some.inj hstep ▸ h
  · rw [← Option.some.inj hstep]
    exact h.withMode
  · rw [← Option.some.inj hstep]
    have hdata : ValidData s.size
        (s.data.map fun slice => { slice with loadedFromCache := true }) := by
      apply h.slices.of_parts
      rw [List.map_map]
      rfl
    exact h.withMode.withData (List.length_map _) hdata

theorem Valid.applyHeaderCacheData {s s' : Slices} (h : Valid s)
    (hstep : s.applyHeaderCacheData = some s') : Valid s' := by
  rw [Slices.applyHeaderCacheData] at hstep
  split_ifs at hstep
  · exact Option.some.inj hstep ▸ h
  · obtain ⟨data, hdata, rfl⟩ := Option.map_eq_some_iff.mp hstep
    obtain ⟨hvalid, hlen⟩ := h.slices.applyWhile h.header hdata
    exact h.withData hlen hvalid
  · exact Option.some.inj hstep ▸ h
  · exact h.headerDone hstep
  · obtain ⟨data, hdata, hdone⟩ := Option.bind_eq_some_iff.mp hstep
    obtain ⟨hvalid, hlen⟩ := h.slices.applyWhile h.header hdata
    exact (h.withData hlen hvalid).headerDone hdone

/-- The header gets a part, which it has room for. -/
theorem Valid.addHeader {s : Slices} (h : Valid s) {part : ℕ × List UInt8}
    (hpart : ValidPart s.size part) {header : Slice}
    (hheader : s.header.addPart part.1 part.2 = some header)
    (hmode : s.isFullInHeader ∨ s.headerMode = .unknown ∧ s.header.parts.size < kMaxPartsInHeader) :
    Valid { s with header := header } := by
  obtain ⟨hnew, hparts⟩ := addPart_parts hheader
  have hvalid : ValidParts s.size header.parts := by
    rw [hparts]
    exact h.header.emplace hpart
  refine ⟨h.size_lt, h.length_eq, hvalid, ?_, h.slices, ?_, ?_, h.full⟩
  · intro hnot
    rcases hmode with hfull | ⟨-, hroom⟩
    · exact absurd hfull hnot
    · change header.parts.size ≤ kMaxPartsInHeader
      rw [hparts, FlatMap.size_emplace _ hnew]
      exact hroom
  · intro hgood
    rcases hmode with hfull | ⟨hunknown, -⟩
    · have hcompute := h.good hgood
      rw [computeIsGoodHeader, Streaming.computeIsGoodHeader] at hcompute
      rw [isFullInHeader] at hfull
      simp [hfull] at hcompute
    · rw [hunknown] at hgood
      exact nomatch hgood
  · intro hsmall
    rcases hmode with hfull | ⟨hunknown, -⟩
    · exact absurd hfull (h.small hsmall).1
    · rw [hunknown] at hsmall
      exact nomatch hsmall

theorem Valid.addToData {s s' : Slices} (h : Valid s) {part : ℕ × List UInt8}
    (hpart : ValidPart s.size part)
    (hstep : ((Slices.addToData s.data part.1 part.2).bind fun data =>
      Slices.checkSliceFullLoaded { s with data := data } (part.1 / kInSlice + 1)) = some s') :
    Valid s' := by
  obtain ⟨data, hdata, hcheck⟩ := Option.bind_eq_some_iff.mp hstep
  obtain ⟨hvalid, hlen⟩ := h.slices.addToData hpart hdata
  exact (h.withData hlen hvalid).checkSliceFullLoaded hcheck

/-- A part of the file may come at any time. -/
theorem Valid.processPart {s s' : Slices} (h : Valid s) {part : ℕ × List UInt8}
    (hpart : ValidPart s.size part) (hstep : s.processPart part.1 part.2 = some s') :
    Valid s' := by
  rw [Slices.processPart] at hstep
  split_ifs at hstep with hout hfull hin hroom
  · obtain ⟨header, hheader, hcheck⟩ := Option.bind_eq_some_iff.mp hstep
    exact (h.addHeader hpart hheader (.inl hfull)).checkSliceFullLoaded hcheck
  · exact Option.some.inj hstep ▸ h
  · obtain ⟨header, hheader, hstep⟩ := Option.bind_eq_some_iff.mp hstep
    exact (h.addHeader hpart hheader (.inr hroom)).addToData hpart hstep
  · obtain ⟨header, hheader, hstep⟩ := Option.bind_eq_some_iff.mp hstep
    have hparts := (congrArg Slice.parts (Option.some.inj hheader)).symm
    exact (h.withHeader hparts).addToData hpart hstep

/-- What the cache holds of a slice is parts of it, and nothing that a header that is done does
not have. A header is read before parts of it are asked for. -/
def ValidResult (s : Slices) (sliceNumber : ℕ) (result : PartsMap) : Prop :=
  ValidParts (sliceLimit sliceNumber s.size) result ∧
    (sliceNumber = 0 → ¬ s.isFullInHeader →
      if s.headerMode = .unknown then
        s.header.parts.isEmpty ∧ result.size ≤ kMaxPartsInHeader
      else ∀ part ∈ result.entries, s.header.parts.contains part.1)

theorem processCacheData_parts {slice slice' : Slice} {data : PartsMap}
    (h : slice.processCacheData data = some slice') :
    slice'.parts = if slice.parts.isEmpty then data else emplaceAll data.entries slice.parts := by
  rw [Slice.processCacheData] at h
  split_ifs at h with hflags
  all_goals
    rw [← Option.some.inj h]
    simp_all [emplaceAll]

/-- A header that is done is not changed by what is read, and one that is not is what is read. -/
theorem Valid.readHeader {s : Slices} (h : Valid s) {result : PartsMap}
    (hresult : s.ValidResult 0 result) {header : Slice}
    (hheader : s.header.processCacheData result = some header) :
    Valid { s with header := header } := by
  have hparts := processCacheData_parts hheader
  obtain ⟨hvalid, hmode⟩ := hresult
  have hvalid' : ValidParts s.size header.parts := by
    rw [hparts]
    split_ifs
    · exact hvalid
    · exact h.header.emplaceAll hvalid
  by_cases hfull : s.isFullInHeader
  · refine ⟨h.size_lt, h.length_eq, hvalid', fun hnot => absurd hfull hnot, h.slices, ?_, ?_,
      h.full⟩
    · intro hgood
      have hcompute := h.good hgood
      rw [computeIsGoodHeader, Streaming.computeIsGoodHeader] at hcompute
      rw [isFullInHeader] at hfull
      simp [hfull] at hcompute
    · intro hsmall
      exact absurd hfull (h.small hsmall).1
  · have hmode := hmode rfl hfull
    split_ifs at hmode with hunknown
    · obtain ⟨hempty, hfew⟩ := hmode
      rw [if_pos hempty] at hparts
      refine ⟨h.size_lt, h.length_eq, hvalid', ?_, h.slices, ?_, ?_, h.full⟩
      · intro _
        change header.parts.size ≤ kMaxPartsInHeader
        rw [hparts]
        exact hfew
      · intro hgood
        exact nomatch hunknown.symm.trans hgood
      · intro hsmall
        exact nomatch hunknown.symm.trans hsmall
    · apply h.withHeader
      rw [hparts]
      split_ifs with hempty
      · have hnone := FlatMap.eq_empty_of_isEmpty hempty
        rw [hnone]
        apply FlatMap.ext
        apply List.eq_nil_iff_forall_not_mem.mpr
        intro part hpart
        have hin := hmode part hpart
        rw [hnone] at hin
        exact nomatch hin
      · exact emplaceAll_of_contains hmode

theorem Valid.processSliceResult {s s' : Slices} (h : Valid s) {sliceNumber : ℕ}
    {result : PartsMap} (hresult : s.ValidResult sliceNumber result)
    (hstep : s.processSliceResult sliceNumber result = some s') : Valid s' := by
  obtain ⟨slice, hslice, hloaded⟩ := Option.bind_eq_some_iff.mp hstep
  by_cases hloading : (!slice.loadingFromCache) = true
  · rw [if_pos hloading] at hloaded
    exact Option.some.inj hloaded ▸ h
  · rw [if_neg hloading] at hloaded
    obtain ⟨slice', hdata, hset⟩ := Option.bind_eq_some_iff.mp hloaded
    obtain ⟨checked, hcheck, hafter⟩ := Option.bind_eq_some_iff.mp hset
    rw [slice?] at hslice
    rw [setSlice] at hcheck
    by_cases hzero : sliceNumber = 0
    · subst hzero
      rw [if_pos rfl] at hslice hcheck
      obtain rfl := Option.some.inj hslice
      have hchecked := (h.readHeader hresult hdata).checkSliceFullLoaded hcheck
      rw [if_neg (not_not_intro rfl)] at hafter
      obtain ⟨applied, happly, hfirst⟩ := Option.bind_eq_some_iff.mp hafter
      have happlied := hchecked.applyHeaderCacheData happly
      split_ifs at hfirst
      · obtain ⟨first, hget, rfl⟩ := Option.map_eq_some_iff.mp hfirst
        exact happlied.withData List.length_set
          (happlied.slices.set (happlied.slices 0 first hget))
      · exact Option.some.inj hfirst ▸ happlied
    · rw [if_neg hzero] at hslice hcheck
      rw [if_pos hzero] at hafter
      rw [← Option.some.inj hafter]
      have hset : Valid { s with data := s.data.set (sliceNumber - 1) slice' } := by
        apply h.withData List.length_set
        apply h.slices.set
        have hold := h.slices _ slice hslice
        have hnumber : sliceNumber - 1 + 1 = sliceNumber := by omega
        rw [hnumber] at hold ⊢
        rw [processCacheData_parts hdata]
        split_ifs
        · exact hresult.1
        · exact hold.emplaceAll hresult.1
      exact hset.checkSliceFullLoaded hcheck

theorem Valid.processCacheResult {s s' : Slices} (h : Valid s) {sliceNumber : ℕ}
    {result : PartsMap} (hresult : s.ValidResult sliceNumber result)
    (hstep : s.processCacheResult sliceNumber result = some s') : Valid s' := by
  rw [Slices.processCacheResult] at hstep
  split_ifs at hstep with hout hgood
  · obtain ⟨first, hfirst, hstep⟩ := Option.bind_eq_some_iff.mp hstep
    split_ifs at hstep
    · exact Option.some.inj hstep ▸ h
    · have hheader : Valid { s with header :=
          { s.header with loadingFromCache := true, loadedFromCache := false } } :=
        h.withHeader rfl
      rw [hgood.1] at hresult
      exact hheader.processSliceResult hresult hstep
  · exact h.processSliceResult hresult hstep

end Slices

end TelegramDesktop.Media.Streaming
