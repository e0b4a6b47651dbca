import TelegramDesktop.Media.StreamingSlicesRun

namespace TelegramDesktop.Media.Streaming.Slices
open Base

/-- What an entry for the cache has to be read back as: the parts of the slice, and with the header
of a good mode those parts of the first slice that the header does not have. -/
structure ReadBack (s : Slices) (entry : SerializedSlice) : Prop where
  parts : ∃ slice, s.slice? entry.number = some slice ∧
    (parseCacheEntry entry.data entry.number s.size).parts = slice.parts ∧
    (IsContiguousSerialization (int32 entry.data.length) (maxSliceSize entry.number s.size) ↔
      s.continuous entry.number slice)
  included : if s.writeHeaderAndSlice entry.number then
      ∃ first included remaining, s.data[0]? = some first ∧
        (parseCacheEntry entry.data entry.number s.size).included = some included ∧
        (∀ part, part ∈ included.entries ↔
          part ∈ first.parts.entries ∧ s.header.parts.get? part.1 = none) ∧
        parseCachedMap ∅ entry.data (maxSliceSize 0 s.size) = (s.header.parts, remaining) ∧
        ¬ IsContiguousSerialization (int32 remaining.length) (maxSliceSize 1 s.size)
    else (parseCacheEntry entry.data entry.number s.size).included = none

theorem le_getLast {parts : PartsMap} {back : ℕ × List UInt8}
    (h : back ∈ parts.entries.getLast?) : ∀ part ∈ parts.entries, part.1 ≤ back.1 := by
  intro part hpart
  obtain ⟨front, hfront⟩ := List.getLast?_eq_some_iff.mp h
  have hsorted := parts.sorted
  rw [hfront] at hsorted hpart
  rcases List.mem_append.mp hpart with hpart | hpart
  · exact ((List.pairwise_append.mp hsorted).2.2 part hpart back List.mem_cons_self).le
  · rw [List.mem_singleton.mp hpart]

theorem slice_limit_le {sliceNumber size : ℕ} (h : sliceNumber ≠ 0) :
    sliceLimit sliceNumber size ≤ kPartsInSlice * kPartSize := by
  rw [sliceLimit, if_neg h]
  exact Nat.min_le_left _ _

theorem not_good_of_full {size : ℕ} {parts : PartsMap} (h : Streaming.isFullInHeader size) :
    ¬ Streaming.computeIsGoodHeader size parts := by
  rw [Streaming.computeIsGoodHeader]
  simp [h]

/-- Only parts of the first slice make a good header. -/
theorem good_of_lt {size : ℕ} {parts : PartsMap} (hfull : ¬ Streaming.isFullInHeader size)
    (h : ∀ part ∈ parts.entries, part.1 < kInSlice) : Streaming.computeIsGoodHeader size parts := by
  have hnone : parts.entries.dropWhile (fun part => decide (part.1 < kInSlice)) = [] := by
    apply List.dropWhile_eq_nil_iff.mpr
    intro part hpart
    exact decide_eq_true (h part hpart)
  rw [Streaming.computeIsGoodHeader, hnone]
  simp [hfull]

theorem Valid.limit_lt {s : Slices} (h : Valid s) (sliceNumber : ℕ) :
    sliceLimit sliceNumber s.size < 2 ^ 32 := by
  have hsize := h.size_lt
  rw [sliceLimit]
  split_ifs
  · exact hsize
  · omega

theorem Valid.maxSliceSize {s : Slices} (h : Valid s) {sliceNumber : ℕ}
    (hnumber : sliceNumber ≤ s.data.length) :
    maxSliceSize sliceNumber s.size = int32 (sliceLimit sliceNumber s.size) := by
  apply maxSliceSize_eq h.size_lt
  apply hnumber.trans
  rw [h.length_eq]
  split_ifs
  · exact Nat.zero_le _
  · exact le_rfl

theorem Valid.slice_parts {s : Slices} (h : Valid s) {sliceNumber : ℕ} {slice : Slice}
    (hslice : s.slice? sliceNumber = some slice) :
    ValidParts (sliceLimit sliceNumber s.size) slice.parts ∧ slice.parts.size ≤ 80 := by
  rw [slice?] at hslice
  by_cases hzero : sliceNumber = 0
  · rw [if_pos hzero] at hslice
    obtain rfl := Option.some.inj hslice
    rw [sliceLimit, if_pos hzero]
    refine ⟨h.header, ?_⟩
    by_cases hfull : s.isFullInHeader
    · exact h.header.size_le (of_decide_eq_true hfull)
    · exact (h.few hfull).trans (by decide)
  · rw [if_neg hzero] at hslice
    have hvalid := h.slices _ slice hslice
    have hnumber : sliceNumber - 1 + 1 = sliceNumber := by omega
    rw [hnumber] at hvalid
    exact ⟨hvalid, (hvalid.size_le (slice_limit_le hzero)).trans (by decide)⟩

/-- The header is taken for a good one where it is written with the first slice. -/
theorem Valid.good_iff {s : Slices} (h : Valid s) (hunknown : s.headerMode ≠ .unknown)
    (hcache : s.headerMode ≠ .noCache) : s.computeIsGoodHeader ↔ s.isGoodHeader := by
  rw [isGoodHeader, decide_eq_true_iff]
  constructor
  · intro hgood
    cases hmode : s.headerMode with
    | unknown => exact absurd hmode hunknown
    | small => exact absurd hgood (h.small hmode).2
    | good => rfl
    | full => exact absurd hgood (not_good_of_full (h.full hmode))
    | noCache => exact absurd hmode hcache
  · exact h.good

theorem Valid.read_continuous {s : Slices} (h : Valid s) {sliceNumber : ℕ} {slice : Slice}
    (hunknown : s.headerMode ≠ .unknown) (hcache : s.headerMode ≠ .noCache)
    (hnumber : sliceNumber ≤ s.data.length) (hslice : s.slice? sliceNumber = some slice)
    (hcontinuous : s.continuous sliceNumber slice) :
    IsContiguousSerialization (int32 (contiguousData slice.parts.entries).length)
        (Streaming.maxSliceSize sliceNumber s.size) ∧
      parseCachedMap ∅ (contiguousData slice.parts.entries)
        (Streaming.maxSliceSize sliceNumber s.size) = (slice.parts, []) := by
  obtain ⟨hvalid, hcount⟩ := h.slice_parts hslice
  obtain ⟨hheader, back, hback, hlast⟩ := hcontinuous
  have hlt : ∀ part ∈ slice.parts.entries, part.1 < findNotLoadedStart slice.parts.entries 0 :=
    fun part hpart => (le_getLast hback part hpart).trans_lt hlast
  rw [h.maxSliceSize hnumber]
  have hlimit : sliceLimit sliceNumber s.size < 2 ^ 31 := by
    by_cases hzero : sliceNumber = 0
    · rw [sliceLimit, if_pos hzero]
      by_cases hfull : s.isFullInHeader
      · have hle : s.size ≤ kMaxOnlyInHeader := of_decide_eq_true hfull
        exact hle.trans_lt (by decide)
      · -- A continuous header would have parts of the first slice only.
        exfalso
        apply hheader
        refine ⟨(h.good_iff hunknown hcache).mp ?_, hzero⟩
        rw [slice?, if_pos hzero] at hslice
        obtain rfl := Option.some.inj hslice
        have hkeys := (parseContiguous_entries ∅ (Nat.zero_mod kPartSize)
          s.header.parts.sorted h.header (fun _ _ => Nat.zero_le _) hlt).2.2.2
        have hfew := Nat.mul_le_mul_right kPartSize (h.few hfull)
        have hin : kMaxPartsInHeader * kPartSize = kInSlice := rfl
        apply good_of_lt hfull
        intro part hpart
        have hkey := hkeys part hpart
        rw [Nat.zero_add] at hkey
        exact hkey.trans_le (hfew.trans hin.le)
    · exact (slice_limit_le hzero).trans_lt (by decide)
  exact parseCachedMap_contiguous hvalid hlimit hlt

theorem Valid.read_complex {s : Slices} (h : Valid s) {sliceNumber : ℕ} {slice : Slice}
    (hnumber : sliceNumber ≤ s.data.length) (hslice : s.slice? sliceNumber = some slice)
    {tail : List UInt8} (htail : tail.length ≤ 4 + 80 * (8 + kPartSize)) :
    ∃ n, n ≤ 3 ∧
      ¬ IsContiguousSerialization
        (int32 (avoidContiguous (serializeComplexPartsMap slice.parts ++ tail)
          (Streaming.maxSliceSize sliceNumber s.size)).length)
        (Streaming.maxSliceSize sliceNumber s.size) ∧
      parseCachedMap ∅ (avoidContiguous (serializeComplexPartsMap slice.parts ++ tail)
          (Streaming.maxSliceSize sliceNumber s.size))
        (Streaming.maxSliceSize sliceNumber s.size) =
        (slice.parts, tail ++ List.replicate n 0) := by
  obtain ⟨hvalid, hcount⟩ := h.slice_parts hslice
  rw [h.maxSliceSize hnumber]
  have hfits : ∀ part ∈ slice.parts.entries,
      Fits (int32 (sliceLimit sliceNumber s.size) % 2 ^ 32).toNat part := by
    rw [toNat_int32 (h.limit_lt sliceNumber)]
    exact hvalid.fits
  exact parseCachedMap_complex hcount hfits htail

theorem mem_foldl_erase {entries : List (ℕ × List UInt8)} {parts : PartsMap}
    (a : ℕ × List UInt8) :
    a ∈ (entries.foldl (fun parts part => parts.erase part.1) parts).entries ↔
      a ∈ parts.entries ∧ ∀ part ∈ entries, a.1 ≠ part.1 := by
  induction entries generalizing parts with
  | nil => simp
  | cons part entries ih =>
    rw [List.foldl_cons, ih, FlatMap.mem_erase, and_assoc, List.forall_mem_cons]

theorem mem_firstSliceNoHeader (s : Slices) (slice : Slice) (a : ℕ × List UInt8) :
    a ∈ (s.firstSliceNoHeader slice).entries ↔
      a ∈ slice.parts.entries ∧ s.header.parts.get? a.1 = none := by
  rw [firstSliceNoHeader, mem_foldl_erase, FlatMap.get?_eq_none_iff]
  apply and_congr_right
  intro _
  constructor
  · intro h v hv
    exact h (a.1, v) hv rfl
  · intro h part hpart heq
    apply h part.2
    rw [heq]
    exact hpart

/-- Whole parts with their offsets do not add up to whole parts. -/
theorem not_contiguous_whole {part count rest : ℕ} (hcount : count ≤ 64) (hrest : rest ≤ 3)
    (hpart : 1024 ≤ part) : (4 + count * (8 + part) + rest) % part ≠ 0 := by
  have hsum : 4 + count * (8 + part) + rest = (4 + 8 * count + rest) + part * count := by ring
  rw [hsum, Nat.add_mul_mod_self_left, Nat.mod_eq_of_lt (by omega)]
  omega

/-- The first slice after a header is not taken for contiguous data, and is read back. -/
theorem read_first {parts : PartsMap} (h : ValidParts kInSlice parts) {n : ℕ} (hn : n ≤ 3) :
    (serializeComplexPartsMap parts).length ≤ 4 + 80 * (8 + kPartSize) ∧
      ¬ IsContiguousSerialization
        (int32 (serializeComplexPartsMap parts ++ List.replicate n 0).length) (int32 kInSlice) ∧
      (parseCachedMap ∅ (serializeComplexPartsMap parts ++ List.replicate n 0)
        (int32 kInSlice)).1 = parts := by
  have hcount : parts.size ≤ 64 := h.size_le le_rfl
  have hwhole : ∀ part ∈ parts.entries, part.2.length = kPartSize := by
    intro part hpart
    obtain ⟨hmod, hlt, hlen⟩ := h part hpart
    have hroom := next_le hmod (Nat.mod_eq_zero_of_dvd (Dvd.intro_left kPartsInSlice rfl)) hlt
    rw [hlen]
    exact Nat.min_eq_left (Nat.le_sub_of_add_le' hroom)
  have hlen := length_serializeComplex_whole hwhole
  have hmul := Nat.mul_le_mul_right (8 + kPartSize) hcount
  have hmul' := Nat.mul_le_mul_right (8 + kPartSize) (show 64 ≤ 80 by decide)
  have hshort : 4 + 80 * (8 + kPartSize) + 3 < 2 ^ 31 := by decide
  have hnot := not_contiguous_whole hcount hn (show 1024 ≤ kPartSize by decide)
  rw [← hlen] at hnot
  generalize htotal : (serializeComplexPartsMap parts ++ List.replicate n 0).length = total
  rw [List.length_append, List.length_replicate] at htotal
  rw [htotal] at hnot
  have hsmall : total < 2 ^ 31 := by omega
  have hlimit : kInSlice < 2 ^ 31 := by decide
  have hdvd : kInSlice % kPartSize = 0 := Nat.mod_eq_zero_of_dvd (Dvd.intro_left kPartsInSlice rfl)
  have hcontiguous : ¬ IsContiguousSerialization (int32 total) (int32 kInSlice) := by
    rw [int32_of_lt hsmall, int32_of_lt hlimit, IsContiguousSerialization]
    rintro (hzero | heq)
    · exact hnot (by exact_mod_cast hzero)
    · rw [Nat.cast_inj.mp heq] at hnot
      exact hnot hdvd
  refine ⟨by omega, hcontiguous, ?_⟩
  have hfits : ∀ part ∈ parts.entries, Fits (int32 kInSlice % 2 ^ 32).toNat part := by
    rw [toNat_int32 (by decide)]
    exact h.fits
  rw [parseCachedMap, List.length_append, List.length_replicate, htotal]
  rw [if_neg hcontiguous, parseComplexCachedMap_serialized (hcount.trans (by decide)) hfits]

theorem parseCacheEntry_of {data remaining : List UInt8} {parts : PartsMap}
    {sliceNumber size : ℕ}
    (h : parseCachedMap ∅ data (Streaming.maxSliceSize sliceNumber size) = (parts, remaining)) :
    parseCacheEntry data sliceNumber size =
      if sliceNumber = 0 ∧ Streaming.computeIsGoodHeader size parts then
        ⟨parts, some (parseCachedMap ∅ remaining (Streaming.maxSliceSize 1 size)).1⟩
      else ⟨parts, none⟩ := by
  unfold parseCacheEntry
  rw [h]

theorem Valid.write_iff {s : Slices} (h : Valid s) {sliceNumber : ℕ} {slice : Slice}
    (hunknown : s.headerMode ≠ .unknown) (hcache : s.headerMode ≠ .noCache)
    (hslice : s.slice? sliceNumber = some slice) :
    sliceNumber = 0 ∧ Streaming.computeIsGoodHeader s.size slice.parts ↔
      s.writeHeaderAndSlice sliceNumber := by
  rw [writeHeaderAndSlice, and_comm]
  apply and_congr_left
  intro hzero
  rw [slice?, if_pos hzero] at hslice
  obtain rfl := Option.some.inj hslice
  exact h.good_iff hunknown hcache

/-- The first slice of a file with a good header is a whole one. -/
theorem Valid.first_limit {s : Slices} (h : Valid s) (hgood : s.isGoodHeader) :
    sliceLimit 1 s.size = kInSlice := by
  have hfull : ¬ s.isFullInHeader := fun hfull =>
    not_good_of_full hfull (h.good (of_decide_eq_true hgood))
  have hmore : ¬ s.size ≤ kMaxOnlyInHeader := fun hle => hfull (decide_eq_true hle)
  have hin : kInSlice ≤ kMaxOnlyInHeader := by decide
  rw [sliceLimit, if_neg Nat.one_ne_zero, Nat.sub_self, Nat.zero_mul, Nat.sub_zero]
  exact Nat.min_eq_left (by omega)

theorem Valid.readBack_number {s s' : Slices} (h : Valid s) {sliceNumber : ℕ}
    {entry : SerializedSlice} (hunknown : s.headerMode ≠ .unknown)
    (hcache : s.headerMode ≠ .noCache) (hnumber : sliceNumber ≤ s.data.length)
    (hstep : s.serializeAndUnloadNumber sliceNumber = some (entry, s')) : ReadBack s entry := by
  obtain ⟨slice, hslice, hsome⟩ := Option.bind_eq_some_iff.mp hstep
  have hwrite := h.write_iff hunknown hcache hslice
  split_ifs at hsome with hempty hcontinuous hboth
  · -- All data is continuous, and the header is not a good one.
    have hentry := (Prod.ext_iff.mp (Option.some.inj hsome)).1
    dsimp only at hentry
    subst hentry
    obtain ⟨hcontiguous, hparse⟩ := h.read_continuous hunknown hcache hnumber hslice hcontinuous
    have hread := parseCacheEntry_of hparse
    rw [if_neg fun hgood => hcontinuous.1 (hwrite.mp hgood)] at hread
    refine ⟨⟨slice, hslice, ?_, iff_of_true hcontiguous hcontinuous⟩, ?_⟩
    · rw [hread]
    · rw [if_neg hcontinuous.1, hread]
  · -- The header is written with the first slice.
    obtain ⟨serialized, hserialized, hpair⟩ := Option.map_eq_some_iff.mp hsome
    obtain ⟨both, hfirst, rfl⟩ := Option.map_eq_some_iff.mp hserialized
    have hentry := (Prod.ext_iff.mp hpair).1
    dsimp only at hentry
    subst hentry
    obtain ⟨first, hget, hloaded⟩ := Option.bind_eq_some_iff.mp hfirst
    split_ifs at hloaded
    have hbytes : serializeComplexPartsMap (s.firstSliceNoHeader first) = both.1 :=
      congrArg Prod.fst (Option.some.inj hloaded)
    have hlimit := h.first_limit hboth.1
    have hvalid : ValidParts kInSlice (s.firstSliceNoHeader first) := by
      intro part hpart
      rw [← hlimit]
      exact h.slices 0 first hget part ((mem_firstSliceNoHeader s first part).mp hpart).1
    have hlen := (read_first hvalid (Nat.zero_le 3)).1
    rw [hbytes] at hlen
    obtain ⟨n, hn, hcomplex, hparse⟩ := h.read_complex hnumber hslice hlen
    obtain ⟨-, hnot, hrest⟩ := read_first hvalid hn
    have hone : Streaming.maxSliceSize 1 s.size = int32 kInSlice := by
      have hsome : 1 ≤ s.data.length := (List.getElem?_eq_some_iff.mp hget).1
      rw [h.maxSliceSize hsome, hlimit]
    rw [hbytes, ← hone] at hnot hrest
    have hread := parseCacheEntry_of hparse
    rw [if_pos (hwrite.mpr hboth), hrest] at hread
    refine ⟨⟨slice, hslice, ?_, iff_of_false hcomplex hcontinuous⟩, ?_⟩
    · rw [hread]
    · rw [if_pos hboth, hread]
      have hheader : s.slice? 0 = some s.header := rfl
      obtain rfl := hboth.2
      obtain rfl := Option.some.inj (hslice.symm.trans hheader)
      exact ⟨first, _, both.1 ++ List.replicate n 0, hget, rfl,
        mem_firstSliceNoHeader s first, hparse, hnot⟩
  · obtain ⟨serialized, hserialized, hpair⟩ := Option.map_eq_some_iff.mp hsome
    have hentry := (Prod.ext_iff.mp hpair).1
    dsimp only at hentry
    subst hentry
    rw [← Option.some.inj hserialized]
    have hnil : ([] : List UInt8).length ≤ 4 + 80 * (8 + kPartSize) := Nat.zero_le _
    obtain ⟨n, -, hnot, hparse⟩ := h.read_complex hnumber hslice hnil
    rw [List.append_nil] at hnot hparse
    have hread := parseCacheEntry_of hparse
    rw [if_neg fun hgood => hboth (hwrite.mp hgood)] at hread
    refine ⟨⟨slice, hslice, ?_, iff_of_false hnot hcontinuous⟩, ?_⟩
    · rw [hread]
    · rw [if_neg hboth, hread]

/-- An entry of the cache is read back as the parts it was written from. -/
theorem serialized_read_back {s s' : Slices} (h : Reachable s) (sliceNumber : ℕ)
    {entry : SerializedSlice}
    (hstep : s.serializeAndUnloadSlice sliceNumber = some (entry, s')) : ReadBack s entry := by
  rw [serializeAndUnloadSlice] at hstep
  by_cases hbad : s.headerMode = .unknown ∨ s.headerMode = .noCache ∨
      s.data.length < sliceNumber
  · rw [if_pos hbad] at hstep
    cases hstep
  · rw [if_neg hbad] at hstep
    obtain ⟨hunknown, hcache, hnumber⟩ := not_or.mp hbad |>.imp_right not_or.mp
    have hle : (if s.isGoodHeader ∧ sliceNumber = 1 then 0 else sliceNumber) ≤ s.data.length := by
      split_ifs
      · exact Nat.zero_le _
      · exact Nat.le_of_not_lt hnumber
    exact h.valid.readBack_number hunknown hcache hle hstep

/-- The first part of a large file makes a good header, which is written with the part of the first
slice that came after it. -/
theorem serialized_read_back_header : ∃ s entry s', Reachable s ∧
    s.serializeAndUnloadSlice 1 = some (entry, s') ∧ s.writeHeaderAndSlice entry.number ∧
      ReadBack s entry := by
  have hlength : (List.replicate kPartSize (7 : UInt8)).length = kPartSize := List.length_replicate
  generalize List.replicate kPartSize (7 : UInt8) = bytes at hlength
  let header : Slice := ⟨FlatMap.emplace ∅ 0 bytes, false, true, true, false⟩
  let start : Slices := ⟨[{}, {}, {}], { loadingFromCache := true }, [], 20000000, .unknown, false⟩
  let empty : Slices := { start with header := { loadedFromCache := true } }
  let first : Slices := { start with
    data := [{ parts := FlatMap.emplace ∅ 0 bytes }, {}, {}]
    header }
  let good : Slices := { start with
    data := [{ parts := FlatMap.emplace ∅ 0 bytes, loadedFromCache := true },
      { loadedFromCache := true }, { loadedFromCache := true }]
    header
    headerMode := .good }
  let both : Slices := { good with
    data := [⟨(FlatMap.emplace ∅ 0 bytes).emplace (2 * kPartSize) bytes, false, true, true, false⟩,
      { loadedFromCache := true }, { loadedFromCache := true }] }
  have hinit : init 20000000 true = some start := rfl
  have hread : Step start empty := by
    refine .cacheResult 0 ∅ ⟨validParts_empty _, fun _ _ => ?_⟩ rfl
    rw [if_pos rfl]
    exact ⟨rfl, Nat.zero_le _⟩
  have hput : empty.processPart 0 bytes = some first := by
    have hdata : ¬ empty.data.length ≤ 0 / kInSlice := (by decide : ¬ 3 ≤ 0 / kInSlice)
    have hroom : empty.headerMode = .unknown ∧ empty.header.parts.size < kMaxPartsInHeader :=
      ⟨rfl, (by decide : 0 < kMaxPartsInHeader)⟩
    rw [processPart, if_neg fun h => hdata h.2, if_neg (by decide), if_neg (by decide)]
    dsimp only
    rw [if_pos hroom]
    rfl
  have hpart : Step empty first :=
    .part (0, bytes) ⟨rfl, (by decide : 0 < 20000000), hlength⟩ hput
  have hdone : Step first good := .headerDone rfl
  have hput' : good.processPart (2 * kPartSize) bytes = some both := by
    have hdata : ¬ good.data.length ≤ 2 * kPartSize / kInSlice :=
      (by decide : ¬ 3 ≤ 2 * kPartSize / kInSlice)
    have hfull : ¬ good.isFullInHeader = true := Bool.false_ne_true
    have hgood : ¬ good.headerMode = .unknown := (by decide : ¬ HeaderMode.good = .unknown)
    rw [processPart, if_neg fun h => hdata h.2, if_neg hfull, if_neg fun h => hgood h.1]
    dsimp only
    rw [if_neg fun h => hgood h.1]
    rfl
  have hmin : kPartSize = min kPartSize (20000000 - 2 * kPartSize) := by decide
  have hpart' : Step good both := .part (2 * kPartSize, bytes)
    ⟨Nat.mul_mod_left 2 kPartSize, (by decide : 2 * kPartSize < 20000000), hlength.trans hmin⟩
    hput'
  have hrun := (((Relation.ReflTransGen.single hread).tail hpart).tail hdone).tail hpart'
  have hreach : Reachable both := ⟨20000000, true, start, by decide, hinit, hrun⟩
  exact ⟨both, _, _, hreach, rfl, ⟨rfl, rfl⟩, serialized_read_back hreach 1 rfl⟩

end TelegramDesktop.Media.Streaming.Slices
