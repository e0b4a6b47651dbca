import TelegramDesktop.Media.StreamingCacheRoundTrip

namespace TelegramDesktop.Media.Streaming
open Base

/-- `ParseCacheEntry` with the `Ensures` of `SlicesCount`, which `MaxSliceSize` calls for every
slice but the header. -/
def checkedParseCacheEntry (data : List UInt8) (sliceNumber size : ℕ) : Option ParsedCacheEntry :=
  let result := parseCacheEntry data sliceNumber size
  if (sliceNumber ≠ 0 ∨ result.included.isSome) ∧ 0x1FF ≤ slicesCount size then none
  else some result

theorem parts_of_ite {c : Prop} [Decidable c] (parsed : PartsMap) (included : Option PartsMap) :
    (if c then (⟨parsed, included⟩ : ParsedCacheEntry) else ⟨parsed, none⟩).parts = parsed := by
  split_ifs
  · rfl
  · rfl

theorem parts_parseCacheEntry (data : List UInt8) (sliceNumber size : ℕ) :
    (parseCacheEntry data sliceNumber size).parts =
      (parseCachedMap ∅ data (maxSliceSize sliceNumber size)).1 :=
  parts_of_ite _ _

theorem included_parseCacheEntry (data : List UInt8) (size : ℕ) :
    (parseCacheEntry data 0 size).included.isSome =
      computeIsGoodHeader size (parseCachedMap ∅ data (maxSliceSize 0 size)).1 := by
  simp only [parseCacheEntry, true_and]
  cases computeIsGoodHeader size (parseCachedMap ∅ data (maxSliceSize 0 size)).1
  · rfl
  · rfl

def partAt (file : List UInt8) (offset : ℕ) : List UInt8 := (file.drop offset).take kPartSize

theorem length_partAt (file : List UInt8) (offset : ℕ) :
    (partAt file offset).length = min kPartSize (file.length - offset) := by
  rw [partAt, List.length_take, List.length_drop]

/-- Parts at the first offsets. -/
def firstParts (count : ℕ) (part : ℕ → List UInt8) : PartsMap where
  entries := (List.range count).map fun i => (i * kPartSize, part i)
  sorted := by
    apply List.pairwise_map.mpr
    apply List.pairwise_lt_range.imp
    intro i j hij
    exact Nat.mul_lt_mul_of_pos_right hij (by decide)

section FirstParts

variable {count : ℕ} {part : ℕ → List UInt8}

theorem mem_firstParts {entry : ℕ × List UInt8} :
    entry ∈ (firstParts count part).entries ↔ ∃ i < count, (i * kPartSize, part i) = entry := by
  simp [firstParts]

theorem size_firstParts : (firstParts count part).size = count := by
  simp [firstParts, FlatMap.size]

theorem length_flatMap_serializePart (entries : List (ℕ × List UInt8)) :
    (entries.flatMap serializePart).length =
      8 * entries.length + (entries.map fun part => part.2.length).sum := by
  induction entries with
  | nil => rfl
  | cons part entries ih =>
    rw [List.flatMap_cons, List.length_append, length_serializePart, ih, List.length_cons,
      List.map_cons, List.sum_cons]
    ring

/-- The parts of a file that are serialized are as long as what they are of. -/
theorem length_serialize_firstParts (file : List UInt8) (count : ℕ) :
    (serializeComplexPartsMap (firstParts count fun i => partAt file (i * kPartSize))).length =
      4 + 8 * count + min (count * kPartSize) file.length := by
  have hsum : ∀ count : ℕ, ((List.range count).map fun i =>
      (partAt file (i * kPartSize)).length).sum = min (count * kPartSize) file.length := by
    intro count
    induction count with
    | zero => simp
    | succ count ih =>
      rw [List.range_succ, List.map_append, List.sum_append, ih, List.map_singleton,
        List.sum_singleton, length_partAt, Nat.succ_mul]
      omega
  have hint : (appendInt (firstParts count fun i => partAt file (i * kPartSize)).size).length = 4 :=
    rfl
  have hmap : (((firstParts count fun i => partAt file (i * kPartSize)).entries).map
      fun part => part.2.length) =
        (List.range count).map fun i => (partAt file (i * kPartSize)).length := by
    unfold firstParts
    exact List.map_map
  rw [serializeComplexPartsMap, List.length_append, hint, length_flatMap_serializePart, hmap, hsum]
  simp only [firstParts, List.length_map, List.length_range]
  omega

end FirstParts

theorem good_of_some {maxSize : ℕ} {offset size : ℕ × List UInt8}
    {bytes : List UInt8 × List UInt8} {part : ℕ × List UInt8} {rest : List UInt8}
    (h : (if IsBadPart maxSize offset.1 size.1 bytes.1 then none
      else some ((offset.1, bytes.1), bytes.2)) = some (part, rest)) :
    ¬ IsBadPart maxSize part.1 part.2.length part.2 := by
  split_ifs at h with hbad
  have hpart : part = (offset.1, bytes.1) := (congrArg Prod.fst (Option.some.inj h)).symm
  have hsize : bytes.1.length = size.1 := by
    by_contra hne
    exact hbad (.inr (.inr (.inr (.inr hne))))
  rw [hpart]
  rwa [hsize]

/-- A part that is read is within the size. -/
theorem takePart_inside {maxSize : ℕ} {data rest : List UInt8} {part : ℕ × List UInt8}
    (h : takePart maxSize data = some (part, rest)) :
    ¬ IsBadPart maxSize part.1 part.2.length part.2 :=
  good_of_some h

theorem parseParts_inside {maxSize count : ℕ} {result : PartsMap} {data : List UInt8}
    (h : ∀ part ∈ result.entries, ¬ IsBadPart maxSize part.1 part.2.length part.2) :
    ∀ part ∈ (parseParts maxSize count result data).1.entries,
      ¬ IsBadPart maxSize part.1 part.2.length part.2 := by
  induction count generalizing result data with
  | zero => exact h
  | succ count ih =>
    rw [parseParts.eq_2]
    cases htake : takePart maxSize data with
    | none => exact h
    | some taken =>
      apply ih
      intro part hpart
      rcases (FlatMap.mem_emplace ..).mp hpart with hpart | ⟨rfl, -⟩
      · exact h part hpart
      · exact takePart_inside htake

theorem parseComplexCachedMap_inside {data : List UInt8} {maxSize : ℤ} :
    ∀ part ∈ (parseComplexCachedMap ∅ data maxSize).1.entries,
      ¬ IsBadPart (maxSize % 2 ^ 32).toNat part.1 part.2.length part.2 := by
  have hnone : ∀ part ∈ (∅ : PartsMap).entries,
      ¬ IsBadPart (maxSize % 2 ^ 32).toNat part.1 part.2.length part.2 :=
    fun part hpart => absurd hpart List.not_mem_nil
  rw [parseComplexCachedMap]
  split
  · exact hnone
  · split_ifs
    · exact hnone
    · exact parseParts_inside hnone

theorem contains_emplace {m : PartsMap} {k k' : ℕ} {v : List UInt8}
    (h : k' = k ∨ m.contains k' = true) : (m.emplace k v).contains k' = true := by
  rw [FlatMap.contains, FlatMap.get?_emplace]
  split_ifs with hk
  · rfl
  · exact h.resolve_left hk

theorem parseContiguous_keeps {data : List UInt8} {offset : ℕ} {result : PartsMap} {k : ℕ}
    (h : result.contains k = true) : (parseContiguous offset data result).contains k = true := by
  induction offset, data, result using parseContiguous.induct with
  | case1 offset result =>
    rw [parseContiguous, if_pos rfl]
    exact h
  | case2 offset data result hne ih =>
    rw [parseContiguous, if_neg hne]
    exact ih (contains_emplace (.inr h))

/-- Contiguous data gives a part at every offset in it. -/
theorem contains_parseContiguous {data : List UInt8} {offset : ℕ} {result : PartsMap} {i : ℕ}
    (hi : i * kPartSize < data.length) :
    (parseContiguous offset data result).contains (offset + i * kPartSize) = true := by
  have hne : data ≠ [] := List.length_pos_iff.mp (by omega)
  induction i generalizing data offset result with
  | zero =>
    rw [parseContiguous, if_neg hne]
    exact parseContiguous_keeps (contains_emplace (.inl (by omega)))
  | succ i ih =>
    rw [Nat.succ_mul] at hi
    have hrest : i * kPartSize < (data.drop kPartSize).length := by
      rw [List.length_drop]
      omega
    rw [parseContiguous, if_neg hne, Nat.succ_mul, Nat.add_comm (i * kPartSize), ← Nat.add_assoc]
    exact ih hrest (List.length_pos_iff.mp (by omega))

/-- What the parts are put to, where the whole file is told from data of its size. -/
def closedData (parts : PartsMap) (full : ℕ) : List UInt8 :=
  let result := serializeComplexPartsMap parts
  if result.length = full then result ++ [0] else result

/-- When the first parts of a file are read back from an entry: their data is not as long as that of
whole parts, a size from 4 GB on does not become too small or the size of the data, and it does not
violate the `Ensures` of `SlicesCount`. -/
structure Readable (full count : ℕ) : Prop where
  short : full + 8 * count + 4 ≠ count * kPartSize
  large : 2 ^ 32 ≤ full → count * kPartSize ≤ full % 2 ^ 32 ∧
    full % 2 ^ 32 ≠ count * kPartSize + 8 * count + 4
  header : kMaxOnlyInHeader < full → count ≤ 72 → slicesCount full < 0x1FF

section Preloaded

variable {file : List UInt8} {count : ℕ}

theorem length_closedData (file : List UInt8) (count : ℕ) :
    (closedData (firstParts count fun i => partAt file (i * kPartSize)) file.length).length =
      4 + 8 * count + min (count * kPartSize) file.length +
        if 4 + 8 * count + min (count * kPartSize) file.length = file.length then 1 else 0 := by
  have hlength := length_serialize_firstParts file count
  unfold closedData
  dsimp only
  rw [hlength]
  split_ifs
  · rw [List.length_append, hlength, List.length_singleton]
  · rw [hlength, Nat.add_zero]

/-- The arithmetic of the sizes. -/
theorem readable_sizes {full size : ℕ} (hpos : 0 < count) (hcount : count ≤ 80)
    (hspan : (count - 1) * kPartSize < full)
    (hsize : size = 4 + 8 * count + min (count * kPartSize) full +
      if 4 + 8 * count + min (count * kPartSize) full = full then 1 else 0) :
    ¬ IsContiguousSerialization (int32 size) (int32 full) ∧
        min (count * kPartSize) full ≤ full % 2 ^ 32 ↔
      full + 8 * count + 4 ≠ count * kPartSize ∧
        (2 ^ 32 ≤ full → count * kPartSize ≤ full % 2 ^ 32 ∧
          full % 2 ^ 32 ≠ count * kPartSize + 8 * count + 4) := by
  have hK : kPartSize = 131072 := rfl
  rw [hK] at hspan ⊢
  simp only [hK] at hsize
  have hsmall : size < 2 ^ 31 := by
    rw [hsize]
    split_ifs <;> omega
  rw [IsContiguousSerialization, int32_of_lt hsmall, hK]
  have hint : int32 full = if full % 2 ^ 32 < 2 ^ 31 then ((full % 2 ^ 32 : ℕ) : ℤ)
      else ((full % 2 ^ 32 : ℕ) : ℤ) - 2 ^ 32 := by
    rw [int32, Int.bmod_def]
    split_ifs <;> omega
  rw [hint]
  by_cases hlarge : 2 ^ 32 ≤ full
  · -- The whole parts are not the end of the file.
    have hdiffer : 4 + 8 * count + min (count * 131072) full ≠ full := by omega
    have hmin : min (count * 131072) full = count * 131072 := by omega
    rw [if_neg hdiffer, hmin] at hsize
    rw [hmin]
    have hbound : full % 2 ^ 32 < 2 ^ 32 := Nat.mod_lt _ (by norm_num)
    generalize full % 2 ^ 32 = rest at hbound ⊢
    constructor
    · rintro ⟨hnot, hle⟩
      split_ifs at hnot <;> omega
    · rintro ⟨-, hlarge'⟩
      obtain ⟨hle, hne⟩ := hlarge' hlarge
      refine ⟨?_, hle⟩
      split_ifs <;> omega
  · have hfull : full % 2 ^ 32 = full := Nat.mod_eq_of_lt (by omega)
    rw [hfull]
    have hright : (full + 8 * count + 4 ≠ count * 131072 ∧ (2 ^ 32 ≤ full →
        count * 131072 ≤ full ∧ full ≠ count * 131072 + 8 * count + 4)) ↔
          full + 8 * count + 4 ≠ count * 131072 :=
      and_iff_left fun hle => absurd hle hlarge
    rw [hright]
    by_cases hwhole : count * 131072 ≤ full
    · rw [Nat.min_eq_left hwhole] at *
      split_ifs at * <;> omega
    · rw [Nat.min_eq_right (by omega)] at *
      rw [if_neg (by omega)] at hsize
      split_ifs <;> omega

theorem firstParts_fits (hcount : count ≤ 80) (hspan : (count - 1) * kPartSize < file.length)
    {maxSize : ℕ} (hmax : min (count * kPartSize) file.length ≤ maxSize) :
    ∀ part ∈ (firstParts count fun i => partAt file (i * kPartSize)).entries,
      Fits maxSize part := by
  intro part hpart
  obtain ⟨i, hi, rfl⟩ := mem_firstParts.mp hpart
  have hle : i * kPartSize ≤ (count - 1) * kPartSize := Nat.mul_le_mul_right _ (by omega)
  have hnext : (i + 1) * kPartSize ≤ count * kPartSize := Nat.mul_le_mul_right _ hi
  rw [Nat.succ_mul] at hnext
  have hP : 0 < kPartSize := by decide
  rw [Fits, length_partAt]
  dsimp only
  omega

theorem int32_emod (n : ℕ) : (int32 n % 2 ^ 32).toNat = n % 2 ^ 32 := by
  have hpow : (2 : ℤ) ^ 32 = ((2 ^ 32 : ℕ) : ℤ) := by norm_num
  rw [int32, hpow, Int.bmod_emod]
  omega

theorem int32_le (n : ℕ) : int32 n ≤ n := by
  rw [int32, Int.bmod_def]
  split_ifs <;> omega

/-- Contiguous data does not give the parts back: it has more bytes than they have. -/
theorem parseContiguous_ne {data : List UInt8} {part : ℕ → List UInt8}
    (h : count * kPartSize < data.length) :
    parseContiguous 0 data ∅ ≠ firstParts count part := by
  intro heq
  have hcontains : (parseContiguous 0 data ∅).contains (0 + count * kPartSize) = true :=
    contains_parseContiguous h
  rw [heq, Nat.zero_add, FlatMap.contains_iff] at hcontains
  obtain ⟨bytes, hmem⟩ := hcontains
  obtain ⟨i, hi, hentry⟩ := mem_firstParts.mp hmem
  have hkey : i * kPartSize = count * kPartSize := congrArg Prod.fst hentry
  exact hi.ne (Nat.eq_of_mul_eq_mul_right (by decide) hkey)

/-- The first parts are read back if and only if their data is not taken for contiguous data and
they are within the size. -/
theorem parseCachedMap_firstParts_iff (hpos : 0 < count) (hcount : count ≤ 80)
    (hspan : (count - 1) * kPartSize < file.length) :
    (parseCachedMap ∅ (closedData (firstParts count fun i => partAt file (i * kPartSize))
        file.length) (int32 file.length)).1 =
        firstParts count (fun i => partAt file (i * kPartSize)) ↔
      ¬ IsContiguousSerialization (int32 (closedData (firstParts count fun i =>
          partAt file (i * kPartSize)) file.length).length) (int32 file.length) ∧
        min (count * kPartSize) file.length ≤ file.length % 2 ^ 32 := by
  have hlength := length_closedData file count
  have hsize : (firstParts count fun i => partAt file (i * kPartSize)).size = count :=
    size_firstParts
  have hsmall : (closedData (firstParts count fun i => partAt file (i * kPartSize))
      file.length).length < 2 ^ 31 := by
    have hmul := Nat.mul_le_mul_right kPartSize hcount
    have hP : kPartSize = 131072 := rfl
    rw [hlength]
    split_ifs <;> omega
  constructor
  · intro hparse
    rw [parseCachedMap] at hparse
    split_ifs at hparse with hcontiguous hlarge
    · rw [← hparse] at hsize
      exact absurd hsize hpos.ne
    · rw [int32_of_lt hsmall, not_lt] at hlarge
      have hle := hlarge.trans (int32_le _)
      refine absurd hparse (parseContiguous_ne ?_)
      omega
    · refine ⟨hcontiguous, ?_⟩
      have hlast : ((count - 1) * kPartSize, partAt file ((count - 1) * kPartSize)) ∈
          (firstParts count fun i => partAt file (i * kPartSize)).entries :=
        mem_firstParts.mpr ⟨count - 1, by omega, rfl⟩
      have hgood := parseComplexCachedMap_inside _ (hparse ▸ hlast)
      rw [int32_emod, IsBadPart, length_partAt] at hgood
      have hcount' : count * kPartSize = (count - 1) * kPartSize + kPartSize := by
        rw [← Nat.succ_mul, Nat.succ_eq_add_one, Nat.sub_add_cancel hpos]
      have hmul := Nat.mul_le_mul_right kPartSize hcount
      have hP : kPartSize = 131072 := rfl
      omega
  · rintro ⟨hnot, hle⟩
    have hfits := firstParts_fits hcount hspan hle
    rw [← int32_emod] at hfits
    have hrest : ∃ rest, closedData (firstParts count fun i => partAt file (i * kPartSize))
        file.length = serializeComplexPartsMap (firstParts count fun i =>
          partAt file (i * kPartSize)) ++ rest := by
      rw [closedData]
      split_ifs
      · exact ⟨_, rfl⟩
      · exact ⟨[], (List.append_nil _).symm⟩
    obtain ⟨rest, hrest⟩ := hrest
    rw [parseCachedMap]
    rw [if_neg hnot, hrest, parseComplexCachedMap_serialized (hsize.trans_le hcount) hfits]

theorem length_dropWhile_range (k n : ℕ) :
    ((List.range n).dropWhile fun i => decide (i < k)).length = n - k := by
  by_cases h : n ≤ k
  · rw [List.dropWhile_eq_nil_iff.mpr, List.length_nil]
    · omega
    · intro i hi
      exact decide_eq_true ((List.mem_range.mp hi).trans_le h)
  · obtain ⟨m, rfl⟩ := Nat.exists_eq_add_of_le (not_le.mp h).le
    have hdrop : ((List.range k).dropWhile fun i => decide (i < k)) = [] :=
      List.dropWhile_eq_nil_iff.mpr fun i hi => decide_eq_true (List.mem_range.mp hi)
    have hkeep : (((List.range m).map fun i => k + i).dropWhile fun i => decide (i < k)) =
        (List.range m).map fun i => k + i := by
      cases m with
      | zero => rfl
      | succ m =>
        rw [List.range_succ_eq_map, List.map_cons, List.dropWhile_cons_of_neg]
        simp
    rw [List.range_add, List.dropWhile_append, hdrop]
    simp [hkeep]

theorem computeIsGoodHeader_firstParts (size count : ℕ) (part : ℕ → List UInt8) :
    computeIsGoodHeader size (firstParts count part) = true ↔
      kMaxOnlyInHeader < size ∧ count ≤ 72 := by
  have hlt : ((fun part : ℕ × List UInt8 => decide (part.1 < kInSlice)) ∘
      fun i => (i * kPartSize, part i)) = fun i => decide (i < 64) := by
    funext i
    have hP : 0 < kPartSize := by decide
    rw [Function.comp_apply, kInSlice, kPartsInSlice]
    exact decide_eq_decide.mpr (Nat.mul_lt_mul_right hP)
  have hlength : ((firstParts count part).entries.dropWhile fun part =>
      decide (part.1 < kInSlice)).length = count - 64 := by
    rw [firstParts, List.dropWhile_map, List.length_map, hlt, length_dropWhile_range]
  rw [computeIsGoodHeader, decide_eq_true_iff, hlength, isFullInHeader, decide_eq_true_iff,
    not_le, kPartsOutsideFirstSliceGood]
  exact and_congr_right' (by omega)

/-- The first parts of a file are read back if and only if the entry is readable. -/
theorem firstParts_readable_iff (hpos : 0 < count) (hcount : count ≤ 80)
    (hspan : (count - 1) * kPartSize < file.length) :
    (∃ entry, checkedParseCacheEntry (closedData (firstParts count fun i =>
        partAt file (i * kPartSize)) file.length) 0 file.length = some entry ∧
      entry.parts = firstParts count (fun i => partAt file (i * kPartSize))) ↔
      Readable file.length count := by
  have hiff := (parseCachedMap_firstParts_iff hpos hcount hspan).trans
    (readable_sizes hpos hcount hspan (length_closedData file count))
  have hmax : maxSliceSize 0 file.length = int32 file.length := by
    have hzero : (0 : ℕ) = 0 := rfl
    rw [maxSliceSize, if_pos hzero]
  have hgood := computeIsGoodHeader_firstParts file.length count fun i =>
    partAt file (i * kPartSize)
  generalize closedData (firstParts count fun i => partAt file (i * kPartSize))
    file.length = data at *
  generalize firstParts count (fun i => partAt file (i * kPartSize)) = parts at *
  have hparts : (parseCacheEntry data 0 file.length).parts =
      (parseCachedMap ∅ data (int32 file.length)).1 := hmax ▸ parts_parseCacheEntry data 0 _
  have hincluded : (parseCacheEntry data 0 file.length).included.isSome =
      computeIsGoodHeader file.length (parseCachedMap ∅ data (int32 file.length)).1 :=
    hmax ▸ included_parseCacheEntry data _
  rw [checkedParseCacheEntry]
  rw [hincluded]
  constructor
  · rintro ⟨entry, hentry, hread⟩
    split_ifs at hentry with hviolated
    obtain rfl := Option.some.inj hentry
    rw [hparts] at hread
    obtain ⟨hshort, hlarge⟩ := hiff.mp hread
    refine ⟨hshort, hlarge, fun hheader hfew => ?_⟩
    rw [hread, hgood] at hviolated
    by_contra hcount
    exact hviolated ⟨.inr ⟨hheader, hfew⟩, not_lt.mp hcount⟩
  · intro hreadable
    have hread := hiff.mpr ⟨hreadable.short, hreadable.large⟩
    have hfine : ¬ ((0 ≠ 0 ∨ computeIsGoodHeader file.length
        (parseCachedMap ∅ data (int32 file.length)).1 = true) ∧
          0x1FF ≤ slicesCount file.length) := by
      rw [hread, hgood]
      rintro ⟨hzero | ⟨hheader, hfew⟩, hcount⟩
      · exact hzero rfl
      · exact absurd (hreadable.header hheader hfew) (not_lt.mpr hcount)
    rw [if_neg hfine]
    exact ⟨_, rfl, hparts.trans hread⟩

end Preloaded

end TelegramDesktop.Media.Streaming
