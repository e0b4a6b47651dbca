import TelegramDesktop.Media.StreamingCacheParse

namespace TelegramDesktop.Media.Streaming
open Base

/-- How many bytes of the file a slice is for. -/
def sliceLimit (sliceNumber size : ℕ) : ℕ :=
  if sliceNumber = 0 then size else min kInSlice (size - (sliceNumber - 1) * kInSlice)

theorem maxSliceSize_eq {sliceNumber size : ℕ} (hsize : size < 2 ^ 32)
    (h : sliceNumber ≤ slicesCount size) :
    maxSliceSize sliceNumber size = int32 (sliceLimit sliceNumber size) := by
  rw [maxSliceSize, sliceLimit]
  by_cases hzero : sliceNumber = 0
  · rw [if_pos hzero, if_pos hzero]
  · rw [if_neg hzero, if_neg hzero]
    have hcount : slicesCount size * kInSlice ≤ size + kInSlice - 1 := by
      rw [slicesCount]
      exact (Nat.div_mul_le_self _ _).trans (Nat.mod_le _ _)
    by_cases hlast : sliceNumber = slicesCount size
    · rw [if_pos hlast, hlast]
      have hup : size ≤ slicesCount size * kInSlice := by
        have hpos : 0 < slicesCount size := by omega
        rw [slicesCount, kInSlice, kPartsInSlice, kPartSize] at hpos ⊢
        omega
      generalize slicesCount size = count at *
      have hpred : (count - 1) * kInSlice = count * kInSlice - kInSlice := by
        rw [Nat.sub_mul, one_mul]
      have hmin : min kInSlice (size - (count - 1) * kInSlice) =
          size - (count - 1) * kInSlice := by omega
      have hle : (count - 1) * kInSlice ≤ size := by
        have hin : 0 < kInSlice := by decide
        omega
      have hone : 1 ≤ count := by omega
      rw [hmin, Nat.cast_sub hle, Nat.cast_mul, Nat.cast_sub hone, Nat.cast_one]
    · rw [if_neg hlast]
      have hlt : sliceNumber + 1 ≤ slicesCount size := by omega
      have hmul := Nat.mul_le_mul_right kInSlice hlt
      have hpred : (sliceNumber + 1) * kInSlice =
          (sliceNumber - 1) * kInSlice + kInSlice + kInSlice := by
        rw [show sliceNumber + 1 = sliceNumber - 1 + 1 + 1 by omega]
        ring
      have hmin : min kInSlice (size - (sliceNumber - 1) * kInSlice) = kInSlice := by
        apply Nat.min_eq_left
        omega
      rw [hmin]

theorem ValidParts.size_le {limit count : ℕ} {parts : PartsMap} (h : ValidParts limit parts)
    (hcount : limit ≤ count * kPartSize) : parts.size ≤ count := by
  have hnodup : (parts.keys.map fun key => key / kPartSize).Nodup := by
    apply (List.nodup_map_iff_inj_on parts.keys_nodup).mpr
    intro a ha b hb hab
    obtain ⟨part, hpart, rfl⟩ := List.mem_map.mp ha
    obtain ⟨other, hother, rfl⟩ := List.mem_map.mp hb
    have hdvd := Nat.div_add_mod part.1 kPartSize
    have hdvd' := Nat.div_add_mod other.1 kPartSize
    rw [(h part hpart).1] at hdvd
    rw [(h other hother).1] at hdvd'
    rw [← hdvd, ← hdvd', hab]
  have hsub : (parts.keys.map fun key => key / kPartSize) ⊆ List.range count := by
    intro a ha
    obtain ⟨key, hkey, rfl⟩ := List.mem_map.mp ha
    obtain ⟨part, hpart, rfl⟩ := List.mem_map.mp hkey
    apply List.mem_range.mpr
    apply Nat.div_lt_of_lt_mul
    rw [Nat.mul_comm]
    exact (h part hpart).2.1.trans_le hcount
  have hlen := (hnodup.subperm hsub).length_le
  rwa [List.length_map, FlatMap.keys, List.length_map, List.length_range] at hlen

theorem ValidParts.fits {limit : ℕ} {parts : PartsMap} (h : ValidParts limit parts) :
    ∀ part ∈ parts.entries, Fits limit part := by
  intro part hpart
  obtain ⟨-, hlt, hlen⟩ := h part hpart
  have hP : 0 < kPartSize := by decide
  rw [Fits, hlen]
  omega

theorem parseContiguous_cons {offset : ℕ} {bytes rest : List UInt8} {result : PartsMap}
    (hpos : 0 < bytes.length) (hlen : bytes.length ≤ kPartSize)
    (hrest : rest = [] ∨ bytes.length = kPartSize) :
    parseContiguous offset (bytes ++ rest) result =
      parseContiguous (offset + kPartSize) rest (result.emplace offset bytes) := by
  have hne : bytes ++ rest ≠ [] := List.append_ne_nil_of_left_ne_nil
    (List.length_pos_iff.mp hpos) rest
  rw [parseContiguous, if_neg hne]
  rcases hrest with hrest | hrest
  · rw [hrest, List.append_nil, List.drop_eq_nil_of_le hlen, List.take_of_length_le hlen]
  · rw [List.drop_left' hrest, List.take_left' hrest]

/-- Two places of parts are at least a part away from each other. -/
theorem next_le {a b : ℕ} (ha : a % kPartSize = 0) (hb : b % kPartSize = 0) (h : a < b) :
    a + kPartSize ≤ b := by
  rw [kPartSize] at *
  omega

/-- Where all the parts start before what is loaded from the start ends, the bytes alone give the
parts back. -/
theorem parseContiguous_entries {limit : ℕ} {entries : List (ℕ × List UInt8)} {offset : ℕ}
    (result : PartsMap) (hoffset : offset % kPartSize = 0)
    (hsorted : entries.Pairwise fun a b => a.1 < b.1)
    (hvalid : ∀ part ∈ entries, ValidPart limit part)
    (hle : ∀ part ∈ entries, offset ≤ part.1)
    (hlt : ∀ part ∈ entries, part.1 < findNotLoadedStart entries offset) :
    parseContiguous offset (contiguousData entries) result = emplaceAll entries result ∧
      ((contiguousData entries).length % kPartSize = 0 ∨
        offset + (contiguousData entries).length = limit) ∧
      (offset ≤ limit → offset + (contiguousData entries).length ≤ limit) ∧
      ∀ part ∈ entries, part.1 < offset + entries.length * kPartSize := by
  induction entries generalizing offset result with
  | nil =>
    have hnil : parseContiguous offset [] result = result := by
      rw [parseContiguous, if_pos rfl]
    exact ⟨hnil, .inl (Nat.zero_mod _), id, fun part hpart => absurd hpart (List.not_mem_nil)⟩
  | cons part entries ih =>
    have hP : 0 < kPartSize := by decide
    obtain ⟨hmod, hlimit, hlen⟩ := hvalid part List.mem_cons_self
    have hstart := hle part List.mem_cons_self
    have hdata : contiguousData (part :: entries) = part.2 ++ contiguousData entries :=
      List.flatMap_cons
    -- A gap before the first part would end what is loaded there.
    have hnogap : part.1 = offset := by
      have hin := hlt part List.mem_cons_self
      rw [findNotLoadedStart] at hin
      split_ifs at hin with hcase
      · omega
      · omega
    have hnext : findNotLoadedStart (part :: entries) offset =
        findNotLoadedStart entries (part.1 + part.2.length) := by
      rw [findNotLoadedStart]
      exact if_pos ⟨hnogap.le, by omega⟩
    rw [hnext] at hlt
    have hwhole : entries ≠ [] → part.2.length = kPartSize := by
      intro hne
      obtain ⟨other, hother⟩ := List.exists_mem_of_ne_nil _ hne
      have hless : part.1 < other.1 := List.rel_of_pairwise_cons hsorted hother
      obtain ⟨hmod', hlimit', -⟩ := hvalid other (List.mem_cons_of_mem _ hother)
      have hfar := next_le hmod hmod' hless
      omega
    have hcons : parseContiguous offset (contiguousData (part :: entries)) result =
        parseContiguous (offset + kPartSize) (contiguousData entries)
          (result.emplace part.1 part.2) := by
      rw [hdata, parseContiguous_cons (by omega) (by omega), hnogap]
      by_cases hlast : entries = []
      · exact .inl (congrArg contiguousData hlast)
      · exact .inr (hwhole hlast)
    have hmod' : (offset + kPartSize) % kPartSize = 0 := by
      rw [Nat.add_mod_right]
      exact hoffset
    have hstep : ∀ other ∈ entries, part.2.length = kPartSize ∧ offset + kPartSize ≤ other.1 := by
      intro other hother
      have hless : part.1 < other.1 := List.rel_of_pairwise_cons hsorted hother
      have hother' := (hvalid other (List.mem_cons_of_mem _ hother)).1
      have hfar := next_le hoffset hother' (hnogap ▸ hless)
      exact ⟨hwhole (List.ne_nil_of_mem hother), hfar⟩
    have hlt' : ∀ other ∈ entries, other.1 < findNotLoadedStart entries (offset + kPartSize) := by
      intro other hother
      have hin := hlt other (List.mem_cons_of_mem _ hother)
      rwa [(hstep other hother).1, hnogap] at hin
    obtain ⟨hparse, hlength, hfit, hkeys⟩ := ih (result.emplace part.1 part.2) hmod'
      hsorted.of_cons (fun other hother => hvalid other (List.mem_cons_of_mem _ hother))
      (fun other hother => (hstep other hother).2) hlt'
    refine ⟨hcons.trans hparse, ?_, ?_, ?_⟩
    · rw [hdata, List.length_append]
      by_cases hlast : entries = []
      · subst hlast
        have hnil : (contiguousData []).length = 0 := rfl
        by_cases hroom : kPartSize ≤ limit - part.1
        · have hfull : part.2.length = kPartSize := by omega
          rw [hfull, hnil, Nat.add_zero]
          exact .inl (Nat.mod_self _)
        · omega
      · rw [hwhole hlast, Nat.add_mod_left]
        omega
    · intro hroom
      rw [hdata, List.length_append]
      by_cases hlast : entries = []
      · subst hlast
        have hnil : (contiguousData []).length = 0 := rfl
        omega
      · obtain ⟨other, hother⟩ := List.exists_mem_of_ne_nil _ hlast
        have hfar := (hstep other hother).2
        have hin := (hvalid other (List.mem_cons_of_mem _ hother)).2.1
        have hfit := hfit (by omega)
        rw [hwhole hlast]
        omega
    · intro other hother
      rw [List.length_cons, Nat.succ_mul]
      rcases List.mem_cons.mp hother with rfl | hother
      · omega
      · have hkey := hkeys other hother
        omega

/-- Contiguous data is taken for such, and is read back. -/
theorem parseCachedMap_contiguous {limit : ℕ} {parts : PartsMap} (hvalid : ValidParts limit parts)
    (hlimit : limit < 2 ^ 31)
    (hlt : ∀ part ∈ parts.entries, part.1 < findNotLoadedStart parts.entries 0) :
    IsContiguousSerialization (int32 (contiguousData parts.entries).length) (int32 limit) ∧
      parseCachedMap ∅ (contiguousData parts.entries) (int32 limit) = (parts, []) := by
  obtain ⟨hparse, hlength, hfit, -⟩ := parseContiguous_entries ∅ (Nat.zero_mod kPartSize)
    parts.sorted hvalid (fun _ _ => Nat.zero_le _) hlt
  have hle := hfit (Nat.zero_le _)
  generalize hdata : contiguousData parts.entries = data at *
  have hsmall : data.length < 2 ^ 31 := by omega
  have hcontiguous : IsContiguousSerialization (int32 data.length) (int32 limit) := by
    rw [int32_of_lt hlimit, int32_of_lt hsmall, IsContiguousSerialization]
    omega
  refine ⟨hcontiguous, ?_⟩
  have hroom : ¬ int32 limit < int32 data.length := by
    rw [int32_of_lt hlimit, int32_of_lt hsmall]
    omega
  rw [parseCachedMap]
  rw [if_pos hcontiguous, if_neg hroom, hparse, emplaceAll_entries]

end TelegramDesktop.Media.Streaming
