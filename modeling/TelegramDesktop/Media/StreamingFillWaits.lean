import TelegramDesktop.Media.StreamingFillPrepare

namespace TelegramDesktop.Media.Streaming
open Base

namespace Slices

section Offsets

variable {size base limit x : ℕ} {values : List ℕ} {offsets : StackIntVector kLoadFromRemoteMax}

theorem mem_addOffsets (h : x ∈ (addOffsets size base limit values offsets).values) :
    x ∈ offsets.values ∨ ∃ offset ∈ values, x = offset + base ∧ offset < limit ∧ x < size := by
  induction values generalizing offsets with
  | nil => exact .inl h
  | cons offset values ih =>
    rcases ih h with h | ⟨other, hother, hx⟩
    · dsimp only at h
      split_ifs at h with hin
      · rcases StackIntVector.mem_add h with h | rfl
        · exact .inl h
        · exact .inr ⟨offset, List.mem_cons_self, rfl, hin⟩
      · exact .inl h
    · exact .inr ⟨other, List.mem_cons_of_mem _ hother, hx⟩

theorem head_addOffsets (h : offsets.values.head? = some x) :
    (addOffsets size base limit values offsets).values.head? = some x := by
  induction values generalizing offsets with
  | nil => exact h
  | cons offset values ih =>
    apply ih
    dsimp only
    split_ifs
    · exact StackIntVector.head_add h
    · exact h

theorem addOffsets_first {offset : ℕ} (hoffsets : offsets.values = [])
    (hvalues : values.head? = some offset) (hlimit : offset < limit)
    (hsize : offset + base < size) :
    (addOffsets size base limit values offsets).values.head? = some (offset + base) := by
  obtain ⟨rest, rfl⟩ := List.head?_eq_some_iff.mp hvalues
  rw [addOffsets, List.foldl_cons, if_pos ⟨hlimit, hsize⟩]
  exact head_addOffsets (StackIntVector.add_first (by decide) hoffsets).1

theorem addOffsets_none (h : ∀ offset ∈ values, limit ≤ offset) :
    addOffsets size base limit values offsets = offsets := by
  induction values with
  | nil => rfl
  | cons offset values ih =>
    have hout : ¬ (offset < limit ∧ offset + base < size) := fun hin =>
      absurd hin.1 (not_lt.mpr (h offset List.mem_cons_self))
    rw [addOffsets, List.foldl_cons, if_neg hout]
    exact ih fun other hother => h other (List.mem_cons_of_mem _ hother)

end Offsets

section Fill

variable {s s' : Slices} {result : FillResult} {sliceIndex from_ till : ℕ}

/-- A slice that has been read from the cache is left, else it is waited for. -/
theorem readSlice_spec {filled filled' : FillResult × Slices}
    (h : readSlice sliceIndex filled = some filled') :
    filled'.1.offsetsFromLoader = filled.1.offsetsFromLoader ∧
      (filled' = filled ∧
          (∀ slice, filled.2.data[sliceIndex]? = some slice → ¬ filled.2.cacheNotLoaded slice) ∨
        filled'.1.state = .waitingCache ∧
          (∃ slice, filled'.2.data[sliceIndex]? = some slice ∧ slice.loadingFromCache = true)) := by
  obtain ⟨slice, hslice, hread⟩ := Option.bind_eq_some_iff.mp h
  obtain ⟨s, hs, rfl⟩ := Option.map_eq_some_iff.mp hread
  obtain ⟨slice', hslice', rfl⟩ := Option.map_eq_some_iff.mp hs
  obtain rfl := Option.some.inj (hslice.symm.trans hslice')
  by_cases hnot : filled.2.cacheNotLoaded slice
  · have hmodes : filled.2.headerMode ≠ .noCache ∧ filled.2.headerMode ≠ .unknown ∧
        ¬ slice.loadedFromCache := hnot
    rw [if_pos hnot, if_pos hmodes]
    refine ⟨rfl, .inr ⟨rfl, { slice with loadingFromCache := true }, ?_, rfl⟩⟩
    have hlt := (List.getElem?_eq_some_iff.mp hslice).1
    exact List.getElem?_set_self hlt
  · have hmodes : ¬ (filled.2.headerMode ≠ .noCache ∧ filled.2.headerMode ≠ .unknown ∧
        ¬ slice.loadedFromCache) := hnot
    rw [if_neg hnot, if_neg hmodes]
    refine ⟨rfl, .inl ⟨rfl, fun other hother => ?_⟩⟩
    · rwa [← Option.some.inj (hslice.symm.trans hother)]

theorem fillFromHeader_spec (h : Valid s) {offset length : ℕ}
    (hadmissible : s.Admissible offset length)
    (hfill : s.fillFromHeader offset length = some result) :
    (result.state = .waitingRemote →
        ∃ x, Slice.FirstMissing s.header.parts offset (offset + length) x ∧
          x ∈ result.offsetsFromLoader.values) ∧
      result.state ≠ .waitingCache ∧
      ∀ x ∈ result.offsetsFromLoader.values,
        x < s.size ∧ x % kPartSize = 0 ∧ s.header.parts.get? x = none := by
  obtain ⟨hpos, -, hle, -⟩ := hadmissible
  have hlt : offset < offset + length := by omega
  obtain ⟨-, hmissing, hoffsets⟩ := Slice.prepareFill_spec h.header hlt hle
  rw [fillFromHeader] at hfill
  generalize s.header.prepareFill offset (offset + length) = prepared at *
  have hinside : ∀ x ∈ (addOffsets s.size 0 s.size prepared.offsetsFromLoader.values {}).values,
      x < s.size ∧ x % kPartSize = 0 ∧ s.header.parts.get? x = none := by
    intro x hx
    rcases mem_addOffsets hx with hx | ⟨other, hother, rfl, hbelow, -⟩
    · exact absurd hx List.not_mem_nil
    · exact ⟨hbelow, hoffsets _ hother⟩
  split_ifs at hfill with hready
  · obtain ⟨buffer, -, rfl⟩ := Option.map_eq_some_iff.mp hfill
    exact ⟨by rintro ⟨⟩, by rintro ⟨⟩, hinside⟩
  · obtain rfl := Option.some.inj hfill
    refine ⟨fun _ => ?_, by rintro ⟨⟩, hinside⟩
    obtain ⟨x, hx, hhead⟩ := hmissing (Bool.eq_false_iff.mpr hready)
    have hbelow : x < s.size := hx.inRange.2.2.trans_le hle
    exact ⟨x, hx, List.mem_of_mem_head? (addOffsets_first rfl hhead hbelow hbelow)⟩

/-- What is asked for is behind the start of the slice, in it and in the file, and is not held. -/
def AskedOf (s : Slices) (sliceIndex x : ℕ) : Prop :=
  ∃ slice offset, s.data[sliceIndex]? = some slice ∧ x = offset + sliceIndex * kInSlice ∧
    offset < kInSlice ∧ x < s.size ∧ offset % kPartSize = 0 ∧ slice.parts.get? offset = none

theorem mem_handlePrepareResult {slice : Slice} {x : ℕ}
    {offsets : StackIntVector kLoadFromRemoteMax} {prepared : PrepareFillResult}
    (hslice : s.data[sliceIndex]? = some slice)
    (hoffsets : ∀ x ∈ prepared.offsetsFromLoader.values,
      x % kPartSize = 0 ∧ slice.parts.get? x = none)
    (hx : x ∈ (s.handlePrepareResult sliceIndex slice prepared offsets).values) :
    x ∈ offsets.values ∨ s.AskedOf sliceIndex x := by
  rw [handlePrepareResult] at hx
  split_ifs at hx
  · exact .inl hx
  · rcases mem_addOffsets hx with hx | ⟨offset, hoffset, heq, hbelow, hsize⟩
    · exact .inl hx
    · obtain ⟨hmod, hnone⟩ := hoffsets offset hoffset
      exact .inr ⟨slice, offset, hslice, heq, hbelow, hsize, hmod, hnone⟩

theorem limit_bounds {x : ℕ} (h : x < sliceLimit (sliceIndex + 1) s.size) :
    x < kInSlice ∧ x + sliceIndex * kInSlice < s.size := by
  rw [sliceLimit, if_neg (Nat.succ_ne_zero _), Nat.add_sub_cancel] at h
  omega

theorem fillFromSlice_spec (h : Valid s) (hlt : from_ < till)
    (hlimit : till ≤ sliceLimit (sliceIndex + 1) s.size)
    (hfill : s.fillFromSlice sliceIndex from_ till = some (result, s')) :
    (result.state = .waitingRemote → ∃ slice x, s.data[sliceIndex]? = some slice ∧
        Slice.FirstMissing slice.parts from_ till x ∧
          x + sliceIndex * kInSlice ∈ result.offsetsFromLoader.values) ∧
      (result.state = .waitingCache → ∃ slice, s'.data[sliceIndex]? = some slice ∧
        slice.loadingFromCache = true) ∧
      ∀ x ∈ result.offsetsFromLoader.values, s.AskedOf sliceIndex x := by
  obtain ⟨slice, hslice, hfill⟩ := Option.bind_eq_some_iff.mp hfill
  obtain ⟨-, hmissing, hoffsets⟩ := Slice.prepareFill_spec (h.slices _ _ hslice) hlt hlimit
  generalize slice.prepareFill from_ till = prepared at *
  have hasked : ∀ x ∈ (s.handlePrepareResult sliceIndex slice prepared {}).values,
      s.AskedOf sliceIndex x := fun x hx =>
    (mem_handlePrepareResult hslice hoffsets hx).resolve_left List.not_mem_nil
  dsimp only at hfill
  split_ifs at hfill with hready
  · obtain ⟨buffer, -, hfill⟩ := Option.bind_eq_some_iff.mp hfill
    obtain ⟨unloaded, -, hpair⟩ := Option.map_eq_some_iff.mp hfill
    obtain ⟨rfl, -⟩ := Prod.mk.inj hpair
    exact ⟨by rintro ⟨⟩, by rintro ⟨⟩, hasked⟩
  · obtain ⟨hsame, hread⟩ := readSlice_spec hfill
    dsimp only at hsame hread
    rw [hsame]
    rcases hread with ⟨hleft, hloaded⟩ | ⟨hstate, hwaited⟩
    · obtain ⟨rfl, rfl⟩ := Prod.mk.inj hleft
      refine ⟨fun _ => ?_, by rintro ⟨⟩, hasked⟩
      obtain ⟨x, hx, hhead⟩ := hmissing (Bool.eq_false_iff.mpr hready)
      obtain ⟨hbelow, hsize⟩ := limit_bounds (hx.inRange.2.2.trans_le hlimit)
      refine ⟨slice, x, hslice, hx, ?_⟩
      rw [handlePrepareResult, if_neg (hloaded slice hslice)]
      exact List.mem_of_mem_head? (addOffsets_first rfl hhead hbelow hsize)
    · refine ⟨fun hstate' => ?_, fun _ => hwaited, hasked⟩
      rw [hstate] at hstate'
      cases hstate'

theorem fillFromSlices_spec (h : Valid s) (hlt : from_ < kInSlice) (hpos : 0 < till)
    (hfirst : kInSlice ≤ sliceLimit (sliceIndex + 1) s.size)
    (hlimit : till ≤ sliceLimit (sliceIndex + 2) s.size)
    (hfill : s.fillFromSlices sliceIndex from_ kInSlice till = some (result, s')) :
    (result.state = .waitingRemote → ∃ slice next x, s.data[sliceIndex]? = some slice ∧
        s.data[sliceIndex + 1]? = some next ∧
        (Slice.FirstMissing slice.parts from_ kInSlice x ∧
            x + sliceIndex * kInSlice ∈ result.offsetsFromLoader.values ∨
          (∀ y, InRange from_ kInSlice y → slice.parts.contains y = true) ∧
            Slice.FirstMissing next.parts 0 till x ∧
            x + (sliceIndex + 1) * kInSlice ∈ result.offsetsFromLoader.values)) ∧
      (result.state = .waitingCache →
        ∃ i slice, (i = sliceIndex ∨ i = sliceIndex + 1) ∧ s'.data[i]? = some slice ∧
          slice.loadingFromCache = true) ∧
      ∀ x ∈ result.offsetsFromLoader.values,
        s.AskedOf sliceIndex x ∨ s.AskedOf (sliceIndex + 1) x := by
  obtain ⟨slice, hslice, hfill⟩ := Option.bind_eq_some_iff.mp hfill
  obtain ⟨next, hnext, hfill⟩ := Option.bind_eq_some_iff.mp hfill
  obtain ⟨hready₁, hmissing₁, hoffsets₁⟩ :=
    Slice.prepareFill_spec (h.slices _ _ hslice) hlt hfirst
  obtain ⟨-, hmissing₂, hoffsets₂⟩ := Slice.prepareFill_spec (h.slices _ _ hnext) hpos hlimit
  generalize slice.prepareFill from_ kInSlice = first at *
  generalize next.prepareFill 0 till = second at *
  have hasked : ∀ x ∈ (s.handlePrepareResult (sliceIndex + 1) next second
      (s.handlePrepareResult sliceIndex slice first {})).values,
        s.AskedOf sliceIndex x ∨ s.AskedOf (sliceIndex + 1) x := by
    intro x hx
    rcases mem_handlePrepareResult hnext hoffsets₂ hx with hx | hx
    · exact .inl ((mem_handlePrepareResult hslice hoffsets₁ hx).resolve_left List.not_mem_nil)
    · exact .inr hx
  dsimp only at hfill
  split_ifs at hfill with hready
  · obtain ⟨buffer, -, hfill⟩ := Option.bind_eq_some_iff.mp hfill
    obtain ⟨rest, -, hfill⟩ := Option.bind_eq_some_iff.mp hfill
    obtain ⟨unloaded, -, hpair⟩ := Option.map_eq_some_iff.mp hfill
    obtain ⟨rfl, -⟩ := Prod.mk.inj hpair
    exact ⟨by rintro ⟨⟩, by rintro ⟨⟩, hasked⟩
  · obtain ⟨filled, hread₁, hread₂⟩ := Option.bind_eq_some_iff.mp hfill
    obtain ⟨hsame₁, hcase₁⟩ := readSlice_spec hread₁
    obtain ⟨hsame₂, hcase₂⟩ := readSlice_spec hread₂
    dsimp only at hsame₁ hcase₁ hsame₂ hcase₂
    rw [hsame₂, hsame₁]
    rcases hcase₂ with ⟨hleft₂, hloaded₂⟩ | ⟨hstate, waited, hwaited⟩
    · obtain rfl : filled = (result, s') := hleft₂.symm
      rcases hcase₁ with ⟨hleft₁, hloaded₁⟩ | ⟨hstate, waited, hwaited⟩
      · obtain ⟨rfl, rfl⟩ := Prod.mk.inj hleft₁
        refine ⟨fun _ => ?_, by rintro ⟨⟩, hasked⟩
        rw [handlePrepareResult, if_neg (hloaded₂ next hnext), handlePrepareResult,
          if_neg (hloaded₁ slice hslice)]
        by_cases hready' : first.ready = true
        · obtain ⟨hall, hbehind⟩ := hready₁ hready'
          rw [addOffsets_none hbehind]
          have hnot : second.ready = false := by
            rw [hready', Bool.true_and] at hready
            exact Bool.eq_false_iff.mpr hready
          obtain ⟨x, hx, hhead⟩ := hmissing₂ hnot
          obtain ⟨hbelow, hsize⟩ := limit_bounds (hx.inRange.2.2.trans_le hlimit)
          exact ⟨slice, next, x, hslice, hnext, .inr ⟨hall, hx,
            List.mem_of_mem_head? (addOffsets_first rfl hhead hbelow hsize)⟩⟩
        · obtain ⟨x, hx, hhead⟩ := hmissing₁ (Bool.eq_false_iff.mpr hready')
          obtain ⟨hbelow, hsize⟩ := limit_bounds (hx.inRange.2.2.trans_le hfirst)
          exact ⟨slice, next, x, hslice, hnext, .inl ⟨hx, List.mem_of_mem_head?
            (head_addOffsets (addOffsets_first rfl hhead hbelow hsize))⟩⟩
      · refine ⟨fun hstate' => ?_, fun _ => ⟨_, waited, .inl rfl, hwaited⟩, hasked⟩
        rw [hstate] at hstate'
        cases hstate'
    · refine ⟨fun hstate' => ?_, fun _ => ⟨_, waited, .inr rfl, hwaited⟩, hasked⟩
      rw [hstate] at hstate'
      cases hstate'

/-- The part at the offset is held where the file is read from. -/
def Loaded (s : Slices) (x : ℕ) : Prop :=
  if s.isFullInHeader then s.header.parts.contains x = true
  else ∃ slice, s.data[x / kInSlice]? = some slice ∧ slice.parts.contains (x % kInSlice) = true

/-- The first part of the range that is not held. -/
structure FirstNotLoaded (s : Slices) (offset till x : ℕ) : Prop where
  inRange : InRange offset till x
  missing : ¬ s.Loaded x
  before : ∀ y, InRange offset till y → y < x → s.Loaded y

theorem contains_false_iff {parts : PartsMap} {x : ℕ} :
    ¬ parts.contains x = true ↔ parts.get? x = none := by
  rw [FlatMap.contains]
  cases parts.get? x <;> simp

theorem loaded_iff (hfull : ¬ s.isFullInHeader = true) {slice : Slice} {offset : ℕ}
    (hslice : s.data[sliceIndex]? = some slice) (hbelow : offset < kInSlice) :
    s.Loaded (offset + sliceIndex * kInSlice) ↔ slice.parts.contains offset = true := by
  have hin : 0 < kInSlice := by decide
  rw [Loaded, if_neg hfull, Nat.add_mul_div_right _ _ hin, Nat.div_eq_of_lt hbelow,
    Nat.zero_add, Nat.add_mul_mod_self_right, Nat.mod_eq_of_lt hbelow, hslice]
  simp

theorem slice_start (sliceIndex : ℕ) :
    sliceIndex * kInSlice = sliceIndex * kPartsInSlice * kPartSize := by
  rw [kInSlice, Nat.mul_assoc]

theorem aligned_start (from_ sliceIndex : ℕ) :
    (from_ + sliceIndex * kInSlice) / kPartSize * kPartSize =
      from_ / kPartSize * kPartSize + sliceIndex * kInSlice := by
  have hP : 0 < kPartSize := by decide
  rw [slice_start, Nat.add_mul_div_right _ _ hP, Nat.add_mul]

theorem mod_part {x : ℕ} : (x + sliceIndex * kInSlice) % kPartSize = x % kPartSize := by
  rw [slice_start, Nat.add_mul_mod_self_right]

theorem AskedOf.not_loaded {x : ℕ} (h : s.AskedOf sliceIndex x)
    (hfull : ¬ s.isFullInHeader = true) : x < s.size ∧ x % kPartSize = 0 ∧ ¬ s.Loaded x := by
  obtain ⟨slice, offset, hslice, rfl, hbelow, hsize, hmod, hnone⟩ := h
  refine ⟨hsize, mod_part.trans hmod, ?_⟩
  · rw [loaded_iff hfull hslice hbelow]
    exact contains_false_iff.mpr hnone

/-- The first part of a slice that is missing is the first of the file that is, from there. -/
theorem firstNotLoaded_of_slice (hfull : ¬ s.isFullInHeader = true) {slice : Slice}
    {offset fileTill x : ℕ} (hslice : s.data[sliceIndex]? = some slice) (htill : till ≤ kInSlice)
    (h : Slice.FirstMissing slice.parts from_ till x)
    (hbefore : ∀ y, InRange offset fileTill y →
      y < from_ / kPartSize * kPartSize + sliceIndex * kInSlice → s.Loaded y)
    (hin : InRange offset fileTill (x + sliceIndex * kInSlice)) :
    s.FirstNotLoaded offset fileTill (x + sliceIndex * kInSlice) := by
  have hrange := h.inRange
  refine ⟨hin, ?_, fun y hy hlt => ?_⟩
  · rw [loaded_iff hfull hslice (hrange.2.2.trans_le htill)]
    exact contains_false_iff.mpr h.missing
  · by_cases hstart : y < from_ / kPartSize * kPartSize + sliceIndex * kInSlice
    · exact hbefore y hy hstart
    · obtain ⟨z, rfl⟩ := Nat.exists_eq_add_of_le' (show sliceIndex * kInSlice ≤ y by omega)
      have hmod : z % kPartSize = 0 := mod_part.symm.trans hy.1
      have hbelow := hrange.2.2
      have hz : InRange from_ till z := ⟨hmod, by omega, by omega⟩
      rw [loaded_iff hfull hslice (hz.2.2.trans_le htill)]
      exact h.before z hz (by omega)

/-- The initial cache query is waited for. -/
def waitsForHeader (s : Slices) : Prop := s.headerMode ≠ .noCache ∧ ¬ s.header.loadedFromCache

instance (s : Slices) : Decidable s.waitsForHeader := by
  unfold waitsForHeader
  infer_instance

/-- A read that waits for the file asks for the first part that is not held, if it does not wait
for the initial cache query; one that waits for the cache waits for a slice of its range; and only
parts of the file that are not held are asked for. -/
structure WaitsFor (s : Slices) (offset till : ℕ) (result : FillResult) (s' : Slices) :
    Prop where
  query : s.waitsForHeader → s.header.loadingFromCache = true ∧
    result.state = .waitingRemote ∧ result.offsetsFromLoader.values = []
  remote : result.state = .waitingRemote → ¬ s.waitsForHeader →
    ∃ x, s.FirstNotLoaded offset till x ∧ x ∈ result.offsetsFromLoader.values
  cache : result.state = .waitingCache → ∃ i slice, i * kInSlice < till ∧
    offset < (i + 1) * kInSlice ∧ s'.data[i]? = some slice ∧ slice.loadingFromCache = true
  offsets : ∀ x ∈ result.offsetsFromLoader.values, x < s.size ∧ x % kPartSize = 0 ∧ ¬ s.Loaded x

theorem le_limit {x size : ℕ} : x ≤ sliceLimit (sliceIndex + 1) size ↔
    x ≤ kInSlice ∧ x ≤ size - sliceIndex * kInSlice := by
  rw [sliceLimit, if_neg (Nat.succ_ne_zero _), Nat.add_sub_cancel, Nat.le_min]

theorem one_slice {length : ℕ} (hpos : 0 < length)
    (hlt : from_ + sliceIndex * kInSlice + length < 2 ^ 32)
    (h : sliceIndex + 1 =
      (from_ + sliceIndex * kInSlice + length + kInSlice - 1) % 2 ^ 32 / kInSlice) :
    from_ + length ≤ kInSlice := by
  have hin : kInSlice = 8388608 := rfl
  rw [hin] at hlt h ⊢
  omega

theorem two_slices {length : ℕ} (hpos : 0 < length)
    (hlt : from_ + sliceIndex * kInSlice + length < 2 ^ 32)
    (h : sliceIndex + 2 =
      (from_ + sliceIndex * kInSlice + length + kInSlice - 1) % 2 ^ 32 / kInSlice) :
    kInSlice < from_ + length := by
  have hin : kInSlice = 8388608 := rfl
  rw [hin] at hlt h ⊢
  omega

/-- Where the range is in slices. -/
theorem fill_slices (h : Valid s) (hfull : ¬ s.isFullInHeader = true) {length tillSlice : ℕ}
    (hpos : 0 < length) (hle : from_ + sliceIndex * kInSlice + length ≤ s.size)
    (hlen : length ≤ kInSlice) (hlt : from_ < kInSlice)
    (hquery : ¬ s.waitsForHeader)
    (htill : tillSlice =
      (from_ + sliceIndex * kInSlice + length + kInSlice - 1) % 2 ^ 32 / kInSlice)
    (hfill : (if s.data.length < tillSlice then none
      else if sliceIndex + 1 = tillSlice then
        s.fillFromSlice sliceIndex from_ (min kInSlice (from_ + length))
      else if sliceIndex + 2 = tillSlice then
        s.fillFromSlices sliceIndex from_ (min kInSlice (from_ + length))
          (from_ + length - kInSlice)
      else none) = some (result, s')) :
    s.WaitsFor (from_ + sliceIndex * kInSlice) (from_ + sliceIndex * kInSlice + length)
      result s' := by
  have hsize := h.size_lt
  have hbefore : ∀ fileTill y, InRange (from_ + sliceIndex * kInSlice) fileTill y →
      y < from_ / kPartSize * kPartSize + sliceIndex * kInSlice → s.Loaded y := by
    intro fileTill y hy hstart
    have hafter := hy.2.1
    rw [aligned_start] at hafter
    exact absurd hstart (not_lt.mpr hafter)
  by_cases hshort : s.data.length < tillSlice
  · rw [if_pos hshort] at hfill
    nomatch hfill
  rw [if_neg hshort] at hfill
  by_cases hone : sliceIndex + 1 = tillSlice
  · rw [if_pos hone] at hfill
    have hend := one_slice hpos (hle.trans_lt hsize) (hone.trans htill)
    have hmin : min kInSlice (from_ + length) = from_ + length := min_eq_right hend
    have hlimit : from_ + length ≤ sliceLimit (sliceIndex + 1) s.size :=
      le_limit.mpr ⟨hend, by omega⟩
    rw [hmin] at hfill
    obtain ⟨hremote, hcache, hasked⟩ := fillFromSlice_spec h (by omega) hlimit hfill
    refine ⟨fun hwaits => absurd hwaits hquery, fun hstate _ => ?_, fun hstate => ?_,
      fun x hx => (hasked x hx).not_loaded hfull⟩
    · obtain ⟨slice, x, hslice, hx, hmem⟩ := hremote hstate
      obtain ⟨hmod, hstart, hbelow⟩ := hx.inRange
      refine ⟨_, firstNotLoaded_of_slice hfull hslice hend hx (hbefore _)
        ⟨mod_part.trans hmod, ?_, by omega⟩, hmem⟩
      rw [aligned_start]
      omega
    · obtain ⟨slice, hslice, hloading⟩ := hcache hstate
      refine ⟨sliceIndex, slice, by omega, ?_, hslice, hloading⟩
      rw [Nat.succ_mul]
      omega
  rw [if_neg hone] at hfill
  by_cases htwo : sliceIndex + 2 = tillSlice
  · rw [if_pos htwo] at hfill
    have hend := two_slices hpos (hle.trans_lt hsize) (htwo.trans htill)
    have hmin : min kInSlice (from_ + length) = kInSlice := min_eq_left hend.le
    have hfirst : kInSlice ≤ sliceLimit (sliceIndex + 1) s.size := le_limit.mpr ⟨le_rfl, by omega⟩
    have hlimit : from_ + length - kInSlice ≤ sliceLimit (sliceIndex + 1 + 1) s.size := by
      apply le_limit.mpr
      rw [Nat.succ_mul]
      omega
    rw [hmin] at hfill
    obtain ⟨hremote, hcache, hasked⟩ := fillFromSlices_spec h hlt (by omega) hfirst hlimit hfill
    refine ⟨fun hwaits => absurd hwaits hquery, fun hstate _ => ?_, fun hstate => ?_,
      fun x hx => ?_⟩
    · obtain ⟨slice, next, x, hslice, hnextSlice, ⟨hx, hmem⟩ | ⟨hall, hx, hmem⟩⟩ := hremote hstate
      · obtain ⟨hmod, hstart, hbelow⟩ := hx.inRange
        refine ⟨_, firstNotLoaded_of_slice hfull hslice le_rfl hx (hbefore _)
          ⟨mod_part.trans hmod, ?_, by omega⟩, hmem⟩
        rw [aligned_start]
        omega
      · obtain ⟨hmod, -, hbelow⟩ := hx.inRange
        refine ⟨_, firstNotLoaded_of_slice hfull hnextSlice (by omega) hx (fun y hy hstart => ?_)
          ⟨mod_part.trans hmod, ?_, ?_⟩, hmem⟩
        · -- The rest of the first slice is held.
          have hafter := hy.2.1
          rw [aligned_start] at hafter
          rw [Nat.zero_div, Nat.zero_mul, Nat.zero_add, Nat.succ_mul] at hstart
          obtain ⟨z, rfl⟩ := Nat.exists_eq_add_of_le' (show sliceIndex * kInSlice ≤ y by omega)
          rw [loaded_iff hfull hslice (by omega)]
          exact hall z ⟨mod_part.symm.trans hy.1, by omega, by omega⟩
        · rw [aligned_start, Nat.succ_mul]
          have hfloor := Nat.div_mul_le_self from_ kPartSize
          omega
        · rw [Nat.succ_mul]
          omega
    · obtain ⟨i, slice, rfl | rfl, hslice, hloading⟩ := hcache hstate
      · refine ⟨i, slice, by omega, ?_, hslice, hloading⟩
        rw [Nat.succ_mul]
        omega
      · refine ⟨sliceIndex + 1, slice, ?_, ?_, hslice, hloading⟩
        · rw [Nat.succ_mul]
          omega
        · rw [Nat.succ_mul, Nat.succ_mul]
          omega
    · rcases hasked x hx with hx | hx
      · exact hx.not_loaded hfull
      · exact hx.not_loaded hfull
  rw [if_neg htwo] at hfill
  nomatch hfill

theorem fill_waitsFor (s : Slices) (h : Reachable s) (offset length : ℕ) (result : FillResult)
    (s' : Slices) (hfill : s.fill offset length = some (result, s')) :
    s.WaitsFor offset (offset + length) result s' := by
  have hvalid := h.valid
  have hsize := hvalid.size_lt
  rw [fill] at hfill
  by_cases hadmissible : s.Admissible offset length
  · rw [if_neg (not_not_intro hadmissible)] at hfill
    by_cases hquery : s.headerMode ≠ .noCache ∧ ¬ s.header.loadedFromCache
    · rw [if_pos hquery] at hfill
      split_ifs at hfill with hloading
      obtain ⟨rfl, rfl⟩ := Prod.mk.inj (Option.some.inj hfill)
      exact ⟨fun _ => ⟨hloading, rfl, rfl⟩, fun _ hnot => absurd hquery hnot, by rintro ⟨⟩,
        fun x hx => absurd hx List.not_mem_nil⟩
    · rw [if_neg hquery] at hfill
      by_cases hfull : s.isFullInHeader = true
      · rw [if_pos hfull] at hfill
        obtain ⟨_, hheader, hpair⟩ := Option.map_eq_some_iff.mp hfill
        obtain ⟨rfl, rfl⟩ := Prod.mk.inj hpair
        obtain ⟨hremote, hcache, hoffsets⟩ := fillFromHeader_spec hvalid hadmissible hheader
        have hloaded : ∀ x, s.Loaded x ↔ s.header.parts.contains x = true := fun x => by
          rw [Loaded, if_pos hfull]
        refine ⟨fun hwaits => absurd hwaits hquery, fun hstate _ => ?_,
          fun hstate => absurd hstate hcache, fun x hx => ?_⟩
        · obtain ⟨x, hx, hmem⟩ := hremote hstate
          refine ⟨x, ⟨hx.inRange, ?_, fun y hy hlt => (hloaded y).mpr (hx.before y hy hlt)⟩, hmem⟩
          rw [hloaded]
          exact contains_false_iff.mpr hx.missing
        · obtain ⟨hbelow, hmod, hnone⟩ := hoffsets x hx
          refine ⟨hbelow, hmod, ?_⟩
          rw [hloaded]
          exact contains_false_iff.mpr hnone
      · rw [if_neg hfull] at hfill
        obtain ⟨hpos, -, hle, hlen⟩ := hadmissible
        have hsplit := Nat.mod_add_div' offset kInSlice
        have hlt := Nat.mod_lt offset (show 0 < kInSlice by decide)
        generalize offset / kInSlice = sliceIndex at hfill hsplit
        generalize offset % kInSlice = from_ at hlt hsplit
        subst hsplit
        have hfirst : from_ + sliceIndex * kInSlice + length - sliceIndex * kInSlice =
            from_ + length := by omega
        have hsecond : from_ + sliceIndex * kInSlice + length - (sliceIndex + 1) * kInSlice =
            from_ + length - kInSlice := by
          rw [Nat.succ_mul]
          omega
        rw [Nat.add_sub_cancel, hfirst, hsecond] at hfill
        exact fill_slices hvalid hfull hpos hle hlen hlt hquery rfl hfill
  · rw [if_pos hadmissible] at hfill
    cases hfill

end Fill

theorem fill_waitsFor_new : ∃ s result s', Reachable s ∧ s.fill 0 2 = some (result, s') ∧
    s.WaitsFor 0 2 result s' := by
  obtain ⟨s, hinit⟩ : ∃ s, init 5 false = some s := ⟨_, rfl⟩
  have hreachable : Reachable s := ⟨5, false, s, by decide, hinit, .refl⟩
  have hsome : ((init 5 false).bind fun s => s.fill 0 2).isSome := by decide
  rw [hinit, Option.bind_some] at hsome
  obtain ⟨⟨result, s'⟩, hfill⟩ := Option.isSome_iff_exists.mp hsome
  exact ⟨s, result, s', hreachable, hfill, fill_waitsFor s hreachable 0 2 result s' hfill⟩

/-- A read before the cache has answered waits for the remote and asks for nothing. -/
theorem fill_waits_query :
    ¬ ∀ s, Reachable s → ∀ offset length result s', s.fill offset length = some (result, s') →
      result.state = .waitingRemote → result.offsetsFromLoader.values ≠ [] := by
  intro h
  obtain ⟨s, hinit⟩ : ∃ s, init 5 true = some s := ⟨_, rfl⟩
  have hreachable : Reachable s := ⟨5, true, s, by decide, hinit, .refl⟩
  have hfill : ((init 5 true).bind fun s => s.fill 0 2).map (fun filled =>
      (filled.1.state, filled.1.offsetsFromLoader.values)) = some (.waitingRemote, []) := by
    decide
  rw [hinit, Option.bind_some] at hfill
  obtain ⟨⟨result, s'⟩, hfill, hpair⟩ := Option.map_eq_some_iff.mp hfill
  obtain ⟨hstate, hvalues⟩ := Prod.mk.inj hpair
  exact h s hreachable 0 2 result s' hfill hstate hvalues

end Slices

end TelegramDesktop.Media.Streaming
