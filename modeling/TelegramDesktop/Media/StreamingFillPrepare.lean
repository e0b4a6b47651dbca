import TelegramDesktop.Media.StreamingFill

namespace TelegramDesktop.Media.Streaming
open Base

namespace StackIntVector

variable {size : ℕ} {v : StackIntVector size} {x y : ℕ}

theorem mem_add (h : y ∈ (v.add x).1.values) : y ∈ v.values ∨ y = x := by
  rw [add] at h
  split_ifs at h
  · rcases List.mem_append.mp h with h | h
    · exact .inl h
    · exact .inr (List.mem_singleton.mp h)
  · exact .inl h

theorem head_add (h : v.values.head? = some y) : (v.add x).1.values.head? = some y := by
  rw [add]
  split_ifs
  · rw [List.head?_append, h]
    rfl
  · exact h

/-- There is room for the first value. -/
theorem add_first (hsize : 0 < size) (h : v.values = []) :
    (v.add x).1.values.head? = some x ∧ (v.add x).2 = true := by
  have hroom : v.values.length < size := by
    rw [h]
    exact hsize
  rw [add, dif_pos hroom]
  refine ⟨?_, rfl⟩
  change (v.values ++ [x]).head? = some x
  rw [h]
  rfl

end StackIntVector

section Offsets

variable {check : List (ℕ × List UInt8)} {result : StackIntVector kLoadFromRemoteMax}
  {offset x : ℕ} {offsets : List ℕ}

/-- A part that starts at the offset is the first of those that do not start before it. -/
theorem head_dropWhile_iff (hsorted : check.Pairwise fun a b => a.1 < b.1) :
    ((check.dropWhile fun part => decide (part.1 < offset)).head?.any
      fun part => part.1 == offset) = true ↔ ∃ part ∈ check, part.1 = offset := by
  induction check with
  | nil => simp
  | cons part check ih =>
    rw [List.dropWhile_cons, List.exists_mem_cons_iff]
    split_ifs with hlt
    · have hlt' := of_decide_eq_true hlt
      rw [ih hsorted.of_cons, or_iff_right hlt'.ne]
    · have hge := not_lt.mp (of_decide_eq_false (Bool.eq_false_iff.mpr hlt))
      simp only [List.head?_cons, Option.any_some, beq_iff_eq]
      refine (or_iff_left ?_).symm
      rintro ⟨other, hother, heq⟩
      have hless := List.rel_of_pairwise_cons hsorted hother
      omega

theorem head_addNotLoaded (h : result.values.head? = some x) :
    (addNotLoaded check result offsets).values.head? = some x := by
  induction offsets generalizing check result with
  | nil => exact h
  | cons offset offsets ih =>
    rw [addNotLoaded]
    dsimp only
    split_ifs
    · exact ih h
    · exact ih (StackIntVector.head_add h)
    · exact h

/-- The first offset is added first if no part starts there. -/
theorem addNotLoaded_first (hsorted : check.Pairwise fun a b => a.1 < b.1)
    (hnone : ∀ part ∈ check, part.1 ≠ offset) (hresult : result.values = []) :
    (addNotLoaded check result (offset :: offsets)).values.head? = some offset := by
  have hnot : ¬ ((check.dropWhile fun part => decide (part.1 < offset)).head?.any
      fun part => part.1 == offset) = true := by
    rw [head_dropWhile_iff hsorted]
    rintro ⟨part, hpart, heq⟩
    exact hnone part hpart heq
  obtain ⟨hhead, hadded⟩ := StackIntVector.add_first (x := offset)
    (show 0 < kLoadFromRemoteMax by decide) hresult
  rw [addNotLoaded, if_neg hnot, if_pos hadded]
  exact head_addNotLoaded hhead

/-- What is added is one of the offsets, and no part starts there. -/
theorem mem_addNotLoaded (hsorted : check.Pairwise fun a b => a.1 < b.1)
    (hoffsets : offsets.Pairwise (· < ·))
    (h : x ∈ (addNotLoaded check result offsets).values) :
    x ∈ result.values ∨ x ∈ offsets ∧ ∀ part ∈ check, part.1 ≠ x := by
  induction offsets generalizing check result with
  | nil => exact .inl h
  | cons offset offsets ih =>
    have hsorted' := hsorted.sublist
      (List.dropWhile_sublist fun part : ℕ × List UInt8 => decide (part.1 < offset))
    have hlater : ∀ y ∈ offsets, (∀ part ∈ check.dropWhile fun part => decide (part.1 < offset),
        part.1 ≠ y) → ∀ part ∈ check, part.1 ≠ y := by
      intro y hy hnone part hpart heq
      have hlt := List.rel_of_pairwise_cons hoffsets hy
      rw [← List.takeWhile_append_dropWhile (p := fun part : ℕ × List UInt8 =>
        decide (part.1 < offset)) (l := check), List.mem_append] at hpart
      rcases hpart with hpart | hpart
      · have hbefore := List.mem_takeWhile_imp hpart
        have hbefore' := of_decide_eq_true hbefore
        omega
      · exact hnone part hpart heq
    rw [addNotLoaded] at h
    dsimp only at h
    split_ifs at h with hloaded
    · rcases ih hsorted' hoffsets.of_cons h with h | ⟨h, hnone⟩
      · exact .inl h
      · exact .inr ⟨List.mem_cons_of_mem _ h, hlater x h hnone⟩
    · rcases ih hsorted' hoffsets.of_cons h with h | ⟨h, hnone⟩
      · rcases StackIntVector.mem_add h with h | rfl
        · exact .inl h
        · refine .inr ⟨List.mem_cons_self, fun part hpart heq => ?_⟩
          exact hloaded ((head_dropWhile_iff hsorted).mpr ⟨part, hpart, heq⟩)
      · exact .inr ⟨List.mem_cons_of_mem _ h, hlater x h hnone⟩
    · exact .inl h

end Offsets

/-- The place of a part in the range. -/
def InRange (from_ till x : ℕ) : Prop :=
  x % kPartSize = 0 ∧ from_ / kPartSize * kPartSize ≤ x ∧ x < till

section Parts

variable {parts : PartsMap} {limit from_ till : ℕ}

theorem upperBound_split (parts : PartsMap) (offset : ℕ) :
    ∃ before after, parts.entries = before ++ after ∧ upperBound parts offset = before.length ∧
      (∀ part ∈ before, part.1 ≤ offset) ∧ ∀ part ∈ after, offset < part.1 := by
  refine ⟨parts.entries.takeWhile fun part => decide (part.1 ≤ offset),
    parts.entries.dropWhile fun part => decide (part.1 ≤ offset),
    List.takeWhile_append_dropWhile.symm, rfl, ?_, ?_⟩
  · intro part hpart
    have hle := List.mem_takeWhile_imp hpart
    exact of_decide_eq_true hle
  · intro part hpart
    have hsorted := parts.sorted.sublist
      (List.dropWhile_sublist fun part => decide (part.1 ≤ offset))
    cases hdrop : parts.entries.dropWhile fun part => decide (part.1 ≤ offset) with
    | nil =>
      rw [hdrop] at hpart
      exact absurd hpart List.not_mem_nil
    | cons first rest =>
      have hfirst := List.head_dropWhile_not (fun part : ℕ × List UInt8 => decide (part.1 ≤ offset))
        (l := parts.entries) (by rw [hdrop]; exact List.cons_ne_nil _ _)
      simp only [hdrop, List.head_cons, decide_eq_false_iff_not, not_le] at hfirst
      rw [hdrop] at hsorted hpart
      rcases List.mem_cons.mp hpart with rfl | hmem
      · exact hfirst
      · exact hfirst.trans (List.rel_of_pairwise_cons hsorted hmem)

theorem get?_none_iff {offset : ℕ} :
    parts.get? offset = none ↔ ∀ part ∈ parts.entries, part.1 ≠ offset := by
  rw [FlatMap.get?_eq_none_iff]
  constructor
  · rintro h part hpart rfl
    exact h part.2 hpart
  · intro h bytes hbytes
    exact h _ hbytes rfl

/-- The search starts with the last part that does not start after the offset. -/
theorem upperBound_last (hsome : upperBound parts from_ ≠ 0) :
    ∃ last after, parts.entries.drop (upperBound parts from_ - 1) = last :: after ∧
      last.1 ≤ from_ ∧ (∀ part ∈ after, from_ < part.1) ∧
      ∀ part, part ∈ parts.entries ↔ part.1 < last.1 ∧ part ∈ parts.entries ∨
        part = last ∨ part ∈ after := by
  obtain ⟨before, after, hsplit, hlength, hbefore, hafter⟩ := upperBound_split parts from_
  rcases List.eq_nil_or_concat before with rfl | ⟨earlier, last, rfl⟩
  · exact absurd hlength hsome
  · rw [List.concat_eq_append] at *
    have hsorted := parts.sorted
    rw [hsplit, List.append_assoc, List.pairwise_append] at hsorted
    refine ⟨last, after, ?_, hbefore last (by simp), hafter, fun part => ⟨fun hpart => ?_, ?_⟩⟩
    · rw [hlength, hsplit, List.length_append, List.length_singleton, Nat.add_sub_cancel,
        List.append_assoc, List.drop_left]
      rfl
    · have hmem := hpart
      rw [hsplit, List.append_assoc, List.mem_append, List.mem_append, List.mem_singleton] at hmem
      refine hmem.imp_left fun hearlier => ⟨?_, hpart⟩
      exact hsorted.2.2 part hearlier last (by simp)
    · rw [hsplit]
      rintro (⟨-, hpart⟩ | rfl | hpart)
      · exact hpart
      · simp
      · simp [hpart]

/-- No part from the offset on is before where the search starts. -/
theorem mem_check {part : ℕ × List UInt8} (hpart : part ∈ parts.entries) (hle : from_ ≤ part.1) :
    part ∈ parts.entries.drop (upperBound parts from_ - 1) := by
  by_cases hsome : upperBound parts from_ = 0
  · rwa [hsome, Nat.zero_sub, List.drop_zero]
  · obtain ⟨last, after, hdrop, hlast, -, hmem⟩ := upperBound_last hsome
    rw [hdrop, List.mem_cons]
    refine ((hmem part).mp hpart).resolve_left fun hearlier => ?_
    omega

theorem mem_takeWhile_lt {entries : List (ℕ × List UInt8)}
    (hsorted : entries.Pairwise fun a b => a.1 < b.1) {part : ℕ × List UInt8} :
    part ∈ entries.takeWhile (fun part => decide (part.1 < till)) ↔
      part ∈ entries ∧ part.1 < till := by
  induction entries with
  | nil => simp
  | cons first entries ih =>
    rw [List.takeWhile_cons, List.mem_cons]
    split_ifs with hlt
    · rw [List.mem_cons, ih hsorted.of_cons, or_and_right]
      refine or_congr_left ⟨?_, And.left⟩
      rintro rfl
      exact ⟨rfl, of_decide_eq_true hlt⟩
    · have hge := not_lt.mp (of_decide_eq_false (Bool.eq_false_iff.mpr hlt))
      refine iff_of_false List.not_mem_nil ?_
      rintro ⟨rfl | hmem, hpart⟩
      · omega
      · have hless := List.rel_of_pairwise_cons hsorted hmem
        omega

/-- The search for what is not loaded ends at the first place of a part that is not there, or at the
end of the file. -/
theorem findNotLoadedStart_spec {entries : List (ℕ × List UInt8)} {start : ℕ}
    (hsorted : entries.Pairwise fun a b => a.1 < b.1)
    (hvalid : ∀ part ∈ entries, ValidPart limit part) (hstart : start % kPartSize = 0)
    (hle : ∀ part ∈ entries, start ≤ part.1) :
    start ≤ findNotLoadedStart entries start ∧
      (∀ x, x % kPartSize = 0 → start ≤ x → x < findNotLoadedStart entries start →
        ∃ part ∈ entries, part.1 = x) ∧
      (findNotLoadedStart entries start % kPartSize = 0 ∧
          (∀ part ∈ entries, part.1 ≠ findNotLoadedStart entries start) ∨
        findNotLoadedStart entries start = limit) := by
  have hP : 0 < kPartSize := by decide
  induction entries generalizing start with
  | nil =>
    refine ⟨le_rfl, fun x _ hx hlt => ?_, .inl ⟨hstart, ?_⟩⟩
    · exact absurd hlt (not_lt.mpr hx)
    · exact fun part hpart => absurd hpart List.not_mem_nil
  | cons part entries ih =>
    obtain ⟨hmod, hlimit, hlen⟩ := hvalid part List.mem_cons_self
    have hge := hle part List.mem_cons_self
    rw [findNotLoadedStart]
    by_cases hcase : part.1 ≤ start ∧ start ≤ part.1 + part.2.length
    · obtain rfl : start = part.1 := le_antisymm hge hcase.1
      rw [if_pos hcase]
      by_cases hwhole : part.2.length = kPartSize
      · have hnext : ∀ other ∈ entries, part.1 + kPartSize ≤ other.1 := fun other hother =>
          next_le hmod (hvalid other (List.mem_cons_of_mem _ hother)).1
            (List.rel_of_pairwise_cons hsorted hother)
        have hmod' : (part.1 + kPartSize) % kPartSize = 0 := by
          rw [Nat.add_mod_right, hmod]
        obtain ⟨hfrom, hloaded, hend⟩ := ih hsorted.of_cons
          (fun other hother => hvalid other (List.mem_cons_of_mem _ hother)) hmod' hnext
        rw [hwhole]
        refine ⟨by omega, fun x hx hstart' hlt => ?_, ?_⟩
        · by_cases heq : x = part.1
          · exact ⟨part, List.mem_cons_self, heq.symm⟩
          · have hbehind := next_le hmod hx (by omega)
            obtain ⟨other, hother, hsame⟩ := hloaded x hx hbehind hlt
            exact ⟨other, List.mem_cons_of_mem _ hother, hsame⟩
        · refine hend.imp_left fun hfound => ⟨hfound.1, fun other hother => ?_⟩
          rcases List.mem_cons.mp hother with rfl | hother
          · omega
          · exact hfound.2 other hother
      · -- A part that is not whole is the last of the file.
        have hlast : entries = [] := by
          apply List.eq_nil_iff_forall_not_mem.mpr
          intro other hother
          obtain ⟨hmod', hlimit', -⟩ := hvalid other (List.mem_cons_of_mem _ hother)
          have hnext := next_le hmod hmod' (List.rel_of_pairwise_cons hsorted hother)
          omega
        rw [hlast, findNotLoadedStart]
        refine ⟨by omega, fun x hx hstart' hlt => ?_, .inr (by omega)⟩
        refine ⟨part, List.mem_cons_self, ?_⟩
        by_contra hne
        have hbehind := next_le hmod hx (by omega)
        omega
    · rw [if_neg hcase]
      refine ⟨le_rfl, fun x _ hx hlt => absurd hlt (not_lt.mpr hx), .inl ⟨hstart, ?_⟩⟩
      intro other hother
      rcases List.mem_cons.mp hother with rfl | hother
      · omega
      · have hless := List.rel_of_pairwise_cons hsorted hother
        omega

/-- The search goes over the parts of the range alone. -/
theorem findNotLoadedStart_range (h : ValidParts limit parts) (hlt : from_ < till)
    (hsome : upperBound parts from_ ≠ 0) :
    ∃ entries, findNotLoadedStart ((parts.entries.drop (upperBound parts from_ - 1)).takeWhile
        fun part => decide (part.1 < till)) (from_ / kPartSize * kPartSize) =
          findNotLoadedStart entries (from_ / kPartSize * kPartSize) ∧
      entries.Pairwise (fun a b => a.1 < b.1) ∧
      ∀ part, part ∈ entries ↔
        part ∈ parts.entries ∧ from_ / kPartSize * kPartSize ≤ part.1 ∧ part.1 < till := by
  obtain ⟨last, after, hdrop, hlast, hafter, hmem⟩ := upperBound_last hsome
  have hP : 0 < kPartSize := by decide
  have hdiv := Nat.div_add_mod from_ kPartSize
  have hmodlt := Nat.mod_lt from_ hP
  have haligned : from_ / kPartSize * kPartSize % kPartSize = 0 := Nat.mul_mod_left _ _
  rw [Nat.mul_comm] at hdiv
  generalize from_ / kPartSize * kPartSize = start at *
  have hsorted : (last :: after).Pairwise fun a b => a.1 < b.1 :=
    hdrop ▸ parts.sorted.sublist (List.drop_sublist _ _)
  have hin : last ∈ parts.entries := (hmem last).mpr (.inr (.inl rfl))
  obtain ⟨hmod, -, hlen⟩ := h last hin
  have htake : (last :: after).takeWhile (fun part => decide (part.1 < till)) =
      last :: after.takeWhile fun part => decide (part.1 < till) := by
    rw [List.takeWhile_cons, if_pos (decide_eq_true (by omega))]
  have hahead := hsorted.of_cons.sublist
    (List.takeWhile_sublist fun part : ℕ × List UInt8 => decide (part.1 < till))
  rw [hdrop, htake]
  by_cases hfirst : start ≤ last.1
  · refine ⟨_, rfl, htake ▸ hsorted.sublist (List.takeWhile_sublist _), fun part => ?_⟩
    rw [List.mem_cons, mem_takeWhile_lt hsorted.of_cons, hmem]
    constructor
    · rintro (rfl | ⟨hpart, hlt'⟩)
      · exact ⟨.inr (.inl rfl), hfirst, by omega⟩
      · have hbehind := hafter part hpart
        exact ⟨.inr (.inr hpart), by omega, hlt'⟩
    · rintro ⟨⟨hearlier, hpart⟩ | rfl | hpart, hle, hlt'⟩
      · have hnext := next_le (h part hpart).1 hmod hearlier
        omega
      · exact .inl rfl
      · exact .inr ⟨hpart, hlt'⟩
  · have hnext := next_le hmod haligned (not_le.mp hfirst)
    refine ⟨after.takeWhile fun part => decide (part.1 < till), ?_, hahead, fun part => ?_⟩
    · rw [findNotLoadedStart]
      split_ifs with hcase
      · have hend : last.1 + last.2.length = start := by omega
        rw [hend]
      · -- No part starts where the range does.
        cases hrest : after.takeWhile fun part => decide (part.1 < till) with
        | nil => rfl
        | cons next rest =>
          have hmem' : next ∈ after :=
            (List.takeWhile_sublist _).subset (hrest ▸ List.mem_cons_self)
          have hbehind := hafter next hmem'
          rw [findNotLoadedStart, if_neg (by omega)]
    · rw [mem_takeWhile_lt hsorted.of_cons, hmem]
      constructor
      · rintro ⟨hpart, hlt'⟩
        have hbehind := hafter part hpart
        exact ⟨.inr (.inr hpart), by omega, hlt'⟩
      · rintro ⟨⟨hearlier, hpart⟩ | rfl | hpart, hle, hlt'⟩
        · omega
        · omega
        · exact ⟨hpart, hlt'⟩

namespace Slice

variable {slice : Slice} {x : ℕ}

theorem mem_offsetsFromLoader (h : x ∈ (slice.offsetsFromLoader from_ till).values) :
    (∃ i, x = from_ + i * kPartSize) ∧ slice.parts.get? x = none := by
  have hsorted := slice.parts.sorted.sublist
    (List.drop_sublist (upperBound slice.parts from_ - 1) slice.parts.entries)
  have hoffsets : ((List.range ((till - from_) / kPartSize)).map
      fun i => from_ + i * kPartSize).Pairwise (· < ·) := by
    apply List.pairwise_map.mpr
    apply List.pairwise_lt_range.imp
    intro i j hij
    exact Nat.add_lt_add_left (Nat.mul_lt_mul_of_pos_right hij (by decide)) _
  rcases mem_addNotLoaded hsorted hoffsets h with h | ⟨h, hnone⟩
  · exact absurd h List.not_mem_nil
  · obtain ⟨i, -, rfl⟩ := List.mem_map.mp h
    refine ⟨⟨i, rfl⟩, get?_none_iff.mpr fun part hpart heq => ?_⟩
    exact hnone part (mem_check hpart (by omega)) heq

theorem offsetsFromLoader_first (hle : from_ + kPartSize ≤ till)
    (hnone : slice.parts.get? from_ = none) :
    (slice.offsetsFromLoader from_ till).values.head? = some from_ := by
  have hsorted := slice.parts.sorted.sublist
    (List.drop_sublist (upperBound slice.parts from_ - 1) slice.parts.entries)
  obtain ⟨count, hcount⟩ : ∃ count, (till - from_) / kPartSize = count + 1 := by
    apply Nat.exists_eq_succ_of_ne_zero
    exact (Nat.div_pos (by omega) (by decide)).ne'
  rw [offsetsFromLoader, hcount, List.range_succ_eq_map, List.map_cons, Nat.zero_mul, Nat.add_zero]
  apply addNotLoaded_first hsorted _ rfl
  exact fun part hpart => get?_none_iff.mp hnone part (List.mem_of_mem_drop hpart)

/-- Where what is held of the range from its start ends. -/
theorem haveTill_spec (h : ValidParts limit slice.parts) (hlt : from_ < till)
    (hsome : upperBound slice.parts from_ ≠ 0) {haveTill : ℕ}
    (heq : findNotLoadedStart ((slice.parts.entries.drop
      (upperBound slice.parts from_ - 1)).takeWhile fun part => decide (part.1 < till))
        (from_ / kPartSize * kPartSize) = haveTill) :
    from_ / kPartSize * kPartSize ≤ haveTill ∧
      (∀ x, InRange from_ till x → x < haveTill → slice.parts.contains x = true) ∧
      (haveTill % kPartSize = 0 ∧ (haveTill < till → slice.parts.get? haveTill = none) ∨
        haveTill = limit) := by
  obtain ⟨entries, hentries, hsorted, hmem⟩ := findNotLoadedStart_range h hlt hsome
  rw [hentries] at heq
  obtain ⟨hle, hloaded, hend⟩ := findNotLoadedStart_spec hsorted
    (fun part hpart => h part ((hmem part).mp hpart).1) (Nat.mul_mod_left _ _)
    (fun part hpart => ((hmem part).mp hpart).2.1)
  rw [heq] at hle hloaded hend
  refine ⟨hle, fun x hx hbefore => ?_, hend.imp_left fun ⟨haligned, hnone⟩ => ⟨haligned, ?_⟩⟩
  · obtain ⟨part, hpart, rfl⟩ := hloaded x hx.1 hx.2.1 hbefore
    exact (FlatMap.contains_iff _ _).mpr ⟨part.2, ((hmem part).mp hpart).1⟩
  · intro htill
    apply get?_none_iff.mpr
    rintro part hpart rfl
    exact hnone part ((hmem part).mpr ⟨hpart, hle, htill⟩) rfl

/-- The first part of the range that is not there. -/
structure FirstMissing (parts : PartsMap) (from_ till x : ℕ) : Prop where
  inRange : InRange from_ till x
  missing : parts.get? x = none
  before : ∀ y, InRange from_ till y → y < x → parts.contains y = true

/-- What is prepared is ready if all of the range is there, else the first part that is not is the
first to be asked for. -/
theorem prepareFill_spec (h : ValidParts limit slice.parts) (hlt : from_ < till)
    (hlimit : till ≤ limit) :
    ((slice.prepareFill from_ till).ready = true →
        (∀ x, InRange from_ till x → slice.parts.contains x = true) ∧
          ∀ x ∈ (slice.prepareFill from_ till).offsetsFromLoader.values, till ≤ x) ∧
      ((slice.prepareFill from_ till).ready = false → ∃ x,
        FirstMissing slice.parts from_ till x ∧
          (slice.prepareFill from_ till).offsetsFromLoader.values.head? = some x) ∧
      ∀ x ∈ (slice.prepareFill from_ till).offsetsFromLoader.values,
        x % kPartSize = 0 ∧ slice.parts.get? x = none := by
  have hP : 0 < kPartSize := by decide
  have hstart : from_ / kPartSize * kPartSize ≤ from_ := Nat.div_mul_le_self _ _
  have haligned : from_ / kPartSize * kPartSize % kPartSize = 0 := Nat.mul_mod_left _ _
  have hup : till ≤ (till + kPartSize - 1) / kPartSize * kPartSize := by
    rw [kPartSize]
    omega
  have hahead : ((till + kPartSize - 1) / kPartSize + kPreloadPartsAhead) * kPartSize =
      (till + kPartSize - 1) / kPartSize * kPartSize + kPreloadPartsAhead * kPartSize :=
    Nat.add_mul ..
  have hroom : kPartSize ≤ kPreloadPartsAhead * kPartSize := by decide
  have hmod : ∀ {a b x : ℕ}, a % kPartSize = 0 → x ∈ (slice.offsetsFromLoader a b).values →
      x % kPartSize = 0 ∧ slice.parts.get? x = none := by
    intro a b x ha hx
    obtain ⟨⟨i, rfl⟩, hnone⟩ := mem_offsetsFromLoader hx
    exact ⟨by rw [Nat.add_mul_mod_self_right, ha], hnone⟩
  rw [prepareFill]
  dsimp only
  by_cases hsome : upperBound slice.parts from_ = 0
  · rw [if_pos hsome]
    have hnone : slice.parts.get? (from_ / kPartSize * kPartSize) = none := by
      obtain ⟨before, after, hsplit, hlength, -, hafter⟩ := upperBound_split slice.parts from_
      have hbefore : before = [] := List.length_eq_zero_iff.mp (hlength.symm.trans hsome)
      apply get?_none_iff.mpr
      intro part hpart heq
      rw [hsplit, hbefore] at hpart
      have hbehind := hafter part hpart
      omega
    refine ⟨fun hready => absurd hready Bool.false_ne_true,
      fun _ => ⟨_, ⟨⟨haligned, le_rfl, by omega⟩, hnone, ?_⟩,
      offsetsFromLoader_first (by omega) hnone⟩, fun x hx => hmod haligned hx⟩
    exact fun y hy hbefore => absurd hbefore (not_lt.mpr hy.2.1)
  · rw [if_neg hsome]
    generalize heq : findNotLoadedStart ((slice.parts.entries.drop
      (upperBound slice.parts from_ - 1)).takeWhile fun part => decide (part.1 < till))
        (from_ / kPartSize * kPartSize) = haveTill
    obtain ⟨hle, hloaded, hend⟩ := haveTill_spec h hlt hsome heq
    by_cases hbefore : haveTill < till
    · rw [if_pos hbefore]
      obtain ⟨hmod', hnone⟩ := hend.resolve_right (by omega)
      exact ⟨fun hready => absurd hready Bool.false_ne_true,
        fun _ => ⟨_, ⟨⟨hmod', hle, hbefore⟩, hnone hbefore, hloaded⟩,
          offsetsFromLoader_first (by omega) (hnone hbefore)⟩, fun x hx => hmod hmod' hx⟩
    · rw [if_neg hbefore]
      refine ⟨fun _ => ⟨fun x hx => hloaded x hx (hx.2.2.trans_le (not_lt.mp hbefore)), ?_⟩,
        fun hready => absurd hready Bool.false_ne_true.symm,
        fun x hx => hmod (Nat.mul_mod_left _ _) hx⟩
      intro x hx
      obtain ⟨⟨i, rfl⟩, -⟩ := mem_offsetsFromLoader hx
      omega

end Slice

end Parts

end TelegramDesktop.Media.Streaming
