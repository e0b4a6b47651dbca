import TelegramDesktop.Storage.SparseIdsListRefines

namespace TelegramDesktop.Storage
open Base
open Data (ServerMaxMsgId)

/-- The numbers of a result are not negative and add up. -/
structure Result.Consistent {α : Type*} [LinearOrder α] (result : Result α) : Prop where
  count : ∀ n, result.count = some n → 0 ≤ n
  skippedBefore : ∀ n, result.skippedBefore = some n → 0 ≤ n
  skippedAfter : ∀ n, result.skippedAfter = some n → 0 ≤ n
  sum : ∀ count before after, result.count = some count → result.skippedBefore = some before →
    result.skippedAfter = some after → before + result.messageIds.size + after = count

section Query

variable {α : Type*} [LinearOrder α] {minId maxId : α}

/-- A count that fits a slice: no less than its ids when the slice reaches an end of the list,
and exactly its ids when it reaches both. -/
structure Slice.Fits (minId maxId : α) (slice : Slice α) (count : ℤ) : Prop where
  ends : slice.range.fromId = minId ∨ slice.range.till = maxId → slice.messages.size ≤ count
  whole : slice.range.fromId = minId → slice.range.till = maxId → slice.messages.size = count

theorem queryFromSlice_consistent (query : Query α) {slice : Slice α} {count : Option ℤ}
    (h : ∀ n, count = some n → 0 ≤ n ∧ slice.Fits minId maxId n) :
    (queryFromSlice minId maxId count query slice).Consistent := by
  have hle := slice.messages.lowerBound_le_size query.aroundId
  rw [queryFromSlice]
  obtain ⟨haveBefore, hbefore⟩ : ∃ n, slice.messages.lowerBound query.aroundId = n := ⟨_, rfl⟩
  rw [hbefore] at hle ⊢
  obtain ⟨before, hb⟩ : ∃ n, min haveBefore query.limitBefore = n := ⟨_, rfl⟩
  obtain ⟨after, ha⟩ : ∃ n, min (slice.messages.size - haveBefore) (query.limitAfter + 1) = n :=
    ⟨_, rfl⟩
  have hsize : (slice.messages.sub (haveBefore - before) (before + after)).size = before + after :=
    FlatSet.size_sub (by omega)
  simp only [hb, ha]
  cases count with
  | none =>
    simp only [fillSkipped]
    constructor <;> simp only [Option.ite_none_right_eq_some, Option.some.injEq, reduceCtorEq,
      IsEmpty.forall_iff, implies_true] <;> intros <;> omega
  | some total =>
    obtain ⟨hnonneg, hends, hwhole⟩ := h total rfl
    by_cases hfrom : slice.range.fromId = minId <;> by_cases htill : slice.range.till = maxId
    · have hall := hwhole hfrom htill
      simp only [hfrom, htill, if_true, fillSkipped]
      constructor <;> simp only [Option.some.injEq] <;> intros <;> omega
    · have hle := hends (.inl hfrom)
      simp only [hfrom, htill, if_true, if_false, fillSkipped]
      constructor <;> simp only [Option.some.injEq] <;> intros <;> omega
    · have hle := hends (.inr htill)
      simp only [hfrom, htill, if_true, if_false, fillSkipped]
      constructor <;> simp only [Option.some.injEq] <;> intros <;> omega
    · simp only [hfrom, htill, if_false, fillSkipped]
      constructor <;> simp only [Option.some.injEq, reduceCtorEq, IsEmpty.forall_iff,
        implies_true]
      intros
      omega

end Query

namespace SparseIdsList

/-- The count, when there is one, fits all slices. -/
def CountFits (list : SparseIdsList) : Prop :=
  ∀ count, list.count = some count →
    0 ≤ count ∧ ∀ slice ∈ list.slices, slice.Fits 0 ServerMaxMsgId count

theorem CountFits.snapshot {list : SparseIdsList} (h : list.CountFits) (hok : list.Ok)
    (query : Query ℤ) : (list.snapshot query).Consistent := by
  rw [SparseIdsList.snapshot]
  have hcount : (⟨list.count, none, none, ∅⟩ : Result ℤ).Consistent :=
    ⟨fun n hn => (h n hn).1, fun n hn => by simp at hn, fun n hn => by simp at hn,
      fun n b a _ hb => by simp at hb⟩
  have hspec := hok.wellFormed.sliceAround_spec query.aroundId
  split_ifs with hzero
  · exact hcount
  · cases hfound : sliceAround list.slices query.aroundId with
    | none => exact hcount
    | some found =>
      rw [hfound] at hspec
      apply queryFromSlice_consistent
      intro n hn
      exact ⟨(h n hn).1, (h n hn).2 found.2 (List.mem_of_getElem? hspec.2)⟩

/-- A slice that reaches an end of the list. -/
def Ends (slice : Slice ℤ) : Prop :=
  slice.range.fromId = 0 ∨ slice.range.till = ServerMaxMsgId

def Meets (slice : Slice ℤ) (range : Range ℤ) : Prop :=
  range.fromId ≤ slice.range.till ∧ slice.range.fromId ≤ range.till

instance (slice : Slice ℤ) (range : Range ℤ) : Decidable (Meets slice range) := by
  unfold Meets
  infer_instance

/-- How many ids are in an addition and the slices that its range meets. -/
def unitedSize (slices : List (Slice ℤ)) (messages : List ℤ) (range : Range ℤ) : ℕ :=
  (FlatSet.ofList (messages ++
    (slices.filter fun slice => Meets slice range).flatMap fun slice =>
      slice.messages.elems)).size

/-- How many ids the first slice that a range meets gets. -/
def unitedAdded (slices : List (Slice ℤ)) (messages : List ℤ) (range : Range ℤ) : ℕ :=
  unitedSize slices messages range -
    ((slices.filter fun slice => Meets slice range).head?.elim 0 fun slice => slice.messages.size)

/-- A count from the server is no less than the ids of each slice at an end of the list that
stays beside others. A removal that is counted is of an id that is there: it leaves no slice at
an end with more ids than are counted. A count that grows is still an `int`. -/
def Op.Fits (list : SparseIdsList) (op : Op) : Prop :=
  op.Valid ∧ op.Server ∧
    (∀ messages range count, op.added = some (messages, range) → op.incrementsCount = true →
      list.count = some count → count + unitedAdded list.slices messages range < 2 ^ 31) ∧
    (∀ messages range count, op.added = some (messages, range) → op.count = some count →
      0 ≤ count ∧
        if range.fromId = range.till ∧ messages = [] then
          list.slices.length ≠ 1 → ∀ slice ∈ list.slices, Ends slice → slice.messages.size ≤ count
        else
          ∀ slice ∈ list.slices, Ends slice → ¬ Meets slice range →
            slice.messages.size ≤ max count (unitedSize list.slices messages range)) ∧
    (∀ id count, op = .removeOne id → list.count = some count →
      0 < count ∧
        ∀ slice ∈ list.slices, Ends slice → id ∉ slice.messages → slice.messages.size < count)

/-- A slice of the whole list is its only one. -/
theorem Ok.eq_of_whole {list : SparseIdsList} (h : list.Ok) {slice : Slice ℤ}
    (hs : slice ∈ list.slices) (hfrom : slice.range.fromId = 0)
    (htill : slice.range.till = ServerMaxMsgId) : ∀ other ∈ list.slices, other = slice := by
  intro other hother
  have hserver := h.server other hother
  have hordered := h.wellFormed.ordered other hother
  have hstart : other.range.Holds other.range.fromId := ⟨le_rfl, hordered⟩
  apply h.wellFormed.eq_of_holds hother hs hstart
  constructor <;> omega

theorem Ok.not_whole {list : SparseIdsList} (h : list.Ok) (hlone : list.slices.length ≠ 1)
    {slice : Slice ℤ} (hs : slice ∈ list.slices) :
    ¬ (slice.range.fromId = 0 ∧ slice.range.till = ServerMaxMsgId) := by
  intro ⟨hfrom, htill⟩
  have hall := h.eq_of_whole hs hfrom htill
  have hnodup : list.slices.Pairwise (· ≠ ·) := by
    apply h.wellFormed.apart.imp_of_mem
    intro a b ha hb hlt heq
    rw [heq] at hlt
    exact absurd (hlt.trans_le (h.wellFormed.ordered b hb)) (lt_irrefl _)
  match hslices : list.slices with
  | [] =>
    rw [hslices] at hs
    exact List.not_mem_nil hs
  | [_] =>
    rw [hslices] at hlone
    exact hlone rfl
  | a :: b :: rest =>
    rw [hslices] at hnodup hall
    have hne := (List.pairwise_cons.mp hnodup).1 b (List.mem_cons_self ..)
    exact hne ((hall a (by simp)).trans (hall b (by simp)).symm)

theorem fits_of_ends {slice : Slice ℤ} {count : ℤ}
    (hends : Ends slice → slice.messages.size ≤ count)
    (hwhole : ¬ (slice.range.fromId = 0 ∧ slice.range.till = ServerMaxMsgId)) :
    slice.Fits 0 ServerMaxMsgId count :=
  ⟨hends, fun hfrom htill => absurd ⟨hfrom, htill⟩ hwhole⟩

/-- A lone slice fits its count, whatever the count is, as does the greater of the two. -/
theorem widenLone_fits {count : Option ℤ} (hcount : ∀ n, count = some n → 0 ≤ n)
    (front : Slice ℤ) :
    (widenLone count [front]).CountFits ∧
      ∀ n, (widenLone count [front]).count = some n → front.messages.size ≤ n := by
  have hfull : ∀ slice : Slice ℤ, slice.range = fullRange ↔
      slice.range.fromId = 0 ∧ slice.range.till = ServerMaxMsgId := by
    intro slice
    constructor
    · intro heq
      rw [heq]
      exact ⟨rfl, rfl⟩
    · intro ⟨hfrom, htill⟩
      obtain ⟨messages, ⟨fromId, till⟩⟩ := slice
      dsimp only at hfrom htill
      rw [hfrom, htill, fullRange]
  rw [widenLone]
  dsimp only
  by_cases hwhole : (count.any fun n : ℤ => decide (0 ≤ n ∧ n ≤ front.messages.size)) = true
  · rw [if_pos hwhole, if_pos rfl]
    refine ⟨fun n hn => ?_, fun n hn => (Option.some.inj hn).le⟩
    have heq : (front.messages.size : ℤ) = n := Option.some.inj hn
    refine ⟨by omega, fun slice hs => ?_⟩
    rw [List.mem_singleton.mp hs]
    exact ⟨fun _ => heq.le, fun _ _ => heq⟩
  · rw [if_neg hwhole]
    by_cases hrange : front.range = fullRange
    · rw [if_pos hrange]
      refine ⟨fun n hn => ?_, fun n hn => (Option.some.inj hn).le⟩
      have heq : (front.messages.size : ℤ) = n := Option.some.inj hn
      refine ⟨by omega, fun slice hs => ?_⟩
      rw [List.mem_singleton.mp hs]
      exact ⟨fun _ => heq.le, fun _ _ => heq⟩
    · rw [if_neg hrange]
      have hlt : ∀ n, count = some n → (front.messages.size : ℤ) < n := by
        intro n hn
        have hnonneg := hcount n hn
        rw [hn, Option.any_some, decide_eq_true_iff] at hwhole
        omega
      refine ⟨fun n hn => ⟨hcount n hn, fun slice hs => ?_⟩, fun n hn => (hlt n hn).le⟩
      rw [List.mem_singleton.mp hs]
      exact fits_of_ends (fun _ => (hlt n hn).le) (mt (hfull front).mpr hrange)

theorem widenLone_many {slices : List (Slice ℤ)} (h : slices.length ≠ 1) (count : Option ℤ) :
    widenLone count slices = ⟨count, slices⟩ := by
  match slices, h with
  | [], _ => rfl
  | _ :: _ :: _, _ => rfl
  | [_], h => exact absurd rfl h

/-- The count after an addition, clamped to the slice that was updated. -/
def clampCount (count : Option ℤ) : Option (Slice ℤ) → Option ℤ
  | none => count
  | some slice => count.map fun count : ℤ => max count slice.messages.size

theorem addRange_count (list : SparseIdsList) {messages : List ℤ} {range : Range ℤ}
    {count : Option ℤ} {incrementCount : Bool}
    (hboth : ¬ (count.isSome = true ∧ incrementCount = true)) {result : AddResult ℤ}
    (hresult : addRangeItemsAndCountNew list.slices messages range = some result) :
    ∃ update, list.addRange messages range count incrementCount = some ({
        count := clampCount (widenLone (addedCount list.count count incrementCount result.added)
          result.slices).count result.updated
        slices := (widenLone (addedCount list.count count incrementCount result.added)
          result.slices).slices }, update) := by
  rw [addRange, if_neg hboth, hresult, Option.bind_eq_bind, Option.bind_some]
  dsimp only
  cases result.updated with
  | none => exact ⟨_, rfl⟩
  | some slice => exact ⟨_, rfl⟩

/-- A count that is not replaced does not get less. -/
theorem addedCount_none {was : Option ℤ} {incrementCount : Bool} {added : ℕ} {n : ℤ}
    (hwas : ∀ m, was = some m → 0 ≤ m)
    (hint : incrementCount = true → ∀ m, was = some m → m + added < 2 ^ 31)
    (h : addedCount was none incrementCount added = some n) : ∃ m, was = some m ∧ m ≤ n := by
  rw [addedCount] at h
  split_ifs at h with hincrement
  · obtain ⟨m, hm, hmn⟩ := Option.map_eq_some_iff.mp h
    have hnonneg := hwas m hm
    have hlt := hint hincrement.1 m hm
    rw [int32Add_of_range (by omega) hlt] at hmn
    exact ⟨m, hm, by omega⟩
  · exact ⟨n, h, le_rfl⟩

theorem addedCount_nonneg {was count : Option ℤ} (hwas : ∀ n, was = some n → 0 ≤ n)
    (hcount : ∀ n, count = some n → 0 ≤ n) {incrementCount : Bool} {added : ℕ}
    (hint : incrementCount = true → ∀ m, was = some m → m + added < 2 ^ 31) :
    ∀ n, addedCount was count incrementCount added = some n → 0 ≤ n := by
  intro n hn
  cases count with
  | some m => exact hcount n hn
  | none =>
    obtain ⟨m, hm, hle⟩ := addedCount_none hwas hint hn
    exact (hwas m hm).trans hle

theorem addedCount_zero (was : Option ℤ) (incrementCount : Bool) :
    addedCount was none incrementCount 0 = was := by
  rw [addedCount, if_neg (by simp)]

/-- The slices that a range meets are the ones it is around. -/
theorem filter_meets {slices before meets after : List (Slice ℤ)} {range : Range ℤ}
    (ha : Around slices range before meets after) :
    (slices.filter fun slice => Meets slice range) = meets := by
  have hbefore : (before.filter fun slice => Meets slice range) = [] :=
    List.filter_eq_nil_iff.mpr fun s hs hmeets =>
      absurd ((of_decide_eq_true hmeets).1.trans_lt (ha.before_lt s hs)) (lt_irrefl _)
  have hafter : (after.filter fun slice => Meets slice range) = [] :=
    List.filter_eq_nil_iff.mpr fun s hs hmeets =>
      absurd ((of_decide_eq_true hmeets).2.trans_lt (ha.after_lt s hs)) (lt_irrefl _)
  have hmeets : (meets.filter fun slice => Meets slice range) = meets :=
    List.filter_eq_self.mpr fun s hs => decide_eq_true (ha.meets_le s hs)
  rw [ha.split, List.filter_append, List.filter_append, hbefore, hafter, hmeets, List.nil_append,
    List.append_nil]

theorem unitedSize_eq {slices before meets after : List (Slice ℤ)} {messages : List ℤ}
    {range : Range ℤ} {slice : Slice ℤ} (ha : Around slices range before meets after)
    (hu : United messages range meets slice) :
    unitedSize slices messages range = slice.messages.size := by
  rw [unitedSize]
  apply congrArg FlatSet.size
  apply FlatSet.eq_of_mem
  intro id
  rw [FlatSet.mem_ofList, hu.mem, List.mem_append, List.mem_flatMap, filter_meets ha]
  rfl

theorem unitedAdded_eq {slices before meets after : List (Slice ℤ)} {messages : List ℤ}
    {range : Range ℤ} {slice : Slice ℤ} (ha : Around slices range before meets after)
    (hu : United messages range meets slice) :
    unitedAdded slices messages range =
      slice.messages.size - (meets.head?.elim 0 fun first => first.messages.size) := by
  rw [unitedAdded, unitedSize_eq ha hu, filter_meets ha]

theorem CountFits.ignored {list : SparseIdsList} (h : list.CountFits) {count : Option ℤ}
    {incrementCount : Bool}
    (hcount : ∀ n, count = some n → 0 ≤ n ∧
      (list.slices.length ≠ 1 → ∀ slice ∈ list.slices, Ends slice → slice.messages.size ≤ n))
    (hok : list.Ok) :
    (widenLone (addedCount list.count count incrementCount 0) list.slices).CountFits := by
  have hnonneg : ∀ n, addedCount list.count count incrementCount 0 = some n → 0 ≤ n := by
    intro n hn
    cases count with
    | none =>
      rw [addedCount_zero] at hn
      exact (h n hn).1
    | some m => exact (hcount n hn).1
  by_cases hlone : list.slices.length = 1
  · obtain ⟨front, hfront⟩ := List.length_eq_one_iff.mp hlone
    rw [hfront]
    exact (widenLone_fits hnonneg front).1
  · rw [widenLone_many hlone]
    intro n hn
    refine ⟨hnonneg n hn, fun slice hs => ?_⟩
    cases count with
    | none =>
      rw [addedCount_zero] at hn
      exact (h n hn).2 slice hs
    | some m =>
      have hmn : m = n := Option.some.inj hn
      have hbound := (hcount m rfl).2 hlone slice hs
      rw [hmn] at hbound
      exact fits_of_ends hbound (hok.not_whole hlone hs)

theorem CountFits.united {list : SparseIdsList} (h : list.CountFits)
    {messages : List ℤ} {range : Range ℤ} {before meets after : List (Slice ℤ)}
    {slice : Slice ℤ} (ha : Around list.slices range before meets after)
    (hu : United messages range meets slice)
    (hok' : ∀ count, Ok ⟨count, before ++ slice :: after⟩) {count : Option ℤ}
    {incrementCount : Bool} {added : ℕ}
    (hcount : ∀ n, count = some n → 0 ≤ n ∧
      ∀ s ∈ list.slices, Ends s → ¬ Meets s range →
        s.messages.size ≤ max n (unitedSize list.slices messages range))
    (hint : incrementCount = true → ∀ n, list.count = some n → n + added < 2 ^ 31) :
    CountFits {
      count := clampCount (widenLone (addedCount list.count count incrementCount added)
        (before ++ slice :: after)).count (some slice)
      slices := (widenLone (addedCount list.count count incrementCount added)
        (before ++ slice :: after)).slices } := by
  have hnonneg := addedCount_nonneg (fun n hn => (h n hn).1) (fun n hn => (hcount n hn).1) hint
  by_cases hlone : (before ++ slice :: after).length = 1
  · have hnil : before = [] ∧ after = [] := by
      rw [List.length_append, List.length_cons] at hlone
      constructor <;> apply List.length_eq_zero_iff.mp <;> omega
    rw [hnil.1, hnil.2, List.nil_append]
    obtain ⟨hfits, hle⟩ := widenLone_fits hnonneg slice
    intro n hn
    obtain ⟨m, hm, hmn⟩ := Option.map_eq_some_iff.mp hn
    have heq : n = m := by
      have := hle m hm
      omega
    rw [heq]
    exact hfits m hm
  · rw [widenLone_many hlone]
    intro n hn
    obtain ⟨m, hm, hmn⟩ := Option.map_eq_some_iff.mp hn
    have hm0 := hnonneg m hm
    refine ⟨by omega, fun s hs => fits_of_ends (fun hends => ?_)
      ((hok' none).not_whole hlone hs)⟩
    have hother : s ∈ before ∨ s ∈ after → s.messages.size ≤ n := by
      intro hs'
      have hmem : s ∈ list.slices := by
        rw [ha.split]
        simp only [List.mem_append]
        tauto
      have hapart : ¬ Meets s range := by
        intro hmeets
        rcases hs' with hs' | hs'
        · exact absurd (hmeets.1.trans_lt (ha.before_lt s hs')) (lt_irrefl _)
        · exact absurd (hmeets.2.trans_lt (ha.after_lt s hs')) (lt_irrefl _)
      cases count with
      | none =>
        obtain ⟨was, hwas, hle⟩ := addedCount_none (fun n hn => (h n hn).1) hint hm
        have := ((h was hwas).2 s hmem).ends hends
        omega
      | some given =>
        have hgiven : given = m := Option.some.inj hm
        have := (hcount given rfl).2 s hmem hends hapart
        rw [unitedSize_eq ha hu] at this
        omega
    rcases List.mem_append.mp hs with hs | hs
    · exact hother (.inl hs)
    · rcases List.mem_cons.mp hs with hs | hs
      · rw [hs]
        omega
      · exact hother (.inr hs)

theorem CountFits.removeOne {list : SparseIdsList} (h : list.CountFits) (hok : list.Ok) {id : ℤ}
    (hcount : ∀ count, list.count = some count → 0 < count ∧
      ∀ slice ∈ list.slices, Ends slice → id ∉ slice.messages → slice.messages.size < count) :
    (list.removeOne id).CountFits := by
  intro n hn
  obtain ⟨count, hc, hcn⟩ := Option.map_eq_some_iff.mp hn
  obtain ⟨hpos, hless⟩ := hcount count hc
  have hfits := (h count hc).2
  refine ⟨by omega, ?_⟩
  have hkept : ∀ slice ∈ list.slices, id ∉ slice.messages → slice.Fits 0 ServerMaxMsgId n := by
    intro slice hs hid
    have hlt := hless slice hs
    constructor
    · intro hends
      have := hlt hends hid
      omega
    · intro hfrom htill
      have := hlt (.inl hfrom) hid
      have := (hfits slice hs).whole hfrom htill
      omega
  rcases hok.wellFormed.removeFromSlices_spec id with
    ⟨heq, hnone⟩ | ⟨before, slice, after, hsplit, hholds, heq⟩
  · intro s hs
    rw [SparseIdsList.removeOne, heq] at hs
    exact hkept s hs fun hid => hnone s hs (hok.wellFormed.inside s hs id hid)
  · intro s hs
    rw [SparseIdsList.removeOne, heq] at hs
    have hwf := hok.wellFormed
    rw [hsplit] at hwf hkept hfits hless
    have hmem : slice ∈ before ++ slice :: after := by simp
    have hother : s ∈ before ∨ s ∈ after → s.Fits 0 ServerMaxMsgId n := by
      intro hs'
      have hs'' : s ∈ before ++ slice :: after := by
        simp only [List.mem_append, List.mem_cons]
        tauto
      exact hkept s hs'' fun hid =>
        hwf.others_not_hold hholds s hs' (hwf.inside s hs'' id hid)
    rw [List.mem_append, List.mem_cons] at hs
    rcases hs with hs | hs | hs
    · exact hother (.inl hs)
    · rw [hs]
      by_cases hid : id ∈ slice.messages
      · have hsize := FlatSet.size_remove_of_mem hid
        have hslice := hfits slice hmem
        constructor
        · intro hends
          have := hslice.ends hends
          dsimp only
          omega
        · intro hfrom htill
          have := hslice.whole hfrom htill
          dsimp only
          omega
      · have hslice := hkept slice hmem hid
        rw [FlatSet.remove_of_not_mem hid]
        exact hslice
    · exact hother (.inr hs)

theorem CountFits.apply {list : SparseIdsList} (h : list.CountFits) (hok : list.Ok) {op : Op}
    (hfits : op.Fits list) :
    ∃ list' update, list.apply op = some (list', update) ∧ list'.CountFits ∧ list'.Ok := by
  obtain ⟨hvalid, hserver, hnew, hadd, hremove⟩ := hfits
  -- The invariant of the slices comes from what they stand for.
  have hrefines : list.Refines ⟨{id | Held list.slices id}, ∅⟩ :=
    ⟨hok, fun _ => Iff.rfl, fun id hid => absurd hid (Set.notMem_empty id)⟩
  obtain ⟨list', update, happly, hrefines'⟩ := hrefines.apply hvalid hserver
  refine ⟨list', update, happly, ?_, hrefines'.ok⟩
  cases hadded : op.added with
  | some added =>
    obtain ⟨hrange, hmessages⟩ := hvalid added.1 added.2 hadded
    obtain ⟨result, hresult, hadds⟩ :=
      addRangeItemsAndCountNew_adds hok.wellFormed added.1 hrange
    obtain ⟨fired, hfired⟩ := addRange_count list (not_both op) hresult
    rw [apply_added list hadded, hfired] at happly
    have heq := (Prod.mk.inj (Option.some.inj happly)).1
    have hcount := fun n hn => hadd added.1 added.2 n hadded hn
    have hok' := hrefines'.ok
    rw [← heq] at hok' ⊢
    cases hadds with
    | ignored hnil hpoint =>
      apply h.ignored _ hok
      intro n hn
      have := hcount n hn
      rwa [if_pos ⟨hpoint, hnil⟩] at this
    | united before meets after slice hsome ha hu =>
      apply h.united ha hu
      · intro count
        have hserver' := hserver added.1 added.2 hadded
        exact ⟨ha.wellFormed hok.wellFormed hu hrange hmessages,
          united_server ha hok.server hu hserver'⟩
      · intro n hn
        have := hcount n hn
        rwa [if_neg hsome] at this
      · intro hincrement n hn
        have hint := hnew added.1 added.2 n hadded hincrement hn
        rwa [unitedAdded_eq ha hu] at hint
  | none =>
    cases op with
    | addNew messageId => simp [Op.added] at hadded
    | addExisting messageId noSkipRange => simp [Op.added] at hadded
    | addSlice messageIds noSkipRange count => simp [Op.added] at hadded
    | removeOne messageId =>
      have heq := (Prod.mk.inj (Option.some.inj happly)).1
      rw [← heq]
      exact h.removeOne hok fun count hcount => hremove messageId count rfl hcount
    | removeAll =>
      have heq := (Prod.mk.inj (Option.some.inj happly)).1
      rw [← heq]
      intro n hn
      have hzero : (0 : ℤ) = n := Option.some.inj hn
      refine ⟨hzero.le, fun slice hs => ?_⟩
      rw [List.mem_singleton.mp hs]
      exact ⟨fun _ => hzero.le, fun _ _ => hzero⟩
    | invalidateBottom =>
      have heq := (Prod.mk.inj (Option.some.inj happly)).1
      rw [← heq]
      intro n hn
      exact absurd hn (by simp [SparseIdsList.invalidateBottom])

/-- The condition of a step, on the list before it. -/
def StepFits : Option SparseIdsList → Op → Prop
  | some list, op => op.Fits list
  | none, _ => False

theorem run_countFits {ops : List Op} (h : RunMeets step StepFits (some {}) ops) :
    ∃ list, (run step (some {}) ops).1 = some list ∧ list.CountFits ∧ list.Ok := by
  apply runMeets_invariant step StepFits
    (fun _ state _ => ∃ list, state = some list ∧ list.CountFits ∧ list.Ok) _ _ ops h
  · exact ⟨_, rfl, fun n hn => Option.noConfusion rfl (heq_of_eq hn), refines_empty.ok⟩
  · intro ops state updates op ⟨list, hstate, hcount, hok⟩ hfits
    rw [hstate] at hfits ⊢
    obtain ⟨list', update, happly, hcount', hok'⟩ := hcount.apply hok hfits
    exact ⟨list', by rw [step_some happly], hcount', hok'⟩

/-- In a run whose counts fit, every snapshot of every list reached is consistent. -/
theorem run_snapshot_consistent (ops : List Op) (h : RunMeets step StepFits (some {}) ops) :
    ∃ list, (run step (some {}) ops).1 = some list ∧
      ∀ query, (list.snapshot query).Consistent := by
  obtain ⟨list, hlist, hcount, hok⟩ := run_countFits h
  exact ⟨list, hlist, fun query => hcount.snapshot hok query⟩

theorem run_snapshot_consistent_slice :
    ∃ list, (run step (some {}) [.addSlice [5, 7] ⟨1, 10⟩ (some 3), .removeOne 5]).1 =
      some list ∧ ∀ query, (list.snapshot query).Consistent := by
  apply run_snapshot_consistent
  refine ⟨⟨?_, ?_, fun _ _ _ _ hincrement => Bool.noConfusion hincrement, ?_, ?_⟩, ?_, trivial⟩
  · intro messages range hadded
    obtain ⟨rfl, rfl⟩ := Prod.mk.inj (Option.some.inj hadded)
    exact ⟨by decide, by decide⟩
  · intro messages range hadded
    obtain ⟨rfl, rfl⟩ := Prod.mk.inj (Option.some.inj hadded)
    exact ⟨by decide, by decide⟩
  · intro messages range count hadded hcount
    obtain ⟨rfl, rfl⟩ := Prod.mk.inj (Option.some.inj hadded)
    have heq : (3 : ℤ) = count := Option.some.inj hcount
    rw [if_neg (by decide), ← heq]
    exact ⟨by decide, fun slice hs => absurd hs List.not_mem_nil⟩
  · intro id count hop
    exact Op.noConfusion hop
  · have hlist : (step (some {}) (.addSlice [5, 7] ⟨1, 10⟩ (some 3))).1 =
        some ⟨some 3, [⟨FlatSet.ofList [5, 7], ⟨1, 10⟩⟩]⟩ := by decide
    rw [hlist]
    refine ⟨fun _ _ hadded => by simp [Op.added] at hadded,
      fun _ _ hadded => by simp [Op.added] at hadded,
      fun _ _ _ hadded => by simp [Op.added] at hadded,
      fun _ _ _ hadded => by simp [Op.added] at hadded, fun id count hop hcount => ?_⟩
    have heq : (3 : ℤ) = count := Option.some.inj hcount
    rw [← heq]
    refine ⟨by decide, fun slice hs hends => ?_⟩
    rw [List.mem_singleton.mp hs] at hends
    rcases hends with hends | hends
    · exact absurd hends (by decide)
    · exact absurd hends (by decide)

/-- An id that is not held is counted away from an empty list. -/
theorem removeOne_counts_below_zero :
    ¬ ∀ ops : List Op, (∀ op ∈ ops, op.Valid ∧ op.Server) →
      ∃ list, (run step (some {}) ops).1 = some list ∧
        ∀ query, (list.snapshot query).Consistent := by
  intro h
  have hnone : ∀ op ∈ [Op.removeAll, Op.removeOne 5], op.Valid ∧ op.Server := by
    intro op hop
    rw [List.mem_cons, List.mem_singleton] at hop
    rcases hop with hop | hop <;> rw [hop] <;>
      exact ⟨fun _ _ hadded => by simp [Op.added] at hadded,
        fun _ _ hadded => by simp [Op.added] at hadded⟩
  obtain ⟨list, hlist, hall⟩ := h _ hnone
  have heq : some list = some ⟨some (-1), [⟨∅, fullRange⟩]⟩ := hlist.symm.trans (by decide)
  have hcount : (list.snapshot ⟨7, 0, 0⟩).count = some (-1) := by
    rw [Option.some.inj heq]
    decide
  exact absurd ((hall ⟨7, 0, 0⟩).count (-1) hcount) (by decide)

end SparseIdsList

end TelegramDesktop.Storage
