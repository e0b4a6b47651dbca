import TelegramDesktop.Storage.SparseIdsList

namespace TelegramDesktop.Storage
open Base

variable {α : Type*} [LinearOrder α]

def Range.Holds (range : Range α) (id : α) : Prop := range.fromId ≤ id ∧ id ≤ range.till

instance (range : Range α) (id : α) : Decidable (range.Holds id) := by
  unfold Range.Holds
  infer_instance

/-- Sorted slices that do not touch, each with its ids inside its range. -/
structure WellFormed (slices : List (Slice α)) : Prop where
  apart : slices.Pairwise fun a b => a.range.till < b.range.fromId
  ordered : ∀ slice ∈ slices, slice.range.fromId ≤ slice.range.till
  inside : ∀ slice ∈ slices, ∀ id ∈ slice.messages, slice.range.Holds id

theorem WellFormed.nil : WellFormed ([] : List (Slice α)) :=
  ⟨.nil, fun _ h => absurd h List.not_mem_nil, fun _ h => absurd h List.not_mem_nil⟩

theorem WellFormed.tail {slice : Slice α} {slices : List (Slice α)}
    (h : WellFormed (slice :: slices)) : WellFormed slices :=
  ⟨h.apart.tail, fun s hs => h.ordered s (List.mem_cons_of_mem _ hs),
    fun s hs => h.inside s (List.mem_cons_of_mem _ hs)⟩

theorem lowerBoundTill_cons (slice : Slice α) (slices : List (Slice α)) (id : α) :
    lowerBoundTill (slice :: slices) id =
      if slice.range.till < id then lowerBoundTill slices id + 1 else 0 := by
  by_cases h : slice.range.till < id <;> simp [lowerBoundTill, h]

theorem upperBoundFrom_cons (slice : Slice α) (slices : List (Slice α)) (id : α) :
    upperBoundFrom (slice :: slices) id =
      if slice.range.fromId ≤ id then upperBoundFrom slices id + 1 else 0 := by
  by_cases h : slice.range.fromId ≤ id
  · simp [upperBoundFrom, h]
  · simp [upperBoundFrom, not_le.mp h]

/-- The slices before a range, those that meet it and those behind it. -/
structure Around (slices : List (Slice α)) (range : Range α)
    (before meets after : List (Slice α)) : Prop where
  split : slices = before ++ meets ++ after
  lower : lowerBoundTill slices range.fromId = before.length
  upper : upperBoundFrom slices range.till = before.length + meets.length
  before_lt : ∀ slice ∈ before, slice.range.till < range.fromId
  meets_le : ∀ slice ∈ meets, range.fromId ≤ slice.range.till ∧ slice.range.fromId ≤ range.till
  after_lt : ∀ slice ∈ after, range.till < slice.range.fromId

theorem WellFormed.around {slices : List (Slice α)} (h : WellFormed slices) {range : Range α}
    (hrange : range.fromId ≤ range.till) :
    ∃ before meets after, Around slices range before meets after := by
  induction slices with
  | nil =>
    exact ⟨[], [], [], rfl, rfl, rfl, fun _ hs => absurd hs List.not_mem_nil,
      fun _ hs => absurd hs List.not_mem_nil, fun _ hs => absurd hs List.not_mem_nil⟩
  | cons slice slices ih =>
    obtain ⟨before, meets, after, ha⟩ := ih h.tail
    have hslice := h.ordered slice (List.mem_cons_self ..)
    have hapart := (List.pairwise_cons.mp h.apart).1
    by_cases hbefore : slice.range.till < range.fromId
    · have hfrom : slice.range.fromId ≤ range.till :=
        hslice.trans (hbefore.le.trans hrange)
      refine ⟨slice :: before, meets, after, ?_, ?_, ?_, ?_, ha.meets_le, ha.after_lt⟩
      · rw [ha.split, List.cons_append, List.cons_append]
      · rw [lowerBoundTill_cons, if_pos hbefore, ha.lower, List.length_cons]
      · rw [upperBoundFrom_cons, if_pos hfrom, ha.upper, List.length_cons]
        omega
      · intro s hs
        rcases List.mem_cons.mp hs with hs | hs
        · rwa [hs]
        · exact ha.before_lt s hs
    · have hge : range.fromId ≤ slice.range.till := not_lt.mp hbefore
      have hlower : lowerBoundTill (slice :: slices) range.fromId = 0 := by
        rw [lowerBoundTill_cons, if_neg hbefore]
      -- What comes later ends later, so nothing else is before the range.
      have hnone : before = [] := by
        cases before with
        | nil => rfl
        | cons first rest =>
          have hmem : first ∈ slices := by
            rw [ha.split]
            simp
          have hlt := ha.before_lt first (List.mem_cons_self ..)
          have hfirst := h.ordered first (List.mem_cons_of_mem _ hmem)
          exact absurd (hge.trans_lt ((hapart first hmem).trans_le (hfirst.trans hlt.le)))
            (lt_irrefl _)
      subst hnone
      by_cases hmeets : slice.range.fromId ≤ range.till
      · refine ⟨[], slice :: meets, after, ?_, hlower, ?_, fun _ hs => absurd hs List.not_mem_nil,
          ?_, ha.after_lt⟩
        · rw [ha.split]
          rfl
        · rw [upperBoundFrom_cons, if_pos hmeets, ha.upper, List.length_cons]
          omega
        · intro s hs
          rcases List.mem_cons.mp hs with hs | hs
          · rw [hs]
            exact ⟨hge, hmeets⟩
          · exact ha.meets_le s hs
      · have hafter : range.till < slice.range.fromId := not_le.mp hmeets
        refine ⟨[], [], slice :: slices, rfl, hlower, ?_, fun _ hs => absurd hs List.not_mem_nil,
          fun _ hs => absurd hs List.not_mem_nil, ?_⟩
        · rw [upperBoundFrom_cons, if_neg hmeets]
          rfl
        · intro s hs
          rcases List.mem_cons.mp hs with hs | hs
          · rwa [hs]
          · exact hafter.trans (hslice.trans_lt (hapart s hs))

/-- A slice that is the range, the ids added and the slices they meet, united. -/
structure United (messages : List α) (range : Range α) (meets : List (Slice α))
    (slice : Slice α) : Prop where
  mem : ∀ id, id ∈ slice.messages ↔ id ∈ messages ∨ ∃ other ∈ meets, id ∈ other.messages
  fromId_le : slice.range.fromId ≤ range.fromId
  le_till : range.till ≤ slice.range.till
  holds : ∀ other ∈ meets,
    slice.range.fromId ≤ other.range.fromId ∧ other.range.till ≤ slice.range.till
  lt_fromId : ∀ bound, bound < range.fromId → (∀ other ∈ meets, bound < other.range.fromId) →
    bound < slice.range.fromId
  till_lt : ∀ bound, range.till < bound → (∀ other ∈ meets, other.range.till < bound) →
    slice.range.till < bound

theorem United.le_fromId {messages : List α} {range : Range α} {meets : List (Slice α)}
    {slice : Slice α} (h : United messages range meets slice) {bound : α}
    (hrange : bound ≤ range.fromId) (hmeets : ∀ other ∈ meets, bound ≤ other.range.fromId) :
    bound ≤ slice.range.fromId := by
  by_contra hlt
  have hless := not_le.mp hlt
  exact lt_irrefl _ (h.lt_fromId _ (hless.trans_le hrange)
    fun other hother => hless.trans_le (hmeets other hother))

theorem United.till_le {messages : List α} {range : Range α} {meets : List (Slice α)}
    {slice : Slice α} (h : United messages range meets slice) {bound : α}
    (hrange : range.till ≤ bound) (hmeets : ∀ other ∈ meets, other.range.till ≤ bound) :
    slice.range.till ≤ bound := by
  by_contra hlt
  have hless := not_le.mp hlt
  exact lt_irrefl _ (h.till_lt _ (hrange.trans_lt hless)
    fun other hother => (hmeets other hother).trans_lt hless)

theorem united_alone (messages : List α) (range : Range α) :
    United messages range [] ⟨FlatSet.ofList messages, range⟩ where
  mem id := by simp
  fromId_le := le_rfl
  le_till := le_rfl
  holds _ h := absurd h List.not_mem_nil
  lt_fromId _ h _ := h
  till_lt _ h _ := h

/-- One more slice is united. -/
theorem United.merge {messages : List α} {range : Range α} {meets : List (Slice α)}
    {slice other : Slice α} (h : United messages range meets slice)
    (hother : range.fromId ≤ other.range.till ∧ other.range.fromId ≤ range.till) :
    ∃ slice', slice.merge other.messages.elems other.range = some slice' ∧
      United messages range (meets ++ [other]) slice' := by
  have hmerge : other.range.fromId ≤ slice.range.till ∧ slice.range.fromId ≤ other.range.till :=
    ⟨hother.2.trans h.le_till, h.fromId_le.trans hother.1⟩
  refine ⟨_, if_pos hmerge, ?_, ?_, ?_, ?_, ?_, ?_⟩
  · intro id
    rw [FlatSet.mem_merge, h.mem, FlatSet.mem_elems]
    simp only [List.mem_append, List.mem_singleton, or_and_right, exists_or, exists_eq_left,
      or_assoc]
  · exact (min_le_left ..).trans h.fromId_le
  · exact h.le_till.trans (le_max_left ..)
  · intro s hs
    rcases List.mem_append.mp hs with hs | hs
    · exact ⟨(min_le_left ..).trans (h.holds s hs).1, (h.holds s hs).2.trans (le_max_left ..)⟩
    · rw [List.mem_singleton.mp hs]
      exact ⟨min_le_right .., le_max_right ..⟩
  · intro bound hbound hall
    apply lt_min
    · exact h.lt_fromId bound hbound fun s hs => hall s (List.mem_append_left _ hs)
    · exact hall other (by simp)
  · intro bound hbound hall
    apply max_lt
    · exact h.till_lt bound hbound fun s hs => hall s (List.mem_append_left _ hs)
    · exact hall other (by simp)

theorem United.mergeAll {messages : List α} {range : Range α} (others : List (Slice α))
    {meets : List (Slice α)} {slice : Slice α} (h : United messages range meets slice)
    (hothers : ∀ other ∈ others,
      range.fromId ≤ other.range.till ∧ other.range.fromId ≤ range.till) :
    ∃ slice', slice.mergeAll others = some slice' ∧
      United messages range (meets ++ others) slice' := by
  induction others generalizing meets slice with
  | nil => exact ⟨slice, rfl, by rwa [List.append_nil]⟩
  | cons other others ih =>
    obtain ⟨slice1, hmerge, h1⟩ := h.merge (hothers other (List.mem_cons_self ..))
    obtain ⟨slice2, hall, h2⟩ := ih h1 fun s hs => hothers s (List.mem_cons_of_mem _ hs)
    refine ⟨slice2, ?_, by rwa [List.append_assoc] at h2⟩
    rw [Slice.mergeAll, List.foldlM_cons, hmerge]
    exact hall

/-- The slice added to comes first in the union. -/
theorem united_first (messages : List α) {range : Range α} {first : Slice α}
    (hfirst : range.fromId ≤ first.range.till ∧ first.range.fromId ≤ range.till) :
    ∃ slice, first.merge messages range = some slice ∧ United messages range [first] slice := by
  refine ⟨_, if_pos ⟨hfirst.1, hfirst.2⟩, ?_, min_le_right .., le_max_right .., ?_, ?_, ?_⟩
  · intro id
    simp only [FlatSet.mem_merge, List.mem_singleton, exists_eq_left]
    tauto
  · intro s hs
    rw [List.mem_singleton.mp hs]
    exact ⟨min_le_left .., le_max_left ..⟩
  · intro bound hbound hall
    exact lt_min (hall first (by simp)) hbound
  · intro bound hbound hall
    exact max_lt (hall first (by simp)) hbound

theorem emplaceSlice_eq {slice : Slice α} {before after : List (Slice α)}
    (hbefore : ∀ s ∈ before, s.range.fromId < slice.range.fromId)
    (hafter : ∀ s ∈ after, slice.range.fromId < s.range.fromId) :
    emplaceSlice slice (before ++ after) = (before ++ slice :: after, slice) := by
  induction before with
  | nil =>
    cases after with
    | nil => rfl
    | cons other after =>
      rw [List.nil_append, emplaceSlice, if_pos (hafter other (List.mem_cons_self ..))]
      rfl
  | cons other before ih =>
    have hlt := hbefore other (List.mem_cons_self ..)
    rw [List.cons_append, emplaceSlice, if_neg hlt.asymm, if_pos hlt,
      ih fun s hs => hbefore s (List.mem_cons_of_mem _ hs)]
    rfl

/-- An addition puts one slice in the place of all that its range meets. -/
theorem addToSlices_spec {slices : List (Slice α)} (h : WellFormed slices) (messages : List α)
    {range : Range α} (hrange : range.fromId ≤ range.till) :
    ∃ before meets after slice, Around slices range before meets after ∧
      United messages range meets slice ∧
      addToSlices slices messages range = some {
        slices := before ++ slice :: after
        updated := slice
        added := slice.messages.size - (meets.head?.elim 0 fun first => first.messages.size) } := by
  obtain ⟨before, meets, after, ha⟩ := h.around hrange
  have hlen : (before ++ meets).length = before.length + meets.length := List.length_append
  have htake : slices.take (before.length + meets.length) = before ++ meets := by
    rw [ha.split, List.take_left' hlen]
  have hdrop : slices.drop (before.length + meets.length) = after := by
    rw [ha.split, List.drop_left' hlen]
  rw [addToSlices, ha.lower, ha.upper]
  cases meets with
  | nil =>
    refine ⟨before, [], after, _, ha, united_alone messages range, ?_⟩
    have hsplit := ha.split
    rw [List.append_nil] at hsplit
    have hemplace : emplaceSlice ⟨FlatSet.ofList messages, range⟩ (before ++ after) =
        (before ++ ⟨FlatSet.ofList messages, range⟩ :: after, ⟨FlatSet.ofList messages, range⟩) :=
      emplaceSlice_eq
      (fun s hs => (h.ordered s (by rw [hsplit]; simp [hs])).trans_lt (ha.before_lt s hs))
      (fun s hs => hrange.trans_lt (ha.after_lt s hs))
    rw [← hsplit] at hemplace
    rw [if_neg (by simp), hemplace]
    rfl
  | cons first others =>
    obtain ⟨slice1, hmerge, h1⟩ := united_first messages
      (ha.meets_le first (List.mem_cons_self ..))
    obtain ⟨slice2, hall, h2⟩ := h1.mergeAll others
      fun s hs => ha.meets_le s (List.mem_cons_of_mem _ hs)
    refine ⟨before, first :: others, after, slice2, ha, h2, ?_⟩
    rw [if_pos (by simp), uniteAndAdd, htake, List.drop_left, hdrop]
    dsimp only
    rw [hmerge, Option.bind_eq_bind, Option.bind_some, hall]
    have htake' : slices.take before.length = before := by
      rw [ha.split, List.append_assoc, List.take_left]
    rw [htake']
    rfl

section Added

variable {slices before meets after : List (Slice α)} {messages : List α} {range : Range α}
  {slice : Slice α}

theorem Around.lt_fromId (ha : Around slices range before meets after) (h : WellFormed slices)
    (hu : United messages range meets slice) :
    ∀ s ∈ before, s.range.till < slice.range.fromId := by
  have happ := h.apart
  rw [ha.split, List.append_assoc, List.pairwise_append] at happ
  intro s hs
  exact hu.lt_fromId _ (ha.before_lt s hs)
    fun other hother => happ.2.2 s hs other (List.mem_append_left _ hother)

theorem Around.till_lt (ha : Around slices range before meets after) (h : WellFormed slices)
    (hu : United messages range meets slice) :
    ∀ s ∈ after, slice.range.till < s.range.fromId := by
  have happ := h.apart
  rw [ha.split, List.pairwise_append] at happ
  intro s hs
  exact hu.till_lt _ (ha.after_lt s hs)
    fun other hother => happ.2.2 other (List.mem_append_right _ hother) s hs

theorem United.inside (hu : United messages range meets slice)
    (hrange : range.fromId ≤ range.till) (hmessages : ∀ id ∈ messages, range.Holds id)
    (hmeets : ∀ other ∈ meets, ∀ id ∈ other.messages, other.range.Holds id) :
    slice.range.fromId ≤ slice.range.till ∧ ∀ id ∈ slice.messages, slice.range.Holds id := by
  refine ⟨hu.fromId_le.trans (hrange.trans hu.le_till), fun id hid => ?_⟩
  rcases (hu.mem id).mp hid with hid | ⟨other, hother, hid⟩
  · have := hmessages id hid
    exact ⟨hu.fromId_le.trans this.1, this.2.trans hu.le_till⟩
  · have := hmeets other hother id hid
    exact ⟨(hu.holds other hother).1.trans this.1, this.2.trans (hu.holds other hother).2⟩

theorem Around.wellFormed (ha : Around slices range before meets after) (h : WellFormed slices)
    (hu : United messages range meets slice) (hrange : range.fromId ≤ range.till)
    (hmessages : ∀ id ∈ messages, range.Holds id) :
    WellFormed (before ++ slice :: after) := by
  have hmem : ∀ s, s ∈ before ∨ s ∈ meets ∨ s ∈ after → s ∈ slices := by
    intro s hs
    rw [ha.split]
    simp only [List.mem_append]
    tauto
  have happ := h.apart
  rw [ha.split, List.append_assoc, List.pairwise_append, List.pairwise_append] at happ
  obtain ⟨hbefore, ⟨-, hafter, -⟩, hcross⟩ := happ
  have hslice := hu.inside hrange hmessages fun other hother =>
    h.inside other (hmem other (.inr (.inl hother)))
  refine ⟨?_, ?_, ?_⟩
  · rw [List.pairwise_append, List.pairwise_cons]
    refine ⟨hbefore, ⟨ha.till_lt h hu, hafter⟩, fun s hs other hother => ?_⟩
    rcases List.mem_cons.mp hother with hother | hother
    · rw [hother]
      exact ha.lt_fromId h hu s hs
    · exact hcross s hs other (List.mem_append_right _ hother)
  · intro s hs
    rcases List.mem_append.mp hs with hs | hs
    · exact h.ordered s (hmem s (.inl hs))
    · rcases List.mem_cons.mp hs with hs | hs
      · rw [hs]
        exact hslice.1
      · exact h.ordered s (hmem s (.inr (.inr hs)))
  · intro s hs
    rcases List.mem_append.mp hs with hs | hs
    · exact h.inside s (hmem s (.inl hs))
    · rcases List.mem_cons.mp hs with hs | hs
      · rw [hs]
        exact hslice.2
      · exact h.inside s (hmem s (.inr (.inr hs)))

/-- The ids of all slices. -/
def Held (slices : List (Slice α)) (id : α) : Prop := ∃ slice ∈ slices, id ∈ slice.messages

/-- The positions the slices know all ids of. -/
def Covered (slices : List (Slice α)) (id : α) : Prop := ∃ slice ∈ slices, slice.range.Holds id

theorem Around.held (ha : Around slices range before meets after)
    (hu : United messages range meets slice) (id : α) :
    Held (before ++ slice :: after) id ↔ id ∈ messages ∨ Held slices id := by
  simp only [Held, ha.split, List.mem_append, List.mem_cons, or_and_right, exists_or,
    exists_eq_left, hu.mem, or_assoc]
  exact or_left_comm

theorem Around.covered (ha : Around slices range before meets after)
    (hu : United messages range meets slice) {id : α} (h : Covered slices id ∨ range.Holds id) :
    Covered (before ++ slice :: after) id := by
  rcases h with ⟨s, hs, hholds⟩ | hholds
  · rw [ha.split, List.mem_append, List.mem_append] at hs
    rcases hs with (hs | hs) | hs
    · exact ⟨s, by simp [hs], hholds⟩
    · have := hu.holds s hs
      exact ⟨slice, by simp, this.1.trans hholds.1, hholds.2.trans this.2⟩
    · exact ⟨s, by simp [hs], hholds⟩
  · exact ⟨slice, by simp, hu.fromId_le.trans hholds.1, hholds.2.trans hu.le_till⟩

end Added

/-- A position lies in one slice at most. -/
theorem WellFormed.eq_of_holds {slices : List (Slice α)} (h : WellFormed slices) {s t : Slice α}
    (hs : s ∈ slices) (ht : t ∈ slices) {id : α} (hsid : s.range.Holds id)
    (htid : t.range.Holds id) : s = t := by
  induction slices with
  | nil => exact absurd hs List.not_mem_nil
  | cons slice slices ih =>
    have hapart := (List.pairwise_cons.mp h.apart).1
    rcases List.mem_cons.mp hs with hs | hs <;> rcases List.mem_cons.mp ht with ht | ht
    · rw [hs, ht]
    · rw [hs] at hsid
      exact absurd (hsid.2.trans_lt ((hapart t ht).trans_le htid.1)) (lt_irrefl _)
    · rw [ht] at htid
      exact absurd (htid.2.trans_lt ((hapart s hs).trans_le hsid.1)) (lt_irrefl _)
    · exact ih h.tail hs ht

theorem sliceAround_cons (slice : Slice α) (slices : List (Slice α)) (id : α) :
    sliceAround (slice :: slices) id =
      if slice.range.till < id then (sliceAround slices id).map fun (index, s) => (index + 1, s)
      else if slice.range.fromId ≤ id then some (0, slice) else none := by
  rw [sliceAround, lowerBoundTill_cons]
  split_ifs with htill hfrom
  · rw [sliceAround]
    dsimp only
    rw [List.getElem?_cons_succ]
    cases slices[lowerBoundTill slices id]? with
    | none => rfl
    | some s =>
      dsimp only
      split_ifs <;> rfl
  · rw [List.getElem?_cons_zero]
    exact if_pos hfrom
  · rw [List.getElem?_cons_zero]
    exact if_neg hfrom

/-- The slice found around a position is the one that holds it. -/
theorem WellFormed.sliceAround_spec {slices : List (Slice α)} (h : WellFormed slices) (id : α) :
    match sliceAround slices id with
    | some (index, slice) => slice.range.Holds id ∧ slices[index]? = some slice
    | none => ∀ slice ∈ slices, ¬ slice.range.Holds id := by
  induction slices with
  | nil => exact fun _ hs => absurd hs List.not_mem_nil
  | cons slice slices ih =>
    have hapart := (List.pairwise_cons.mp h.apart).1
    have htail := ih h.tail
    rw [sliceAround_cons]
    by_cases htill : slice.range.till < id
    · rw [if_pos htill]
      cases hfound : sliceAround slices id with
      | none =>
        rw [hfound] at htail
        intro s hs
        rcases List.mem_cons.mp hs with hs | hs
        · rw [hs]
          exact fun hholds => absurd htill (not_lt.mpr hholds.2)
        · exact htail s hs
      | some found =>
        rw [hfound] at htail
        exact ⟨htail.1, by rw [List.getElem?_cons_succ]; exact htail.2⟩
    · rw [if_neg htill]
      by_cases hfrom : slice.range.fromId ≤ id
      · rw [if_pos hfrom]
        exact ⟨⟨hfrom, not_lt.mp htill⟩, rfl⟩
      · rw [if_neg hfrom]
        intro s hs hholds
        rcases List.mem_cons.mp hs with hs | hs
        · rw [hs] at hholds
          exact hfrom hholds.1
        · have hlt := hapart s hs
          exact absurd ((not_lt.mp htill).trans_lt (hlt.trans_le hholds.1)) (lt_irrefl _)

/-- A slice may be replaced by one inside its range. -/
theorem WellFormed.replace {before after : List (Slice α)} {slice slice' : Slice α}
    (h : WellFormed (before ++ slice :: after))
    (hfrom : slice.range.fromId ≤ slice'.range.fromId)
    (htill : slice'.range.till ≤ slice.range.till)
    (hordered : slice'.range.fromId ≤ slice'.range.till)
    (hinside : ∀ id ∈ slice'.messages, slice'.range.Holds id) :
    WellFormed (before ++ slice' :: after) := by
  have happ := h.apart
  rw [List.pairwise_append, List.pairwise_cons] at happ
  obtain ⟨hbefore, ⟨hslice, hafter⟩, hcross⟩ := happ
  refine ⟨?_, ?_, ?_⟩
  · rw [List.pairwise_append, List.pairwise_cons]
    refine ⟨hbefore, ⟨fun s hs => htill.trans_lt (hslice s hs), hafter⟩, fun s hs t ht => ?_⟩
    rcases List.mem_cons.mp ht with ht | ht
    · rw [ht]
      exact (hcross s hs slice (List.mem_cons_self ..)).trans_le hfrom
    · exact hcross s hs t (List.mem_cons_of_mem _ ht)
  · intro s hs
    rcases List.mem_append.mp hs with hs' | hs'
    · exact h.ordered s (List.mem_append_left _ hs')
    · rcases List.mem_cons.mp hs' with hs' | hs'
      · rwa [hs']
      · exact h.ordered s (List.mem_append_right _ (List.mem_cons_of_mem _ hs'))
  · intro s hs
    rcases List.mem_append.mp hs with hs' | hs'
    · exact h.inside s (List.mem_append_left _ hs')
    · rcases List.mem_cons.mp hs' with hs' | hs'
      · rwa [hs']
      · exact h.inside s (List.mem_append_right _ (List.mem_cons_of_mem _ hs'))

theorem WellFormed.others_not_hold {before after : List (Slice α)} {slice : Slice α}
    (h : WellFormed (before ++ slice :: after)) {id : α} (hholds : slice.range.Holds id) :
    ∀ s, s ∈ before ∨ s ∈ after → ¬ s.range.Holds id := by
  have happ := h.apart
  rw [List.pairwise_append, List.pairwise_cons] at happ
  intro s hs hs'
  rcases hs with hs | hs
  · have hlt := happ.2.2 s hs slice (List.mem_cons_self ..)
    exact absurd ((hs'.2.trans_lt hlt).trans_le hholds.1) (lt_irrefl _)
  · have hlt := happ.2.1.1 s hs
    exact absurd ((hholds.2.trans_lt hlt).trans_le hs'.1) (lt_irrefl _)

/-- What a removal does to the slices. -/
theorem WellFormed.removeFromSlices_spec {slices : List (Slice α)} (h : WellFormed slices)
    (id : α) :
    (removeFromSlices slices id = slices ∧ ∀ slice ∈ slices, ¬ slice.range.Holds id) ∨
    ∃ before slice after, slices = before ++ slice :: after ∧ slice.range.Holds id ∧
      removeFromSlices slices id =
        before ++ { slice with messages := slice.messages.remove id } :: after := by
  have hspec := h.sliceAround_spec id
  rw [removeFromSlices]
  cases hfound : sliceAround slices id with
  | none =>
    rw [hfound] at hspec
    exact .inl ⟨rfl, hspec⟩
  | some found =>
    rw [hfound] at hspec
    obtain ⟨hholds, hget⟩ := hspec
    obtain ⟨hlt, hget'⟩ := List.getElem?_eq_some_iff.mp hget
    refine .inr ⟨slices.take found.1, found.2, slices.drop (found.1 + 1), ?_, hholds, ?_⟩
    · rw [← hget', ← List.drop_eq_getElem_cons hlt, List.take_append_drop]
    · exact List.set_eq_take_append_cons_drop.trans (if_pos hlt)

theorem removed_wellFormed {slices : List (Slice α)} (h : WellFormed slices) (id : α) :
    WellFormed (removeFromSlices slices id) := by
  rcases h.removeFromSlices_spec id with ⟨heq, -⟩ | ⟨before, slice, after, hsplit, hholds, heq⟩
  · rwa [heq]
  · rw [heq]
    rw [hsplit] at h
    have hmem : slice ∈ before ++ slice :: after := by simp
    refine h.replace ?_ ?_ ?_ fun x hx => ?_
    · exact le_rfl
    · exact le_rfl
    · exact h.ordered slice hmem
    · exact h.inside slice hmem x (FlatSet.mem_remove.mp hx).1

theorem removed_held {slices : List (Slice α)} (h : WellFormed slices) (id x : α) :
    Held (removeFromSlices slices id) x ↔ Held slices x ∧ x ≠ id := by
  rcases h.removeFromSlices_spec id with ⟨heq, hnone⟩ | ⟨before, slice, after, hsplit, hholds, heq⟩
  · rw [heq]
    constructor
    · intro hheld
      refine ⟨hheld, fun hx => ?_⟩
      obtain ⟨s, hs, hmem⟩ := hheld
      rw [hx] at hmem
      exact hnone s hs (h.inside s hs id hmem)
    · exact And.left
  · -- The ids of the other slices are not the one removed.
    rw [hsplit] at h
    have hother : ∀ s, s ∈ before ∨ s ∈ after → id ∉ s.messages := by
      intro s hs hid
      apply h.others_not_hold hholds s hs
      apply h.inside s _ id hid
      simp only [List.mem_append, List.mem_cons]
      tauto
    rw [heq, hsplit]
    constructor
    · intro ⟨s, hs, hmem⟩
      rw [List.mem_append, List.mem_cons] at hs
      rcases hs with hs | hs | hs
      · exact ⟨⟨s, by simp [hs], hmem⟩, fun hx => hother s (.inl hs) (hx ▸ hmem)⟩
      · rw [hs] at hmem
        obtain ⟨hmem, hx⟩ := FlatSet.mem_remove.mp hmem
        exact ⟨⟨slice, by simp, hmem⟩, hx⟩
      · exact ⟨⟨s, by simp [hs], hmem⟩, fun hx => hother s (.inr hs) (hx ▸ hmem)⟩
    · intro ⟨⟨s, hs, hmem⟩, hx⟩
      rw [List.mem_append, List.mem_cons] at hs
      rcases hs with hs | hs | hs
      · exact ⟨s, by simp [hs], hmem⟩
      · rw [hs] at hmem
        exact ⟨_, List.mem_append_right _ (List.mem_cons_self ..),
          FlatSet.mem_remove.mpr ⟨hmem, hx⟩⟩
      · exact ⟨s, by simp [hs], hmem⟩

theorem removed_covered {slices : List (Slice α)} (h : WellFormed slices) (id x : α) :
    Covered (removeFromSlices slices id) x ↔ Covered slices x := by
  rcases h.removeFromSlices_spec id with ⟨heq, -⟩ | ⟨before, slice, after, hsplit, -, heq⟩
  · rw [heq]
  · rw [heq, hsplit]
    simp only [Covered, List.mem_append, List.mem_cons, or_and_right, exists_or, exists_eq_left]

/-- What dropping the bottom does to the slices. -/
theorem invalidateBottomOfSlices_spec (slices : List (Slice α)) (maxId : α) :
    invalidateBottomOfSlices slices maxId = slices ∨
    ∃ before last, slices = before ++ [last] ∧ last.range.till = maxId ∧
      invalidateBottomOfSlices slices maxId = before ++ [{ last with
        range := ⟨last.range.fromId, last.messages.elems.getLastD last.range.fromId⟩ }] := by
  rw [invalidateBottomOfSlices]
  cases hlast : slices.getLast? with
  | none => exact .inl rfl
  | some last =>
    dsimp only
    by_cases hmax : last.range.till = maxId
    · rw [if_pos hmax]
      refine .inr ⟨slices.dropLast, last, ?_, hmax, rfl⟩
      exact (List.dropLast_append_getLast? last hlast).symm
    · rw [if_neg hmax]
      exact .inl rfl

theorem bottomed_wellFormed {slices : List (Slice α)} (h : WellFormed slices) (maxId : α) :
    WellFormed (invalidateBottomOfSlices slices maxId) := by
  rcases invalidateBottomOfSlices_spec slices maxId with heq | ⟨before, last, hsplit, -, heq⟩
  · rwa [heq]
  · rw [heq]
    rw [hsplit] at h
    have hmem : last ∈ before ++ [last] := by simp
    have hinside := h.inside last hmem
    have hlast : last.range.fromId ≤ last.messages.elems.getLastD last.range.fromId ∧
        last.messages.elems.getLastD last.range.fromId ≤ last.range.till := by
      by_cases hnil : last.messages = ∅
      · rw [hnil]
        exact ⟨le_rfl, h.ordered last hmem⟩
      · exact hinside _ (FlatSet.getLastD_mem hnil _)
    refine h.replace ?_ ?_ ?_ fun x hx => ?_
    · exact le_rfl
    · exact hlast.2
    · exact hlast.1
    · exact ⟨(hinside x hx).1, FlatSet.le_getLastD hx _⟩

theorem bottomed_held (slices : List (Slice α)) (maxId x : α) :
    Held (invalidateBottomOfSlices slices maxId) x ↔ Held slices x := by
  rcases invalidateBottomOfSlices_spec slices maxId with heq | ⟨before, last, hsplit, -, heq⟩
  · rw [heq]
  · rw [heq, hsplit]
    simp only [Held, List.mem_append, List.mem_singleton, or_and_right, exists_or,
      exists_eq_left]

def heldIds (slices : List (Slice α)) : Finset α :=
  (slices.flatMap fun slice => slice.messages.elems).toFinset

theorem mem_heldIds {slices : List (Slice α)} {id : α} : id ∈ heldIds slices ↔ Held slices id := by
  rw [heldIds, List.mem_toFinset, List.mem_flatMap]
  rfl

/-- No id is in two slices. -/
theorem WellFormed.card_heldIds {slices : List (Slice α)} (h : WellFormed slices) :
    (heldIds slices).card = (slices.map fun slice => slice.messages.size).sum := by
  have hnodup : (slices.flatMap fun slice => slice.messages.elems).Nodup := by
    apply List.nodup_flatMap.mpr
    refine ⟨fun slice _ => slice.messages.nodup, ?_⟩
    apply h.apart.imp_of_mem
    intro a b ha hb hlt
    rw [Function.onFun, List.disjoint_left]
    intro id hida hidb
    have hholds := h.inside a ha id hida
    have hholds' := h.inside b hb id hidb
    exact absurd (hlt.trans_le (hholds'.1.trans hholds.2)) (lt_irrefl _)
  rw [heldIds, List.toFinset_card_of_nodup hnodup, List.length_flatMap]
  rfl

end TelegramDesktop.Storage
