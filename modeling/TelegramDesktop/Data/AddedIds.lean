import TelegramDesktop.Storage.SparseIdsListSnapshot
import TelegramDesktop.Data.MessagesList

namespace TelegramDesktop.Data
open Base Storage

section Slices

variable {α : Type*} [LinearOrder α]

def newIds (was now : List (Slice α)) : ℕ := (heldIds now \ heldIds was).card

/-- The count that is right after an addition: a lone slice of the full range counts its ids, else
the new ids are added to the count. -/
structure CountsNew (full : Range α) (was : List (Slice α)) (count : ℤ) (now : List (Slice α))
    (count' : Option ℤ) : Prop where
  whole : ∀ front, now = [front] → front.range = full → count' = some (front.messages.size : ℤ)
  others : (∀ front, now = [front] → front.range ≠ full) →
    count' = some (count + newIds was now)

variable {slices before meets after : List (Slice α)} {id : α} {range : Range α} {slice : Slice α}

theorem newIds_eq {now : List (Slice α)} (h : ∀ x, Held now x ↔ x = id ∨ Held slices x) :
    newIds slices now = if id ∈ heldIds slices then 0 else 1 := by
  have hdiff : heldIds now \ heldIds slices = if id ∈ heldIds slices then ∅ else {id} := by
    ext x
    rw [Finset.mem_sdiff, mem_heldIds, h, ← mem_heldIds]
    split_ifs with hid
    · simp only [Finset.notMem_empty, iff_false, not_and, not_not]
      rintro (rfl | hx)
      · exact hid
      · exact hx
    · rw [Finset.mem_singleton]
      constructor
      · rintro ⟨rfl | hx, hnot⟩
        · rfl
        · exact absurd hx hnot
      · rintro rfl
        exact ⟨.inl rfl, hid⟩
  rw [newIds, hdiff]
  split_ifs
  · rfl
  · exact Finset.card_singleton id

/-- A range is met by slices that are sorted, too. -/
theorem meets_wellFormed (ha : Around slices range before meets after)
    (h : WellFormed slices) : WellFormed meets := by
  have hmem : ∀ s ∈ meets, s ∈ slices := by
    intro s hs
    rw [ha.split]
    simp [hs]
  have hapart := h.apart
  rw [ha.split, List.pairwise_append, List.pairwise_append] at hapart
  exact ⟨hapart.1.2.1, fun s hs => h.ordered s (hmem s hs), fun s hs => h.inside s (hmem s hs)⟩

/-- Only a slice that meets the range holds an id of it. -/
theorem held_meets (ha : Around slices range before meets after) (h : WellFormed slices)
    (hid : range.Holds id) : id ∈ heldIds slices ↔ id ∈ heldIds meets := by
  rw [mem_heldIds, mem_heldIds]
  constructor
  · rintro ⟨s, hs, hmem⟩
    have hholds := h.inside s hs id hmem
    rw [ha.split, List.mem_append, List.mem_append] at hs
    rcases hs with (hs | hs) | hs
    · exact absurd ((ha.before_lt s hs).trans_le (hid.1.trans hholds.2)) (lt_irrefl _)
    · exact ⟨s, hs, hmem⟩
    · exact absurd ((ha.after_lt s hs).trans_le (hholds.1.trans hid.2)) (lt_irrefl _)
  · rintro ⟨s, hs, hmem⟩
    refine ⟨s, ?_, hmem⟩
    rw [ha.split]
    simp [hs]

/-- The ids of the united slice are those of the slices that are met, and the new one. -/
theorem size_united (ha : Around slices range before meets after) (h : WellFormed slices)
    (hid : range.Holds id) (hu : United [id] range meets slice) :
    slice.messages.size = (meets.map fun s => s.messages.size).sum +
      if id ∈ heldIds slices then 0 else 1 := by
  have hset : slice.messages.elems.toFinset = insert id (heldIds meets) := by
    ext x
    rw [List.mem_toFinset, FlatSet.mem_elems, hu.mem, Finset.mem_insert, mem_heldIds,
      List.mem_singleton]
    rfl
  have hsize : slice.messages.size = (insert id (heldIds meets)).card := by
    rw [← hset, List.toFinset_card_of_nodup slice.messages.nodup]
    rfl
  rw [hsize, ← (meets_wellFormed ha h).card_heldIds]
  simp only [held_meets ha h hid]
  split_ifs with hheld
  · rw [Finset.insert_eq_of_mem hheld, Nat.add_zero]
  · exact Finset.card_insert_of_notMem hheld

theorem sum_sizes (meets : List (Slice α)) :
    (meets.map fun s => s.messages.size).sum =
      (meets.head?.elim 0 fun first => first.messages.size) +
        (meets.tail.map fun s => s.messages.size).sum := by
  cases meets with
  | nil => rfl
  | cons first others => rfl

end Slices

/-- When an id is counted once. Either the list becomes the whole one: no slice ends before the id,
and the id or the first slice begins the list or the count with what is added does not exceed the
ids of the united slice. Or the first slice that does not end before the id has no more ids than
are counted, there are no more ids behind it, and the count stays an `int`. Or the count is all
these ids, and gets less by not staying one. -/
def CountedOnce (slices : List (Slice ℤ)) (count id : ℤ) : Prop :=
  let meets := slices.drop (lowerBoundTill slices id)
  let first : ℕ := meets.head?.elim 0 fun slice => slice.messages.size
  let others : ℕ := (meets.tail.map fun slice => slice.messages.size).sum
  let new : ℕ := if id ∈ heldIds slices then 0 else 1
  let counted := int32Add count (others + new : ℕ)
  lowerBoundTill slices id = 0 ∧
      (id = 0 ∨ (∃ slice, meets.head? = some slice ∧ slice.range.fromId = 0) ∨
        0 ≤ counted ∧ counted ≤ (first + others + new : ℕ)) ∨
    first + others ≤ count ∧ counted = count + new ∨
    count = first + others ∧ counted < count + new

/-- A position is counted once where the list is whole, or holds it, or the count stays an `int`. -/
def CountedOne (slices : List (Slice MessagePosition)) (count : ℤ)
    (messageId : MessagePosition) : Prop :=
  (∃ front, slices = [front] ∧ front.range = FullMessagesRange) ∨
    messageId ∈ heldIds slices ∨ count + 1 < 2 ^ 31

namespace SparseIdsList

open Storage.SparseIdsList

/-- The new range goes on to the end of the list, so that no slice is behind it. -/
theorem after_nil {list : SparseIdsList} (h : list.Ok) {id : ℤ}
    {before meets after : List (Slice ℤ)}
    (ha : Around list.slices ⟨id, ServerMaxMsgId⟩ before meets after) : after = [] := by
  apply List.eq_nil_iff_forall_not_mem.mpr
  intro s hs
  have hmem : s ∈ list.slices := by
    rw [ha.split]
    simp [hs]
  have hlt : ServerMaxMsgId < s.range.fromId := ha.after_lt s hs
  have hserver := h.server s hmem
  have hordered := h.wellFormed.ordered s hmem
  omega

/-- The united slice begins the list if the id or the first slice does. -/
theorem begins_iff {list : SparseIdsList} (h : list.Ok) {id : ℤ} (hid : 0 ≤ id)
    {meets after : List (Slice ℤ)} {slice : Slice ℤ}
    (ha : Around list.slices ⟨id, ServerMaxMsgId⟩ [] meets after)
    (hu : United [id] ⟨id, ServerMaxMsgId⟩ meets slice) :
    slice.range.fromId = 0 ↔
      id = 0 ∨ ∃ first, meets.head? = some first ∧ first.range.fromId = 0 := by
  have hmem : ∀ s ∈ meets, s ∈ list.slices := by
    intro s hs
    rw [ha.split]
    simp [hs]
  have hlow : 0 ≤ slice.range.fromId :=
    hu.le_fromId hid fun other hother => (h.server other (hmem other hother)).1
  constructor
  · intro hzero
    by_contra hnone
    simp only [not_or, not_exists, not_and] at hnone
    have hpos : 1 ≤ slice.range.fromId := by
      apply hu.le_fromId (by change 1 ≤ id; omega)
      intro other hother
      have hserver := h.server other (hmem other hother)
      cases meets with
      | nil => exact absurd hother List.not_mem_nil
      | cons first rest =>
        rcases List.mem_cons.mp hother with rfl | hother'
        · have hne := hnone.2 other rfl
          omega
        · have hlt := List.rel_of_pairwise_cons (meets_wellFormed ha h.wellFormed).apart hother'
          have hfirst := h.server first (hmem first List.mem_cons_self)
          have hordered := h.wellFormed.ordered first (hmem first List.mem_cons_self)
          omega
    omega
  · rintro (rfl | ⟨first, hhead, hfirst⟩)
    · exact le_antisymm hu.fromId_le hlow
    · have hle := (hu.holds first (List.mem_of_head? hhead)).1
      omega

theorem max_eq_iff {count counted : ℤ} {first others new : ℕ} :
    max counted ((first + others + new : ℕ) : ℤ) = count + new ↔
      (first : ℤ) + others ≤ count ∧ counted = count + new ∨
        count = first + others ∧ counted < count + new := by
  omega

theorem addedCount_some {count : ℤ} (hint : -2 ^ 31 ≤ count ∧ count < 2 ^ 31) (added : ℕ) :
    addedCount (some count) none true added = some (int32Add count added) := by
  rw [addedCount]
  split_ifs with hpos
  · rfl
  · have hzero : added = 0 := by simpa using hpos
    rw [hzero, Nat.cast_zero, int32Add_zero hint]

/-- A lone slice with a count is the whole list afterwards, or is left. -/
theorem widenLone_lone (count : ℤ) (slice : Slice ℤ) :
    (∃ front, widenLone (some count) [slice] = ⟨some (front.messages.size : ℤ), [front]⟩ ∧
        front.range = fullRange ∧ front.messages = slice.messages ∧
        (slice.range = fullRange ∨ 0 ≤ count ∧ count ≤ slice.messages.size)) ∨
      widenLone (some count) [slice] = ⟨some count, [slice]⟩ ∧
        ¬ (slice.range = fullRange ∨ 0 ≤ count ∧ count ≤ slice.messages.size) := by
  rw [widenLone, Option.any_some]
  by_cases hwhole : 0 ≤ count ∧ count ≤ slice.messages.size
  · rw [if_pos (decide_eq_true hwhole), if_pos rfl]
    exact .inl ⟨_, rfl, rfl, rfl, .inr hwhole⟩
  · have hleft : decide (0 ≤ count ∧ count ≤ slice.messages.size) = false :=
      decide_eq_false hwhole
    rw [hleft]
    simp only [Bool.false_eq_true, if_false]
    by_cases hrange : slice.range = fullRange
    · rw [if_pos hrange]
      exact .inl ⟨_, rfl, hrange, rfl, .inl hrange⟩
    · rw [if_neg hrange]
      exact .inr ⟨rfl, not_or.mpr ⟨hrange, hwhole⟩⟩

/-- A count after `addNew` is the right one if and only if the id is counted once. -/
theorem addNew_iff {list : SparseIdsList} (h : list.Ok) {count : ℤ}
    (hcount : list.count = some count) (hint : -2 ^ 31 ≤ count ∧ count < 2 ^ 31) {id : ℤ}
    (hid : 0 ≤ id ∧ id ≤ ServerMaxMsgId) :
    ∃ list' update, list.addNew id = some (list', update) ∧
      (CountsNew fullRange list.slices count list'.slices list'.count ↔
        CountedOnce list.slices count id) := by
  have hrange : (⟨id, ServerMaxMsgId⟩ : Range ℤ).fromId ≤
      (⟨id, ServerMaxMsgId⟩ : Range ℤ).till :=
    hid.2
  obtain ⟨before, meets, after, slice, ha, hu, heq⟩ := addToSlices_spec h.wellFormed [id] hrange
  obtain rfl := after_nil h ha
  have hresult : addRangeItemsAndCountNew list.slices [id] ⟨id, ServerMaxMsgId⟩ =
      addToSlices list.slices [id] ⟨id, ServerMaxMsgId⟩ := by
    rw [addRangeItemsAndCountNew, if_pos hid.2, if_neg fun hnil => List.cons_ne_nil _ _ hnil.2]
  have hboth : ¬ ((none : Option ℤ).isSome = true ∧ true = true) := by simp
  obtain ⟨update, hadd⟩ := addRange_count list hboth (hresult.trans heq)
  refine ⟨_, update, hadd, ?_⟩
  have hholds : (⟨id, ServerMaxMsgId⟩ : Range ℤ).Holds id := ⟨le_rfl, hid.2⟩
  have hsize := size_united ha h.wellFormed hholds hu
  rw [sum_sizes] at hsize
  have hdrop : list.slices.drop (lowerBoundTill list.slices id) = meets := by
    have hlower : lowerBoundTill list.slices id = before.length := ha.lower
    rw [hlower, ha.split, List.append_nil, List.drop_left]
  rw [CountedOnce, hdrop, hcount, addedCount_some hint]
  dsimp only
  generalize hfirst : (meets.head?.elim 0 fun first => first.messages.size) = first at hsize ⊢
  generalize (meets.tail.map fun s => s.messages.size).sum = others at hsize ⊢
  have hadded : slice.messages.size - first =
      others + if id ∈ heldIds list.slices then 0 else 1 := by omega
  rw [hadded]
  have hnew : ∀ now, (∀ x, Held now x ↔ Held (before ++ [slice]) x) →
      newIds list.slices now = if id ∈ heldIds list.slices then 0 else 1 := by
    intro now hnow
    apply newIds_eq
    intro x
    rw [hnow, ha.held hu, List.mem_singleton]
  generalize (if id ∈ heldIds list.slices then 0 else 1) = new at hsize hnew ⊢
  generalize int32Add count (others + new : ℕ) = counted
  have hone : ∀ now : List (Slice ℤ), (∀ front, now = [front] → front.range ≠ fullRange) →
      (∀ x, Held now x ↔ Held (before ++ [slice]) x) → (CountsNew fullRange list.slices count now
        (some (max counted (slice.messages.size : ℤ))) ↔
          (first : ℤ) + others ≤ count ∧ counted = count + new ∨
            count = first + others ∧ counted < count + new) := by
    intro now hnow hheld
    rw [hsize, ← max_eq_iff]
    constructor
    · intro hcounts
      have hright := Option.some.inj (hcounts.others hnow)
      rwa [hnew now hheld] at hright
    · intro hright
      refine ⟨fun front hfront hfull => absurd hfull (hnow front hfront), fun _ => ?_⟩
      rw [hnew now hheld, hright]
  cases before with
  | nil =>
    have hlower : lowerBoundTill list.slices id = 0 := ha.lower
    have hwhole : slice.range = fullRange ↔
        id = 0 ∨ ∃ first, meets.head? = some first ∧ first.range.fromId = 0 := by
      rw [← begins_iff h hid.1 ha hu]
      have htill : slice.range.till = ServerMaxMsgId := by
        apply le_antisymm _ hu.le_till
        apply hu.till_le le_rfl
        intro other hother
        refine (h.server other ?_).2
        rw [ha.split]
        simp [hother]
      constructor
      · intro hfull
        rw [hfull]
        rfl
      · intro hzero
        rw [fullRange, ← hzero, ← htill]
    rw [List.nil_append]
    rw [List.nil_append] at hone hnew
    rcases widenLone_lone counted slice with
      ⟨front, hlone, hfull, hmessages, hcase⟩ | ⟨hlone, hcase⟩
    · rw [hlone, clampCount, Option.map_some, hmessages, max_self]
      refine iff_of_true ⟨?_, ?_⟩ (.inl ⟨hlower, ?_⟩)
      · intro other hother _
        rw [← (List.cons.inj hother).1, hmessages]
      · exact fun hnone => absurd hfull (hnone front rfl)
      · rcases hcase with hrange | hbounds
        · exact (hwhole.mp hrange).imp_right .inl
        · exact .inr (.inr (hsize ▸ hbounds))
    · rw [hlone, clampCount, Option.map_some]
      refine (hone [slice] ?_ fun x => Iff.rfl).trans (or_iff_right ?_).symm
      · intro front hfront hfull
        rw [← (List.cons.inj hfront).1] at hfull
        exact hcase (.inl hfull)
      · rintro ⟨-, hbegins⟩
        apply hcase
        rcases hbegins with hid | hbegins | hbounds
        · exact .inl (hwhole.mpr (.inl hid))
        · exact .inl (hwhole.mpr (.inr hbegins))
        · exact .inr (hsize.symm ▸ hbounds)
  | cons s before =>
    have hmany : (s :: before ++ [slice]).length ≠ 1 := by simp
    have hlower : lowerBoundTill list.slices id ≠ 0 := by
      have hlength : lowerBoundTill list.slices id = (s :: before).length := ha.lower
      rw [hlength]
      exact Nat.succ_ne_zero _
    rw [widenLone_many hmany]
    refine (hone _ ?_ fun x => Iff.rfl).trans ?_
    · intro front hfront
      rw [hfront] at hmany
      exact absurd rfl hmany
    · exact (or_iff_right fun hlone => hlower hlone.1).symm

end SparseIdsList

namespace MessagesList

theorem append_cons_eq_singleton {α : Type*} {before after : List α} {x y : α}
    (h : before ++ x :: after = [y]) : before = [] ∧ x = y ∧ after = [] := by
  cases before with
  | nil => exact ⟨rfl, (List.cons.inj h).1, (List.cons.inj h).2⟩
  | cons first before =>
    have hnil := (List.cons.inj h).2
    exact absurd (List.append_eq_nil_iff.mp hnil).2 (List.cons_ne_nil _ _)

theorem wholeCount_others {slices : List (Slice MessagePosition)}
    (h : ∀ front, slices = [front] → front.range ≠ FullMessagesRange) (count : Option ℤ) :
    wholeCount count slices = count := by
  unfold wholeCount
  split
  · exact if_neg (h _ rfl)
  · rfl

/-- At most one slice holds a position. -/
theorem meets_lone {slices before meets after : List (Slice MessagePosition)}
    {messageId : MessagePosition} (h : WellFormed slices)
    (ha : Around slices ⟨messageId, messageId⟩ before meets after) :
    meets = [] ∨ ∃ first, meets = [first] := by
  match hmeets : meets with
  | [] => exact .inl rfl
  | [first] => exact .inr ⟨first, rfl⟩
  | first :: second :: rest =>
    have hlt := List.rel_of_pairwise_cons (meets_wellFormed ha h).apart
      (List.mem_cons_self (a := second) (l := rest))
    have hfirst := (ha.meets_le first (by simp)).1
    have hsecond := (ha.meets_le second (by simp)).2
    exact absurd ((hlt.trans_le hsecond).trans_le hfirst) (lt_irrefl _)

/-- A slice that a position is added to has the full range only if it had it before. -/
theorem united_full {meets : List (Slice MessagePosition)} {slice : Slice MessagePosition}
    {messageId : MessagePosition} (hmeets : meets = [] ∨ ∃ first, meets = [first])
    (hle : ∀ s ∈ meets, messageId ≤ s.range.till ∧ s.range.fromId ≤ messageId)
    (hu : United [messageId] ⟨messageId, messageId⟩ meets slice) :
    slice.range = FullMessagesRange ↔
      ∃ first, meets = [first] ∧ first.range = FullMessagesRange := by
  rcases hmeets with rfl | ⟨first, rfl⟩
  · refine ⟨fun hfull => ?_, fun ⟨first, hfirst, _⟩ => absurd hfirst.symm (List.cons_ne_nil _ _)⟩
    have hfrom := hu.le_fromId le_rfl fun other hother => absurd hother List.not_mem_nil
    have htill := hu.till_le le_rfl fun other hother => absurd hother List.not_mem_nil
    rw [hfull] at hfrom htill
    have hends : MaxMessagePosition ≤ MinMessagePosition := htill.trans hfrom
    exact absurd hends (by decide)
  · have hfirst := hle first List.mem_cons_self
    have hholds := hu.holds first List.mem_cons_self
    have hrange : slice.range = first.range := by
      have hfrom : slice.range.fromId = first.range.fromId := by
        refine le_antisymm hholds.1 (hu.le_fromId hfirst.2 fun other hother => ?_)
        rw [List.mem_singleton.mp hother]
      have htill : slice.range.till = first.range.till := by
        refine le_antisymm (hu.till_le hfirst.1 fun other hother => ?_) hholds.2
        rw [List.mem_singleton.mp hother]
      cases hs : slice.range
      cases hf : first.range
      rw [hs, hf] at hfrom htill
      rw [Range.mk.injEq]
      exact ⟨hfrom, htill⟩
    rw [hrange]
    refine ⟨fun hfull => ⟨first, rfl, hfull⟩, fun ⟨other, hother, hfull⟩ => ?_⟩
    rwa [(List.cons.inj hother).1]

/-- `addOne` counts a new message once, if the count stays an `int`. -/
theorem addOne_counts_iff {list : MessagesList} (h : list.Ok) {count : ℤ}
    (hcount : list.count = some count) (hint : -2 ^ 31 ≤ count ∧ count < 2 ^ 31)
    {messageId : MessagePosition}
    (hinside : MinMessagePosition ≤ messageId ∧ messageId ≤ MaxMessagePosition) :
    ∃ list', (list.addOne messageId).map Prod.fst = some list' ∧
      (CountsNew FullMessagesRange list.slices count list'.slices list'.count ↔
        CountedOne list.slices count messageId) := by
  have hholds : (⟨messageId, messageId⟩ : Range MessagePosition).Holds messageId :=
    ⟨le_rfl, le_rfl⟩
  have hboth : ¬ ((none : Option ℤ).isSome = true ∧ true = true) := by simp
  have hin : Inside (⟨messageId, messageId⟩ : Range MessagePosition) := ⟨hinside.1, hinside.2⟩
  have hmessages : ∀ id ∈ [messageId],
      (⟨messageId, messageId⟩ : Range MessagePosition).Holds id := by
    intro id hid
    rwa [List.mem_singleton.mp hid]
  obtain ⟨before, meets, after, slice, ha, hu, heq, -⟩ :=
    addRange_spec h hboth le_rfl hin hmessages
  refine ⟨_, heq, ?_⟩
  have hsize := size_united ha h.wellFormed hholds hu
  have hheld : ∀ x, Held (before ++ slice :: after) x ↔ x = messageId ∨ Held list.slices x := by
    intro x
    rw [ha.held hu, List.mem_singleton]
  have hlone := meets_lone h.wellFormed ha
  have hnew := newIds_eq hheld
  have hadded : slice.messages.size - (meets.head?.elim 0 fun first => first.messages.size) =
      newIds list.slices (before ++ slice :: after) := by
    rw [hsize, hnew]
    rcases hlone with rfl | ⟨first, rfl⟩
    · simp
    · simp
  have hwhole : (∃ front, before ++ slice :: after = [front] ∧ front.range = FullMessagesRange) ↔
      ∃ front, list.slices = [front] ∧ front.range = FullMessagesRange := by
    have hfull := united_full hlone ha.meets_le hu
    have hsplit := ha.split
    constructor
    · rintro ⟨front, hfront, hrange⟩
      obtain ⟨rfl, hslice, rfl⟩ := append_cons_eq_singleton hfront
      rw [← hslice] at hrange
      obtain ⟨first, rfl, hfirst⟩ := hfull.mp hrange
      exact ⟨first, hsplit, hfirst⟩
    · rintro ⟨front, hfront, hrange⟩
      have hmem : front ∈ list.slices := by
        rw [hfront]
        exact List.mem_singleton_self front
      have hmeets : front ∈ meets := by
        have hwhole : front.range.fromId ≤ messageId ∧ messageId ≤ front.range.till := by
          rw [hrange]
          exact hinside
        rw [hsplit, List.mem_append, List.mem_append] at hmem
        rcases hmem with (hmem | hmem) | hmem
        · exact absurd ((ha.before_lt front hmem).trans_le hwhole.2) (lt_irrefl _)
        · exact hmem
        · exact absurd ((ha.after_lt front hmem).trans_le hwhole.1) (lt_irrefl _)
      have hlengths := congrArg List.length (hsplit.symm.trans hfront)
      rw [List.length_append, List.length_append, List.length_singleton] at hlengths
      have hpos := List.length_pos_of_mem hmeets
      obtain rfl := List.eq_nil_of_length_eq_zero (by omega : before.length = 0)
      obtain rfl := List.eq_nil_of_length_eq_zero (by omega : after.length = 0)
      rw [List.nil_append, List.append_nil] at hsplit
      exact ⟨slice, rfl, hfull.mpr ⟨front, hsplit.symm.trans hfront, hrange⟩⟩
  rw [hadded, hcount, SparseIdsList.addedCount_some hint, CountedOne, ← hwhole]
  dsimp only
  have hcounted : int32Add count (newIds list.slices (before ++ slice :: after) : ℕ) =
      count + (newIds list.slices (before ++ slice :: after) : ℕ) ↔
        messageId ∈ heldIds list.slices ∨ count + 1 < 2 ^ 31 := by
    rw [int32Add_eq_iff, hnew]
    split_ifs with hid
    · simp only [hid, true_or, iff_true, Nat.cast_zero, add_zero]
      exact hint
    · simp only [hid, false_or, Nat.cast_one]
      omega
  rw [← hcounted]
  generalize before ++ slice :: after = now
  constructor
  · intro hcounts
    by_cases hfront : ∃ front, now = [front] ∧ front.range = FullMessagesRange
    · exact .inl hfront
    · have hnone : ∀ front, now = [front] → front.range ≠ FullMessagesRange :=
        fun front hnow hfull => hfront ⟨front, hnow, hfull⟩
      have hright := hcounts.others hnone
      rw [wholeCount_others hnone] at hright
      exact .inr (Option.some.inj hright)
  · intro hcase
    refine ⟨fun front hnow hfull => ?_, fun hnone => ?_⟩
    · rw [hnow]
      exact if_pos hfull
    · rw [wholeCount_others hnone]
      rcases hcase with ⟨front, hnow, hfull⟩ | hright
      · exact absurd hfull (hnone front hnow)
      · exact congrArg some hright

end MessagesList

/-- In every state of either list it is known exactly when a new id is counted once, by
`SparseIdsList::addNew` and by `MessagesList::addOne`. -/
theorem addNew_counts_iff (ops : List Storage.SparseIdsList.Op)
    (hops : ∀ op ∈ ops, op.Valid ∧ op.Server) (messageOps : List MessagesList.Op)
    (hmessageOps : ∀ op ∈ messageOps, op.Valid) :
    (∀ list count, (run Storage.SparseIdsList.step (some {}) ops).1 = some list →
      list.count = some count → -2 ^ 31 ≤ count ∧ count < 2 ^ 31 →
      ∀ id, 0 ≤ id ∧ id ≤ ServerMaxMsgId →
        ∃ list' update, list.addNew id = some (list', update) ∧
          (CountsNew fullRange list.slices count list'.slices list'.count ↔
            CountedOnce list.slices count id)) ∧
    (∀ list count, MessagesList.run messageOps = some list → list.count = some count →
      -2 ^ 31 ≤ count ∧ count < 2 ^ 31 →
      ∀ messageId, MinMessagePosition ≤ messageId ∧ messageId ≤ MaxMessagePosition →
        ∃ list', (list.addOne messageId).map Prod.fst = some list' ∧
          (CountsNew FullMessagesRange list.slices count list'.slices list'.count ↔
            CountedOne list.slices count messageId)) := by
  constructor
  · intro list count hrun hcount hint id hid
    obtain ⟨list', hrun', hrefines⟩ := Storage.SparseIdsList.run_refines hops
    obtain rfl := Option.some.inj (hrun.symm.trans hrun')
    exact SparseIdsList.addNew_iff hrefines.ok hcount hint hid
  · intro list count hrun hcount hint messageId hinside
    obtain ⟨list', hrun', hok⟩ := MessagesList.run_ok hmessageOps
    obtain rfl := Option.some.inj (hrun.symm.trans hrun')
    exact MessagesList.addOne_counts_iff hok hcount hint hinside

def twoApart : List Storage.SparseIdsList.Op :=
  [.addSlice [5] ⟨5, 5⟩ (some 10), .addSlice [20] ⟨20, 20⟩ none]

theorem valid_twoApart : ∀ op ∈ twoApart, op.Valid ∧ op.Server := by
  have hlone : ∀ id : ℤ, 0 ≤ id → id ≤ ServerMaxMsgId → ∀ count,
      (Storage.SparseIdsList.Op.addSlice [id] ⟨id, id⟩ count).Valid ∧
        (Storage.SparseIdsList.Op.addSlice [id] ⟨id, id⟩ count).Server := by
    intro id hlow hhigh count
    constructor
    all_goals
      intro messages range hadded
      obtain ⟨rfl, rfl⟩ := Prod.mk.inj (Option.some.inj hadded)
    · refine ⟨le_rfl, fun x hx => ?_⟩
      rw [List.mem_singleton.mp hx]
      exact ⟨le_rfl, le_rfl⟩
    · exact ⟨hlow, hhigh⟩
  intro op hop
  rw [twoApart, List.mem_cons, List.mem_singleton] at hop
  rcases hop with rfl | rfl
  · exact hlone 5 (by decide) (by decide) _
  · exact hlone 20 (by decide) (by decide) _

def twoApartList : SparseIdsList :=
  ⟨some 10, [⟨FlatSet.ofList [5], ⟨5, 5⟩⟩, ⟨FlatSet.ofList [20], ⟨20, 20⟩⟩]⟩

def oneAlone : MessagesList :=
  ⟨some 1, [⟨FlatSet.ofList [MessagesList.lonePosition],
    ⟨MessagesList.lonePosition, MessagesList.lonePosition⟩⟩]⟩

theorem run_twoApart :
    (run Storage.SparseIdsList.step (some {}) twoApart).1 = some twoApartList := by
  decide

theorem addNew_counts_iff_twoApart :
    (∃ list' update, twoApartList.addNew 30 = some (list', update) ∧
      (CountsNew fullRange twoApartList.slices 10 list'.slices list'.count ↔
        CountedOnce twoApartList.slices 10 30)) ∧
    ∃ list', (oneAlone.addOne MessagesList.lonePosition).map Prod.fst = some list' ∧
      (CountsNew FullMessagesRange oneAlone.slices 1 list'.slices list'.count ↔
        CountedOne oneAlone.slices 1 MessagesList.lonePosition) := by
  have hcounts := addNew_counts_iff twoApart valid_twoApart
    [.addSlice [MessagesList.lonePosition]
      ⟨MessagesList.lonePosition, MessagesList.lonePosition⟩ (some 1)]
    fun op hop => by
      rw [List.mem_singleton.mp hop]
      exact ⟨le_rfl, ⟨by decide, by decide⟩, fun id hid =>
        List.mem_singleton.mp hid ▸ ⟨le_rfl, le_rfl⟩⟩
  exact ⟨hcounts.1 twoApartList 10 run_twoApart rfl ⟨by decide, by decide⟩ 30
      ⟨by decide, by decide⟩,
    hcounts.2 oneAlone 1 (by decide) rfl ⟨by decide, by decide⟩ MessagesList.lonePosition
      ⟨by decide, by decide⟩⟩

/-- One new id before two slices is counted twice. -/
theorem addNew_counts_bridged :
    ¬ ∀ ops : List Storage.SparseIdsList.Op, (∀ op ∈ ops, op.Valid ∧ op.Server) →
      ∀ list count, (run Storage.SparseIdsList.step (some {}) ops).1 = some list →
        list.count = some count → ∀ id, 0 ≤ id ∧ id ≤ ServerMaxMsgId →
          ∃ list' update, list.addNew id = some (list', update) ∧
            CountsNew fullRange list.slices count list'.slices list'.count := by
  intro h
  obtain ⟨list', update, hadd, hcounts⟩ :=
    h twoApart valid_twoApart twoApartList 10 run_twoApart rfl 3 ⟨by decide, by decide⟩
  have hlist : (twoApartList.addNew 3).map Prod.fst =
      some ⟨some 12, [⟨FlatSet.ofList [3, 5, 20], ⟨3, ServerMaxMsgId⟩⟩]⟩ := by
    decide +kernel
  rw [hadd] at hlist
  obtain rfl := Option.some.inj hlist
  have hright := hcounts.others fun front hfront => by
    obtain rfl := (List.cons.inj hfront).1
    decide
  exact absurd hright (by decide)

end TelegramDesktop.Data
