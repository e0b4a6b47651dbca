import TelegramDesktop.Base.Slice

namespace TelegramDesktop.Data.StoriesSlices
open Base

abbrev StoryId := ℤ

/-- `list` is a `flat_set` with `std::greater`. -/
structure StoriesIds where
  list : List StoryId
  descending : list.Pairwise fun a b => b < a
  pinnedToTop : List StoryId

def respectingPinned (ids : StoriesIds) : List StoryId :=
  if ids.pinnedToTop.isEmpty then ids.list
  else ids.pinnedToTop ++ ids.list.filter fun id => !ids.pinnedToTop.contains id

structure Set where
  ids : StoriesIds
  total : ℤ := -1

/-- What `Stories` holds for one peer. -/
structure Stories where
  archive : Option Set
  saved : Option Set

def StoriesIds.empty : StoriesIds := ⟨[], .nil, []⟩

def setIds (set : Option Set) : StoriesIds := (set.map Set.ids).getD StoriesIds.empty

def setCount (set : Option Set) : ℤ := (set.map Set.total).getD 0

def setCountKnown (set : Option Set) : Bool := set.any fun set => 0 ≤ set.total

def Stories.archiveIds (stories : Stories) : StoriesIds := setIds stories.archive

def Stories.archiveCountKnown (stories : Stories) : Bool := setCountKnown stories.archive

def Stories.savedIds (stories : Stories) : StoriesIds := setIds stories.saved

def Stories.savedCount (stories : Stories) : ℤ := setCount stories.saved

def Stories.savedCountKnown (stories : Stories) : Bool := setCountKnown stories.saved

structure StoriesIdsSlice where
  ids : List StoryId
  fullCount : ℤ
  skippedBefore : ℤ
  skippedAfter : ℤ
  deriving DecidableEq

/-- Where `i` is after both lookups, the second one by `lower_bound` in the list. -/
def place (ids : StoriesIds) (aroundId : StoryId) : ℕ :=
  let sorted := respectingPinned ids
  if aroundId ∈ sorted then sorted.idxOf aroundId
  else (ids.list.takeWhile fun id => aroundId < id).length

/-- The body of `push`, which the two producers have twice. -/
def push (ids : StoriesIds) (count : ℤ) (aroundId : StoryId) (limit : ℤ) : StoriesIdsSlice :=
  let sorted := respectingPinned ids
  let i := place ids aroundId
  let hasBefore : ℤ := i
  let hasAfter : ℤ := sorted.length - i
  let takeBefore := min hasBefore limit
  let takeAfter := min hasAfter limit
  let taken := slice sorted (hasBefore - takeBefore).toNat (takeBefore + takeAfter).toNat
  let added : ℤ := taken.length
  { ids := taken
    fullCount := count
    skippedBefore := hasBefore - takeBefore
    skippedAfter := count - hasBefore - added }

def savedStoriesIds (stories : Stories) (aroundId : StoryId) (limit : ℤ) :
    Option StoriesIdsSlice :=
  if !stories.savedCountKnown then none
  else some (push stories.savedIds stories.savedCount aroundId limit)

/-- The count is the one of the saved stories, as it is in the source. -/
def archiveStoriesIds (stories : Stories) (aroundId : StoryId) (limit : ℤ) :
    Option StoriesIdsSlice :=
  if !stories.archiveCountKnown then none
  else some (push stories.archiveIds stories.savedCount aroundId limit)

/-- The sets that the server's answers build. -/
structure Set.Valid (set : Set) : Prop where
  nodup : set.ids.pinnedToTop.Nodup
  subset : ∀ id ∈ set.ids.pinnedToTop, id ∈ set.ids.list
  total : (set.ids.list.length : ℤ) ≤ set.total

/-- A slice that shows a part of the set and counts the rest. -/
structure Reflects (set : Set) (aroundId : StoryId) (limit : ℤ) (slice : StoriesIdsSlice) :
    Prop where
  run : ∃ before after, respectingPinned set.ids = before ++ slice.ids ++ after ∧
    slice.skippedBefore = before.length
  around : aroundId ∈ set.ids.list → 0 < limit → aroundId ∈ slice.ids
  full : slice.fullCount = set.total
  sum : slice.skippedBefore + slice.ids.length + slice.skippedAfter = slice.fullCount
  nonneg : 0 ≤ slice.skippedBefore ∧ 0 ≤ slice.skippedAfter ∧ 0 ≤ slice.fullCount

section
variable {set : Set} (hset : set.Valid) {ids : StoriesIds}

theorem mem_respectingPinned (hsubset : ∀ id ∈ ids.pinnedToTop, id ∈ ids.list) (id : StoryId) :
    id ∈ respectingPinned ids ↔ id ∈ ids.list := by
  rw [respectingPinned]
  split_ifs
  · rfl
  · rw [List.mem_append, List.mem_filter]
    simp only [List.contains_eq_mem, Bool.not_eq_true', decide_eq_false_iff_not]
    constructor
    · rintro (hid | ⟨hid, -⟩)
      · exact hsubset id hid
      · exact hid
    · intro hid
      by_cases hpinned : id ∈ ids.pinnedToTop
      · exact .inl hpinned
      · exact .inr ⟨hid, hpinned⟩

/-- Putting the pinned stories first moves the ids only. -/
theorem respectingPinned_perm (hnodup : ids.pinnedToTop.Nodup)
    (hsubset : ∀ id ∈ ids.pinnedToTop, id ∈ ids.list) :
    (respectingPinned ids).Perm ids.list := by
  have hlist : ids.list.Nodup := ids.descending.imp fun h => h.ne'
  refine (List.perm_ext_iff_of_nodup ?_ hlist).mpr (mem_respectingPinned hsubset)
  rw [respectingPinned]
  split_ifs
  · exact hlist
  · refine hnodup.append (hlist.filter _) fun id hpinned hid => ?_
    have hnot := (List.mem_filter.mp hid).2
    simp only [List.contains_eq_mem, Bool.not_eq_true', decide_eq_false_iff_not] at hnot
    exact hnot hpinned

include hset

theorem length_respectingPinned :
    (respectingPinned set.ids).length = set.ids.list.length :=
  (respectingPinned_perm hset.nodup hset.subset).length_eq

theorem place_le (aroundId : StoryId) :
    place set.ids aroundId ≤ (respectingPinned set.ids).length := by
  rw [place]
  split_ifs
  · exact List.idxOf_le_length
  · rw [length_respectingPinned hset]
    exact (List.takeWhile_sublist _).length_le

/-- What `push` comes to, where both sides are in range. -/
theorem push_spec (count : ℤ) (aroundId : StoryId) {limit : ℤ} (hlimit : 0 ≤ limit) :
    ∃ before ids after, respectingPinned set.ids = before ++ ids ++ after ∧
      push set.ids count aroundId limit = ⟨ids, count, before.length,
        count - place set.ids aroundId - ids.length⟩ ∧
      (before.length : ℤ) = place set.ids aroundId - min (place set.ids aroundId : ℤ) limit ∧
      (ids.length : ℤ) = min (place set.ids aroundId : ℤ) limit +
        min ((respectingPinned set.ids).length - place set.ids aroundId : ℤ) limit := by
  have hplace := place_le hset aroundId
  obtain ⟨sorted, hsorted⟩ : ∃ sorted, respectingPinned set.ids = sorted := ⟨_, rfl⟩
  obtain ⟨i, hi⟩ : ∃ i, place set.ids aroundId = i := ⟨_, rfl⟩
  rw [hsorted, hi] at hplace
  obtain ⟨start, hstart⟩ : ∃ start : ℕ, ((i : ℤ) - min (i : ℤ) limit).toNat = start := ⟨_, rfl⟩
  obtain ⟨size, hsize⟩ : ∃ size : ℕ,
    (min (i : ℤ) limit + min ((sorted.length : ℤ) - i) limit).toNat = size := ⟨_, rfl⟩
  have hfits : start + size ≤ sorted.length := by omega
  have hstart' : (start : ℤ) = i - min (i : ℤ) limit := by omega
  have hsize' : (size : ℤ) = min (i : ℤ) limit + min ((sorted.length : ℤ) - i) limit := by omega
  have hbefore : (sorted.take start).length = start := by
    rw [List.length_take]
    omega
  have hids : (slice sorted start size).length = size := length_slice hfits
  refine ⟨sorted.take start, slice sorted start size, sorted.drop (start + size), ?_, ?_, ?_, ?_⟩
  · rw [hsorted, slice, List.append_assoc, ← List.drop_drop, List.take_append_drop,
      List.take_append_drop]
  · rw [push]
    simp only [hsorted, hi, hstart, hsize, hbefore, hstart']
  · rw [hbefore, hi, hstart']
  · rw [hids, hsorted, hi, hsize']

theorem around_pushed (count : ℤ) {aroundId : StoryId} {limit : ℤ} (hmem : aroundId ∈ set.ids.list)
    (hlimit : 0 < limit) : aroundId ∈ (push set.ids count aroundId limit).ids := by
  have hmem' := (mem_respectingPinned hset.subset aroundId).mpr hmem
  obtain ⟨before, ids, after, hsplit, hpush, hbefore, hids⟩ :=
    push_spec hset count aroundId hlimit.le
  have hplace : place set.ids aroundId = (respectingPinned set.ids).idxOf aroundId := if_pos hmem'
  have hlt : place set.ids aroundId < (respectingPinned set.ids).length := by
    rw [hplace]
    exact List.idxOf_lt_length_of_mem hmem'
  have hget : (respectingPinned set.ids)[place set.ids aroundId]? = some aroundId := by
    rw [hplace]
    exact List.getElem?_idxOf hmem'
  rw [hsplit, List.append_assoc, List.getElem?_append_right (by omega),
    List.getElem?_append_left (by omega)] at hget
  rw [hpush]
  exact List.mem_of_getElem? hget

/-- A pushed slice reflects the set when nothing is taken before its place and the count is the
one of the set. -/
theorem push_reflects_iff (count : ℤ) (aroundId : StoryId) {limit : ℤ} (hlimit : 0 ≤ limit) :
    Reflects set aroundId limit (push set.ids count aroundId limit) ↔
      count = set.total ∧ (limit = 0 ∨ place set.ids aroundId = 0) := by
  obtain ⟨before, ids, after, hsplit, hpush, hbefore, hids⟩ :=
    push_spec hset count aroundId hlimit
  have hplace := place_le hset aroundId
  have htotal := hset.total
  rw [length_respectingPinned hset] at hplace hids
  constructor
  · rintro ⟨-, -, hfull, hsum, -⟩
    rw [hpush] at hfull hsum
    dsimp only at hfull hsum
    refine ⟨hfull, ?_⟩
    omega
  · rintro ⟨hcount, hnothing⟩
    refine ⟨⟨before, after, ?_, ?_⟩, fun hmem hpos => around_pushed hset count hmem hpos, ?_, ?_,
      ?_⟩
    · rw [hpush, hsplit]
    · rw [hpush]
    · rw [hpush, hcount]
    · rw [hpush]
      dsimp only
      omega
    · rw [hpush]
      dsimp only
      omega

end

theorem pushed_reflects_iff (stories : Stories) (aroundId : StoryId) {limit : ℤ}
    (hlimit : 0 ≤ limit) :
    (∀ set, stories.saved = some set → set.Valid →
      ∃ slice, savedStoriesIds stories aroundId limit = some slice ∧
        (Reflects set aroundId limit slice ↔ limit = 0 ∨ place set.ids aroundId = 0)) ∧
    ∀ set, stories.archive = some set → set.Valid →
      ∃ slice, archiveStoriesIds stories aroundId limit = some slice ∧
        (Reflects set aroundId limit slice ↔
          stories.savedCount = set.total ∧ (limit = 0 ∨ place set.ids aroundId = 0)) := by
  have hknown : ∀ {set : Set}, set.Valid → setCountKnown (some set) = true := by
    intro set hset
    have htotal := hset.total
    exact decide_eq_true (by omega)
  constructor
  · intro set hsaved hset
    have hgo : ¬ (!stories.savedCountKnown) = true := by
      rw [Stories.savedCountKnown, hsaved, hknown hset]
      exact Bool.false_ne_true
    refine ⟨_, if_neg hgo, ?_⟩
    have hids : stories.savedIds = set.ids := by
      rw [Stories.savedIds, hsaved]
      rfl
    have hcount : stories.savedCount = set.total := by
      rw [Stories.savedCount, hsaved]
      rfl
    rw [hids, push_reflects_iff hset _ aroundId hlimit]
    exact and_iff_right hcount
  · intro set harchive hset
    have hgo : ¬ (!stories.archiveCountKnown) = true := by
      rw [Stories.archiveCountKnown, harchive, hknown hset]
      exact Bool.false_ne_true
    refine ⟨_, if_neg hgo, ?_⟩
    have hids : stories.archiveIds = set.ids := by
      rw [Stories.archiveIds, harchive]
      rfl
    rw [hids]
    exact push_reflects_iff hset _ aroundId hlimit

def threeStories : Set where
  ids := ⟨[3, 2, 1], by decide, []⟩
  total := 3

theorem threeStories_valid : threeStories.Valid where
  nodup := .nil
  subset _ hid := nomatch hid
  total := le_refl 3

theorem pushed_reflects_first :
    ∃ slice, savedStoriesIds ⟨none, some threeStories⟩ 3 1 = some slice ∧
      Reflects threeStories 3 1 slice := by
  have hpushed := pushed_reflects_iff ⟨none, some threeStories⟩ 3 (show (0 : ℤ) ≤ 1 by decide)
  obtain ⟨slice, hslice, hiff⟩ := hpushed.1 threeStories rfl threeStories_valid
  exact ⟨slice, hslice, hiff.mpr (.inr (by decide))⟩

theorem pushed_counts_twice :
    (∃ slice, savedStoriesIds ⟨none, some threeStories⟩ 1 1 = some slice ∧
      slice = ⟨[2, 1], 3, 1, -1⟩ ∧ ¬ Reflects threeStories 1 1 slice) ∧
    ∃ slice, archiveStoriesIds ⟨some threeStories, none⟩ 3 1 = some slice ∧
      slice = ⟨[3], 0, 0, -1⟩ ∧ ¬ Reflects threeStories 3 1 slice := by
  refine ⟨⟨⟨[2, 1], 3, 1, -1⟩, by decide, rfl, fun h => ?_⟩,
    ⟨⟨[3], 0, 0, -1⟩, by decide, rfl, fun h => ?_⟩⟩
  · exact absurd h.nonneg (by decide)
  · exact absurd h.nonneg (by decide)

end TelegramDesktop.Data.StoriesSlices
