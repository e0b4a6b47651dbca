import TelegramDesktop.Base.Rotate
import TelegramDesktop.Base.Swaps

namespace TelegramDesktop.Data.Groups

open Base

def kMaxItemsInGroup : ℕ := 10

variable {I G : Type*}

/-- What the groups read of an item; there is no `groupId` before it is set. -/
structure Item (G : Type*) where
  id : ℤ
  groupId : Option G
  canBeGrouped : Bool
  isRegular : Bool
  isScheduled : Bool

structure State (I G : Type*) where
  items : I → Item G
  groups : G → Option (List I)

/-- The group that an item belongs to, when it is grouped. -/
def isGrouped (items : I → Item G) (item : I) : Option G :=
  if (items item).canBeGrouped then (items item).groupId else none

/-- The index of the first item with a greater id. -/
def findPositionForItem (items : I → Item G) (group : List I) (item : I) : ℕ :=
  group.findIdx fun other => (items item).id < (items other).id

section
variable [DecidableEq I] [DecidableEq G]

def registerMessage (s : State I G) (item : I) : State I G :=
  match isGrouped s.items item with
  | none => s
  | some groupId =>
    let group := (s.groups groupId).getD []
    if group.length < kMaxItemsInGroup then
      let group := group.insertIdx (findPositionForItem s.items group item) item
      { s with groups := Function.update s.groups groupId (some group) }
    -- a full group is only found or created
    else { s with groups := Function.update s.groups groupId (some group) }

def unregisterMessage (s : State I G) (item : I) : State I G :=
  match (s.items item).groupId with
  | none => s
  | some groupId =>
    match s.groups groupId with
    | none => s
    | some group =>
      let removed := group.filter (· ≠ item)
      if removed.length = group.length then s
      else if removed ≠ [] then
        { s with groups := Function.update s.groups groupId (some removed) }
      else { s with groups := Function.update s.groups groupId none }

/-- The place of an item of the group, restored by exchanges; `none` is `Unexpected`. -/
def reposition (items : I → Item G) (group : List I) (item : I) : Option (List I) :=
  let position := findPositionForItem items group item
  let current := group.idxOf item
  if current = group.length then some (group.insertIdx position item)
  else if position = current + 1 then some group
  else if position > current + 1 then swapRight (position - (current + 1)) (current + 1) group
  else if position < current then swapLeft (current - position) current group
  else none

def refreshMessage (s : State I G) (item : I) (justRefreshViews : Bool) : Option (State I G) :=
  match isGrouped s.items item with
  | none => some (unregisterMessage s item)
  | some groupId =>
    -- a local message stays where it is
    if !(s.items item).isRegular && !(s.items item).isScheduled then some s
    else match s.groups groupId with
    | none => some (registerMessage s item)
    | some group =>
      if justRefreshViews then some s
      else (reposition s.items group item).map fun group =>
        { s with groups := Function.update s.groups groupId (some group) }

/-- An item gets its `groupId` when it is registered. -/
inductive Event (I G : Type*) where
  | registerMessage (item : I) (groupId : G)
  | unregisterMessage (item : I)
  | setRealId (item : I) (id : ℤ) (isRegular isScheduled : Bool)
  | setMedia (item : I) (canBeGrouped justRefreshViews : Bool)

def State.setItem (s : State I G) (item : I) (value : Item G) : State I G :=
  { s with items := Function.update s.items item value }

def step (s : State I G) : Event I G → Option (State I G)
  | .registerMessage item groupId =>
    some (Groups.registerMessage
      (s.setItem item { s.items item with groupId := some groupId }) item)
  | .unregisterMessage item => some (Groups.unregisterMessage s item)
  | .setRealId item id isRegular isScheduled =>
    refreshMessage (s.setItem item { s.items item with
      id := id, isRegular := isRegular, isScheduled := isScheduled }) item false
  | .setMedia item canBeGrouped justRefreshViews =>
    refreshMessage (s.setItem item { s.items item with canBeGrouped := canBeGrouped }) item
      justRefreshViews

end

def Ascending (items : I → Item G) (group : List I) : Prop :=
  group.Pairwise fun a b => (items a).id < (items b).id

structure GroupOk (items : I → Item G) (groupId : G) (group : List I) : Prop where
  ascending : Ascending items group
  nodup : group.Nodup
  nonempty : group ≠ []
  bounded : group.length ≤ kMaxItemsInGroup
  members : ∀ item ∈ group, isGrouped items item = some groupId

def Ordered (s : State I G) : Prop :=
  ∀ groupId group, s.groups groupId = some group → GroupOk s.items groupId group

/-- Items of one group have different ids. -/
def Distinct (items : I → Item G) : Prop :=
  ∀ a b, a ≠ b → (items a).groupId = (items b).groupId → (items a).groupId ≠ none →
    (items a).id ≠ (items b).id

/-- An item is registered once, and gets an id that no other item of its group has. -/
def Allowed [DecidableEq I] (s : State I G) : Event I G → Prop
  | .registerMessage item groupId => (s.items item).groupId = none ∧
    Distinct (s.setItem item { s.items item with groupId := some groupId }).items
  | .unregisterMessage _ => True
  | .setRealId item id isRegular isScheduled => Distinct (s.setItem item { s.items item with
      id := id, isRegular := isRegular, isScheduled := isScheduled }).items
  | .setMedia _ _ _ => True

/-- An item with such an id would stand in order in the group, if it is there. -/
def Fits (items : I → Item G) (group : List I) (item : I) (id : ℤ) : Prop :=
  ∀ front back, group = front ++ item :: back →
    (∀ a ∈ front, (items a).id < id) ∧ ∀ b ∈ back, id < (items b).id

/-- A change of the id of a grouped item finds room for it in its group, and where it is not
placed anew (an item neither regular nor scheduled) it keeps its place. A change of the media
finds room as well. -/
def Meets (s : State I G) : Event I G → Prop
  | .registerMessage _ _ => True
  | .unregisterMessage _ => True
  | .setRealId item id isRegular isScheduled =>
    ∀ groupId group, isGrouped s.items item = some groupId → s.groups groupId = some group →
      if isRegular ∨ isScheduled then item ∈ group ∨ group.length < kMaxItemsInGroup
      else Fits s.items group item id
  | .setMedia item canBeGrouped justRefreshViews =>
    ∀ groupId group, (s.items item).groupId = some groupId → s.groups groupId = some group →
      canBeGrouped → ¬ justRefreshViews → (s.items item).isRegular ∨ (s.items item).isScheduled →
      item ∈ group ∨ group.length < kMaxItemsInGroup

section
variable {items : I → Item G} {group : List I} {item : I}

/-- The items around the place of another one. -/
theorem ascending_split (h : Ascending items group)
    (hne : ∀ other ∈ group, (items other).id ≠ (items item).id) :
    ∃ low high, group = low ++ high ∧ (∀ a ∈ low, (items a).id < (items item).id) ∧
      (∀ b ∈ high, (items item).id < (items b).id) := by
  obtain ⟨low, high, rfl, -, hlow, hhigh⟩ :=
    exists_append_findIdx (fun other => decide ((items item).id < (items other).id)) group
  refine ⟨low, high, rfl, fun a ha => ?_, fun b hb => ?_⟩
  · have hnot := of_decide_eq_false (hlow a ha)
    exact lt_of_le_of_ne (not_lt.mp hnot) (hne a (List.mem_append_left high ha))
  · cases high with
    | nil => exact nomatch hb
    | cons first high =>
      have hfirst : (items item).id < (items first).id := of_decide_eq_true (hhigh first rfl)
      obtain rfl | hb := List.mem_cons.mp hb
      · exact hfirst
      · have hsorted := (List.pairwise_append.mp h).2.1
        exact hfirst.trans ((List.pairwise_cons.mp hsorted).1 b hb)

theorem ascending_insert {low high : List I} (h : Ascending items (low ++ high))
    (hlow : ∀ a ∈ low, (items a).id < (items item).id)
    (hhigh : ∀ b ∈ high, (items item).id < (items b).id) :
    Ascending items (low ++ item :: high) := by
  obtain ⟨hpl, hph, hlh⟩ := List.pairwise_append.mp h
  refine List.pairwise_append.mpr ⟨hpl, List.pairwise_cons.mpr ⟨hhigh, hph⟩, fun a ha b hb => ?_⟩
  obtain rfl | hb := List.mem_cons.mp hb
  · exact hlow a ha
  · exact hlh a ha b hb

theorem findPositionForItem_append {low high : List I}
    (hlow : ∀ a ∈ low, (items a).id ≤ (items item).id)
    (hhigh : ∀ b ∈ high, (items item).id < (items b).id) :
    findPositionForItem items (low ++ high) item = low.length := by
  apply findIdx_append_eq
  · exact fun a ha => decide_eq_false (not_lt.mpr (hlow a ha))
  · exact fun b hb => decide_eq_true (hhigh b (List.mem_of_mem_head? hb))

/-- An item that is not in the group is put in its place. -/
theorem insert_position (h : Ascending items group)
    (hne : ∀ other ∈ group, (items other).id ≠ (items item).id) :
    Ascending items (group.insertIdx (findPositionForItem items group item) item) ∧
      (group.insertIdx (findPositionForItem items group item) item).Perm (item :: group) := by
  obtain ⟨low, high, rfl, hlow, hhigh⟩ := ascending_split h hne
  rw [findPositionForItem_append (fun a ha => (hlow a ha).le) hhigh]
  have hinsert : (low ++ high).insertIdx low.length item = low ++ item :: high := by
    clear h hne hlow
    induction low with
    | nil => rfl
    | cons a low ih => rw [List.length_cons, List.cons_append, List.insertIdx_succ_cons, ih]; rfl
  rw [hinsert]
  exact ⟨ascending_insert h hlow hhigh, List.perm_middle⟩

variable [DecidableEq I]

theorem idxOf_append_cons {front back : List I} (h : item ∉ front) :
    (front ++ item :: back).idxOf item = front.length := by
  rw [List.idxOf_append_of_notMem h, List.idxOf_cons_self, Nat.add_zero]

/-- An item of the group goes to its place, by exchanges to the right or to the left. -/
theorem reposition_mem {front back : List I} (hfront : item ∉ front)
    (h : Ascending items (front ++ back))
    (hne : ∀ other ∈ front ++ back, (items other).id ≠ (items item).id) :
    ∃ group', reposition items (front ++ item :: back) item = some group' ∧
      Ascending items group' ∧ group'.Perm (front ++ item :: back) := by
  obtain ⟨low, high, heq, hlow, hhigh⟩ := ascending_split h hne
  have hcurrent : (front ++ item :: back).idxOf item = front.length := idxOf_append_cons hfront
  have hlength : (front ++ item :: back).length = front.length + 1 + back.length := by
    rw [List.length_append, List.length_cons]
    omega
  have hascending : Ascending items (low ++ item :: high) := by
    apply ascending_insert _ hlow hhigh
    rwa [← heq]
  have hperm : (low ++ item :: high).Perm (front ++ item :: back) := by
    refine List.perm_middle.trans ?_
    rw [← heq]
    exact List.perm_middle.symm
  -- the item stands before its place or behind it
  refine ⟨low ++ item :: high, ?_, hascending, hperm⟩
  rw [reposition, hcurrent, if_neg (by omega)]
  obtain ⟨middle, rfl, rfl⟩ | ⟨middle, rfl, rfl⟩ := List.append_eq_append_iff.mp heq
  · -- the items between are smaller, so it goes behind them
    have hposition : findPositionForItem items (front ++ item :: (middle ++ high)) item =
        front.length + 1 + middle.length := by
      have hbefore : ∀ a ∈ front ++ item :: middle, (items a).id ≤ (items item).id := by
        intro a ha
        rw [List.mem_append, List.mem_cons] at ha
        obtain ha | rfl | ha := ha
        · exact (hlow a (List.mem_append_left middle ha)).le
        · exact le_rfl
        · exact (hlow a (List.mem_append_right front ha)).le
      have hfind := findPositionForItem_append hbefore hhigh
      rw [List.append_assoc, List.cons_append] at hfind
      rw [hfind, List.length_append, List.length_cons]
      omega
    rw [hposition]
    by_cases hempty : middle = []
    · rw [hempty, List.length_nil, if_pos rfl]
      simp
    · have hpos := List.length_pos_iff.mpr hempty
      rw [if_neg (by omega), if_pos (by omega), Nat.add_sub_cancel_left, swapRight_append]
  · -- the items between are greater, so it goes before them
    have hposition : findPositionForItem items (low ++ middle ++ item :: back) item =
        low.length ∨ middle = [] := by
      by_cases hempty : middle = []
      · exact Or.inr hempty
      · left
        obtain ⟨first, middle, rfl⟩ := List.exists_cons_of_ne_nil hempty
        rw [List.append_assoc]
        apply findIdx_append_eq
        · exact fun a ha => decide_eq_false (not_lt.mpr (hlow a ha).le)
        · intro b hb
          obtain rfl : first = b := by simpa using hb
          exact decide_eq_true (hhigh first (by simp))
    by_cases hempty : middle = []
    · subst hempty
      have hbefore : ∀ a ∈ low ++ [item], (items a).id ≤ (items item).id := by
        intro a ha
        obtain ha | ha := List.mem_append.mp ha
        · exact (hlow a ha).le
        · rw [List.mem_singleton.mp ha]
      have hfind := findPositionForItem_append hbefore hhigh
      rw [List.nil_append, List.append_assoc, List.singleton_append] at hfind
      rw [List.append_nil, List.nil_append, hfind, List.length_append, List.length_singleton,
        if_pos rfl]
    · have hpos := List.length_pos_iff.mpr hempty
      rw [hposition.resolve_right hempty, List.length_append, if_neg (by omega),
        if_neg (by omega), if_pos (by omega), Nat.add_sub_cancel_left, swapLeft_append]

/-- A group in order, apart from the place and the media of one item. -/
structure Nearly (items : I → Item G) (item : I) (groupId : G) (group : List I) : Prop where
  nodup : group.Nodup
  nonempty : group ≠ []
  bounded : group.length ≤ kMaxItemsInGroup
  ascending : Ascending items (group.filter (· ≠ item))
  others : ∀ other ∈ group, other ≠ item → isGrouped items other = some groupId
  own : item ∈ group → (items item).groupId = some groupId

def NearlyOrdered (s : State I G) (item : I) : Prop :=
  ∀ groupId group, s.groups groupId = some group → Nearly s.items item groupId group

theorem filter_ne_self (h : item ∉ group) : group.filter (· ≠ item) = group :=
  List.filter_eq_self.mpr fun _ hother => decide_eq_true fun heq => h (heq ▸ hother)

theorem Nearly.ok_of_notMem {groupId : G} (h : Nearly items item groupId group)
    (hitem : item ∉ group) : GroupOk items groupId group where
  ascending := by
    have hascending := h.ascending
    rwa [filter_ne_self hitem] at hascending
  nodup := h.nodup
  nonempty := h.nonempty
  bounded := h.bounded
  members other hother := h.others other hother fun heq => hitem (heq ▸ hother)

/-- A permutation of the group in order, with the item grouped. -/
theorem Nearly.ok_of_perm {groupId : G} {group' : List I} (h : Nearly items item groupId group)
    (hgrouped : isGrouped items item = some groupId) (hperm : group'.Perm group)
    (hascending : Ascending items group') : GroupOk items groupId group' where
  ascending := hascending
  nodup := hperm.nodup_iff.mpr h.nodup
  nonempty := by
    rintro rfl
    exact h.nonempty hperm.symm.eq_nil
  bounded := hperm.length_eq.trans_le h.bounded
  members other hother := by
    by_cases heq : other = item
    · rw [heq, hgrouped]
    · exact h.others other (hperm.mem_iff.mp hother) heq

end

section
variable [DecidableEq I] [DecidableEq G] {s : State I G} {item : I} {groupId : G}

omit [DecidableEq I] [DecidableEq G] in
theorem groupId_of_isGrouped {items : I → Item G} (h : isGrouped items item = some groupId) :
    (items item).groupId = some groupId := by
  rw [isGrouped, Option.ite_none_right_eq_some] at h
  exact h.2

omit [DecidableEq I] [DecidableEq G] in
theorem ids_ne (hdistinct : Distinct s.items) {other : I}
    (hitem : isGrouped s.items item = some groupId)
    (hother : isGrouped s.items other = some groupId) (hne : other ≠ item) :
    (s.items other).id ≠ (s.items item).id := by
  have hitemId := groupId_of_isGrouped hitem
  have hotherId := groupId_of_isGrouped hother
  apply hdistinct other item hne
  · rw [hitemId, hotherId]
  · rw [hotherId]
    exact Option.some_ne_none groupId

/-- Only the group of the item is written. -/
theorem NearlyOrdered.update (h : NearlyOrdered s item)
    (hgroupId : (s.items item).groupId = some groupId) {group' : Option (List I)}
    (hok : ∀ group, group' = some group → GroupOk s.items groupId group) :
    Ordered { s with groups := Function.update s.groups groupId group' } := by
  intro other group hgroup
  obtain rfl | hne := eq_or_ne other groupId
  · dsimp only at hgroup
    rw [Function.update_self] at hgroup
    exact hok group hgroup
  · dsimp only at hgroup
    rw [Function.update_of_ne hne] at hgroup
    refine (h other group hgroup).ok_of_notMem fun hmem => ?_
    have hown := (h other group hgroup).own hmem
    rw [hgroupId] at hown
    exact hne (Option.some.inj hown).symm

omit [DecidableEq G] in
theorem NearlyOrdered.ordered_of_notMem (h : NearlyOrdered s item)
    (hnot : ∀ groupId group, s.groups groupId = some group → item ∉ group) : Ordered s :=
  fun groupId group hgroup => (h groupId group hgroup).ok_of_notMem (hnot groupId group hgroup)

theorem unregisterMessage_items : (unregisterMessage s item).items = s.items := by
  unfold unregisterMessage
  split
  · rfl
  · split
    · rfl
    · dsimp only
      split_ifs <;> rfl

theorem unregisterMessage_ordered (h : NearlyOrdered s item) :
    Ordered (unregisterMessage s item) := by
  have hown : ∀ other group, s.groups other = some group → item ∈ group →
      (s.items item).groupId = some other := fun other group hgroup => (h other group hgroup).own
  rw [unregisterMessage]
  cases hgroupId : (s.items item).groupId with
  | none =>
    apply h.ordered_of_notMem
    intro other group hgroup hmem
    rw [hown other group hgroup hmem] at hgroupId
    cases hgroupId
  | some groupId =>
    dsimp only
    have hkept : (∀ group, s.groups groupId = some group → item ∉ group) → Ordered s := by
      intro hnot
      apply h.ordered_of_notMem
      intro other group hgroup hmem
      have hid := hown other group hgroup hmem
      rw [hgroupId] at hid
      obtain rfl := Option.some.inj hid
      exact hnot group hgroup hmem
    cases hgroup : s.groups groupId with
    | none =>
      apply hkept
      intro group hsome
      rw [hgroup] at hsome
      cases hsome
    | some group =>
      dsimp only
      have hnearly := h groupId group hgroup
      split_ifs with hlength hempty
      · -- nothing was removed
        apply hkept
        intro group' hgroup' hmem
        rw [hgroup] at hgroup'
        obtain rfl := Option.some.inj hgroup'
        have hall := List.length_filter_eq_length_iff.mp hlength item hmem
        exact of_decide_eq_true hall rfl
      · apply h.update hgroupId
        rintro removed hremoved
        obtain rfl := Option.some.inj hremoved
        have hsub : List.Sublist (group.filter (· ≠ item)) group := List.filter_sublist
        refine ⟨hnearly.ascending, hnearly.nodup.sublist hsub, hempty,
          hsub.length_le.trans hnearly.bounded, fun other hother => ?_⟩
        obtain ⟨hother, hne⟩ := List.mem_filter.mp hother
        exact hnearly.others other hother (of_decide_eq_true hne)
      · apply h.update hgroupId
        exact fun _ hnone => nomatch hnone

omit [DecidableEq G] in
/-- A group with room, or without the item, takes it in its place. -/
theorem Nearly.ok_of_insert {items : I → Item G} {group : List I}
    (h : Nearly items item groupId group) (hitem : item ∉ group)
    (hgrouped : isGrouped items item = some groupId)
    (hne : ∀ other ∈ group, (items other).id ≠ (items item).id) :
    GroupOk items groupId (group.insertIdx (findPositionForItem items group item) item) ↔
      group.length < kMaxItemsInGroup := by
  have hascending := h.ascending
  rw [filter_ne_self hitem] at hascending
  obtain ⟨hsorted, hperm⟩ := insert_position hascending hne
  have hlength := hperm.length_eq
  rw [List.length_cons] at hlength
  constructor
  · intro hok
    have hbounded := hok.bounded
    omega
  · intro hroom
    refine ⟨hsorted, hperm.nodup_iff.mpr (List.nodup_cons.mpr ⟨hitem, h.nodup⟩), fun hnil => ?_,
      by omega, fun other hother => ?_⟩
    · rw [hnil, List.length_nil] at hlength
      omega
    · obtain rfl | hother := List.mem_cons.mp (hperm.mem_iff.mp hother)
      · exact hgrouped
      · exact h.others other hother fun heq => hitem (heq ▸ hother)

omit [DecidableEq G] in
/-- The other items of the group have other ids. -/
theorem NearlyOrdered.ids_ne (h : NearlyOrdered s item) (hdistinct : Distinct s.items)
    (hgrouped : isGrouped s.items item = some groupId) {group : List I}
    (hgroup : s.groups groupId = some group) :
    ∀ other ∈ group, other ≠ item → (s.items other).id ≠ (s.items item).id :=
  fun other hother hne => Groups.ids_ne hdistinct hgrouped
    ((h groupId group hgroup).others other hother hne) hne

omit [DecidableEq I] in
theorem registerMessage_items : (registerMessage s item).items = s.items := by
  unfold registerMessage
  split
  · rfl
  · dsimp only
    split_ifs <;> rfl

theorem registerMessage_ordered (h : NearlyOrdered s item) (hdistinct : Distinct s.items)
    (hnot : ∀ groupId group, s.groups groupId = some group → item ∉ group) :
    Ordered (registerMessage s item) := by
  rw [registerMessage]
  cases hgrouped : isGrouped s.items item with
  | none => exact h.ordered_of_notMem hnot
  | some groupId =>
    dsimp only
    have hgroupId := groupId_of_isGrouped hgrouped
    cases hgroup : s.groups groupId with
    | none =>
      rw [Option.getD_none, if_pos (show [].length < kMaxItemsInGroup from Nat.zero_lt_succ 9)]
      apply h.update hgroupId
      rintro group hsingle
      obtain rfl := Option.some.inj hsingle
      refine ⟨List.pairwise_singleton _ item, List.nodup_singleton item, List.cons_ne_nil item [],
        (show 1 ≤ kMaxItemsInGroup from Nat.le_add_left 1 9), fun other hother => ?_⟩
      rw [List.mem_singleton.mp hother, hgrouped]
    | some group =>
      rw [Option.getD_some]
      have hnearly := h groupId group hgroup
      have hitem := hnot groupId group hgroup
      split_ifs with hroom
      · apply h.update hgroupId
        rintro group' hinsert
        obtain rfl := Option.some.inj hinsert
        apply (hnearly.ok_of_insert hitem hgrouped fun other hother => ?_).mpr hroom
        exact h.ids_ne hdistinct hgrouped hgroup other hother fun heq => hitem (heq ▸ hother)
      · apply h.update hgroupId
        rintro group' hsame
        obtain rfl := Option.some.inj hsame
        exact hnearly.ok_of_notMem hitem

/-- What a refresh asks of the group of the item. -/
def RefreshMeets (s : State I G) (item : I) (justRefreshViews : Bool) : Prop :=
  ∀ groupId group, isGrouped s.items item = some groupId → s.groups groupId = some group →
    if (s.items item).isRegular ∨ (s.items item).isScheduled then
      justRefreshViews ∨ item ∈ group ∨ group.length < kMaxItemsInGroup
    else Fits s.items group item (s.items item).id

omit [DecidableEq G] in
/-- The item stands in order exactly when its id fits. -/
theorem Nearly.ok_iff_fits {items : I → Item G} {group : List I}
    (h : Nearly items item groupId group) (hgrouped : isGrouped items item = some groupId) :
    GroupOk items groupId group ↔ Fits items group item (items item).id := by
  constructor
  · rintro hok front back rfl
    obtain ⟨-, hback, hfront⟩ := List.pairwise_append.mp hok.ascending
    exact ⟨fun a ha => hfront a ha item List.mem_cons_self, (List.pairwise_cons.mp hback).1⟩
  · intro hfits
    by_cases hmem : item ∈ group
    · obtain ⟨front, back, rfl⟩ := List.append_of_mem hmem
      obtain ⟨hlow, hhigh⟩ := hfits front back rfl
      have hascending := h.ascending
      have hnodup := List.nodup_middle.mp h.nodup
      obtain ⟨hnot, -⟩ := List.nodup_cons.mp hnodup
      rw [List.mem_append, not_or] at hnot
      rw [List.filter_append, List.filter_cons_of_neg (by simp), filter_ne_self hnot.1,
        filter_ne_self hnot.2] at hascending
      exact h.ok_of_perm hgrouped (List.Perm.refl _) (ascending_insert hascending hlow hhigh)
    · exact h.ok_of_notMem hmem

omit [DecidableEq G] in
/-- When all of the other groups are in order, it is about the one of the item. -/
theorem NearlyOrdered.ordered_iff (h : NearlyOrdered s item)
    (hgrouped : isGrouped s.items item = some groupId) :
    Ordered s ↔ ∀ group, s.groups groupId = some group → GroupOk s.items groupId group := by
  refine ⟨fun hok group => hok groupId group, fun hok other group hgroup => ?_⟩
  obtain rfl | hne := eq_or_ne other groupId
  · exact hok group hgroup
  · refine (h other group hgroup).ok_of_notMem fun hmem => ?_
    have hown := (h other group hgroup).own hmem
    rw [groupId_of_isGrouped hgrouped] at hown
    exact hne (Option.some.inj hown).symm

omit [DecidableEq G] in
/-- `Unexpected` is not reached, and the groups are in order when there was room. -/
theorem reposition_ok_iff (h : NearlyOrdered s item) (hdistinct : Distinct s.items)
    (hgrouped : isGrouped s.items item = some groupId) {group : List I}
    (hgroup : s.groups groupId = some group) :
    ∃ group', reposition s.items group item = some group' ∧
      (GroupOk s.items groupId group' ↔ item ∈ group ∨ group.length < kMaxItemsInGroup) := by
  have hnearly := h groupId group hgroup
  have hne := h.ids_ne hdistinct hgrouped hgroup
  by_cases hmem : item ∈ group
  · obtain ⟨front, back, rfl⟩ := List.append_of_mem hmem
    obtain ⟨hnot, -⟩ := List.nodup_cons.mp (List.nodup_middle.mp hnearly.nodup)
    have hascending := hnearly.ascending
    rw [List.mem_append, not_or] at hnot
    rw [List.filter_append, List.filter_cons_of_neg (by simp), filter_ne_self hnot.1,
      filter_ne_self hnot.2] at hascending
    obtain ⟨group', hreposition, hsorted, hperm⟩ := reposition_mem hnot.1 hascending
      fun other hother => by
        apply hne other
        · rw [List.mem_append] at hother ⊢
          exact hother.imp_right (List.mem_cons_of_mem item)
        · rintro rfl
          exact (List.mem_append.mp hother).elim hnot.1 hnot.2
    exact ⟨group', hreposition, fun _ => Or.inl hmem,
      fun _ => hnearly.ok_of_perm hgrouped hperm hsorted⟩
  · refine ⟨group.insertIdx (findPositionForItem s.items group item) item, ?_, ?_⟩
    · rw [reposition, if_pos (List.idxOf_eq_length hmem)]
    · rw [or_iff_right hmem]
      apply hnearly.ok_of_insert hmem hgrouped
      exact fun other hother => hne other hother fun heq => hmem (heq ▸ hother)

/-- A refresh of views alone leaves an item of the group where it stands. -/
theorem refreshMessage_ordered_iff (h : NearlyOrdered s item) (hdistinct : Distinct s.items)
    {justRefreshViews : Bool} (hjust : justRefreshViews = true → ∀ groupId group,
      isGrouped s.items item = some groupId → s.groups groupId = some group →
      Fits s.items group item (s.items item).id) :
    ∃ s', refreshMessage s item justRefreshViews = some s' ∧ s'.items = s.items ∧
      (Ordered s' ↔ RefreshMeets s item justRefreshViews) := by
  rw [refreshMessage]
  cases hgrouped : isGrouped s.items item with
  | none =>
    refine ⟨_, rfl, unregisterMessage_items, fun _ groupId group hsome => ?_,
      fun _ => unregisterMessage_ordered h⟩
    rw [hgrouped] at hsome
    cases hsome
  | some groupId =>
    dsimp only
    have hmeets : RefreshMeets s item justRefreshViews ↔ ∀ group, s.groups groupId = some group →
        if (s.items item).isRegular ∨ (s.items item).isScheduled then
          justRefreshViews ∨ item ∈ group ∨ group.length < kMaxItemsInGroup
        else Fits s.items group item (s.items item).id := by
      refine ⟨fun hmeets group => hmeets groupId group hgrouped, ?_⟩
      intro hmeets other group hother
      rw [hgrouped] at hother
      obtain rfl := Option.some.inj hother
      exact hmeets group
    by_cases hlocal : (s.items item).isRegular ∨ (s.items item).isScheduled
    -- it is registered again, left alone or put in its place
    · have hgate : (!(s.items item).isRegular && !(s.items item).isScheduled) = false := by
        obtain hregular | hscheduled := hlocal
        · rw [hregular]
          rfl
        · rw [hscheduled, Bool.not_true, Bool.and_false]
      rw [hgate, if_neg Bool.false_ne_true, hmeets]
      simp only [if_pos hlocal]
      cases hgroup : s.groups groupId with
      | none =>
        refine ⟨_, rfl, registerMessage_items, fun _ group hsome => (nomatch hsome), fun _ => ?_⟩
        apply registerMessage_ordered h hdistinct
        intro other group hother hmem
        have hown := (h other group hother).own hmem
        rw [groupId_of_isGrouped hgrouped] at hown
        obtain rfl := Option.some.inj hown
        rw [hgroup] at hother
        cases hother
      | some group =>
        dsimp only
        cases justRefreshViews with
        | true =>
          rw [if_pos rfl]
          refine ⟨s, rfl, rfl, fun _ _ _ => Or.inl rfl, fun _ => (h.ordered_iff hgrouped).mpr ?_⟩
          intro group' hgroup'
          exact ((h groupId group' hgroup').ok_iff_fits hgrouped).mpr
            (hjust rfl groupId group' hgrouped hgroup')
        | false =>
          obtain ⟨group', hreposition, hok⟩ := reposition_ok_iff h hdistinct hgrouped hgroup
          rw [if_neg Bool.false_ne_true, hreposition, Option.map_some]
          refine ⟨_, rfl, rfl, ?_⟩
          constructor
          · rintro hordered group'' hsame
            obtain rfl := Option.some.inj hsame
            exact Or.inr (hok.mp (hordered groupId group' (Function.update_self ..)))
          · intro hroom
            apply h.update (groupId_of_isGrouped hgrouped)
            rintro group'' hsame
            obtain rfl := Option.some.inj hsame
            exact hok.mpr ((hroom group rfl).resolve_left Bool.false_ne_true)
    · have hgate : (!(s.items item).isRegular && !(s.items item).isScheduled) = true := by
        rw [not_or, Bool.not_eq_true, Bool.not_eq_true] at hlocal
        rw [hlocal.1, hlocal.2]
        rfl
      rw [hgate, if_pos rfl, hmeets]
      simp only [if_neg hlocal]
      refine ⟨s, rfl, rfl, ?_⟩
      rw [h.ordered_iff hgrouped]
      exact forall₂_congr fun group hgroup => (h groupId group hgroup).ok_iff_fits hgrouped

omit [DecidableEq G] in
/-- A change of an item leaves the groups in order apart from it. -/
theorem nearlyOrdered_setItem (h : Ordered s) (item : I) (value : Item G)
    (hvalue : (s.items item).groupId ≠ none → value.groupId = (s.items item).groupId) :
    NearlyOrdered (s.setItem item value) item := by
  intro groupId group hgroup
  have hok := h groupId group hgroup
  refine ⟨hok.nodup, hok.nonempty, hok.bounded, ?_, fun other hother hne => ?_, fun hmem => ?_⟩
  · apply (hok.ascending.sublist (List.filter_sublist (p := (· ≠ item)))).imp_of_mem
    intro a b ha hb hab
    have hane : a ≠ item := of_decide_eq_true (List.mem_filter.mp ha).2
    have hbne : b ≠ item := of_decide_eq_true (List.mem_filter.mp hb).2
    change (Function.update s.items item value a).id < (Function.update s.items item value b).id
    rwa [Function.update_of_ne hane, Function.update_of_ne hbne]
  · have hmember := hok.members other hother
    change (if (Function.update s.items item value other).canBeGrouped then
      (Function.update s.items item value other).groupId else none) = some groupId
    rwa [Function.update_of_ne hne]
  · have hid := groupId_of_isGrouped (hok.members item hmem)
    change (Function.update s.items item value item).groupId = some groupId
    rw [Function.update_self, hvalue (by rw [hid]; exact Option.some_ne_none groupId), hid]

omit [DecidableEq G] in
theorem fits_setItem (h : Ordered s) {value : Item G} {group : List I} {id : ℤ}
    (hgroup : s.groups groupId = some group) :
    Fits (s.setItem item value).items group item id ↔ Fits s.items group item id := by
  have hother : ∀ front back, group = front ++ item :: back → ∀ a, a ∈ front ∨ a ∈ back →
      (s.setItem item value).items a = s.items a := by
    rintro front back rfl a ha
    have hnodup := (h groupId _ hgroup).nodup
    obtain ⟨hnot, -⟩ := List.nodup_cons.mp (List.nodup_middle.mp hnodup)
    apply Function.update_of_ne
    rintro rfl
    exact hnot (List.mem_append.mpr ha)
  refine forall₃_congr fun front back heq => and_congr ?_ ?_
  · refine forall₂_congr fun a ha => ?_
    rw [hother front back heq a (Or.inl ha)]
  · refine forall₂_congr fun b hb => ?_
    rw [hother front back heq b (Or.inr hb)]

omit [DecidableEq I] [DecidableEq G] in
theorem distinct_mono {items items' : I → Item G} (h : Distinct items)
    (hid : ∀ a, (items' a).id = (items a).id)
    (hgroupId : ∀ a, (items' a).groupId = (items a).groupId) :
    Distinct items' := by
  intro a b hne hsame hsome
  rw [hid, hid]
  rw [hgroupId, hgroupId] at hsame
  rw [hgroupId] at hsome
  exact h a b hne hsame hsome

omit [DecidableEq G] in
theorem setItem_self (value : Item G) : (s.setItem item value).items item = value :=
  Function.update_self ..

/-- A step does not reach `Unexpected`, and keeps the groups in order when it meets its
condition. -/
theorem step_ordered_iff (h : Ordered s) (hdistinct : Distinct s.items) (e : Event I G)
    (hallowed : Allowed s e) :
    ∃ s', step s e = some s' ∧ Distinct s'.items ∧ (Ordered s' ↔ Meets s e) := by
  cases e with
  | registerMessage item groupId =>
    obtain ⟨hnone, hdistinct'⟩ := hallowed
    refine ⟨_, rfl, ?_, fun _ => trivial, fun _ => ?_⟩
    · rw [registerMessage_items]
      exact hdistinct'
    · apply registerMessage_ordered
      · exact nearlyOrdered_setItem h item _ fun hsome => absurd hnone hsome
      · exact hdistinct'
      · intro other group hgroup hmem
        have hid := groupId_of_isGrouped ((h other group hgroup).members item hmem)
        rw [hnone] at hid
        cases hid
  | unregisterMessage item =>
    refine ⟨_, rfl, ?_, fun _ => trivial, fun _ => ?_⟩
    · rw [unregisterMessage_items]
      exact hdistinct
    · apply unregisterMessage_ordered
      have hnearly := nearlyOrdered_setItem h item (s.items item) fun _ => rfl
      rwa [State.setItem, Function.update_eq_self] at hnearly
  | setRealId item id isRegular isScheduled =>
    have hnearly := nearlyOrdered_setItem h item { s.items item with
      id := id, isRegular := isRegular, isScheduled := isScheduled } fun _ => rfl
    obtain ⟨s', hstep, hitems, hiff⟩ := refreshMessage_ordered_iff hnearly hallowed
      (fun hfalse : false = true => nomatch hfalse)
    refine ⟨s', hstep, hitems ▸ hallowed, hiff.trans ?_⟩
    refine forall₂_congr fun groupId group => ?_
    rw [isGrouped, setItem_self]
    refine forall₂_congr fun _ hgroup => ?_
    rw [fits_setItem h hgroup]
    simp
  | setMedia item canBeGrouped justRefreshViews =>
    have hdistinct' : Distinct (s.setItem item
        { s.items item with canBeGrouped := canBeGrouped }).items := by
      apply distinct_mono hdistinct
      · intro a
        by_cases ha : a = item
        · rw [ha, setItem_self]
        · exact congrArg Item.id (Function.update_of_ne ha _ _)
      · intro a
        by_cases ha : a = item
        · rw [ha, setItem_self]
        · exact congrArg Item.groupId (Function.update_of_ne ha _ _)
    -- the id is the same, so the item stands where it fits
    have hfits : ∀ groupId group, s.groups groupId = some group →
        Fits (s.setItem item { s.items item with canBeGrouped := canBeGrouped }).items group item
          (s.items item).id := by
      intro groupId group hgroup
      rw [fits_setItem h hgroup]
      rintro front back rfl
      obtain ⟨-, hback, hfront⟩ := List.pairwise_append.mp (h groupId _ hgroup).ascending
      exact ⟨fun a ha => hfront a ha item List.mem_cons_self, (List.pairwise_cons.mp hback).1⟩
    have hnearly := nearlyOrdered_setItem h item { s.items item with
      canBeGrouped := canBeGrouped } fun _ => rfl
    obtain ⟨s', hstep, hitems, hiff⟩ := refreshMessage_ordered_iff hnearly hdistinct'
      (fun (_ : justRefreshViews = true) groupId group _ hgroup => by
        rw [setItem_self]
        exact hfits groupId group hgroup)
    refine ⟨s', hstep, hitems ▸ hdistinct', hiff.trans ?_⟩
    refine forall₂_congr fun groupId group => ?_
    rw [isGrouped, setItem_self, Option.ite_none_right_eq_some]
    constructor
    · intro hmeets hid hgroup hcan hjust hlocal
      have hroom := hmeets ⟨hcan, hid⟩ hgroup
      rw [if_pos hlocal] at hroom
      exact hroom.resolve_left hjust
    · rintro hmeets ⟨hcan, hid⟩ hgroup
      split_ifs with hlocal
      · by_cases hjust : justRefreshViews = true
        · exact Or.inl hjust
        · exact Or.inr (hmeets hid hgroup hcan hjust hlocal)
      · exact hfits groupId group hgroup

/-- The states of a run: in each the groups are in order, and no step reaches `Unexpected`. -/
def Safe : State I G → List (Event I G) → Prop
  | s, [] => Ordered s
  | s, e :: events => Ordered s ∧ ∃ s', step s e = some s' ∧ Safe s' events

def AllAllowed : State I G → List (Event I G) → Prop
  | _, [] => True
  | s, e :: events => Allowed s e ∧ ∀ s', step s e = some s' → AllAllowed s' events

def AllMeet : State I G → List (Event I G) → Prop
  | _, [] => True
  | s, e :: events => Meets s e ∧ ∀ s', step s e = some s' → AllMeet s' events

theorem safe_iff_of_ordered (h : Ordered s) (hdistinct : Distinct s.items)
    (events : List (Event I G)) (hallowed : AllAllowed s events) :
    Safe s events ↔ AllMeet s events := by
  induction events generalizing s with
  | nil => exact ⟨fun _ => trivial, fun _ => h⟩
  | cons e events ih =>
    obtain ⟨s', hstep, hdistinct', hiff⟩ := step_ordered_iff h hdistinct e hallowed.1
    have hnext := hallowed.2 s' hstep
    constructor
    · rintro ⟨-, t, ht, hsafe⟩
      rw [hstep] at ht
      obtain rfl := Option.some.inj ht
      have hordered : Ordered s' := by
        cases events with
        | nil => exact hsafe
        | cons => exact hsafe.1
      refine ⟨hiff.mp hordered, fun t ht => ?_⟩
      rw [hstep] at ht
      obtain rfl := Option.some.inj ht
      exact (ih hordered hdistinct' hnext).mp hsafe
    · rintro ⟨hmeets, hrest⟩
      have hordered := hiff.mpr hmeets
      exact ⟨h, s', hstep, (ih hordered hdistinct' hnext).mpr (hrest s' hstep)⟩

/-- A safe run ends in order. -/
theorem Safe.last {events : List (Event I G)} (h : Safe s events) :
    ∃ s', events.foldlM step s = some s' ∧ Ordered s' := by
  induction events generalizing s with
  | nil => exact ⟨s, rfl, h⟩
  | cons e events ih =>
    obtain ⟨-, s', hstep, hsafe⟩ := h
    rw [List.foldlM_cons, hstep]
    exact ih hsafe

/-- Items before any of them is registered. -/
def initial (items : I → Item G) : State I G := ⟨items, fun _ => none⟩

omit [DecidableEq I] [DecidableEq G] in
theorem initial_ordered (items : I → Item G) : Ordered (initial items) :=
  fun _ _ hnone => nomatch hnone

/-- The groups of a run stay in order exactly when each of its steps finds room. -/
theorem safe_iff (items : I → Item G) (hitems : ∀ item, (items item).groupId = none)
    (events : List (Event I G)) (hallowed : AllAllowed (initial items) events) :
    Safe (initial items) events ↔ AllMeet (initial items) events := by
  apply safe_iff_of_ordered (initial_ordered items) _ events hallowed
  intro a b _ _ hsome
  exact absurd (hitems a) hsome

end

def localItem (id : ℤ) : Item Unit where
  id := id
  groupId := none
  canBeGrouped := true
  isRegular := false
  isScheduled := false

def localItems : Bool → Item Unit
  | false => localItem (-2)
  | true => localItem (-1)

theorem safe_iff_two_items : Safe (initial localItems)
    [.registerMessage false (), .registerMessage true (), .setRealId false 5 true false] := by
  apply (safe_iff localItems (by decide) _ ?_).mpr
  · refine ⟨trivial, fun s' h => ?_⟩
    obtain rfl := Option.some.inj h
    refine ⟨trivial, fun s' h => ?_⟩
    obtain rfl := Option.some.inj h
    refine ⟨?_, fun _ _ => trivial⟩
    rintro ⟨⟩ group - hgroup
    obtain rfl := Option.some.inj hgroup
    rw [if_pos (Or.inl rfl)]
    decide
  · refine ⟨⟨rfl, by unfold Distinct; decide⟩, fun s' h => ?_⟩
    obtain rfl := Option.some.inj h
    refine ⟨⟨rfl, by unfold Distinct; decide⟩, fun s' h => ?_⟩
    obtain rfl := Option.some.inj h
    exact ⟨by simp only [Allowed]; unfold Distinct; decide, fun _ _ => trivial⟩

/-- Eleven items are registered for the same album and the last of them is sent. -/
def elevenEvents : List (Event ℕ Unit) :=
  (List.range 11).map (fun i => .registerMessage i ()) ++ [.setRealId 10 5 true false]

theorem elevenEvents_unsafe :
    ¬ Safe (initial fun i : ℕ => localItem (i - 100)) elevenEvents := by
  intro h
  obtain ⟨s', hlast, hordered⟩ := h.last
  have hlength : ((elevenEvents.foldlM step (initial fun i : ℕ => localItem (i - 100))).bind
      fun s => (s.groups ()).map List.length) = some 11 := by decide
  rw [hlast, Option.bind_some, Option.map_eq_some_iff] at hlength
  obtain ⟨group, hgroup, hlength⟩ := hlength
  have hbounded := (hordered () group hgroup).bounded
  rw [hlength] at hbounded
  exact absurd hbounded (by decide)

end TelegramDesktop.Data.Groups
