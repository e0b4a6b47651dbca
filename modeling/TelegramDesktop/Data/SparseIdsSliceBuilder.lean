import TelegramDesktop.Data.SliceBuilderFeed
import TelegramDesktop.Storage.SparseIdsListRefines

namespace TelegramDesktop.Data.SparseIdsSliceBuilder
open Base Storage SliceBuilder SparseIdsList

/-- What a builder is told of an operation. -/
def notification : Op → Option (SliceUpdate ℤ) → Option (Notification ℤ)
  | .removeOne messageId, _ => some (.oneRemoved messageId)
  | .removeAll, _ => some .allRemoved
  | .invalidateBottom, _ => some .bottomInvalidated
  | _, update => update.map .updated

structure State where
  list : SparseIdsList
  builder : SliceBuilder ℤ
  deriving DecidableEq

/-- A builder is opened with a snapshot of the list. -/
def openViewer (list : SparseIdsList) (key : ℤ) (limitBefore limitAfter : ℕ) : Option State :=
  (({ key, limitBefore, limitAfter } : SliceBuilder ℤ).applyInitial sparseIdsSliceBuilder
    (list.snapshot ⟨key, limitBefore, limitAfter⟩)).map fun applied => ⟨list, applied.builder⟩

/-- An operation, with the notification that comes of it. -/
def stepViewer : Option State → Op → Option State × List (AroundData ℤ)
  | some state, op =>
    match state.list.apply op with
    | none => (none, [])
    | some (list, update) =>
      match notification op update with
      | none => (some { state with list }, [])
      | some told =>
        match state.builder.notify sparseIdsSliceBuilder told with
        | none => (none, [])
        | some applied => (some ⟨list, applied.builder⟩, applied.insufficientAround)
  | none, _ => (none, [])

/-- The window is a run of the messages of a slice. -/
def InSlice (slices : List (Slice ℤ)) (ids : FlatSet ℤ) : Prop :=
  ids = ∅ ∨ ∃ slice ∈ slices, ∃ before after, slice.messages.Splits before ids after

theorem InSlice.splits {slices : List (Slice ℤ)} {ids ids' : FlatSet ℤ} (h : InSlice slices ids)
    {before after : List ℤ} (hsplits : ids.Splits before ids' after) : InSlice slices ids' := by
  rcases h with hnil | ⟨slice, hslice, before', after', hinner⟩
  · left
    apply FlatSet.eq_of_mem
    intro x
    refine iff_of_false (fun hx => ?_) (FlatSet.not_mem_empty x)
    have hmem := hsplits.mem.mpr (.inr (.inl hx))
    rw [hnil] at hmem
    exact FlatSet.not_mem_empty x hmem
  · exact .inr ⟨slice, hslice, _, _, hinner.trans hsplits⟩

theorem InSlice.mono {slices slices' : List (Slice ℤ)} {ids : FlatSet ℤ} (h : InSlice slices ids)
    (hkept : ∀ slice ∈ slices, ∃ slice' ∈ slices', slice'.messages = slice.messages) :
    InSlice slices' ids := by
  rcases h with hnil | ⟨slice, hslice, before, after, hsplits⟩
  · exact .inl hnil
  · obtain ⟨slice', hslice', heq⟩ := hkept slice hslice
    exact .inr ⟨slice', hslice', before, after, by rw [heq]; exact hsplits⟩

theorem widened_kept (count : Option ℤ) (slices : List (Slice ℤ)) :
    ∀ slice ∈ slices, ∃ slice' ∈ (widenLone count slices).slices,
      slice'.messages = slice.messages := by
  intro slice hslice
  rcases widenLone_slices count slices with heq | ⟨lone, hlone, heq⟩
  · exact ⟨slice, by rw [heq]; exact hslice, rfl⟩
  · rw [hlone, List.mem_singleton] at hslice
    rw [heq, hslice]
    exact ⟨_, List.mem_singleton_self _, rfl⟩

theorem removed_kept {slices : List (Slice ℤ)} (h : WellFormed slices) (id : ℤ) :
    ∀ slice ∈ slices, ∃ slice' ∈ removeFromSlices slices id,
      slice'.messages = slice.messages.remove id := by
  intro slice hslice
  have hout : ¬ slice.range.Holds id → slice.messages = slice.messages.remove id := fun hnot =>
    (FlatSet.remove_of_not_mem fun hid => hnot (h.inside slice hslice id hid)).symm
  rcases h.removeFromSlices_spec id with ⟨heq, hnone⟩ | ⟨before, found, after, hsplit, hholds, heq⟩
  · rw [heq]
    exact ⟨slice, hslice, hout (hnone slice hslice)⟩
  · rw [heq]
    rw [hsplit] at h
    have hothers := h.others_not_hold hholds
    rw [hsplit, List.mem_append, List.mem_cons] at hslice
    simp only [List.mem_append, List.mem_cons]
    rcases hslice with hs | hs | hs
    · exact ⟨slice, .inl hs, hout (hothers slice (.inl hs))⟩
    · exact ⟨_, .inr (.inl rfl), by rw [hs]⟩
    · exact ⟨slice, .inr (.inr hs), hout (hothers slice (.inr hs))⟩

theorem bottomed_kept (slices : List (Slice ℤ)) (maxId : ℤ) :
    ∀ slice ∈ slices, ∃ slice' ∈ invalidateBottomOfSlices slices maxId,
      slice'.messages = slice.messages := by
  intro slice hslice
  rcases invalidateBottomOfSlices_spec slices maxId with heq | ⟨before, last, hsplit, -, heq⟩
  · exact ⟨slice, by rw [heq]; exact hslice, rfl⟩
  · rw [hsplit, List.mem_append, List.mem_singleton] at hslice
    rw [heq]
    simp only [List.mem_append, List.mem_singleton]
    rcases hslice with hs | hs
    · exact ⟨slice, .inl hs, rfl⟩
    · exact ⟨_, .inr rfl, by rw [hs]⟩

/-- The update that an addition fires. -/
theorem addRange_update (list : SparseIdsList) {messages : List ℤ} {range : Range ℤ}
    {count : Option ℤ} {incrementCount : Bool}
    (hboth : ¬ (count.isSome = true ∧ incrementCount = true)) {result : AddResult ℤ}
    (hresult : addRangeItemsAndCountNew list.slices messages range = some result) :
    ∃ list' update, list.addRange messages range count incrementCount = some (list', update) ∧
      list'.slices = (widenLone (addedCount list.count count incrementCount result.added)
        result.slices).slices ∧
      update.messages = result.updated.map Slice.messages ∧
      (∀ slice, result.updated = some slice → update.range = slice.range) ∧
      update.count = list'.count := by
  rw [addRange, if_neg hboth, hresult, Option.bind_eq_bind, Option.bind_some]
  dsimp only
  cases result.updated with
  | none => exact ⟨_, _, rfl, rfl, rfl, fun _ h => absurd h (by simp), rfl⟩
  | some slice =>
    exact ⟨_, _, rfl, rfl, rfl, fun _ h => by rw [← Option.some.inj h], rfl⟩

/-- The ids a window is cut from. -/
def toldIds (builder : SliceBuilder ℤ) : Notification ℤ → FlatSet ℤ
  | .updated update =>
    if builder.needMergeMessages update then builder.ids.merge (update.messages.getD ∅).elems
    else builder.ids
  | .oneRemoved messageId => builder.ids.remove messageId
  | .allRemoved => ∅
  | .bottomInvalidated => builder.ids

theorem sliced_refl {builder : SliceBuilder ℤ}
    (h : sparseIdsSliceBuilder.isSet builder.key → builder.WithinLimits) :
    Sliced sparseIdsSliceBuilder builder builder.ids builder :=
  ⟨rfl, rfl, rfl, ⟨[], [], .refl _⟩, h⟩

theorem removeId_eq (builder : SliceBuilder ℤ) (messageId : ℤ) :
    ∃ full before after, (builder.removeId messageId).1 = { builder with
        ids := builder.ids.remove messageId
        fullCount := full
        skippedBefore := before
        skippedAfter := after } ∧
      ((builder.removeId messageId).2 = false → builder.ids.remove messageId = builder.ids) := by
  rw [removeId]
  dsimp only
  by_cases hmem : messageId ∈ builder.ids
  · rw [if_pos hmem]
    exact ⟨_, _, _, rfl, fun h => absurd h (by simp)⟩
  · rw [if_neg hmem, FlatSet.remove_of_not_mem hmem]
    split_ifs <;> exact ⟨_, _, _, rfl, fun _ => rfl⟩

/-- Whatever a builder is told, its window is cut to the limits. -/
theorem notify_sliced (builder : SliceBuilder ℤ)
    (h : sparseIdsSliceBuilder.isSet builder.key → builder.WithinLimits)
    (told : Notification ℤ) :
    ∃ applied, builder.notify sparseIdsSliceBuilder told = some applied ∧
      Sliced sparseIdsSliceBuilder builder (toldIds builder told) applied.builder := by
  cases told with
  | updated update =>
    rw [notify, applyUpdate, toldIds]
    dsimp only
    by_cases hneed : builder.needMergeMessages update = true
    · rw [hneed, if_neg (by simp), if_pos rfl, if_pos rfl]
      obtain ⟨result, hresult, hsliced⟩ := mergeSliceData_sliced sparseIdsSliceBuilder builder
        update.count (update.messages.getD ∅)
        (if update.range.fromId = sparseIdsSliceBuilder.minId then some 0 else none)
        (if update.range.till = sparseIdsSliceBuilder.maxId then some 0 else none)
      rw [hresult]
      exact ⟨_, rfl, hsliced⟩
    · rw [if_neg hneed, if_neg hneed]
      by_cases hskip : ¬ builder.needMergeMessages update = true ∧ update.count.isNone = true
      · rw [if_pos hskip]
        exact ⟨_, rfl, sliced_refl h⟩
      · rw [if_neg hskip]
        obtain ⟨result, hresult, hsliced⟩ := mergeSliceData_sliced sparseIdsSliceBuilder builder
          update.count ∅
          (if update.range.fromId = sparseIdsSliceBuilder.minId then some 0 else none)
          (if update.range.till = sparseIdsSliceBuilder.maxId then some 0 else none)
        rw [hresult]
        exact ⟨_, rfl, hsliced⟩
  | oneRemoved messageId =>
    obtain ⟨full, before, after, heq, hsame⟩ := removeId_eq builder messageId
    refine ⟨_, rfl, ?_⟩
    rw [SliceBuilder.removeOne, toldIds]
    dsimp only
    split_ifs with hchanged
    · have hsliced := sliceToLimits_sliced sparseIdsSliceBuilder (builder.removeId messageId).1
      rw [heq] at hsliced
      rw [checkInsufficient, heq]
      exact ⟨hsliced.key, hsliced.limitBefore, hsliced.limitAfter, hsliced.splits, hsliced.within⟩
    · have hfalse : (builder.removeId messageId).2 = false := by
        by_contra hne
        exact hchanged ⟨Bool.eq_true_of_not_eq_false hne, rfl⟩
      have hids := hsame hfalse
      rw [heq, hids]
      exact ⟨rfl, rfl, rfl, ⟨[], [], .refl _⟩, h⟩
  | allRemoved =>
    refine ⟨_, rfl, rfl, rfl, rfl, ⟨[], [], ⟨rfl⟩⟩, fun _ => ⟨Nat.zero_le _, ?_⟩⟩
    change 0 - _ ≤ _
    omega
  | bottomInvalidated =>
    have hsliced := sliceToLimits_sliced sparseIdsSliceBuilder
      { builder with fullCount := none, skippedAfter := none }
    exact ⟨_, rfl, hsliced.key, hsliced.limitBefore, hsliced.limitAfter, hsliced.splits,
      hsliced.within⟩

/-- What is kept between a list and a builder with a key and limits. -/
structure Keeps (key : ℤ) (limitBefore limitAfter : ℕ) (state : State) : Prop where
  ok : state.list.Ok
  inSlice : InSlice state.list.slices state.builder.ids
  key : state.builder.key = key
  limitBefore : state.builder.limitBefore = limitBefore
  limitAfter : state.builder.limitAfter = limitAfter
  within : state.builder.WithinLimits

/-- The ids of an update are merged exactly when they are those of the slice that the window
is in. -/
theorem inSlice_updated {slices before meets after : List (Slice ℤ)} {messages : List ℤ}
    {range : Range ℤ} {slice : Slice ℤ} {builder : SliceBuilder ℤ} {update : SliceUpdate ℤ}
    (hwf : WellFormed slices) (ha : Around slices range before meets after)
    (hu : United messages range meets slice) (hin : InSlice slices builder.ids)
    (hmessages : update.messages = some slice.messages) (hrange : update.range = slice.range) :
    InSlice (before ++ slice :: after) (toldIds builder (.updated update)) := by
  have hslice : slice ∈ before ++ slice :: after := by simp
  have hneed : builder.needMergeMessages update = true ↔
      intersects slice.range builder.window := by
    rw [needMergeMessages, decide_eq_true_iff, hmessages, hrange]
    exact and_iff_right rfl
  rw [toldIds, hmessages, Option.getD_some]
  by_cases hids : builder.ids = ∅
  · split_ifs
    · refine .inr ⟨slice, hslice, [], [], ?_⟩
      rw [hids, FlatSet.merge_eq fun x hx => absurd hx (FlatSet.not_mem_empty x)]
      exact .refl _
    · exact .inl hids
  · obtain ⟨s, hs, left, right, hsplits⟩ := hin.resolve_left hids
    obtain ⟨front, back, hfront, hback⟩ := FlatSet.ends_of_ne hids
    have hsub : ∀ x ∈ builder.ids, x ∈ s.messages := fun x hx =>
      hsplits.mem.mpr (.inr (.inl hx))
    have hfirst := hwf.inside s hs front (hsub front (FlatSet.head_mem hfront))
    have hlast := hwf.inside s hs back (hsub back (FlatSet.last_mem hback))
    have hle := FlatSet.head_le hfront (FlatSet.last_mem hback)
    rw [window_eq hfront hback, intersects] at hneed
    have hplace := hs
    rw [ha.split, List.mem_append, List.mem_append] at hplace
    split_ifs with hmerge
    · have hmeets := hneed.mp hmerge
      rcases hplace with (hbefore | hmeet) | hafter
      · have hlt := ha.lt_fromId hwf hu s hbefore
        exact absurd (hmeets.1.trans hlast.2) (not_le.mpr hlt)
      · refine .inr ⟨slice, hslice, [], [], ?_⟩
        rw [FlatSet.merge_eq fun x hx => (hu.mem x).mpr (.inr ⟨s, hmeet, hsub x hx⟩)]
        exact .refl _
      · have hlt := ha.till_lt hwf hu s hafter
        exact absurd (hfirst.1.trans hmeets.2) (not_le.mpr hlt)
    · rcases hplace with (hbefore | hmeet) | hafter
      · exact .inr ⟨s, by simp [hbefore], left, right, hsplits⟩
      · have hholds := hu.holds s hmeet
        refine absurd (hneed.mpr ⟨?_, ?_⟩) hmerge
        · exact hholds.1.trans (hfirst.1.trans hle)
        · exact hfirst.2.trans hholds.2
      · exact .inr ⟨s, by simp [hafter], left, right, hsplits⟩

/-- An operation keeps the list and the window that is told of it together. -/
theorem inSlice_told {list : SparseIdsList} {builder : SliceBuilder ℤ} (hok : list.Ok)
    (hin : InSlice list.slices builder.ids) {op : Op} (hvalid : op.Valid) :
    ∃ list' update told, list.apply op = some (list', update) ∧
      notification op update = some told ∧ InSlice list'.slices (toldIds builder told) := by
  cases hadded : op.added with
  | some added =>
    obtain ⟨hrange, -⟩ := hvalid added.1 added.2 hadded
    obtain ⟨result, hresult, hadds⟩ :=
      addRangeItemsAndCountNew_adds hok.wellFormed added.1 hrange
    obtain ⟨list', update, heq, hslices, hmessages, hupdate, -⟩ :=
      addRange_update list (not_both op) hresult
    have htold : notification op (some update) = some (.updated update) := by
      cases op <;> first | rfl | exact absurd hadded (by simp [Op.added])
    refine ⟨list', some update, .updated update, ?_, htold, ?_⟩
    · rw [apply_added list hadded, heq]
      rfl
    · rw [hslices]
      cases hadds with
      | ignored hnil hpoint =>
        have hneed : builder.needMergeMessages update = false := by
          rw [needMergeMessages, hmessages]
          rfl
        rw [toldIds, hneed, if_neg Bool.false_ne_true]
        exact hin.mono (widened_kept _ _)
      | united before meets after slice hnew ha hu =>
        have hinside := inSlice_updated hok.wellFormed ha hu hin hmessages (hupdate slice rfl)
        exact hinside.mono (widened_kept _ _)
  | none =>
    cases op with
    | addNew messageId => simp [Op.added] at hadded
    | addExisting messageId noSkipRange => simp [Op.added] at hadded
    | addSlice messageIds noSkipRange count => simp [Op.added] at hadded
    | removeOne messageId =>
      refine ⟨_, none, .oneRemoved messageId, rfl, rfl, ?_⟩
      rw [toldIds]
      rcases hin with hnil | ⟨slice, hslice, before, after, hsplits⟩
      · left
        rw [hnil]
        rfl
      · obtain ⟨slice', hslice', hmessages⟩ := removed_kept hok.wellFormed messageId slice hslice
        have hremoved := hsplits.remove messageId
        rw [← hmessages] at hremoved
        exact .inr ⟨slice', hslice', _, _, hremoved⟩
    | removeAll => exact ⟨_, none, .allRemoved, rfl, rfl, .inl rfl⟩
    | invalidateBottom =>
      exact ⟨_, none, .bottomInvalidated, rfl, rfl, hin.mono (bottomed_kept _ _)⟩

theorem Keeps.step {key : ℤ} (hkey : key ≠ 0) {limitBefore limitAfter : ℕ} {state : State}
    (h : Keeps key limitBefore limitAfter state) {op : Op} (hop : op.Valid ∧ op.Server) :
    ∃ state' fired, stepViewer (some state) op = (some state', fired) ∧
      Keeps key limitBefore limitAfter state' := by
  obtain ⟨list', update, told, happly, htold, hin⟩ := inSlice_told h.ok h.inSlice hop.1
  obtain ⟨applied, hnotify, hsliced⟩ := notify_sliced state.builder (fun _ => h.within) told
  have hrefines : state.list.Refines ⟨{id | Held state.list.slices id}, ∅⟩ :=
    ⟨h.ok, fun _ => Iff.rfl, fun id hid => absurd hid (Set.notMem_empty id)⟩
  obtain ⟨list'', update', happly', hrefines'⟩ := hrefines.apply hop.1 hop.2
  rw [happly, Option.some_inj, Prod.mk.injEq] at happly'
  obtain ⟨before, after, hsplits⟩ := hsliced.splits
  refine ⟨⟨list', applied.builder⟩, applied.insufficientAround, ?_, ?_⟩
  · rw [stepViewer, happly]
    dsimp only
    rw [htold]
    dsimp only
    rw [hnotify]
  · refine ⟨?_, hin.splits hsplits, hsliced.key.trans h.key,
      hsliced.limitBefore.trans h.limitBefore, hsliced.limitAfter.trans h.limitAfter, ?_⟩
    · rw [happly'.1]
      exact hrefines'.ok
    · apply hsliced.within
      rw [h.key]
      exact decide_eq_true hkey

theorem snapshot_inSlice {list : SparseIdsList} (hok : list.Ok) (query : Query ℤ) :
    InSlice list.slices (list.snapshot query).messageIds := by
  rw [SparseIdsList.snapshot]
  have hspec := hok.wellFormed.sliceAround_spec query.aroundId
  split_ifs
  · exact .inl rfl
  · cases hfound : sliceAround list.slices query.aroundId with
    | none => exact .inl rfl
    | some found =>
      rw [hfound] at hspec
      exact .inr ⟨found.2, List.mem_of_getElem? hspec.2, _, _, .of_sub _ _ _⟩

theorem keeps_openViewer {list : SparseIdsList} (hok : list.Ok) {key : ℤ} (hkey : key ≠ 0)
    (limitBefore limitAfter : ℕ) :
    ∃ state, openViewer list key limitBefore limitAfter = some state ∧
      Keeps key limitBefore limitAfter state := by
  let query : Query ℤ := ⟨key, limitBefore, limitAfter⟩
  have hin := snapshot_inSlice hok query
  obtain ⟨result, hresult, hsliced⟩ := mergeSliceData_sliced sparseIdsSliceBuilder
    { key, limitBefore, limitAfter } (list.snapshot query).count (list.snapshot query).messageIds
    (list.snapshot query).skippedBefore (list.snapshot query).skippedAfter
  obtain ⟨before, after, hsplits⟩ := hsliced.splits
  rw [FlatSet.merge_eq fun x hx => absurd hx (FlatSet.not_mem_empty x)] at hsplits
  refine ⟨⟨list, result.1⟩, ?_, hok, hin.splits hsplits, hsliced.key, hsliced.limitBefore,
    hsliced.limitAfter, hsliced.within (decide_eq_true hkey)⟩
  rw [openViewer, applyInitial, hresult]
  rfl

/-- The window has no holes, nothing the list has not, and no more than the limits say. -/
structure Contiguous (key : ℤ) (limitBefore limitAfter : ℕ) (state : State) : Prop where
  between : ∀ x ∈ state.builder.ids, ∀ z ∈ state.builder.ids, ∀ id,
    Held state.list.slices id → x ≤ id → id ≤ z → id ∈ state.builder.ids
  held : ∀ id ∈ state.builder.ids, Held state.list.slices id
  before : state.builder.ids.elems.countP (fun id => decide (id < key)) ≤ limitBefore
  after : state.builder.ids.elems.countP (fun id => decide (key ≤ id)) ≤ limitAfter + 1

theorem Keeps.contiguous {key : ℤ} {limitBefore limitAfter : ℕ} {state : State}
    (h : Keeps key limitBefore limitAfter state) :
    Contiguous key limitBefore limitAfter state := by
  have hwithin := h.within
  rw [WithinLimits, h.key, h.limitBefore, h.limitAfter, FlatSet.lowerBound_eq_countP] at hwithin
  have hempty : state.builder.ids = ∅ → ∀ id, id ∉ state.builder.ids := fun hnil id => by
    rw [hnil]
    exact FlatSet.not_mem_empty id
  refine ⟨?_, ?_, hwithin.1, ?_⟩
  · intro x hx z hz id hid hxid hidz
    rcases h.inSlice with hnil | ⟨slice, hslice, before, after, hsplits⟩
    · exact absurd hx (hempty hnil x)
    · obtain ⟨other, hother, hmem⟩ := hid
      have hfirst := h.ok.wellFormed.inside slice hslice x (hsplits.mem.mpr (.inr (.inl hx)))
      have hlast := h.ok.wellFormed.inside slice hslice z (hsplits.mem.mpr (.inr (.inl hz)))
      have hsame := h.ok.wellFormed.eq_of_holds hother hslice
        (h.ok.wellFormed.inside other hother id hmem)
        ⟨hfirst.1.trans hxid, hidz.trans hlast.2⟩
      rw [hsame] at hmem
      rcases hxid.lt_or_eq with hlt | heq
      · rcases hidz.lt_or_eq with hlt' | heq
        · exact hsplits.mem_of_between hx hz hmem hlt hlt'
        · rwa [heq]
      · rwa [← heq]
  · intro id hid
    rcases h.inSlice with hnil | ⟨slice, hslice, before, after, hsplits⟩
    · exact absurd hid (hempty hnil id)
    · exact ⟨slice, hslice, hsplits.mem.mpr (.inr (.inl hid))⟩
  · have hlen := List.length_eq_countP_add_countP (fun id : ℤ => decide (id < key))
      (l := state.builder.ids.elems)
    have hnot : (fun id : ℤ => decide (¬ decide (id < key) = true)) =
        fun id => decide (key ≤ id) := by
      funext id
      simp
    rw [hnot] at hlen
    have hsize : state.builder.ids.size = state.builder.ids.elems.length := rfl
    omega

/-- However a list goes on after a builder was opened, the window never has holes. -/
theorem run_contiguous (opsBefore opsAfter : List Op)
    (hbefore : ∀ op ∈ opsBefore, op.Valid ∧ op.Server)
    (hafter : ∀ op ∈ opsAfter, op.Valid ∧ op.Server) (key : ℤ) (hkey : key ≠ 0)
    (limitBefore limitAfter : ℕ) :
    ∃ list state, (run SparseIdsList.step (some {}) opsBefore).1 = some list ∧
      (run stepViewer (openViewer list key limitBefore limitAfter) opsAfter).1 = some state ∧
      Contiguous key limitBefore limitAfter state := by
  obtain ⟨list, hlist, hrefines⟩ := run_refines hbefore
  obtain ⟨start, hstart, hkeeps⟩ := keeps_openViewer hrefines.ok hkey limitBefore limitAfter
  have hrun : ∃ state, (run stepViewer (some start) opsAfter).1 = some state ∧
      Keeps key limitBefore limitAfter state := by
    induction opsAfter using List.reverseRecOn with
    | nil => exact ⟨start, rfl, hkeeps⟩
    | append_singleton ops op ih =>
      obtain ⟨state, hstate, hkept⟩ := ih fun o ho => hafter o (List.mem_append_left _ ho)
      obtain ⟨state', fired, hstep, hkept'⟩ := hkept.step hkey
        (hafter op (List.mem_append_right _ (List.mem_singleton_self op)))
      exact ⟨state', by rw [Base.run_concat, hstate, hstep], hkept'⟩
  obtain ⟨state, hstate, hkept⟩ := hrun
  exact ⟨list, state, hlist, by rw [hstart]; exact hstate, hkept.contiguous⟩

theorem run_contiguous_slice :
    ∃ list state, (run SparseIdsList.step (some {}) [.addSlice [5, 7] ⟨1, 10⟩ (some 3)]).1 =
        some list ∧
      (run stepViewer (openViewer list 6 1 1) [.addNew 12]).1 = some state ∧
      Contiguous 6 1 1 state := by
  apply run_contiguous
  · intro op hop
    rw [List.mem_singleton.mp hop]
    constructor
    · intro messages range hadded
      obtain ⟨rfl, rfl⟩ := Prod.mk.inj (Option.some.inj hadded)
      exact ⟨by decide, by decide⟩
    · intro messages range hadded
      obtain ⟨rfl, rfl⟩ := Prod.mk.inj (Option.some.inj hadded)
      exact ⟨by decide, by decide⟩
  · intro op hop
    rw [List.mem_singleton.mp hop]
    constructor
    · intro messages range hadded
      obtain ⟨rfl, rfl⟩ := Prod.mk.inj (Option.some.inj hadded)
      exact ⟨by decide, by decide⟩
    · intro messages range hadded
      obtain ⟨rfl, rfl⟩ := Prod.mk.inj (Option.some.inj hadded)
      exact ⟨by decide, by decide⟩
  · decide

/-- A slice behind the last server id is widened away from its ids: an id between them goes to
another slice. -/
theorem window_misses_id :
    ¬ ∀ (opsBefore opsAfter : List Op), (∀ op ∈ opsBefore, op.Valid) →
      (∀ op ∈ opsAfter, op.Valid) → ∀ key : ℤ, key ≠ 0 → ∀ limitBefore limitAfter : ℕ,
      ∃ list state, (run SparseIdsList.step (some {}) opsBefore).1 = some list ∧
        (run stepViewer (openViewer list key limitBefore limitAfter) opsAfter).1 = some state ∧
        Contiguous key limitBefore limitAfter state := by
  intro h
  let id := ServerMaxMsgId + 6
  let ops : List Op := [.addSlice [id - 1, id + 1] ⟨id - 1, id + 1⟩ (some 2),
    .addSlice [id] ⟨id, id⟩ none]
  have hvalid : ∀ op ∈ ops, op.Valid := by
    intro op hop messages range hadded
    rw [List.mem_cons, List.mem_singleton] at hop
    rcases hop with hop | hop <;> rw [hop] at hadded <;>
      obtain ⟨rfl, rfl⟩ := Prod.mk.inj (Option.some.inj hadded) <;>
      exact ⟨by decide, by decide⟩
  obtain ⟨list, state, hlist, hstate, hcontiguous⟩ :=
    h ops [] hvalid (fun op hop => absurd hop List.not_mem_nil) 100 (by decide) 1 1
  have hslices : some list = some ⟨some 2, [⟨FlatSet.ofList [id - 1, id + 1], fullRange⟩,
      ⟨FlatSet.ofList [id], ⟨id, id⟩⟩]⟩ := hlist.symm.trans (by decide)
  rw [Option.some_inj] at hslices
  rw [hslices] at hstate
  have hopened : some state = some (⟨⟨some 2, [⟨FlatSet.ofList [id - 1, id + 1], fullRange⟩,
      ⟨FlatSet.ofList [id], ⟨id, id⟩⟩]⟩,
      ⟨100, 1, 1, FlatSet.ofList [id - 1, id + 1], some 2, some 0, some 0⟩⟩ : State) :=
    hstate.symm.trans (by decide)
  rw [Option.some_inj] at hopened
  rw [hopened] at hcontiguous
  have hmissing := hcontiguous.between (id - 1) (by decide) (id + 1) (by decide) id
    ⟨⟨FlatSet.ofList [id], ⟨id, id⟩⟩, by simp, by decide⟩ (by decide) (by decide)
  exact absurd hmissing (by decide)

end TelegramDesktop.Data.SparseIdsSliceBuilder
