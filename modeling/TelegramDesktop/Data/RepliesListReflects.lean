import TelegramDesktop.Data.RepliesListSlice

namespace TelegramDesktop.Data.RepliesList

/-- Where something is known of a list, its full count is. -/
def FullKnown (s : RepliesList) : Prop :=
  s.list ≠ [] ∨ s.skippedBefore.isSome ∨ s.skippedAfter.isSome → s.fullCount.isSome

theorem FullKnown.processed {s next : RepliesList} (h : s.FullKnown) {result : Messages}
    {isEmpty : Bool} (hprocess : s.processMessagesIsEmpty result = some (next, isEmpty)) :
    next.FullKnown := by
  rw [processMessagesIsEmpty] at hprocess
  split_ifs at hprocess
  · have hsame : s = next := congrArg Prod.fst (Option.some.inj hprocess)
    exact hsame ▸ h
  · obtain ⟨counters, -, hpair⟩ := Option.map_eq_some_iff.mp hprocess
    have hnext := congrArg Prod.fst hpair
    dsimp only at hnext
    subst hnext
    exact fun _ => rfl

theorem isSome_of_processed {s next : RepliesList} {result : Messages}
    (hprocess : s.processMessagesIsEmpty result = some (next, false)) : next.fullCount.isSome := by
  rw [processMessagesIsEmpty] at hprocess
  split_ifs at hprocess
  · exact absurd (congrArg Prod.snd (Option.some.inj hprocess)) Bool.false_ne_true.symm
  · obtain ⟨counters, -, hpair⟩ := Option.map_eq_some_iff.mp hprocess
    have hnext := congrArg Prod.fst hpair
    dsimp only at hnext
    subst hnext
    rfl

theorem FullKnown.processed_nonempty {s next : RepliesList} (h : s.FullKnown)
    (hlist : s.list ≠ []) {result : Messages} {isEmpty : Bool}
    (hprocess : s.processMessagesIsEmpty result = some (next, isEmpty)) :
    next.fullCount.isSome := by
  have hnext := h.processed hprocess
  rw [processMessagesIsEmpty] at hprocess
  split_ifs at hprocess
  · have hsame : s = next := congrArg Prod.fst (Option.some.inj hprocess)
    exact hsame ▸ h (.inl hlist)
  · obtain ⟨counters, -, hpair⟩ := Option.map_eq_some_iff.mp hprocess
    have hnext := congrArg Prod.fst hpair
    dsimp only at hnext
    subst hnext
    rfl

theorem FullKnown.aroundDone {s next : RepliesList} {id : MsgId} {result : Messages}
    (hstep : s.aroundDone id result = some next) : next.FullKnown := by
  obtain ⟨⟨mid, isEmpty⟩, hprocess, hnext⟩ := Option.bind_eq_some_iff.mp hstep
  cases isEmpty with
  | true =>
    obtain rfl := Option.some.inj hnext
    exact fun _ => rfl
  | false =>
    have hknown := isSome_of_processed hprocess
    have hsame : next.fullCount = mid.fullCount := by
      dsimp only at hnext
      rw [if_neg Bool.false_ne_true] at hnext
      split_ifs at hnext
      · rw [Option.some.inj hnext]
      · split at hnext
        · split_ifs at hnext
          · rw [← Option.some.inj hnext]
          · rw [← Option.some.inj hnext]
          · rw [Option.some.inj hnext]
        · exact nomatch hnext
    intro _
    rw [hsame]
    exact hknown

theorem FullKnown.beforeDone {s next : RepliesList} (h : s.FullKnown) {last : MsgId}
    {result : Messages} (hstep : s.beforeDone last result = some next) : next.FullKnown := by
  rw [RepliesList.beforeDone] at hstep
  split_ifs at hstep with hstale
  · exact Option.some.inj hstep ▸ h
  · obtain ⟨⟨mid, isEmpty⟩, hprocess, hnext⟩ := Option.map_eq_some_iff.mp hstep
    have hmid := h.processed hprocess
    cases isEmpty with
    | false => exact hnext ▸ hmid
    | true =>
      dsimp only at hnext
      rw [if_pos rfl] at hnext
      split_ifs at hnext
      · subst hnext
        exact fun _ => rfl
      · have hsome := h.processed_nonempty (fun hnil => hstale (.inl (List.isEmpty_iff.mpr hnil)))
          hprocess
        subst hnext
        exact fun _ => hsome

theorem FullKnown.afterDone {s next : RepliesList} (h : s.FullKnown) {first : MsgId}
    {result : Messages} (hstep : s.afterDone first result = some next) : next.FullKnown := by
  rw [RepliesList.afterDone] at hstep
  split_ifs at hstep with hstale
  · exact Option.some.inj hstep ▸ h
  · obtain ⟨⟨mid, isEmpty⟩, hprocess, hnext⟩ := Option.map_eq_some_iff.mp hstep
    have hmid := h.processed hprocess
    cases isEmpty with
    | false => exact hnext ▸ hmid
    | true =>
      dsimp only at hnext
      rw [if_pos rfl] at hnext
      split_ifs at hnext
      · subst hnext
        exact fun _ => rfl
      · have hsome := h.processed_nonempty (fun hnil => hstale (.inl (List.isEmpty_iff.mpr hnil)))
          hprocess
        subst hnext
        exact fun _ => hsome

theorem FullKnown.countUpdated {s : RepliesList} (h : s.fullCount.isSome) (list : List MsgId)
    (known : ℤ → ℤ) : (s.countUpdated list known).FullKnown := by
  intro _
  rw [RepliesList.countUpdated]
  have hmap : (s.fullCount.map known).isSome := by
    rw [Option.isSome_map]
    exact h
  cases s.skippedBefore with
  | none => exact hmap
  | some before =>
    cases s.skippedAfter with
    | none => exact hmap
    | some after => rfl

theorem FullKnown.step {s next : RepliesList} (h : s.FullKnown) {op : Op}
    (hstep : s.step op = some next) : next.FullKnown := by
  cases op with
  | aroundDone id result => exact .aroundDone hstep
  | beforeDone last result => exact h.beforeDone hstep
  | afterDone first result => exact h.afterDone hstep
  | failed => exact Option.some.inj hstep ▸ h
  | destroyed id =>
    rw [← Option.some.inj hstep, applyDestroyed]
    split_ifs with hin
    · exact .countUpdated (h (.inl (List.ne_nil_of_mem hin))) _ _
    · exact h
  | added id =>
    rw [← Option.some.inj hstep, applyAdded]
    split_ifs with hskip
    · exact h
    · have hafter : s.skippedAfter = some 0 := by
        by_contra hne
        exact hskip (.inl hne)
      exact .countUpdated (h (.inr (.inr (by rw [hafter]; rfl)))) _ _
  | differenceTooLong =>
    rw [← Option.some.inj hstep, applyDifferenceTooLong]
    split_ifs with hafter
    · exact fun _ => h (.inr (.inr hafter))
    · exact h

/-- The messages of the window that are not the root. -/
def shown (s : RepliesList) (t : Thread) (around : MsgId) (viewer : Viewer) : List MsgId :=
  (s.window around viewer).filter fun id => decide (id ≠ t.rootId)

/-- The items of the album that is put in for the root. -/
def albumItems (t : Thread) : List MsgId :=
  match t.root with
  | none => []
  | some root =>
    if t.rootId = kGeneralId ∨ root.topicRootId ≠ kGeneralId then [] else root.group.getD []

/-- The slice is a part of the thread, and its counters are known as the list's are and add up. -/
structure Reflects (s : RepliesList) (t : Thread) (slice : MessagesSlice) : Prop where
  before_known : slice.skippedBefore.isSome = s.skippedBefore.isSome
  after_known : slice.skippedAfter.isSome = s.skippedAfter.isSome
  full_known : slice.fullCount.isSome = s.fullCount.isSome
  contiguous : messages slice <:+:
    rootItems t ++ (s.list.filter fun id => decide (id ≠ t.rootId)).reverse
  nodup : (messages slice).Nodup
  sum : ∀ before after full, slice.skippedBefore = some before →
    slice.skippedAfter = some after → slice.fullCount = some full →
    before + after + (messages slice).length = full

/-- The window has the first message of the thread, so the root goes before it. -/
def ShowsStart (s : RepliesList) (around : MsgId) (viewer : Viewer) : Prop :=
  s.skippedBefore = some 0 ∧ s.useBefore around viewer = s.availableBefore around

/-- The condition: what is not known of the list was not known to the viewer before; where all
is known, the window does not have the root in it, and no album is put before it; no item of an
album that is put before the window is in it. -/
structure Fits (s : RepliesList) (t : Thread) (viewer : Viewer) : Prop where
  before : s.skippedBefore = none → viewer.slice.skippedBefore = none
  after : s.skippedAfter = none → viewer.slice.skippedAfter = none
  root : s.skippedBefore.isSome → s.skippedAfter.isSome → s.fullCount.isSome →
    t.rootId ∉ s.window (resolveAround t viewer) viewer ∧
      (s.ShowsStart (resolveAround t viewer) viewer → albumItems t = [])
  album : s.ShowsStart (resolveAround t viewer) viewer → ∀ id ∈ albumItems t,
    id ≠ t.rootId → id ∉ s.window (resolveAround t viewer) viewer

end TelegramDesktop.Data.RepliesList
