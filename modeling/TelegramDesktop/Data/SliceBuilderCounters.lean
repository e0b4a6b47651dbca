import TelegramDesktop.Base.Run
import TelegramDesktop.Data.SliceBuilderWindow
import TelegramDesktop.Storage.SparseIdsListSlices

namespace TelegramDesktop.Data.SliceBuilder
open Base Storage

variable {α : Type*} [LinearOrder α] [Inhabited α] (kind : Kind α)

/-- The numbers that are known together add up. -/
def Consistent (builder : SliceBuilder α) : Prop :=
  ∀ full before after, builder.fullCount = some full → builder.skippedBefore = some before →
    builder.skippedAfter = some after →
    0 ≤ full ∧ 0 ≤ before ∧ 0 ≤ after ∧ before + builder.ids.size + after = full

/-- The window is a run of the ids of the server, with as many on each side as are skipped. -/
def Skips (server : FlatSet α) (builder : SliceBuilder α) : Prop :=
  ∃ before after, server.Splits before builder.ids after ∧
    (∀ n, builder.skippedBefore = some n → n = before.length) ∧
    ∀ n, builder.skippedAfter = some n → n = after.length

/-- The builder knows nothing wrong about the ids of the server. -/
def Counts (server : FlatSet α) (builder : SliceBuilder α) : Prop :=
  builder.Skips server ∧ ∀ n, builder.fullCount = some n → n = server.size

omit [Inhabited α] in
theorem Counts.consistent {server : FlatSet α} {builder : SliceBuilder α}
    (h : builder.Counts server) : builder.Consistent := by
  obtain ⟨⟨before, after, hsplits, hbefore, hafter⟩, hfull⟩ := h
  intro full b a hf hb ha
  have hsize := hsplits.size
  have h1 := hfull full hf
  have h2 := hbefore b hb
  have h3 := hafter a ha
  omega

theorem Counts.sliceToLimits {server : FlatSet α} {builder : SliceBuilder α}
    (h : builder.Counts server) : (builder.sliceToLimits kind).1.Counts server := by
  obtain ⟨⟨before, after, hsplits, hbefore, hafter⟩, hfull⟩ := h
  obtain ⟨before', ids, after', hinner, heq, -⟩ := builder.sliceToLimits_spec kind
  rw [heq]
  refine ⟨⟨before ++ before', after' ++ after, hsplits.trans hinner, ?_, ?_⟩, hfull⟩
  · intro n hn
    obtain ⟨m, hm, hmn⟩ := Option.map_eq_some_iff.mp hn
    have hcount := hbefore m hm
    rw [List.length_append]
    omega
  · intro n hn
    obtain ⟨m, hm, hmn⟩ := Option.map_eq_some_iff.mp hn
    have hcount := hafter m hm
    rw [List.length_append]
    omega

theorem Counts.fillSkipped {server : FlatSet α} {builder : SliceBuilder α}
    (h : builder.Counts server) :
    (builder.fillSkippedAndSliceToLimits kind).1.Counts server := by
  apply Counts.sliceToLimits
  obtain ⟨⟨before, after, hsplits, hbefore, hafter⟩, hfull⟩ := h
  have hsize := hsplits.size
  refine ⟨⟨before, after, hsplits, ?_, ?_⟩, hfull⟩
  · intro n hn
    dsimp only at hn
    unfold Storage.fillSkipped at hn
    split at hn
    · rename_i full a hf hb ha
      have h1 := hfull full hf
      have h2 := hafter a ha
      simp only [Option.some.injEq] at hn
      omega
    · exact hbefore n (by simp_all)
    · exact hbefore n hn
  · intro n hn
    dsimp only at hn
    unfold Storage.fillSkipped at hn
    split at hn
    · exact hafter n (by simp_all)
    · rename_i full b hf hb ha
      have h1 := hfull full hf
      have h2 := hbefore b hb
      simp only [Option.some.injEq] at hn
      omega
    · exact hafter n hn

omit [Inhabited α] in
theorem Skips.mergeCount {server : FlatSet α} {builder : SliceBuilder α}
    (h : builder.Skips server) {count : Option ℤ} (hcount : ∀ n, count = some n → n = server.size)
    (hnone : count = none → ∀ n, builder.fullCount = some n → n = server.size) :
    (builder.mergeCount count).Counts server := by
  obtain ⟨before, after, hsplits, hbefore, hafter⟩ := h
  have hsize := hsplits.size
  cases count with
  | none => exact ⟨⟨before, after, hsplits, hbefore, hafter⟩, hnone rfl⟩
  | some count =>
    have hc := hcount count rfl
    rw [SliceBuilder.mergeCount]
    split_ifs with hsame hall
    · refine ⟨⟨before, after, hsplits, hbefore, hafter⟩, ?_⟩
      intro n hn
      rw [hsame, Option.some_inj] at hn
      omega
    · -- the window has all ids
      refine ⟨⟨before, after, hsplits, ?_, ?_⟩, ?_⟩ <;> intro n hn <;>
        rw [Option.some_inj] at hn <;> omega
    · refine ⟨⟨before, after, hsplits, hbefore, hafter⟩, ?_⟩
      intro n hn
      rw [Option.some_inj] at hn
      omega

omit [Inhabited α] in
/-- The number that is found for a side, whichever way it is found. -/
theorem mergeSkipped_spec {adjust : FlatSet α → α → ℤ → Option ℤ} {ids : FlatSet α}
    {mergedEnd : α} {skipped : Option ℤ} {wasEnd : Option α} {wasSkipped : Option ℤ} (target : ℤ)
    (hskipped : ∀ n, skipped = some n → adjust ids mergedEnd n = some target)
    (hwas : ∀ id n, skipped = none → wasEnd = some id → wasSkipped = some n →
      adjust ids id n = some target) :
    ∃ found, mergeSkipped kind adjust ids mergedEnd skipped wasEnd wasSkipped = some found ∧
      ∀ n, found = some n → n = target := by
  unfold mergeSkipped
  split
  · rename_i n
    rw [hskipped n rfl]
    exact ⟨some target, rfl, fun n hn => (Option.some.inj hn).symm⟩
  · rename_i id n
    split_ifs
    · rw [hwas id n rfl rfl rfl]
      exact ⟨some target, rfl, fun n hn => (Option.some.inj hn).symm⟩
    · exact ⟨none, rfl, fun n hn => absurd hn (by simp)⟩
  · exact ⟨none, rfl, fun n hn => absurd hn (by simp)⟩

/-- A merge of ids that leaves a run of the ids of the server. -/
theorem mergeSliceData_counts {server : FlatSet α} {builder : SliceBuilder α} {count : Option ℤ}
    {messageIds : FlatSet α} {skippedBefore skippedAfter : Option ℤ} {before after : List α}
    {front back : α} (hfront : messageIds.elems.head? = some front)
    (hback : messageIds.elems.getLast? = some back)
    (hsplits : server.Splits before (builder.ids.merge messageIds.elems) after)
    (hcount : ∀ n, count = some n → n = server.size)
    (hnone : count = none → ∀ n, builder.fullCount = some n → n = server.size)
    (hbefore : ∀ n, skippedBefore = some n →
      adjustSkippedBefore (builder.ids.merge messageIds.elems) front n = some (before.length : ℤ))
    (hwasBefore : ∀ id n, skippedBefore = none → builder.ids.elems.head? = some id →
      builder.skippedBefore = some n →
      adjustSkippedBefore (builder.ids.merge messageIds.elems) id n = some (before.length : ℤ))
    (hafter : ∀ n, skippedAfter = some n →
      adjustSkippedAfter (builder.ids.merge messageIds.elems) back n = some (after.length : ℤ))
    (hwasAfter : ∀ id n, skippedAfter = none → builder.ids.elems.getLast? = some id →
      builder.skippedAfter = some n →
      adjustSkippedAfter (builder.ids.merge messageIds.elems) id n = some (after.length : ℤ)) :
    ∃ result, builder.mergeSliceData kind count messageIds skippedBefore skippedAfter =
      some result ∧ result.1.Counts server := by
  obtain ⟨foundBefore, heqBefore, hfoundBefore⟩ :=
    mergeSkipped_spec kind (before.length : ℤ) hbefore hwasBefore
  obtain ⟨foundAfter, heqAfter, hfoundAfter⟩ :=
    mergeSkipped_spec kind (after.length : ℤ) hafter hwasAfter
  rw [mergeSliceData, hfront, hback]
  dsimp only
  rw [heqBefore, Option.bind_some, heqAfter]
  refine ⟨_, rfl, ?_⟩
  apply Counts.fillSkipped
  refine ⟨⟨before, after, hsplits, hfoundBefore, hfoundAfter⟩, ?_⟩
  intro n hn
  cases count with
  | none => exact hnone rfl n hn
  | some count => exact hcount n hn

theorem mergeSliceData_empty (builder : SliceBuilder α) (count : Option ℤ)
    (skippedBefore skippedAfter : Option ℤ) :
    builder.mergeSliceData kind count ∅ skippedBefore skippedAfter =
      some ((builder.mergeCount count).fillSkippedAndSliceToLimits kind) := rfl

/-- What an update says is so of the ids of the server. -/
structure Truthful (server : FlatSet α) (update : SliceUpdate α) : Prop where
  messages : ∀ messages, update.messages = some messages →
    ∀ id, id ∈ messages ↔ id ∈ server ∧ update.range.Holds id
  count : ∀ n, update.count = some n → n = server.size

/-- A new id is merged into the window, or lies on a side whose number is not known. Before or
after the window it has to be merged together with all that is there. -/
structure NewIdFits (builder : SliceBuilder α) (server : FlatSet α) (update : SliceUpdate α)
    (id : α) : Prop where
  empty : builder.ids = ∅ → builder.needMergeMessages update = true ∨
    builder.skippedBefore = none ∧ builder.skippedAfter = none
  before : ∀ front, builder.ids.elems.head? = some front → id < front →
    builder.skippedBefore = none ∨
      builder.needMergeMessages update = true ∧ ∀ x ∈ server, update.range.fromId ≤ x
  after : ∀ back, builder.ids.elems.getLast? = some back → back < id →
    builder.skippedAfter = none ∨
      builder.needMergeMessages update = true ∧ ∀ x ∈ server, x ≤ update.range.till

omit [Inhabited α] in
theorem window_eq {builder : SliceBuilder α} {front back : α}
    (hfront : builder.ids.elems.head? = some front)
    (hback : builder.ids.elems.getLast? = some back) : builder.window = ⟨front, back⟩ := by
  rw [window, List.headD_eq_head?_getD, List.getLastD_eq_getLast?, hfront, hback]
  rfl

omit [Inhabited α] in
/-- A range that meets the window is united with it. -/
theorem merged_splits {server server' messages : FlatSet α} {builder : SliceBuilder α}
    {range : Range α} {before after : List α} (hsplits : server.Splits before builder.ids after)
    (hsub : ∀ x ∈ server, x ∈ server') (hnew : ∀ x ∈ server', x ∈ server ∨ range.Holds x)
    (hmem : ∀ x, x ∈ messages ↔ x ∈ server' ∧ range.Holds x)
    (hmeets : intersects range builder.window) (hne : messages ≠ ∅) :
    ∃ before' after', server'.Splits before' (builder.ids.merge messages.elems) after' ∧
      (∀ x ∈ before', x < range.fromId) ∧ ∀ x ∈ after', range.till < x := by
  obtain ⟨first, -, hfirst, -⟩ := FlatSet.ends_of_ne hne
  have hrange := ((hmem first).mp (FlatSet.head_mem hfirst)).2
  have hordered : range.fromId ≤ range.till := hrange.1.trans hrange.2
  have hmerge : ∀ x, x ∈ builder.ids.merge messages.elems ↔
      x ∈ builder.ids ∨ x ∈ server' ∧ range.Holds x := by
    intro x
    rw [FlatSet.mem_merge, FlatSet.mem_elems, hmem]
  by_cases hids : builder.ids = ∅
  · have hbetween : ∀ x, x ∈ builder.ids.merge messages.elems ↔
        x ∈ server' ∧ range.fromId ≤ x ∧ x ≤ range.till := by
      intro x
      rw [hmerge, hids]
      exact or_iff_right (FlatSet.not_mem_empty x)
    refine ⟨_, _, .of_between hbetween hordered, ?_, ?_⟩
    · exact fun x hx => of_decide_eq_true (List.mem_filter.mp hx).2
    · exact fun x hx => of_decide_eq_true (List.mem_filter.mp hx).2
  · obtain ⟨front, back, hfront, hback⟩ := FlatSet.ends_of_ne hids
    rw [window_eq hfront hback] at hmeets
    have hlow : ∀ x ∈ builder.ids, front ≤ x := fun x hx => FlatSet.head_le hfront hx
    have hhigh : ∀ x ∈ builder.ids, x ≤ back := fun x hx => FlatSet.le_last hback hx
    have hinside : ∀ x ∈ server', front ≤ x → x ≤ back → ¬ range.Holds x → x ∈ builder.ids := by
      intro x hx hfx hxb hout
      have hserver := (hnew x hx).resolve_right hout
      rcases hfx.lt_or_eq with hfx | hfx
      · rcases hxb.lt_or_eq with hxb | hxb
        · exact hsplits.mem_of_between (FlatSet.head_mem hfront) (FlatSet.last_mem hback)
            hserver hfx hxb
        · rw [hxb]
          exact FlatSet.last_mem hback
      · rw [← hfx]
        exact FlatSet.head_mem hfront
    have hbetween : ∀ x, x ∈ builder.ids.merge messages.elems ↔
        x ∈ server' ∧ min range.fromId front ≤ x ∧ x ≤ max range.till back := by
      intro x
      rw [hmerge]
      constructor
      · rintro (hx | ⟨hx, hholds⟩)
        · refine ⟨hsub x (hsplits.mem.mpr (.inr (.inl hx))), ?_, ?_⟩
          · exact (min_le_right _ _).trans (hlow x hx)
          · exact (hhigh x hx).trans (le_max_right _ _)
        · exact ⟨hx, (min_le_left _ _).trans hholds.1, hholds.2.trans (le_max_left _ _)⟩
      · rintro ⟨hx, hmin, hmax⟩
        by_cases hholds : range.Holds x
        · exact .inr ⟨hx, hholds⟩
        · left
          have hout : x < range.fromId ∨ range.till < x := by
            by_contra hnot
            simp only [not_or, not_lt] at hnot
            exact hholds hnot
          apply hinside x hx _ _ hholds
          · rcases hout with hout | hout
            · exact (min_le_iff.mp hmin).resolve_left (not_le.mpr hout)
            · exact hmeets.2.trans hout.le
          · rcases hout with hout | hout
            · exact hout.le.trans hmeets.1
            · exact (le_max_iff.mp hmax).resolve_left (not_le.mpr hout)
    have hle : min range.fromId front ≤ max range.till back :=
      (min_le_left _ _).trans (hordered.trans (le_max_left _ _))
    refine ⟨_, _, .of_between hbetween hle, ?_, ?_⟩
    · intro x hx
      exact (of_decide_eq_true (List.mem_filter.mp hx).2).trans_le (min_le_left _ _)
    · intro x hx
      exact (le_max_left _ _).trans_lt (of_decide_eq_true (List.mem_filter.mp hx).2)

omit [Inhabited α] in
/-- A new id outside of the window, on a side whose number is not known. -/
theorem Skips.grow {server : FlatSet α} {builder : SliceBuilder α} (h : builder.Skips server)
    {id : α} (hid : id ∉ server)
    (hempty : builder.ids = ∅ → builder.skippedBefore = none ∧ builder.skippedAfter = none)
    (hside : ∀ front back, builder.ids.elems.head? = some front →
      builder.ids.elems.getLast? = some back →
      id < front ∧ builder.skippedBefore = none ∨ back < id ∧ builder.skippedAfter = none) :
    builder.Skips (server.insert id) := by
  obtain ⟨before, after, hsplits, hbefore, hafter⟩ := h
  by_cases hids : builder.ids = ∅
  · obtain ⟨hb, ha⟩ := hempty hids
    refine ⟨(server.insert id).elems, [], ⟨by rw [hids]; simp⟩, ?_, ?_⟩
    · exact fun n hn => absurd (hb.symm.trans hn) (by simp)
    · exact fun n hn => absurd (ha.symm.trans hn) (by simp)
  · obtain ⟨front, back, hfront, hback⟩ := FlatSet.ends_of_ne hids
    have hout := hside front back hfront hback
    have hle := FlatSet.head_le hfront (FlatSet.last_mem hback)
    have hbetween : ∀ x, x ∈ builder.ids ↔ x ∈ server.insert id ∧ front ≤ x ∧ x ≤ back := by
      intro x
      rw [FlatSet.mem_insert]
      constructor
      · intro hx
        exact ⟨.inr (hsplits.mem.mpr (.inr (.inl hx))), FlatSet.head_le hfront hx,
          FlatSet.le_last hback hx⟩
      · rintro ⟨hx | hx, hfx, hxb⟩
        · rw [hx] at hfx hxb
          rcases hout with ⟨hout, -⟩ | ⟨hout, -⟩
          · exact absurd hout (not_lt.mpr hfx)
          · exact absurd hout (not_lt.mpr hxb)
        · rcases hsplits.mem.mp hx with hx | hx | hx
          · have hlt := hsplits.before_lt hx (.inl (FlatSet.head_mem hfront))
            exact absurd hlt (not_lt.mpr hfx)
          · exact hx
          · have hlt := hsplits.lt_after (.inr (FlatSet.last_mem hback)) hx
            exact absurd hlt (not_lt.mpr hxb)
    have hgrown := FlatSet.Splits.of_between hbetween hle
    refine ⟨_, _, hgrown, ?_, ?_⟩
    · intro n hn
      have hlast : back < id := by
        rcases hout with ⟨-, hnone⟩ | ⟨hlast, -⟩
        · exact absurd (hnone.symm.trans hn) (by simp)
        · exact hlast
      have hnot : ¬ id < front := not_lt.mpr (hle.trans hlast.le)
      have hwas := hsplits.lowerBound (FlatSet.head_mem hfront)
      have hnow := hgrown.lowerBound (FlatSet.head_mem hfront)
      rw [FlatSet.lowerBound_insert hid, if_neg hnot] at hnow
      have hcount := hbefore n hn
      omega
    · intro n hn
      have hfirst : id < front := by
        rcases hout with ⟨hfirst, -⟩ | ⟨-, hnone⟩
        · exact hfirst
        · exact absurd (hnone.symm.trans hn) (by simp)
      have hnot : ¬ back < id := not_lt.mpr (hfirst.le.trans hle)
      have hwas := hsplits.behind (FlatSet.last_mem hback)
      have hnow := hgrown.behind (FlatSet.last_mem hback)
      rw [FlatSet.behind_insert hid, if_neg hnot] at hnow
      have hcount := hafter n hn
      omega

omit [Inhabited α] in
/-- The number before the window, once all that the range holds is merged. -/
theorem adjustSkippedBefore_spec {server server' ids merged : FlatSet α}
    {range : Range α} {before after before' after' : List α} {front : α} (id : α)
    (hsplits : server.Splits before ids after) (hfront : ids.elems.head? = some front)
    (hsplits' : server'.Splits before' merged after') (hmem : front ∈ merged)
    (hlow : ∀ x ∈ before', x < range.fromId)
    (hnew : server' = server ∨ id ∉ server ∧ server' = server.insert id ∧ range.Holds id ∧
      (id < front → ∀ x ∈ server, range.fromId ≤ x)) :
    adjustSkippedBefore merged front before.length = some (before'.length : ℤ) := by
  have hwas := hsplits.lowerBound (FlatSet.head_mem hfront)
  rw [FlatSet.lowerBound_head hfront] at hwas
  have hnow := hsplits'.lowerBound hmem
  rw [adjustSkippedBefore, if_pos hmem, Option.some_inj]
  rcases hnew with heq | ⟨hid, heq, hholds, hall⟩
  · rw [heq] at hnow
    omega
  · rw [heq, FlatSet.lowerBound_insert hid] at hnow
    split_ifs at hnow with hlt
    · -- nothing is left before the range
      have hnil : before' = [] := by
        apply List.eq_nil_iff_forall_not_mem.mpr
        intro x hx
        have hless := hlow x hx
        have hserver := hsplits'.mem.mpr (.inl hx)
        rw [heq, FlatSet.mem_insert] at hserver
        rcases hserver with hserver | hserver
        · rw [hserver] at hless
          exact absurd hless (not_lt.mpr hholds.1)
        · exact absurd hless (not_lt.mpr (hall hlt x hserver))
      rw [hnil, List.length_nil] at hnow ⊢
      omega
    · omega

omit [Inhabited α] in
/-- The number after the window, once all that the range holds is merged. -/
theorem adjustSkippedAfter_spec {server server' ids merged : FlatSet α}
    {range : Range α} {before after before' after' : List α} {back : α} (id : α)
    (hsplits : server.Splits before ids after) (hback : ids.elems.getLast? = some back)
    (hsplits' : server'.Splits before' merged after') (hmem : back ∈ merged)
    (hhigh : ∀ x ∈ after', range.till < x)
    (hnew : server' = server ∨ id ∉ server ∧ server' = server.insert id ∧ range.Holds id ∧
      (back < id → ∀ x ∈ server, x ≤ range.till)) :
    adjustSkippedAfter merged back after.length = some (after'.length : ℤ) := by
  have hwas := hsplits.behind (FlatSet.last_mem hback)
  rw [FlatSet.behind_last hback] at hwas
  have hnow := hsplits'.behind hmem
  have hsize := FlatSet.size_eq_of_mem hmem
  rw [adjustSkippedAfter, if_pos hmem, Option.some_inj]
  rcases hnew with heq | ⟨hid, heq, hholds, hall⟩
  · rw [heq] at hnow
    omega
  · rw [heq, FlatSet.behind_insert hid] at hnow
    split_ifs at hnow with hlt
    · have hnil : after' = [] := by
        apply List.eq_nil_iff_forall_not_mem.mpr
        intro x hx
        have hmore := hhigh x hx
        have hserver := hsplits'.mem.mpr (.inr (.inr hx))
        rw [heq, FlatSet.mem_insert] at hserver
        rcases hserver with hserver | hserver
        · rw [hserver] at hmore
          exact absurd hmore (not_lt.mpr hholds.2)
        · exact absurd hmore (not_lt.mpr (hall hlt x hserver))
      rw [hnil, List.length_nil] at hnow ⊢
      omega
    · omega

/-- What the ids of the server are after an update. -/
def Grows (builder : SliceBuilder α) (server server' : FlatSet α) (update : SliceUpdate α) : Prop :=
  server' = server ∨ ∃ id, id ∉ server ∧ server' = server.insert id ∧ update.range.Holds id ∧
    update.messages.isSome ∧ (update.count = none → builder.fullCount = none)

theorem Counts.applyUpdate {server server' : FlatSet α} {builder : SliceBuilder α}
    (h : builder.Counts server) {update : SliceUpdate α} (htruth : Truthful server' update)
    (hbounds : ∀ x ∈ server', kind.minId ≤ x ∧ x ≤ kind.maxId)
    (hgrows : builder.Grows server server' update)
    (hfits : ∀ id ∈ server', id ∉ server → builder.NewIdFits server update id) :
    ∃ applied, builder.applyUpdate kind update = some applied ∧
      applied.builder.Counts server' := by
  obtain ⟨⟨before, after, hsplits, hbefore, hafter⟩, hfull⟩ := h
  have hfull' : update.count = none → ∀ n, builder.fullCount = some n → n = server'.size := by
    intro hnone n hn
    rcases hgrows with heq | ⟨id, -, -, -, -, htold⟩
    · rw [heq]
      exact hfull n hn
    · exact absurd ((htold hnone).symm.trans hn) (by simp)
  by_cases hmerge : ∃ messages, update.messages = some messages ∧ messages ≠ ∅ ∧
      intersects update.range builder.window
  · obtain ⟨messages, hmessages, hne, hmeets⟩ := hmerge
    have hneed : builder.needMergeMessages update = true := by
      rw [needMergeMessages, hmessages]
      exact decide_eq_true ⟨rfl, hmeets⟩
    have hmem := htruth.messages messages hmessages
    have hsub : ∀ x ∈ server, x ∈ server' := by
      intro x hx
      rcases hgrows with heq | ⟨id, -, heq, -⟩
      · rwa [heq]
      · rw [heq, FlatSet.mem_insert]
        exact .inr hx
    have hin : ∀ x ∈ server', x ∈ server ∨ update.range.Holds x := by
      intro x hx
      rcases hgrows with heq | ⟨id, -, heq, hholds, -⟩
      · rw [heq] at hx
        exact .inl hx
      · rw [heq, FlatSet.mem_insert] at hx
        rcases hx with hx | hx
        · rw [hx]
          exact .inr hholds
        · exact .inl hx
    obtain ⟨before', after', hsplits', hlow, hhigh⟩ :=
      merged_splits hsplits hsub hin hmem hmeets hne
    obtain ⟨first, last, hfirst, hlast⟩ := FlatSet.ends_of_ne hne
    have hmerged : ∀ x, x ∈ builder.ids ∨ x ∈ messages →
        x ∈ builder.ids.merge messages.elems := fun x hx => FlatSet.mem_merge.mpr hx
    have hresult : ∃ result, builder.mergeSliceData kind update.count messages
        (if update.range.fromId = kind.minId then some 0 else none)
        (if update.range.till = kind.maxId then some 0 else none) = some result ∧
        result.1.Counts server' := by
      apply mergeSliceData_counts kind hfirst hlast hsplits' htruth.count hfull'
      · intro n hn
        split_ifs at hn with hmin
        · have hnil : before' = [] := by
            apply List.eq_nil_iff_forall_not_mem.mpr
            intro x hx
            have hless := hlow x hx
            rw [hmin] at hless
            exact absurd hless (not_lt.mpr (hbounds x (hsplits'.mem.mpr (.inl hx))).1)
          rw [adjustSkippedBefore, if_pos (hmerged _ (.inr (FlatSet.head_mem hfirst))), hnil,
            Option.some_inj, ← Option.some.inj hn, List.length_nil]
          omega
      · intro id n _ hid hn
        rw [hbefore n hn]
        have hmem_id := hmerged _ (.inl (FlatSet.head_mem hid))
        rcases hgrows with heq | ⟨new, hnew, heq, hholds, -⟩
        · exact adjustSkippedBefore_spec id hsplits hid hsplits' hmem_id hlow (.inl heq)
        · apply adjustSkippedBefore_spec new hsplits hid hsplits' hmem_id hlow
          right
          refine ⟨hnew, heq, hholds, ?_⟩
          intro hlt
          have hnewfits := hfits new (by rw [heq]; exact FlatSet.mem_insert.mpr (.inl rfl)) hnew
          rcases hnewfits.before id hid hlt with hnone | ⟨-, hall⟩
          · exact absurd (hnone.symm.trans hn) (by simp)
          · exact hall
      · intro n hn
        split_ifs at hn with hmax
        · have hnil : after' = [] := by
            apply List.eq_nil_iff_forall_not_mem.mpr
            intro x hx
            have hmore := hhigh x hx
            rw [hmax] at hmore
            exact absurd hmore (not_lt.mpr (hbounds x (hsplits'.mem.mpr (.inr (.inr hx)))).2)
          have hbackmem := hmerged _ (.inr (FlatSet.last_mem hlast))
          have hsize := FlatSet.size_eq_of_mem hbackmem
          rw [adjustSkippedAfter, if_pos hbackmem, hnil, Option.some_inj, ← Option.some.inj hn,
            List.length_nil]
          omega
      · intro id n _ hid hn
        rw [hafter n hn]
        have hmem_id := hmerged _ (.inl (FlatSet.last_mem hid))
        rcases hgrows with heq | ⟨new, hnew, heq, hholds, -⟩
        · exact adjustSkippedAfter_spec id hsplits hid hsplits' hmem_id hhigh (.inl heq)
        · apply adjustSkippedAfter_spec new hsplits hid hsplits' hmem_id hhigh
          right
          refine ⟨hnew, heq, hholds, ?_⟩
          intro hlt
          have hnewfits := hfits new (by rw [heq]; exact FlatSet.mem_insert.mpr (.inl rfl)) hnew
          rcases hnewfits.after id hid hlt with hnone | ⟨-, hall⟩
          · exact absurd (hnone.symm.trans hn) (by simp)
          · exact hall
    obtain ⟨result, hresult, hcounts⟩ := hresult
    refine ⟨⟨result.1, result.2, true⟩, ?_, hcounts⟩
    rw [SliceBuilder.applyUpdate, hneed, hmessages]
    dsimp only
    rw [if_neg (by simp), if_pos rfl, Option.getD_some, hresult]
    rfl
  · -- no id is merged
    have hskips : builder.Skips server' := by
      have hskips : builder.Skips server := ⟨before, after, hsplits, hbefore, hafter⟩
      rcases hgrows with heq | ⟨id, hid, heq, hholds, hsome, -⟩
      · rwa [heq]
      · obtain ⟨messages, hmessages⟩ := Option.isSome_iff_exists.mp hsome
        have hmem : id ∈ messages := by
          apply (htruth.messages messages hmessages id).mpr
          exact ⟨by rw [heq]; exact FlatSet.mem_insert.mpr (.inl rfl), hholds⟩
        have hne : messages ≠ ∅ := fun hnil => FlatSet.not_mem_empty id (hnil ▸ hmem)
        have hapart : ¬ intersects update.range builder.window := fun hmeets =>
          hmerge ⟨messages, hmessages, hne, hmeets⟩
        have hneed : ¬ builder.needMergeMessages update = true := by
          rw [needMergeMessages, decide_eq_true_iff]
          exact fun hboth => hapart hboth.2
        have hnewfits := hfits id (by rw [heq]; exact FlatSet.mem_insert.mpr (.inl rfl)) hid
        rw [heq]
        apply hskips.grow hid
        · exact fun hempty => (hnewfits.empty hempty).resolve_left hneed
        · intro front back hfront hback
          rw [window_eq hfront hback, intersects] at hapart
          by_cases hlt : id < front
          · left
            exact ⟨hlt, (hnewfits.before front hfront hlt).resolve_right fun hboth => hneed hboth.1⟩
          · right
            have hgt : back < id := by
              by_contra hle
              exact hapart ⟨hholds.1.trans (not_lt.mp hle), (not_lt.mp hlt).trans hholds.2⟩
            exact ⟨hgt, (hnewfits.after back hback hgt).resolve_right fun hboth => hneed hboth.1⟩
    have hids : (if builder.needMergeMessages update = true then update.messages.getD ∅ else ∅) =
        (∅ : FlatSet α) := by
      split_ifs with hneed
      · rw [needMergeMessages, decide_eq_true_iff] at hneed
        obtain ⟨messages, hmessages⟩ := Option.isSome_iff_exists.mp hneed.1
        rw [hmessages, Option.getD_some]
        by_contra hne
        exact hmerge ⟨messages, hmessages, hne, hneed.2⟩
      · rfl
    rw [SliceBuilder.applyUpdate]
    dsimp only
    split_ifs with hskip
    · refine ⟨_, rfl, hskips, ?_⟩
      exact hfull' (Option.isNone_iff_eq_none.mp hskip.2)
    all_goals
      first
      | rw [if_pos ‹_›] at hids
      | rw [if_neg ‹_›] at hids
      rw [hids, mergeSliceData_empty]
      exact ⟨_, rfl, (hskips.mergeCount htruth.count hfull').fillSkipped kind⟩

end TelegramDesktop.Data.SliceBuilder
