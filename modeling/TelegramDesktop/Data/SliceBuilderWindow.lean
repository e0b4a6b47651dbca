import TelegramDesktop.Data.SliceBuilder

namespace TelegramDesktop.Data.SliceBuilder
open Base Storage

variable {α : Type*} [LinearOrder α] [Inhabited α] (kind : Kind α)

theorem map_add_zero (count : Option ℤ) : count.map (· + ((0 : ℕ) : ℤ)) = count := by
  cases count with
  | none => rfl
  | some n => simp

omit [Inhabited α] in
/-- What is too far before the key goes, and is counted as skipped. -/
theorem sliceBefore_spec (builder : SliceBuilder α) {before after : List α}
    (h : builder.ids.elems = before ++ after) :
    ∃ removed kept ids, before = removed ++ kept ∧ kept.length ≤ builder.limitBefore ∧
      ids.elems = kept ++ after ∧
      (builder.sliceBefore before.length).1 = { builder with
        ids
        skippedBefore := builder.skippedBefore.map (· + (removed.length : ℤ)) } := by
  rw [sliceBefore]
  by_cases hlimit : builder.limitBefore < before.length
  · rw [if_pos hlimit]
    let n := before.length - builder.limitBefore
    have hlen : (before.take n).length = n := by
      rw [List.length_take]
      omega
    refine ⟨before.take n, before.drop n, builder.ids.sub n (builder.ids.size - n),
      (List.take_append_drop n before).symm, ?_, ?_, ?_⟩
    · rw [List.length_drop]
      omega
    · rw [FlatSet.elems_sub_drop, h, List.drop_append_of_le_length (by omega)]
    · rw [hlen]
  · rw [if_neg hlimit]
    refine ⟨[], before, builder.ids, rfl, not_lt.mp hlimit, h, ?_⟩
    rw [List.length_nil, map_add_zero]
    split_ifs <;> rfl

omit [Inhabited α] in
/-- What is too far after the key goes, and is counted as skipped. -/
theorem sliceAfter_spec (builder : SliceBuilder α) {before after : List α}
    (h : builder.ids.elems = before ++ after) :
    ∃ kept removed ids, after = kept ++ removed ∧ kept.length ≤ builder.limitAfter + 1 ∧
      ids.elems = before ++ kept ∧
      (builder.sliceAfter after.length).1 = { builder with
        ids
        skippedAfter := builder.skippedAfter.map (· + (removed.length : ℤ)) } := by
  rw [sliceAfter]
  by_cases hlimit : builder.limitAfter + 1 < after.length
  · rw [if_pos hlimit]
    let n := builder.limitAfter + 1
    have hlen : (after.drop n).length = after.length - n := List.length_drop
    have hsize : builder.ids.size = before.length + after.length := by
      rw [FlatSet.size, h, List.length_append]
    have hkept : builder.ids.size - (after.length - n) = before.length + n := by omega
    refine ⟨after.take n, after.drop n, builder.ids.sub 0 (builder.ids.size - (after.length - n)),
      (List.take_append_drop n after).symm, ?_, ?_, ?_⟩
    · rw [List.length_take]
      omega
    · rw [FlatSet.elems_sub_take, h, hkept, List.take_length_add_append]
    · rw [hlen]
  · rw [if_neg hlimit]
    refine ⟨after, [], builder.ids, (List.append_nil after).symm, not_lt.mp hlimit, h, ?_⟩
    rw [List.length_nil, map_add_zero]
    split_ifs <;> rfl

/-- No more ids around the key than the limits say. -/
def WithinLimits (builder : SliceBuilder α) : Prop :=
  builder.ids.lowerBound builder.key ≤ builder.limitBefore ∧
    builder.ids.size - builder.ids.lowerBound builder.key ≤ builder.limitAfter + 1

/-- What is cut at the ends is counted as skipped, and nothing else changes. -/
theorem sliceToLimits_spec (builder : SliceBuilder α) :
    ∃ before ids after, builder.ids.Splits before ids after ∧
      (builder.sliceToLimits kind).1 = { builder with
        ids
        skippedBefore := builder.skippedBefore.map (· + (before.length : ℤ))
        skippedAfter := builder.skippedAfter.map (· + (after.length : ℤ)) } ∧
      (kind.isSet builder.key → (builder.sliceToLimits kind).1.WithinLimits) := by
  by_cases hset : kind.isSet builder.key = true
  · obtain ⟨less, rest, helems, hbound, hless, hrest⟩ := builder.ids.split_lowerBound builder.key
    have hsize : builder.ids.size - less.length = rest.length := by
      rw [FlatSet.size, helems, List.length_append]
      omega
    obtain ⟨removed, kept, ids, hsplit, hkept, hids, heq⟩ := builder.sliceBefore_spec helems
    obtain ⟨kept', removed', ids', hsplit', hkept', hids', heq'⟩ :=
      (builder.sliceBefore less.length).1.sliceAfter_spec (by rw [heq]; exact hids)
    have hresult : (builder.sliceToLimits kind).1 = { builder with
        ids := ids'
        skippedBefore := builder.skippedBefore.map (· + (removed.length : ℤ))
        skippedAfter := builder.skippedAfter.map (· + (removed'.length : ℤ)) } := by
      rw [sliceToLimits, if_pos hset]
      dsimp only
      rw [hbound, hsize, heq', heq]
    refine ⟨removed, ids', removed', ⟨?_⟩, hresult, ?_⟩
    · rw [helems, hsplit, hsplit', hids']
      simp only [List.append_assoc]
    · intro _
      have hlower : ids'.lowerBound builder.key = kept.length := by
        apply FlatSet.lowerBound_eq hids'
        · intro id hid
          exact hless id (by rw [hsplit]; exact List.mem_append_right _ hid)
        · intro id hid
          exact hrest id (by rw [hsplit']; exact List.mem_append_left _ hid)
      rw [heq] at hkept'
      rw [hresult, WithinLimits]
      dsimp only
      rw [hlower, FlatSet.size, hids', List.length_append]
      dsimp only at hkept'
      omega
  · refine ⟨[], builder.ids, [], .refl _, ?_, fun h => absurd h hset⟩
    rw [sliceToLimits, if_neg hset, List.length_nil, map_add_zero, map_add_zero]

/-- A builder with the same key and limits, cut to the limits from the given ids. -/
structure Sliced (builder : SliceBuilder α) (ids : FlatSet α) (result : SliceBuilder α) : Prop where
  key : result.key = builder.key
  limitBefore : result.limitBefore = builder.limitBefore
  limitAfter : result.limitAfter = builder.limitAfter
  splits : ∃ before after, ids.Splits before result.ids after
  within : kind.isSet builder.key → result.WithinLimits

theorem sliceToLimits_sliced (builder : SliceBuilder α) :
    Sliced kind builder builder.ids (builder.sliceToLimits kind).1 := by
  obtain ⟨before, ids, after, hsplits, heq, hwithin⟩ := builder.sliceToLimits_spec kind
  refine ⟨by rw [heq], by rw [heq], by rw [heq], ⟨before, after, ?_⟩, hwithin⟩
  rw [heq]
  exact hsplits

theorem fillSkipped_sliced (builder : SliceBuilder α) :
    Sliced kind builder builder.ids (builder.fillSkippedAndSliceToLimits kind).1 := by
  have h := sliceToLimits_sliced kind { builder with
    skippedBefore := (fillSkipped builder.fullCount builder.skippedBefore builder.skippedAfter
      builder.ids.size).1
    skippedAfter := (fillSkipped builder.fullCount builder.skippedBefore builder.skippedAfter
      builder.ids.size).2 }
  exact ⟨h.key, h.limitBefore, h.limitAfter, h.splits, h.within⟩

omit [Inhabited α] in
theorem mergeCount_eq (builder : SliceBuilder α) (count : Option ℤ) :
    ∃ full before after, builder.mergeCount count =
      { builder with fullCount := full, skippedBefore := before, skippedAfter := after } := by
  unfold mergeCount
  split
  · split_ifs
    · exact ⟨_, _, _, rfl⟩
    · exact ⟨_, _, _, rfl⟩
    · exact ⟨_, _, _, rfl⟩
  · exact ⟨_, _, _, rfl⟩

omit [Inhabited α] in
theorem mergeSkipped_isSome {adjust : FlatSet α → α → ℤ → Option ℤ} {ids : FlatSet α}
    {mergedEnd : α} (skipped : Option ℤ) {wasEnd : Option α} (wasSkipped : Option ℤ)
    (hadjust : ∀ id ∈ ids, ∀ n, (adjust ids id n).isSome) (hmerged : mergedEnd ∈ ids)
    (hwas : ∀ id, wasEnd = some id → id ∈ ids) :
    ∃ found, mergeSkipped kind adjust ids mergedEnd skipped wasEnd wasSkipped = some found := by
  unfold mergeSkipped
  split
  · rename_i n
    obtain ⟨found, hfound⟩ := Option.isSome_iff_exists.mp (hadjust mergedEnd hmerged n)
    exact ⟨some found, by rw [hfound]; rfl⟩
  · rename_i id n
    split_ifs
    · obtain ⟨found, hfound⟩ := Option.isSome_iff_exists.mp (hadjust id (hwas id rfl) n)
      exact ⟨some found, by rw [hfound]; rfl⟩
    · exact ⟨none, rfl⟩
  · exact ⟨none, rfl⟩

/-- A merge never fails, and leaves a part of the merged ids. -/
theorem mergeSliceData_sliced (builder : SliceBuilder α) (count : Option ℤ)
    (messageIds : FlatSet α) (skippedBefore skippedAfter : Option ℤ) :
    ∃ result, builder.mergeSliceData kind count messageIds skippedBefore skippedAfter =
      some result ∧ Sliced kind builder (builder.ids.merge messageIds.elems) result.1 := by
  by_cases hempty : messageIds = ∅
  · rw [hempty, FlatSet.merge_empty]
    obtain ⟨full, before, after, heq⟩ := builder.mergeCount_eq count
    have h := fillSkipped_sliced kind (builder.mergeCount count)
    refine ⟨_, rfl, ?_⟩
    rw [heq] at h ⊢
    exact ⟨h.key, h.limitBefore, h.limitAfter, h.splits, h.within⟩
  · obtain ⟨front, back, hfront, hback⟩ := FlatSet.ends_of_ne hempty
    have hmerged : ∀ x, x ∈ builder.ids ∨ x ∈ messageIds →
        x ∈ builder.ids.merge messageIds.elems := fun x hx => FlatSet.mem_merge.mpr hx
    have hadjustBefore : ∀ id ∈ builder.ids.merge messageIds.elems, ∀ n,
        (adjustSkippedBefore (builder.ids.merge messageIds.elems) id n).isSome := by
      intro id hid n
      rw [adjustSkippedBefore, if_pos hid]
      rfl
    have hadjustAfter : ∀ id ∈ builder.ids.merge messageIds.elems, ∀ n,
        (adjustSkippedAfter (builder.ids.merge messageIds.elems) id n).isSome := by
      intro id hid n
      rw [adjustSkippedAfter, if_pos hid]
      rfl
    obtain ⟨before, hbefore⟩ := mergeSkipped_isSome kind skippedBefore builder.skippedBefore
      hadjustBefore
      (hmerged front (.inr (FlatSet.head_mem hfront)))
      (fun id hid => hmerged id (.inl (FlatSet.head_mem hid)))
    obtain ⟨after, hafter⟩ := mergeSkipped_isSome kind skippedAfter builder.skippedAfter
      hadjustAfter
      (hmerged back (.inr (FlatSet.last_mem hback)))
      (fun id hid => hmerged id (.inl (FlatSet.last_mem hid)))
    rw [mergeSliceData, hfront, hback]
    dsimp only
    rw [hbefore, Option.bind_some, hafter]
    refine ⟨_, rfl, ?_⟩
    have h := fillSkipped_sliced kind { builder with
      ids := builder.ids.merge messageIds.elems
      fullCount := count.or builder.fullCount
      skippedBefore := before
      skippedAfter := after }
    exact ⟨h.key, h.limitBefore, h.limitAfter, h.splits, h.within⟩

end TelegramDesktop.Data.SliceBuilder
