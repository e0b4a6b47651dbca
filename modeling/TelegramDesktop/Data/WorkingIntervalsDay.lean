import TelegramDesktop.Data.WorkingIntervalsCover

namespace TelegramDesktop.Data

open WorkingInterval

theorem has_shifted {interval : WorkingInterval} {offset t : ℤ} :
    (interval.shifted offset).Has t ↔ interval.Has (t - offset) := by
  simp only [Has, shifted]
  omega

theorem covers_cut {interval range : WorkingInterval} {offset t : ℤ} :
    Covers (if (interval.intersected range).Proper
      then [(interval.intersected range).shifted offset] else []) t ↔
      range.Has (t - offset) ∧ interval.Has (t - offset) := by
  rw [and_comm, ← has_intersected]
  split_ifs with h
  · exact covers_singleton.trans has_shifted
  · exact iff_of_false (covers_nil t) (not_has h _)

theorem covers_aroundDay {dayIndex : ℤ} {interval : WorkingInterval} {u : ℤ} :
    Covers (aroundDay dayIndex interval) u ↔ (-kDay ≤ u ∧ u < 2 * kDay) ∧
      (interval.Has (u + dayIndex * kDay) ∨ interval.Has (u + dayIndex * kDay + kWeek) ∨
        interval.Has (u + dayIndex * kDay - kWeek)) := by
  have hnow : u - -dayIndex * kDay = u + dayIndex * kDay := by
    simp only [kDay]
    omega
  have hafter : u - -(dayIndex + 7) * kDay = u + dayIndex * kDay + kWeek := by
    simp only [kWeek, kDay]
    omega
  have hbefore : u - -(dayIndex - 7) * kDay = u + dayIndex * kDay - kWeek := by
    simp only [kWeek, kDay]
    omega
  simp only [aroundDay, covers_append, covers_cut, hnow, hafter, hbefore, and_or_left, or_assoc]
  simp only [Has, kWeek, kDay]
  omega

/-- The days around a day, as `ExtractDayIntervals` collects them. -/
def daysAround (intervals : List WorkingInterval) (dayIndex : ℤ) : List WorkingInterval :=
  normalized (intervals.flatMap (aroundDay dayIndex))

theorem covers_flatMap_aroundDay {intervals : List WorkingInterval} {dayIndex u : ℤ} :
    Covers (intervals.flatMap (aroundDay dayIndex)) u ↔ (-kDay ≤ u ∧ u < 2 * kDay) ∧
      (Covers intervals (u + dayIndex * kDay) ∨ Covers intervals (u + dayIndex * kDay + kWeek) ∨
        Covers intervals (u + dayIndex * kDay - kWeek)) := by
  rw [covers_flatMap]
  simp only [covers_aroundDay]
  simp only [Covers]
  grind

/-- Seen from the day, the week comes around. -/
theorem covers_daysAround {intervals : List WorkingInterval} {dayIndex : ℤ}
    (hbounds : ∀ t, Covers intervals t → 0 ≤ t ∧ t < kWeek + kDay)
    (hday : 0 ≤ dayIndex ∧ dayIndex < 7) (u : ℤ) :
    Covers (daysAround intervals dayIndex) u ↔ (-kDay ≤ u ∧ u < 2 * kDay) ∧
      (CoversInWeek intervals (u + dayIndex * kDay) ∨
        CoversInWeek intervals (u + dayIndex * kDay + kWeek) ∨
        CoversInWeek intervals (u + dayIndex * kDay - kWeek)) := by
  have hend : ∀ t, Covers (intervals.flatMap (aroundDay dayIndex)) t → t < kWeek + kDay := by
    intro t ht
    have hrange := (covers_flatMap_aroundDay.mp ht).1
    simp only [kWeek, kDay] at hrange ⊢
    omega
  have hlow : 0 ≤ dayIndex * kDay := by
    simp only [kDay]
    omega
  have hhigh : dayIndex * kDay + kDay ≤ kWeek := by
    simp only [kWeek, kDay]
    omega
  rw [daysAround, covers_normalized hend, CoversInWeek, covers_flatMap_aroundDay,
    covers_flatMap_aroundDay]
  generalize dayIndex * kDay = start at hlow hhigh ⊢
  have hnow := hbounds (u + start)
  have hafter := hbounds (u + start + kWeek)
  have hlast := hbounds (u + start + kWeek + kWeek)
  have hsame : u + start - kWeek + kWeek = u + start := by omega
  simp only [CoversInWeek, hsame]
  simp only [kWeek, kDay] at *
  grind

/-- An interval that opens before the day and closes soon after midnight. -/
def OfDayBefore (interval : WorkingInterval) : Prop :=
  interval.start < 0 ∧ interval.stop ≤ kInNextDayMax ∧ -kDay < interval.start

/-- A second of an interval that is shown with the day. -/
def ShowsAt (interval : WorkingInterval) (u : ℤ) : Prop :=
  interval.Has u ∧ interval.start < kDay ∧ 0 ≤ u ∧
    (u < kDay ∨ 0 < interval.start ∧ interval.stop ≤ kDay + kInNextDayMax) ∧
    ¬ OfDayBefore interval

/-- What `cutBack` makes of an interval. -/
def cutBackOne (back : WorkingInterval) : WorkingInterval :=
  if back.start ≤ 0 ∧ kDay ≤ back.stop then wholeDay
  else if kDay + kInNextDayMax < back.stop then back.intersected wholeDay
  else back

/-- What `cutFront` makes of an interval. -/
def cutFrontOne (front : WorkingInterval) : List WorkingInterval :=
  if front.start ≤ 0 then
    if front.start < 0 ∧ front.stop ≤ kInNextDayMax ∧ -kDay < front.start then []
    else if (front.intersected wholeDay).Proper then [front.intersected wholeDay]
    else []
  else [front]

theorem cutBackOne_of_lt {interval : WorkingInterval} (h : interval.stop < kDay) :
    cutBackOne interval = interval := by
  rw [cutBackOne, if_neg (by omega), if_neg (by simp only [kInNextDayMax]; omega)]

/-- Only the last interval of a day reaches its end. -/
theorem cutBack_eq_map {list : List WorkingInterval} (h : Separated list)
    (hinside : ∀ interval ∈ list, interval.start < kDay) : cutBack list = list.map cutBackOne := by
  rcases List.eq_nil_or_concat list with rfl | ⟨init, back, rfl⟩
  · rfl
  · rw [List.concat_eq_append] at h hinside ⊢
    have hinit : init.map cutBackOne = init := by
      conv_rhs => rw [← List.map_id init]
      apply List.map_congr_left
      intro interval hi
      have hlt := h.lt_last hi
      have hback := hinside back (by simp)
      exact cutBackOne_of_lt (by omega)
    rw [List.map_append, hinit, cutBack]
    simp only [List.getLast?_concat, List.dropLast_concat, List.map_cons, List.map_nil, cutBackOne]
    split_ifs <;> rfl

theorem cutBackOne_start {interval : WorkingInterval} (h : 0 < interval.start)
    (hinside : interval.start < kDay) : 0 < (cutBackOne interval).start := by
  rw [cutBackOne, if_neg (by omega)]
  split_ifs with hlong
  · rw [intersected_eq]
    · simp only [wholeDay]
      omega
    · simp only [wholeDay]
      simp only [kInNextDayMax] at hlong
      omega
  · exact h

/-- Only the first interval of a day begins before it. -/
theorem cutFront_eq_flatMap {front : WorkingInterval} {list : List WorkingInterval}
    (hlist : ∀ interval ∈ list, 0 < interval.start) :
    cutFront (front :: list) = (front :: list).flatMap cutFrontOne := by
  have hrest : list.flatMap cutFrontOne = list := by
    conv_rhs => rw [← List.flatMap_singleton' list]
    apply List.flatMap_congr
    intro interval hi
    rw [cutFrontOne, if_neg (not_le.mpr (hlist interval hi))]
  rw [List.flatMap_cons, hrest, cutFront, cutFrontOne]
  split_ifs <;> rfl

theorem cutFront_cutBack {list : List WorkingInterval} (h : Separated list)
    (hinside : ∀ interval ∈ list, 0 < interval.stop ∧ interval.start < kDay) :
    cutFront (cutBack list) = list.flatMap fun interval => cutFrontOne (cutBackOne interval) := by
  rw [cutBack_eq_map h fun interval hi => (hinside interval hi).2]
  cases list with
  | nil => rfl
  | cons front list =>
    rw [List.map_cons, cutFront_eq_flatMap, ← List.map_cons, List.flatMap_map]
    intro cut hcut
    obtain ⟨interval, hi, rfl⟩ := List.mem_map.mp hcut
    have hlt := List.rel_of_pairwise_cons h.2 hi
    have hfront := (hinside front List.mem_cons_self).1
    exact cutBackOne_start (by omega) (hinside interval (List.mem_cons_of_mem _ hi)).2

theorem has_wholeDay {u : ℤ} : wholeDay.Has u ↔ 0 ≤ u ∧ u < kDay := Iff.rfl

theorem covers_cutFrontOne {front : WorkingInterval} {u : ℤ} :
    Covers (cutFrontOne front) u ↔ front.Has u ∧ ¬ OfDayBefore front ∧
      (0 < front.start ∨ 0 ≤ u ∧ u < kDay) := by
  rw [cutFrontOne]
  split_ifs with hstart hbefore hproper
  · exact iff_of_false (covers_nil u) fun h => h.2.1 hbefore
  · rw [covers_singleton, has_intersected, has_wholeDay]
    have : ¬ OfDayBefore front := hbefore
    grind
  · have hnone := not_has hproper u
    rw [has_intersected, has_wholeDay] at hnone
    refine iff_of_false (covers_nil u) ?_
    grind
  · rw [covers_singleton]
    have : ¬ OfDayBefore front := fun h => hstart h.1.le
    grind

theorem covers_shown {interval : WorkingInterval} {u : ℤ} (hstop : 0 < interval.stop)
    (hinside : interval.start < kDay) :
    Covers (cutFrontOne (cutBackOne interval)) u ↔ ShowsAt interval u := by
  rw [covers_cutFrontOne, cutBackOne]
  split_ifs with hwhole hlong
  · simp only [ShowsAt, OfDayBefore, wholeDay, Has, kInNextDayMax, kDay] at *
    omega
  · have hmeet : max interval.start wholeDay.start < min interval.stop wholeDay.stop := by
      simp only [wholeDay, kInNextDayMax, kDay] at *
      omega
    rw [intersected_eq hmeet]
    simp only [ShowsAt, OfDayBefore, wholeDay, Has, kInNextDayMax, kDay] at *
    omega
  · simp only [ShowsAt, OfDayBefore, Has, kInNextDayMax, kDay] at *
    omega

theorem extractDayIntervals_spec (intervals : List WorkingInterval) {dayIndex : ℤ}
    (hday : 0 ≤ dayIndex ∧ dayIndex < 7) :
    ∃ shown, extractDayIntervals intervals dayIndex = some shown ∧
      ∀ u, Covers shown u ↔ ∃ interval ∈ daysAround intervals dayIndex, ShowsAt interval u := by
  rw [extractDayIntervals, if_pos hday]
  refine ⟨_, rfl, ?_⟩
  intro u
  have hseparated := (normalized_separated (intervals.flatMap (aroundDay dayIndex))).filter
    fun interval => ¬ (interval.stop ≤ 0 ∨ kDay ≤ interval.start)
  have hinside : ∀ interval ∈ (normalized (intervals.flatMap (aroundDay dayIndex))).filter
      (fun interval => ¬ (interval.stop ≤ 0 ∨ kDay ≤ interval.start)),
      0 < interval.stop ∧ interval.start < kDay := by
    intro interval hi
    have hp := of_decide_eq_true (List.mem_filter.mp hi).2
    omega
  rw [cutFront_cutBack hseparated hinside, covers_flatMap]
  constructor
  · rintro ⟨interval, hi, hu⟩
    have hbounds := hinside interval hi
    exact ⟨interval, List.mem_of_mem_filter hi, (covers_shown hbounds.1 hbounds.2).mp hu⟩
  · rintro ⟨interval, hi, hu⟩
    have hstop : 0 < interval.stop := lt_of_le_of_lt hu.2.2.1 hu.1.2
    refine ⟨interval, List.mem_filter.mpr ⟨hi, ?_⟩, (covers_shown hstop hu.2.1).mpr hu⟩
    have hstart := hu.2.1
    exact decide_eq_true (by omega)

end TelegramDesktop.Data
