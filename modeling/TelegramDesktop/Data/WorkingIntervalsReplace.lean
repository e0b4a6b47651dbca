import TelegramDesktop.Data.WorkingIntervalsDay

namespace TelegramDesktop.Data

open WorkingInterval

/-- An interval that is left as it is although it reaches into the day. -/
def ClosesEarly (dayIndex lastStop : ℤ) (interval : WorkingInterval) : Prop :=
  interval.stop ≤ dayIndex * kDay + kInNextDayMax ∧
    (interval.start < dayIndex * kDay ∨
      dayIndex = 0 ∧ interval.start = dayIndex * kDay ∧ kWeek ≤ lastStop)

instance (dayIndex lastStop : ℤ) (interval : WorkingInterval) :
    Decidable (ClosesEarly dayIndex lastStop interval) := by
  unfold ClosesEarly
  infer_instance

/-- What `removeDayLoop` leaves of an interval. -/
def leftOf (dayIndex lastStop : ℤ) (interval : WorkingInterval) : List WorkingInterval :=
  if interval.stop ≤ dayIndex * kDay ∨ dayIndex * kDay + kDay ≤ interval.start then [interval]
  else if ClosesEarly dayIndex lastStop interval then [interval]
  else
    let first := interval.intersected ⟨0, dayIndex * kDay⟩
    let second := interval.intersected ⟨dayIndex * kDay + kDay, kWeek⟩
    if first.Proper then [first] else if second.Proper then [second] else []

/-- A second that is left of an interval. -/
def LeftAt (dayIndex lastStop : ℤ) (interval : WorkingInterval) (t : ℤ) : Prop :=
  interval.Has t ∧
    (interval.stop ≤ dayIndex * kDay ∨ dayIndex * kDay + kDay ≤ interval.start ∨
      ClosesEarly dayIndex lastStop interval ∨ t < dayIndex * kDay ∨
      dayIndex * kDay ≤ interval.start ∧ dayIndex * kDay + kDay ≤ t)

/-- The second part is lost, taken from the interval that the first part has replaced. -/
theorem second_of_first (interval : WorkingInterval) (dayIndex : ℤ) :
    ¬ ((interval.intersected ⟨0, dayIndex * kDay⟩).intersected
      ⟨dayIndex * kDay + kDay, kWeek⟩).Proper := by
  rw [proper_intersected]
  by_cases h : (interval.intersected ⟨0, dayIndex * kDay⟩).Proper
  · rw [(intersected_proper h).1]
    simp only [kDay]
    omega
  · rw [intersected_eq_empty (mt proper_intersected.mpr h)]
    simp only [kWeek, kDay]
    omega

theorem removeDayLoop_eq (dayIndex lastStop : ℤ) (done list : List WorkingInterval)
    (hlast : ∀ last, list.getLast? = some last → last.stop = lastStop) :
    removeDayLoop dayIndex done list [] = done ++ list.flatMap (leftOf dayIndex lastStop) := by
  induction list generalizing done with
  | nil => simp [removeDayLoop]
  | cons interval list ih =>
    have hback : ((interval :: (list ++ [])).getLastD {}).stop = lastStop := by
      apply hlast
      rw [List.append_nil, List.getLastD_eq_getLast?, List.getLast?_cons]
      rfl
    have hrest : ∀ last, list.getLast? = some last → last.stop = lastStop := by
      intro last h
      apply hlast
      rw [List.getLast?_cons, h]
      rfl
    have hstart : (wholeDay.shifted (dayIndex * kDay)).start = dayIndex * kDay := by
      simp [wholeDay, shifted]
    have hstop : (wholeDay.shifted (dayIndex * kDay)).stop = dayIndex * kDay + kDay := by
      simp [wholeDay, shifted, add_comm]
    rw [removeDayLoop, List.flatMap_cons, leftOf]
    simp only [hback, hstart, hstop, if_neg (second_of_first interval dayIndex), ih _ hrest,
      ClosesEarly]
    split_ifs <;> simp [*]

theorem covers_leftOf {dayIndex lastStop : ℤ} {interval : WorkingInterval}
    (hstart : 0 ≤ interval.start) (hend : interval.stop ≤ kWeek) (t : ℤ) :
    Covers (leftOf dayIndex lastStop interval) t ↔ LeftAt dayIndex lastStop interval t := by
  rw [leftOf]
  dsimp only
  split_ifs with hout hearly hfirst hsecond
  · rw [covers_singleton]
    simp only [LeftAt]
    grind
  · rw [covers_singleton]
    simp only [LeftAt]
    grind
  · rw [covers_singleton, has_intersected]
    rw [proper_intersected] at hfirst
    simp only [LeftAt, hearly, Has, false_or] at *
    omega
  · rw [covers_singleton, has_intersected]
    rw [proper_intersected] at hfirst
    simp only [LeftAt, hearly, Has, false_or] at *
    omega
  · refine iff_of_false (covers_nil t) ?_
    rw [proper_intersected] at hfirst hsecond
    simp only [LeftAt, hearly, Has, false_or] at *
    omega

/-- The second at which the last interval closes. -/
def lastStop (list : List WorkingInterval) : ℤ := (list.getLastD {}).stop

theorem le_lastStop {list : List WorkingInterval} (h : Separated list)
    {interval : WorkingInterval} (hi : interval ∈ list) : interval.stop ≤ lastStop list := by
  rcases List.eq_nil_or_concat list with rfl | ⟨init, back, rfl⟩
  · exact absurd hi List.not_mem_nil
  · rw [List.concat_eq_append] at h hi ⊢
    have hlast : lastStop (init ++ [back]) = back.stop := by simp [lastStop]
    have hproper := h.1 back (by simp)
    rw [hlast]
    rcases List.mem_append.mp hi with hi | hi
    · have hlt := h.lt_last hi
      simp only [Proper] at hproper
      omega
    · rw [List.mem_singleton.mp hi]

theorem covers_removeDayLoop {list : List WorkingInterval} (dayIndex : ℤ)
    (hbounds : ∀ interval ∈ list, 0 ≤ interval.start ∧ interval.stop ≤ kWeek) (t : ℤ) :
    Covers (removeDayLoop dayIndex [] list []) t ↔
      ∃ interval ∈ list, LeftAt dayIndex (lastStop list) interval t := by
  have hlast : ∀ last, list.getLast? = some last → last.stop = lastStop list := by
    intro last h
    rw [lastStop, List.getLastD_eq_getLast?, h]
    rfl
  rw [removeDayLoop_eq dayIndex (lastStop list) [] list hlast, List.nil_append, covers_flatMap]
  constructor
  · rintro ⟨interval, hi, ht⟩
    have hb := hbounds interval hi
    exact ⟨interval, hi, (covers_leftOf hb.1 hb.2 t).mp ht⟩
  · rintro ⟨interval, hi, ht⟩
    have hb := hbounds interval hi
    exact ⟨interval, hi, (covers_leftOf hb.1 hb.2 t).mpr ht⟩

/-- What `ReplaceDayIntervals` covers, from what is left and what is shown. -/
def RestoredAt (kept shown : ℤ → Prop) (dayIndex t : ℤ) : Prop :=
  kept t ∨ t < kWeek ∧ shown (t - dayIndex * kDay) ∨
    0 ≤ t ∧ shown (t + kWeek - dayIndex * kDay)

section Restore

variable {week around : List WorkingInterval} {dayIndex : ℤ}
  (hweek : Separated week) (hbounds : ∀ t, Covers week t → 0 ≤ t ∧ t < kWeek)
  (haround : Separated around)
  (hcomes : ∀ u, Covers around u ↔ (-kDay ≤ u ∧ u < 2 * kDay) ∧
    (Covers week (u + dayIndex * kDay) ∨ Covers week (u + dayIndex * kDay + kWeek) ∨
      Covers week (u + dayIndex * kDay - kWeek)))
  (hday : 0 ≤ dayIndex ∧ dayIndex < 7)

include hbounds in
theorem bounds_of_covers (hweek : Separated week) {interval : WorkingInterval}
    (hi : interval ∈ week) : 0 ≤ interval.start ∧ interval.stop ≤ kWeek := by
  have hstart := hbounds _ (hweek.covers_start hi)
  have hstop := hbounds _ (hweek.covers_last hi)
  omega

include hbounds hcomes hday in
/-- Nothing is added. -/
theorem covers_of_restored {t : ℤ}
    (h : RestoredAt (fun t => ∃ interval ∈ week, LeftAt dayIndex (lastStop week) interval t)
      (fun u => ∃ interval ∈ around, ShowsAt interval u) dayIndex t) : Covers week t := by
  have hlow : 0 ≤ dayIndex * kDay := by
    simp only [kDay]
    omega
  have hhigh : dayIndex * kDay + kDay ≤ kWeek := by
    simp only [kWeek, kDay]
    omega
  rcases h with ⟨interval, hi, hleft⟩ | ⟨ht, interval, hi, hshown⟩ | ⟨ht, interval, hi, hshown⟩
  · exact ⟨interval, hi, hleft.1⟩
  · have hcovers := (hcomes _).mp ⟨interval, hi, hshown.1⟩
    have hfirst : 0 ≤ t - dayIndex * kDay := hshown.2.2.1
    rw [sub_add_cancel] at hcovers
    rcases hcovers.2 with hcovers | hcovers | hcovers
    · exact hcovers
    · have hb := hbounds _ hcovers
      omega
    · have hb := hbounds _ hcovers
      omega
  · have hcovers := (hcomes _).mp ⟨interval, hi, hshown.1⟩
    rw [sub_add_cancel, add_sub_cancel_right] at hcovers
    rcases hcovers.2 with hcovers | hcovers | hcovers
    · have hb := hbounds _ hcovers
      omega
    · have hb := hbounds _ hcovers
      simp only [kWeek, kDay] at hb ht
      omega
    · exact hcovers

include hweek hbounds haround hcomes hday in
/-- An interval left to the day before is not cut from the week either. -/
theorem closesEarly_of_ofDayBefore {shown interval : WorkingInterval} {t : ℤ}
    (hshown : shown ∈ around) (hbefore : OfDayBefore shown) (hu : shown.Has (t - dayIndex * kDay))
    (hi : interval ∈ week) (ht : interval.Has t) (hinside : dayIndex * kDay ≤ t) :
    ClosesEarly dayIndex (lastStop week) interval := by
  have hlow : 0 ≤ dayIndex * kDay := by
    simp only [kDay]
    omega
  have hhigh : dayIndex * kDay + kDay ≤ kWeek := by
    simp only [kWeek, kDay]
    omega
  have hb := bounds_of_covers hbounds hweek hi
  obtain ⟨hneg, hstop, hstart⟩ := hbefore
  -- it cannot go on behind the interval that is shown
  have hend : interval.stop ≤ dayIndex * kDay + shown.stop := by
    by_contra hlt
    simp only [Has] at hu ht
    apply haround.not_covers_stop hshown
    apply (hcomes shown.stop).mpr
    refine ⟨?_, Or.inl ⟨interval, hi, ?_⟩⟩
    · simp only [kInNextDayMax, kDay] at hstop hstart ⊢
      omega
    · simp only [Has]
      omega
  have hcovered : ∀ x, dayIndex * kDay ≤ x → x ≤ t → Covers week x := by
    intro x hx hxt
    have hmem : Covers around (x - dayIndex * kDay) := by
      refine ⟨shown, hshown, ?_⟩
      simp only [Has] at hu ⊢
      omega
    rw [hcomes, sub_add_cancel] at hmem
    rcases hmem.2 with hmem | hmem | hmem
    · exact hmem
    · have hlast := hbounds _ hmem
      omega
    · have hlast := hbounds _ hmem
      simp only [Has] at ht
      omega
  have hfirst := hweek.start_le hi ht hcovered
  refine ⟨by omega, ?_⟩
  rcases lt_or_eq_of_le hfirst with hlt | heq
  · exact Or.inl hlt
  · right
    -- the second before the day is the last one of the week
    have hprev : Covers around (-1) := by
      refine ⟨shown, hshown, ?_⟩
      simp only [Has] at hu ⊢
      omega
    rw [hcomes] at hprev
    have hnone : ¬ Covers week (-1 + dayIndex * kDay) := by
      intro hcovers
      have hnot := hweek.not_covers_before hi
      rw [heq, sub_eq_add_neg, add_comm] at hnot
      exact hnot hcovers
    rcases hprev.2 with hprev | hprev | hprev
    · exact absurd hprev hnone
    · have hlast := hbounds _ hprev
      have hzero : dayIndex = 0 := by
        simp only [kWeek, kDay] at hlast
        omega
      refine ⟨hzero, heq, ?_⟩
      obtain ⟨last, hmem, hhas⟩ := hprev
      rw [hzero] at hhas
      have hle := le_lastStop hweek hmem
      simp only [Has] at hhas
      omega
    · have hlast := hbounds _ hprev
      omega

include hweek hbounds haround hcomes hday in
/-- Nothing is lost of an interval that does not go on at both ends of the day. -/
theorem restored_of_covers
    (hcut : ¬ ∃ interval ∈ week,
      interval.start < dayIndex * kDay ∧ dayIndex * kDay + kDay < interval.stop)
    {t : ℤ} (ht : Covers week t) :
    RestoredAt (fun t => ∃ interval ∈ week, LeftAt dayIndex (lastStop week) interval t)
      (fun u => ∃ interval ∈ around, ShowsAt interval u) dayIndex t := by
  obtain ⟨interval, hi, hhas⟩ := ht
  by_cases hleft : LeftAt dayIndex (lastStop week) interval t
  · exact Or.inl ⟨interval, hi, hleft⟩
  · rw [LeftAt, not_and] at hleft
    have hnot := hleft hhas
    simp only [not_or, not_and] at hnot
    obtain ⟨hafter, hbefore, hlate, hstart, hstop⟩ := hnot
    simp only [Has] at hhas
    have hinside : t < dayIndex * kDay + kDay := by
      by_contra hge
      exact hcut ⟨interval, hi, by omega, by omega⟩
    have hu : Covers around (t - dayIndex * kDay) := by
      rw [hcomes, sub_add_cancel]
      refine ⟨?_, Or.inl ⟨interval, hi, hhas⟩⟩
      simp only [kDay] at hstart hinside ⊢
      omega
    obtain ⟨shown, hshown, hmem⟩ := hu
    right; left
    have hb := hbounds t ⟨interval, hi, hhas⟩
    refine ⟨hb.2, shown, hshown, hmem, ?_, by omega, Or.inl (by omega), ?_⟩
    · simp only [Has] at hmem
      omega
    · intro hday_before
      exact hlate (closesEarly_of_ofDayBefore hweek hbounds haround hcomes hday hshown
        hday_before hmem hi hhas (by omega))

include hweek haround hcomes in
/-- Of an interval that goes on at both ends the second part is lost. -/
theorem not_restored {interval : WorkingInterval} (hi : interval ∈ week)
    (hstart : interval.start < dayIndex * kDay) (hstop : dayIndex * kDay + kDay < interval.stop) :
    ¬ RestoredAt (fun t => ∃ interval ∈ week, LeftAt dayIndex (lastStop week) interval t)
      (fun u => ∃ interval ∈ around, ShowsAt interval u) dayIndex (dayIndex * kDay + kDay) := by
  rintro (⟨other, hother, hleft⟩ | ⟨-, shown, hshown, hat⟩ | ⟨-, shown, hshown, hat⟩)
  · have hhas : interval.Has (dayIndex * kDay + kDay) := by
      have hlong : 0 < kDay := by decide
      simp only [Has]
      omega
    have heq := hweek.eq_of_has hother hi hleft.1 hhas
    subst heq
    simp only [LeftAt, ClosesEarly, Has, kInNextDayMax, kDay] at hleft hstart hstop
    omega
  · -- what is shown has to open within the day, but opens before it
    have hcovered : ∀ u, -1 ≤ u → u ≤ dayIndex * kDay + kDay - dayIndex * kDay →
        Covers around u := by
      intro u hlow hhigh
      rw [hcomes]
      refine ⟨?_, Or.inl ⟨interval, hi, ?_⟩⟩
      · simp only [kDay] at hhigh ⊢
        omega
      · constructor
        · omega
        · omega
    have hle := haround.start_le hshown hat.1 hcovered
    simp only [ShowsAt] at hat
    omega
  · have hrange := ((hcomes _).mp ⟨shown, hshown, hat.1⟩).1
    simp only [kWeek, kDay] at hrange
    omega

include hweek in
variable (dayIndex) in
theorem spans_iff : (∃ interval ∈ week,
      interval.start < dayIndex * kDay ∧ dayIndex * kDay + kDay < interval.stop) ↔
    ∀ t, dayIndex * kDay - 1 ≤ t → t ≤ dayIndex * kDay + kDay → Covers week t := by
  constructor
  · rintro ⟨interval, hi, hstart, hstop⟩ t hlow hhigh
    refine ⟨interval, hi, ?_⟩
    simp only [Has]
    omega
  · intro h
    have hlong : dayIndex * kDay - 1 ≤ dayIndex * kDay + kDay := by
      simp only [kDay]
      omega
    obtain ⟨interval, hi, hhas⟩ := h _ le_rfl hlong
    have hstop := hweek.lt_stop hi hhas h
    simp only [Has] at hhas
    exact ⟨interval, hi, by omega, hstop⟩

end Restore

/-- Intervals inside the week and the day after it. -/
def Inside (intervals : List WorkingInterval) : Prop :=
  ∀ interval ∈ intervals, 0 ≤ interval.start ∧ interval.stop ≤ kWeek + kDay

theorem Inside.bounds {intervals : List WorkingInterval} (h : Inside intervals) (t : ℤ)
    (ht : Covers intervals t) : 0 ≤ t ∧ t < kWeek + kDay := by
  obtain ⟨interval, hi, hhas⟩ := ht
  have hb := h interval hi
  simp only [Has] at hhas
  omega

theorem Inside.covers_normalized {intervals : List WorkingInterval} (h : Inside intervals)
    (t : ℤ) : Covers (normalized intervals) t ↔ CoversInWeek intervals t :=
  Data.covers_normalized (fun t ht => (h.bounds t ht).2) t

theorem Inside.week_bounds {intervals : List WorkingInterval} (h : Inside intervals) (t : ℤ)
    (ht : Covers (normalized intervals) t) : 0 ≤ t ∧ t < kWeek := by
  rw [h.covers_normalized, CoversInWeek] at ht
  have hnow := h.bounds t
  have hlater := h.bounds (t + kWeek)
  simp only [kWeek, kDay] at *
  grind

theorem Inside.comes_around {intervals : List WorkingInterval} (h : Inside intervals)
    {dayIndex : ℤ} (hday : 0 ≤ dayIndex ∧ dayIndex < 7) (u : ℤ) :
    Covers (daysAround intervals dayIndex) u ↔ (-kDay ≤ u ∧ u < 2 * kDay) ∧
      (Covers (normalized intervals) (u + dayIndex * kDay) ∨
        Covers (normalized intervals) (u + dayIndex * kDay + kWeek) ∨
        Covers (normalized intervals) (u + dayIndex * kDay - kWeek)) := by
  simp only [h.covers_normalized]
  exact covers_daysAround h.bounds hday u

/-- What is covered after a day has been replaced. -/
theorem Inside.covers_replace {intervals : List WorkingInterval} (h : Inside intervals)
    {dayIndex : ℤ} (hday : 0 ≤ dayIndex ∧ dayIndex < 7) {replacement : List WorkingInterval}
    (hreplacement : ∀ u, Covers replacement u → u < 2 * kDay) (t : ℤ) :
    Covers (replaceDayIntervals intervals dayIndex replacement) t ↔
      RestoredAt (fun t => ∃ interval ∈ normalized intervals,
        LeftAt dayIndex (lastStop (normalized intervals)) interval t) (Covers replacement)
          dayIndex t := by
  have hlow : 0 ≤ dayIndex * kDay := by
    simp only [kDay]
    omega
  have hhigh : dayIndex * kDay + kDay ≤ kWeek := by
    simp only [kWeek, kDay]
    omega
  have hweek := normalized_separated intervals
  have hleft := covers_removeDayLoop dayIndex
    fun _ hi => bounds_of_covers h.week_bounds hweek hi
  have hleft_bounds : ∀ t, Covers (removeDayLoop dayIndex [] (normalized intervals) []) t →
      0 ≤ t ∧ t < kWeek := by
    intro t ht
    obtain ⟨interval, hi, hat⟩ := (hleft t).mp ht
    exact h.week_bounds t ⟨interval, hi, hat.1⟩
  have hremove : ∀ t, Covers (removeDayIntervals intervals dayIndex) t ↔
      Covers (removeDayLoop dayIndex [] (normalized intervals) []) t := by
    intro t
    have hnow := hleft_bounds t
    have hlater := hleft_bounds (t + kWeek)
    rw [removeDayIntervals, Data.covers_normalized, CoversInWeek]
    · simp only [kWeek, kDay] at *
      grind
    · intro t ht
      have hb := hleft_bounds t ht
      simp only [kWeek, kDay] at hb ⊢
      omega
  rw [replaceDayIntervals, Data.covers_normalized, CoversInWeek, covers_append, covers_append,
    covers_shifted, covers_shifted, hremove, hremove, RestoredAt, ← hleft]
  · have hnow := hleft_bounds t
    have hlater := hleft_bounds (t + kWeek)
    simp only [kWeek, kDay] at *
    grind
  · intro u hu
    rw [covers_append, covers_shifted, hremove] at hu
    rcases hu with hu | hu
    · have hb := hleft_bounds u hu
      simp only [kWeek, kDay] at hb ⊢
      omega
    · have hb := hreplacement _ hu
      omega

/-- What is covered after a day has been read and written back. -/
theorem covers_replace_extract {intervals : List WorkingInterval} (h : Inside intervals)
    {dayIndex : ℤ} (hday : 0 ≤ dayIndex ∧ dayIndex < 7) :
    ∃ shown, extractDayIntervals intervals dayIndex = some shown ∧
      ∀ t, Covers (replaceDayIntervals intervals dayIndex shown) t ↔
        RestoredAt (fun t => ∃ interval ∈ normalized intervals,
            LeftAt dayIndex (lastStop (normalized intervals)) interval t)
          (fun u => ∃ interval ∈ daysAround intervals dayIndex, ShowsAt interval u) dayIndex t := by
  obtain ⟨shown, hextract, hshown⟩ := extractDayIntervals_spec intervals hday
  refine ⟨shown, hextract, ?_⟩
  intro t
  have hshown_bounds : ∀ u, Covers shown u → u < 2 * kDay := by
    intro u hu
    obtain ⟨interval, hi, hat⟩ := (hshown u).mp hu
    exact ((h.comes_around hday u).mp ⟨interval, hi, hat.1⟩).1.2
  rw [h.covers_replace hday hshown_bounds, RestoredAt, RestoredAt, ← hshown, ← hshown]

/-- A day that was read is written back unchanged exactly when the hours do not go on from before
the day until after it without a break. -/
theorem replace_extract_iff (intervals : List WorkingInterval) (dayIndex : ℤ)
    (hinside : ∀ interval ∈ intervals, 0 ≤ interval.start ∧ interval.stop ≤ kWeek + kDay)
    (hday : 0 ≤ dayIndex ∧ dayIndex < 7) :
    ∃ shown, extractDayIntervals intervals dayIndex = some shown ∧
      ((∀ t, Covers (replaceDayIntervals intervals dayIndex shown) t ↔
          Covers (normalized intervals) t) ↔
        ∃ t, dayIndex * kDay - 1 ≤ t ∧ t ≤ dayIndex * kDay + kDay ∧
          ¬ CoversInWeek intervals t) := by
  have h : Inside intervals := hinside
  have hweek := normalized_separated intervals
  have haround : Separated (daysAround intervals dayIndex) := normalized_separated _
  obtain ⟨shown, hextract, hcovers⟩ := covers_replace_extract h hday
  refine ⟨shown, hextract, ?_⟩
  have hspans := spans_iff dayIndex hweek
  constructor
  · intro hsame
    by_contra hnone
    simp only [not_exists, not_and, not_not] at hnone
    obtain ⟨interval, hi, hstart, hstop⟩ := hspans.mpr fun t hlow hhigh =>
      (h.covers_normalized t).mpr (hnone t hlow hhigh)
    have hlost := not_restored hweek haround (h.comes_around hday) hi hstart hstop
    rw [← hcovers, hsame] at hlost
    apply hlost
    have hlong : 0 < kDay := by decide
    refine ⟨interval, hi, ?_⟩
    simp only [Has]
    omega
  · rintro ⟨t, hlow, hhigh, hopen⟩ second
    rw [hcovers]
    refine ⟨covers_of_restored h.week_bounds (h.comes_around hday) hday, ?_⟩
    apply restored_of_covers hweek h.week_bounds haround (h.comes_around hday) hday
    intro hlong
    exact hopen ((h.covers_normalized t).mp (hspans.mp hlong t hlow hhigh))

theorem replace_extract_iff_workday :
    ∃ shown, extractDayIntervals [⟨kDay + 9 * 3600, kDay + 18 * 3600⟩] 1 = some shown ∧
      ((∀ t, Covers (replaceDayIntervals [⟨kDay + 9 * 3600, kDay + 18 * 3600⟩] 1 shown) t ↔
          Covers (normalized [⟨kDay + 9 * 3600, kDay + 18 * 3600⟩]) t) ↔
        ∃ t, 1 * kDay - 1 ≤ t ∧ t ≤ 1 * kDay + kDay ∧
          ¬ CoversInWeek [⟨kDay + 9 * 3600, kDay + 18 * 3600⟩] t) :=
  replace_extract_iff [⟨kDay + 9 * 3600, kDay + 18 * 3600⟩] 1 (by decide) (by decide)

/-- Open for three days: writing back the second one closes the third. -/
theorem third_day_lost : ¬ ∀ (intervals : List WorkingInterval) (dayIndex : ℤ),
    (∀ interval ∈ intervals, 0 ≤ interval.start ∧ interval.stop ≤ kWeek + kDay) →
    0 ≤ dayIndex ∧ dayIndex < 7 →
    ∃ shown, extractDayIntervals intervals dayIndex = some shown ∧
      ∀ t, Covers (replaceDayIntervals intervals dayIndex shown) t ↔
        Covers (normalized intervals) t := by
  intro hclaim
  have h : Inside [⟨0, 3 * kDay⟩] := by
    unfold Inside
    decide
  have hday : (0 : ℤ) ≤ 1 ∧ (1 : ℤ) < 7 := by decide
  obtain ⟨shown, hextract, hsame⟩ := hclaim [⟨0, 3 * kDay⟩] 1 h hday
  obtain ⟨shown', hextract', hcovers⟩ := covers_replace_extract h hday
  obtain rfl : shown = shown' := Option.some_inj.mp (hextract.symm.trans hextract')
  have hopen : ∀ t, 1 * kDay - 1 ≤ t → t ≤ 1 * kDay + kDay →
      Covers (normalized [⟨0, 3 * kDay⟩]) t := by
    intro t hlow hhigh
    rw [h.covers_normalized]
    left
    refine ⟨?_, covers_singleton.mpr ?_⟩
    · simp only [kWeek, kDay] at hhigh ⊢
      omega
    · simp only [Has, kDay] at hlow hhigh ⊢
      omega
  have hweek := normalized_separated [⟨0, 3 * kDay⟩]
  obtain ⟨interval, hi, hstart, hstop⟩ := (spans_iff 1 hweek).mpr hopen
  have haround : Separated (daysAround [⟨0, 3 * kDay⟩] 1) := normalized_separated _
  have hlost := not_restored hweek haround (h.comes_around hday) hi hstart hstop
  rw [← hcovers, hsame] at hlost
  exact hlost (hopen _ (by decide) le_rfl)

/-- What is left of a second outside the day. -/
theorem leftAt_iff {week : List WorkingInterval} (hweek : Separated week)
    {dayIndex t : ℤ} (lastStop : ℤ)
    (houtside : t < dayIndex * kDay ∨ dayIndex * kDay + kDay ≤ t) :
    (∃ interval ∈ week, LeftAt dayIndex lastStop interval t) ↔
      Covers week t ∧ (dayIndex * kDay + kDay ≤ t →
        ∃ x, dayIndex * kDay - 1 ≤ x ∧ x ≤ t ∧ ¬ Covers week x) := by
  constructor
  · rintro ⟨interval, hi, hhas, hleft⟩
    refine ⟨⟨interval, hi, hhas⟩, fun hafter => ?_⟩
    have hstart : dayIndex * kDay ≤ interval.start := by
      simp only [Has] at hhas
      simp only [ClosesEarly, kInNextDayMax, kDay] at hleft hafter ⊢
      omega
    refine ⟨interval.start - 1, by omega, ?_, hweek.not_covers_before hi⟩
    simp only [Has] at hhas
    omega
  · rintro ⟨⟨interval, hi, hhas⟩, hbreak⟩
    refine ⟨interval, hi, hhas, ?_⟩
    rcases houtside with hbefore | hafter
    · exact Or.inr (Or.inr (Or.inr (Or.inl hbefore)))
    · obtain ⟨x, hlow, hhigh, hx⟩ := hbreak hafter
      -- the interval cannot reach back over a second that is not covered
      have hstart : x < interval.start := by
        by_contra hle
        refine hx ⟨interval, hi, ?_⟩
        simp only [Has] at hhas ⊢
        omega
      exact Or.inr (Or.inr (Or.inr (Or.inr ⟨by omega, hafter⟩)))

/-- Outside the replacement only what is left of the week counts. -/
theorem Inside.covers_outside {intervals : List WorkingInterval} (h : Inside intervals)
    {dayIndex : ℤ} (hday : 0 ≤ dayIndex ∧ dayIndex < 7) {replacement : List WorkingInterval}
    (hreplacement : ∀ u, Covers replacement u → u < 2 * kDay) {t : ℤ}
    (hstart : 0 ≤ t) (hend : t < kWeek)
    (hout : ¬ CoversInWeek (replacement.map fun interval => interval.shifted (dayIndex * kDay)) t) :
    CoversInWeek (replaceDayIntervals intervals dayIndex replacement) t ↔
      ∃ interval ∈ normalized intervals,
        LeftAt dayIndex (lastStop (normalized intervals)) interval t := by
  have hlow : 0 ≤ dayIndex * kDay := by
    simp only [kDay]
    omega
  have hreplace := h.covers_replace hday hreplacement
  have hbounds : ∀ t, Covers (replaceDayIntervals intervals dayIndex replacement) t →
      t < kWeek := by
    intro t ht
    rcases (hreplace t).mp ht with ⟨interval, hi, hleft⟩ | hshown | ⟨-, hshown⟩
    · exact (h.week_bounds t ⟨interval, hi, hleft.1⟩).2
    · exact hshown.1
    · have hb := hreplacement _ hshown
      simp only [kWeek, kDay] at hb ⊢
      omega
  rw [CoversInWeek, covers_shifted, covers_shifted] at hout
  rw [CoversInWeek, hreplace t, RestoredAt]
  constructor
  · rintro (⟨-, hleft | hshown⟩ | ⟨-, hwrapped⟩)
    · exact hleft
    · exact absurd hshown hout
    · have hb := hbounds _ hwrapped
      omega
  · exact fun hleft => Or.inl ⟨hend, Or.inl hleft⟩

/-- Editing a day leaves the other seconds alone exactly when none of them, behind the day and not
covered by the replacement, is reached without a break from before the day. -/
theorem replace_others_iff (intervals : List WorkingInterval) (dayIndex : ℤ)
    (replacement : List WorkingInterval)
    (hinside : ∀ interval ∈ intervals, 0 ≤ interval.start ∧ interval.stop ≤ kWeek + kDay)
    (hday : 0 ≤ dayIndex ∧ dayIndex < 7)
    (hreplacement : ∀ interval ∈ replacement,
      0 ≤ interval.start ∧ interval.stop ≤ kDay + kInNextDayMax) :
    (∀ t, 0 ≤ t → t < kWeek → ¬ (dayIndex * kDay ≤ t ∧ t < (dayIndex + 1) * kDay) →
        ¬ CoversInWeek (replacement.map fun interval => interval.shifted (dayIndex * kDay)) t →
        (CoversInWeek (replaceDayIntervals intervals dayIndex replacement) t ↔
          CoversInWeek intervals t)) ↔
      ∀ t, (dayIndex + 1) * kDay ≤ t → t < kWeek →
        ¬ CoversInWeek (replacement.map fun interval => interval.shifted (dayIndex * kDay)) t →
        ∃ x, dayIndex * kDay - 1 ≤ x ∧ x ≤ t ∧ ¬ CoversInWeek intervals x := by
  have h : Inside intervals := hinside
  have hweek := normalized_separated intervals
  have hnext : (dayIndex + 1) * kDay = dayIndex * kDay + kDay := by
    rw [add_mul, one_mul]
  have hlow : 0 ≤ dayIndex * kDay := by
    simp only [kDay]
    omega
  have hcovered : ∀ u, Covers replacement u → u < 2 * kDay := by
    rintro u ⟨interval, hi, hhas⟩
    have hb := hreplacement interval hi
    simp only [Has] at hhas
    simp only [kDay, kInNextDayMax] at hb ⊢
    omega
  simp only [← h.covers_normalized]
  rw [hnext]
  constructor
  · intro hsame t hafter hend hout
    by_cases hopen : Covers (normalized intervals) t
    · have hstart : 0 ≤ t := by
        simp only [kDay] at hlow hafter
        omega
      have hkept := (hsame t hstart hend (by omega) hout).mpr hopen
      have hleft := (h.covers_outside hday hcovered hstart hend hout).mp hkept
      exact ((leftAt_iff hweek _ (Or.inr hafter)).mp hleft).2 hafter
    · exact ⟨t, by simp only [kDay] at hafter ⊢; omega, le_rfl, hopen⟩
  · intro hbreak t hstart hend houtside hout
    have hcases : t < dayIndex * kDay ∨ dayIndex * kDay + kDay ≤ t := by omega
    rw [h.covers_outside hday hcovered hstart hend hout, leftAt_iff hweek _ hcases]
    exact and_iff_left_of_imp fun _ hafter => hbreak t hafter hend hout

theorem replace_others_iff_workday :
    (∀ t, 0 ≤ t → t < kWeek → ¬ (1 * kDay ≤ t ∧ t < (1 + 1) * kDay) →
        ¬ CoversInWeek ([WorkingInterval.mk 0 3600].map fun interval =>
          interval.shifted (1 * kDay)) t →
        (CoversInWeek (replaceDayIntervals [⟨0, 9 * 3600⟩] 1 [⟨0, 3600⟩]) t ↔
          CoversInWeek [⟨0, 9 * 3600⟩] t)) ↔
      ∀ t, (1 + 1) * kDay ≤ t → t < kWeek →
        ¬ CoversInWeek ([WorkingInterval.mk 0 3600].map fun interval =>
          interval.shifted (1 * kDay)) t →
        ∃ x, 1 * kDay - 1 ≤ x ∧ x ≤ t ∧ ¬ CoversInWeek [⟨0, 9 * 3600⟩] x :=
  replace_others_iff [⟨0, 9 * 3600⟩] 1 [⟨0, 3600⟩] (by decide) (by decide) (by decide)

/-- Open for three days: closing the second one closes the third, too. -/
theorem replace_closes_others : ¬ ∀ (intervals : List WorkingInterval) (dayIndex : ℤ)
    (replacement : List WorkingInterval),
    (∀ interval ∈ intervals, 0 ≤ interval.start ∧ interval.stop ≤ kWeek + kDay) →
    0 ≤ dayIndex ∧ dayIndex < 7 →
    (∀ interval ∈ replacement, 0 ≤ interval.start ∧ interval.stop ≤ kDay + kInNextDayMax) →
    ∀ t, 0 ≤ t → t < kWeek → ¬ (dayIndex * kDay ≤ t ∧ t < (dayIndex + 1) * kDay) →
      ¬ CoversInWeek (replacement.map fun interval => interval.shifted (dayIndex * kDay)) t →
      (CoversInWeek (replaceDayIntervals intervals dayIndex replacement) t ↔
        CoversInWeek intervals t) := by
  intro hclaim
  have hinside : Inside [⟨0, 3 * kDay⟩] := by
    unfold Inside
    decide
  have hopen : ∀ x, 0 ≤ x → x < 3 * kDay → CoversInWeek [⟨0, 3 * kDay⟩] x := by
    intro x hstart hend
    refine Or.inl ⟨?_, covers_singleton.mpr ⟨hstart, hend⟩⟩
    simp only [kWeek, kDay] at hend ⊢
    omega
  have hlong : 2 * kDay < 3 * kDay := by decide
  have hout : ¬ CoversInWeek (([] : List WorkingInterval).map fun interval =>
      interval.shifted (1 * kDay)) (2 * kDay) := by
    simp [CoversInWeek, Covers]
  have hsame := hclaim [⟨0, 3 * kDay⟩] 1 [] hinside (by decide) (by decide) (2 * kDay) (by decide)
    (by decide) (by decide) hout
  have hkept := (hinside.covers_outside (by decide) (fun u hu => absurd hu (covers_nil u))
    (by decide) (by decide) hout).mp (hsame.mpr (hopen _ (by decide) hlong))
  obtain ⟨x, hlow, hhigh, hclosed⟩ :=
    ((leftAt_iff (normalized_separated _) _ (Or.inr (by decide))).mp hkept).2 (by decide)
  refine hclosed ((hinside.covers_normalized x).mpr (hopen x ?_ (hhigh.trans_lt hlong)))
  simp only [kDay] at hlow
  omega

end TelegramDesktop.Data
