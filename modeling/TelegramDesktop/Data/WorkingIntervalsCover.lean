import TelegramDesktop.Data.WorkingIntervals

namespace TelegramDesktop.Data

open WorkingInterval

/-- The seconds of an interval. -/
def WorkingInterval.Has (interval : WorkingInterval) (t : ℤ) : Prop :=
  interval.start ≤ t ∧ t < interval.stop

def Covers (list : List WorkingInterval) (t : ℤ) : Prop := ∃ interval ∈ list, interval.Has t

/-- The seconds of the week, with the tail of the last day at the beginning. -/
def CoversInWeek (list : List WorkingInterval) (t : ℤ) : Prop :=
  t < kWeek ∧ Covers list t ∨ 0 ≤ t ∧ Covers list (t + kWeek)

/-- Proper intervals in order, with a gap between any two of them. -/
def Separated (list : List WorkingInterval) : Prop :=
  (∀ interval ∈ list, interval.Proper) ∧ list.Pairwise fun a b => a.stop < b.start

theorem covers_nil (t : ℤ) : ¬ Covers [] t := by
  simp [Covers]

theorem covers_cons {interval : WorkingInterval} {list : List WorkingInterval} {t : ℤ} :
    Covers (interval :: list) t ↔ interval.Has t ∨ Covers list t := by
  simp [Covers]

theorem covers_append {list list' : List WorkingInterval} {t : ℤ} :
    Covers (list ++ list') t ↔ Covers list t ∨ Covers list' t := by
  simp [Covers, or_and_right, exists_or]

theorem covers_singleton {interval : WorkingInterval} {t : ℤ} :
    Covers [interval] t ↔ interval.Has t := by
  simp [Covers]

theorem covers_flatMap {list : List WorkingInterval}
    {f : WorkingInterval → List WorkingInterval} {t : ℤ} :
    Covers (list.flatMap f) t ↔ ∃ interval ∈ list, Covers (f interval) t := by
  simp only [Covers, List.mem_flatMap]
  constructor
  · rintro ⟨part, ⟨interval, hinterval, hpart⟩, ht⟩
    exact ⟨interval, hinterval, part, hpart, ht⟩
  · rintro ⟨interval, hinterval, part, hpart, ht⟩
    exact ⟨part, ⟨interval, hinterval, hpart⟩, ht⟩

theorem covers_shifted {list : List WorkingInterval} {offset t : ℤ} :
    Covers (list.map fun interval => interval.shifted offset) t ↔ Covers list (t - offset) := by
  have hhas : ∀ interval : WorkingInterval,
      (interval.shifted offset).Has t ↔ interval.Has (t - offset) := by
    intro interval
    simp only [Has, shifted]
    omega
  simp [Covers, hhas]

theorem has_intersected {a b : WorkingInterval} {t : ℤ} :
    (a.intersected b).Has t ↔ a.Has t ∧ b.Has t := by
  by_cases h : max a.start b.start < min a.stop b.stop
  · rw [intersected_eq h]
    simp only [Has]
    omega
  · rw [intersected_eq_empty h]
    simp only [Has]
    omega

theorem Has.proper {interval : WorkingInterval} {t : ℤ} (h : interval.Has t) :
    interval.Proper := by
  simp only [Has] at h
  simp only [Proper]
  omega

/-- A kept part adds its seconds, whether or not an empty one is dropped. -/
theorem covers_ite_proper {interval : WorkingInterval} {t : ℤ} :
    Covers (if interval.Proper then [interval] else []) t ↔ interval.Has t := by
  split_ifs with h
  · exact covers_singleton
  · exact iff_of_false (covers_nil t) fun ht => h (Has.proper ht)

theorem Separated.tail {interval : WorkingInterval} {list : List WorkingInterval}
    (h : Separated (interval :: list)) : Separated list :=
  ⟨fun other hother => h.1 other (List.mem_cons_of_mem _ hother), h.2.of_cons⟩

theorem Separated.filter {list : List WorkingInterval} (h : Separated list)
    (p : WorkingInterval → Bool) : Separated (list.filter p) :=
  ⟨fun interval hi => h.1 interval (List.mem_of_mem_filter hi), h.2.filter p⟩

/-- Two intervals of a separated list are equal or apart. -/
theorem Separated.eq_or_apart {list : List WorkingInterval} (h : Separated list)
    {a b : WorkingInterval} (ha : a ∈ list) (hb : b ∈ list) :
    a = b ∨ a.stop < b.start ∨ b.stop < a.start := by
  by_cases hab : a = b
  · exact Or.inl hab
  · have hsymm : Std.Symm fun a b : WorkingInterval => a.stop < b.start ∨ b.stop < a.start :=
      ⟨fun _ _ h => h.symm⟩
    have hpair : list.Pairwise fun a b => a.stop < b.start ∨ b.stop < a.start :=
      h.2.imp fun hlt => Or.inl hlt
    exact Or.inr (hpair.forall ha hb hab)

theorem Separated.eq_of_has {list : List WorkingInterval} (h : Separated list)
    {a b : WorkingInterval} (ha : a ∈ list) (hb : b ∈ list) {t : ℤ} (hta : a.Has t)
    (htb : b.Has t) : a = b := by
  rcases h.eq_or_apart ha hb with hab | hab | hab
  · exact hab
  · simp only [Has] at hta htb
    omega
  · simp only [Has] at hta htb
    omega

/-- The second at the end of an interval is not covered. -/
theorem Separated.not_covers_stop {list : List WorkingInterval} (h : Separated list)
    {a : WorkingInterval} (ha : a ∈ list) : ¬ Covers list a.stop := by
  rintro ⟨b, hb, hstop⟩
  have hcases := h.eq_or_apart ha hb
  have hproper := h.1 a ha
  simp only [Has, Proper] at hstop hproper
  rcases hcases with rfl | hcases | hcases <;> omega

/-- The second before an interval is not covered. -/
theorem Separated.not_covers_before {list : List WorkingInterval} (h : Separated list)
    {a : WorkingInterval} (ha : a ∈ list) : ¬ Covers list (a.start - 1) := by
  rintro ⟨b, hb, hstart⟩
  have hcases := h.eq_or_apart ha hb
  have hproper := h.1 a ha
  simp only [Has, Proper] at hstart hproper
  rcases hcases with rfl | hcases | hcases <;> omega

/-- An interval goes on for as long as the seconds are covered. -/
theorem Separated.lt_stop {list : List WorkingInterval} (h : Separated list)
    {a : WorkingInterval} (ha : a ∈ list) {t u : ℤ} (ht : a.Has t)
    (hcovered : ∀ x, t ≤ x → x ≤ u → Covers list x) : u < a.stop := by
  by_contra hu
  simp only [Has] at ht
  exact h.not_covers_stop ha (hcovered a.stop (by omega) (by omega))

theorem Separated.start_le {list : List WorkingInterval} (h : Separated list)
    {a : WorkingInterval} (ha : a ∈ list) {t u : ℤ} (hu : a.Has u)
    (hcovered : ∀ x, t ≤ x → x ≤ u → Covers list x) : a.start ≤ t := by
  by_contra ht
  simp only [Has] at hu
  exact h.not_covers_before ha (hcovered (a.start - 1) (by omega) (by omega))

theorem Separated.covers_start {list : List WorkingInterval} (h : Separated list)
    {a : WorkingInterval} (ha : a ∈ list) : Covers list a.start :=
  ⟨a, ha, le_rfl, h.1 a ha⟩

theorem Separated.covers_last {list : List WorkingInterval} (h : Separated list)
    {a : WorkingInterval} (ha : a ∈ list) : Covers list (a.stop - 1) := by
  have hproper := h.1 a ha
  simp only [Proper] at hproper
  exact ⟨a, ha, by omega, by omega⟩

theorem has_united {a b : WorkingInterval} (ha : a.Proper) (hb : b.Proper)
    (hfirst : a.start ≤ b.start) (hmeet : b.start ≤ a.stop) {t : ℤ} :
    (a.united b).Has t ↔ a.Has t ∨ b.Has t := by
  rw [united, if_neg (not_not.mpr ha), if_neg (not_not.mpr hb)]
  simp only [Proper] at ha hb
  simp only [Has]
  omega

theorem united_proper {a b : WorkingInterval} (ha : a.Proper) (hb : b.Proper) :
    (a.united b).Proper := by
  rw [united, if_neg (not_not.mpr ha), if_neg (not_not.mpr hb)]
  simp only [Proper] at ha hb ⊢
  omega

theorem united_start {a b : WorkingInterval} (ha : a.Proper) (hb : b.Proper)
    (hfirst : a.start ≤ b.start) : (a.united b).start = a.start := by
  rw [united, if_neg (not_not.mpr ha), if_neg (not_not.mpr hb)]
  exact min_eq_left hfirst

theorem not_has {interval : WorkingInterval} (h : ¬ interval.Proper) (t : ℤ) :
    ¬ interval.Has t :=
  fun ht => h (Has.proper ht)

/-- The list behind a kept interval is merged into it or separated from it. -/
theorem mergeInto_spec (last : WorkingInterval) (list : List WorkingInterval)
    (hlast : last.Proper) (hfirst : ∀ next ∈ list, last.start ≤ next.start)
    (hsorted : list.Pairwise fun a b => a.start ≤ b.start) :
    Separated (mergeInto last list) ∧
      (∀ interval ∈ mergeInto last list, last.start ≤ interval.start) ∧
      ∀ t, Covers (mergeInto last list) t ↔ last.Has t ∨ Covers list t := by
  induction list generalizing last with
  | nil =>
    refine ⟨⟨?_, List.pairwise_singleton _ _⟩, ?_, ?_⟩
    · simpa [mergeInto] using hlast
    · simp [mergeInto]
    · intro t
      rw [mergeInto, covers_cons]
  | cons next list ih =>
    have hnext := hfirst next List.mem_cons_self
    have hrest := fun other h => hfirst other (List.mem_cons_of_mem next h)
    have hover : ∀ other ∈ list, next.start ≤ other.start :=
      fun _ h => List.rel_of_pairwise_cons hsorted h
    rw [mergeInto]
    split_ifs with hmeet hproper
    · have hstart := united_start hlast hmeet.1 hnext
      have hspec := ih (last.united next) (united_proper hlast hmeet.1)
        (by rw [hstart]; exact hrest) hsorted.of_cons
      rw [hstart] at hspec
      refine ⟨hspec.1, hspec.2.1, ?_⟩
      intro t
      rw [hspec.2.2 t, has_united hlast hmeet.1 hnext hmeet.2.2, covers_cons, or_assoc]
    · have hspec := ih next hproper hover hsorted.of_cons
      have hapart : last.stop < next.start := by
        by_contra hlt
        exact hmeet ⟨hproper, hlast, not_lt.mp hlt⟩
      refine ⟨⟨?_, ?_⟩, ?_, ?_⟩
      · intro interval hi
        rcases List.mem_cons.mp hi with rfl | hi
        · exact hlast
        · exact hspec.1.1 interval hi
      · apply List.pairwise_cons.mpr ⟨?_, hspec.1.2⟩
        intro interval hi
        have hle := hspec.2.1 interval hi
        omega
      · intro interval hi
        rcases List.mem_cons.mp hi with rfl | hi
        · exact le_rfl
        · have hle := hspec.2.1 interval hi
          omega
      · intro t
        rw [covers_cons, hspec.2.2 t, covers_cons]
    · have hspec := ih last hlast hrest hsorted.of_cons
      refine ⟨hspec.1, hspec.2.1, ?_⟩
      intro t
      rw [hspec.2.2 t, covers_cons, or_iff_right (not_has hproper t)]

theorem mergeSorted_spec (list : List WorkingInterval)
    (hsorted : list.Pairwise fun a b => a.start ≤ b.start) :
    Separated (mergeSorted list) ∧ ∀ t, Covers (mergeSorted list) t ↔ Covers list t := by
  induction list with
  | nil => exact ⟨⟨by simp [mergeSorted], List.Pairwise.nil⟩, fun t => Iff.rfl⟩
  | cons first list ih =>
    rw [mergeSorted]
    split_ifs with hproper
    · have hspec := mergeInto_spec first list hproper
        (fun other h => List.rel_of_pairwise_cons hsorted h) hsorted.of_cons
      refine ⟨hspec.1, ?_⟩
      intro t
      rw [hspec.2.2 t, covers_cons]
    · have hspec := ih hsorted.of_cons
      refine ⟨hspec.1, ?_⟩
      intro t
      rw [hspec.2 t, covers_cons, or_iff_right (not_has hproper t)]

theorem sortAndMerge_spec (list : List WorkingInterval) :
    Separated (sortAndMerge list) ∧ ∀ t, Covers (sortAndMerge list) t ↔ Covers list t := by
  have htotal : Std.Total fun a b : WorkingInterval => a.start ≤ b.start :=
    ⟨fun a b => le_total a.start b.start⟩
  have htrans : IsTrans WorkingInterval fun a b => a.start ≤ b.start :=
    ⟨fun _ _ _ => le_trans⟩
  have hspec := mergeSorted_spec _
    (List.pairwise_insertionSort (fun a b : WorkingInterval => a.start ≤ b.start) list)
  refine ⟨hspec.1, ?_⟩
  intro t
  rw [sortAndMerge, hspec.2 t]
  simp only [Covers, List.mem_insertionSort]

theorem has_tail {interval : WorkingInterval}
    (hstop : interval.stop ≤ kWeek + kDay) (t : ℤ) :
    ((interval.intersected afterWeek).shifted (-kWeek)).Has t ↔
      0 ≤ t ∧ interval.Has (t + kWeek) := by
  have hhas : ((interval.intersected afterWeek).shifted (-kWeek)).Has t ↔
      (interval.intersected afterWeek).Has (t + kWeek) := by
    simp only [Has, shifted]
    omega
  rw [hhas, has_intersected]
  simp only [Has, afterWeek]
  omega

theorem covers_withoutTail {interval : WorkingInterval} (htail : HasTail interval) (t : ℤ) :
    Covers (withoutTail interval) t ↔ t < kWeek ∧ interval.Has t := by
  rw [withoutTail, covers_ite_proper]
  have hstart : (interval.intersected afterWeek).start = max interval.start kWeek :=
    congrArg start (intersected_proper htail).1
  have hmeet := hasTail_iff.mp htail
  simp only [Has, hstart]
  omega

theorem withoutTail_bounds {interval kept : WorkingInterval} (htail : HasTail interval)
    (hkept : kept ∈ withoutTail interval) :
    kept.Proper ∧ kept.start = interval.start ∧ kept.stop ≤ interval.stop := by
  rw [withoutTail] at hkept
  have hmeet := hasTail_iff.mp htail
  split_ifs at hkept with hproper
  · rw [List.mem_singleton.mp hkept]
    refine ⟨hproper, rfl, ?_⟩
    rw [(intersected_proper htail).1]
    simp only [afterWeek]
    omega
  · exact absurd hkept List.not_mem_nil

theorem tail_stop {interval : WorkingInterval} (htail : HasTail interval) :
    ((interval.intersected afterWeek).shifted (-kWeek)).stop ≤ kWeek := by
  rw [(intersected_proper htail).1]
  simp only [shifted, afterWeek, kWeek, kDay]
  omega

theorem not_hasTail_of_stop_le {interval : WorkingInterval} (h : interval.stop ≤ kWeek) :
    ¬ HasTail interval := by
  rw [hasTail_iff]
  omega

theorem stop_le_of_not_hasTail {interval : WorkingInterval} (hproper : interval.Proper)
    (hstop : interval.stop ≤ kWeek + kDay) (h : ¬ HasTail interval) : interval.stop ≤ kWeek := by
  rw [hasTail_iff] at h
  simp only [Proper] at hproper
  simp only [kWeek, kDay] at h hstop ⊢
  omega

theorem Separated.init {list : List WorkingInterval} {last : WorkingInterval}
    (h : Separated (list ++ [last])) : Separated list :=
  ⟨fun interval hi => h.1 interval (List.mem_append_left _ hi), (List.pairwise_append.mp h.2).1⟩

theorem Separated.lt_last {list : List WorkingInterval} {last interval : WorkingInterval}
    (h : Separated (list ++ [last])) (hi : interval ∈ list) : interval.stop < last.start :=
  (List.pairwise_append.mp h.2).2.2 interval hi last (List.mem_singleton_self last)

theorem Separated.withoutTail {list : List WorkingInterval} {last : WorkingInterval}
    (h : Separated (list ++ [last])) (htail : HasTail last) :
    Separated (list ++ withoutTail last) := by
  refine ⟨?_, ?_⟩
  · intro interval hi
    rcases List.mem_append.mp hi with hi | hi
    · exact h.init.1 interval hi
    · exact (withoutTail_bounds htail hi).1
  · apply List.pairwise_append.mpr ⟨h.init.2, ?_, ?_⟩
    · rw [Data.withoutTail]
      split_ifs
      · exact List.pairwise_singleton _ _
      · exact List.Pairwise.nil
    · intro a ha b hb
      rw [(withoutTail_bounds htail hb).2.1]
      exact h.lt_last ha

theorem last_of_append {list front body : List WorkingInterval} {last : WorkingInterval}
    (hlast : list.getLast? = some last) (hsplit : list = front ++ body) :
    body = [] ∧ last ∈ front ∨
      ∃ init, body = init ++ [last] ∧ list.dropLast = front ++ init := by
  have hlist : list = list.dropLast ++ [last] := (List.dropLast_append_getLast? last hlast).symm
  rcases List.eq_nil_or_concat body with rfl | ⟨init, back, rfl⟩
  · left
    refine ⟨rfl, ?_⟩
    rw [List.append_nil] at hsplit
    rw [← hsplit]
    exact List.mem_of_getLast? hlast
  · right
    rw [List.concat_eq_append, ← List.append_assoc] at hsplit
    have heq := List.append_inj' (hlist.symm.trans hsplit) rfl
    have hback : back = last := (List.singleton_inj.mp heq.2).symm
    exact ⟨init, by rw [List.concat_eq_append, hback], heq.1⟩

/-- The tails already moved are kept in `front`. -/
theorem covers_moveTailToFront (list : List WorkingInterval) :
    ∀ front body, list = front ++ body → (∀ tail ∈ front, tail.stop ≤ kWeek) →
      Separated body → (∀ interval ∈ body, interval.stop ≤ kWeek + kDay) →
      ∀ t, Covers (moveTailToFront list) t ↔ Covers front t ∨ CoversInWeek body t := by
  induction list using moveTailToFront.induct with
  | case1 list hnone =>
    intro front body hsplit _ _ _ t
    rw [List.getLast?_eq_none_iff] at hnone
    rw [hnone] at hsplit
    rw [List.nil_eq_append_iff.mp hsplit |>.1, List.nil_eq_append_iff.mp hsplit |>.2,
      moveTailToFront, hnone]
    simp [CoversInWeek, covers_nil]
  | case2 list last hlast htail ih =>
    intro front body hsplit hfront hbody hstop t
    rcases last_of_append hlast hsplit with ⟨rfl, hmem⟩ | ⟨init, rfl, hinit⟩
    · -- a moved tail has no tail
      exact absurd htail (not_hasTail_of_stop_le (hfront last hmem))
    · have hlaststop := hstop last (by simp)
      rw [moveTailToFront]
      split
      · rename_i hnone
        rw [hlast] at hnone
        exact absurd hnone (Option.some_ne_none _)
      · rename_i back hback
        rw [hlast, Option.some_inj] at hback
        subst hback
        rw [if_pos htail]
        rw [ih (((last.intersected afterWeek).shifted (-kWeek)) :: front)
          (init ++ withoutTail last) (by rw [hinit]; simp) ?_ (hbody.withoutTail htail) ?_ t]
        · simp only [CoversInWeek, covers_cons, covers_append, covers_nil,
            covers_withoutTail htail, has_tail hlaststop]
          have hneg : 0 ≤ t → ¬ t + kWeek < kWeek := by omega
          by_cases hpos : 0 ≤ t
          · simp only [hpos, hneg hpos, true_and, false_and, or_false]
            tauto
          · simp only [hpos, false_and, false_or, or_false]
            tauto
        · intro tail hmem
          rcases List.mem_cons.mp hmem with rfl | hmem
          · exact tail_stop htail
          · exact hfront tail hmem
        · intro interval hmem
          rcases List.mem_append.mp hmem with hmem | hmem
          · exact hstop interval (List.mem_append_left _ hmem)
          · exact (withoutTail_bounds htail hmem).2.2.trans hlaststop
  | case3 list last hlast htail =>
    intro front body hsplit hfront hbody hstop t
    have hbodystop : ∀ interval ∈ body, interval.stop ≤ kWeek := by
      intro interval hmem
      rcases last_of_append hlast hsplit with ⟨rfl, -⟩ | ⟨init, rfl, -⟩
      · exact absurd hmem List.not_mem_nil
      · have hproper := hbody.1 last (by simp)
        have hlaststop := stop_le_of_not_hasTail hproper (hstop last (by simp)) htail
        rcases List.mem_append.mp hmem with hmem | hmem
        · have hlt := hbody.lt_last hmem
          simp only [Proper] at hproper
          omega
        · rw [List.mem_singleton.mp hmem]
          exact hlaststop
    have hweek : ∀ u, Covers body u → u < kWeek := by
      rintro u ⟨interval, hmem, hu⟩
      have hle := hbodystop interval hmem
      simp only [Has] at hu
      omega
    rw [moveTailToFront]
    split
    · rw [hsplit, covers_append]
      have := hweek t
      have := hweek (t + kWeek)
      simp only [CoversInWeek]
      grind
    · rename_i back hback
      rw [hlast, Option.some_inj] at hback
      subst hback
      rw [if_neg htail, hsplit, covers_append]
      have := hweek t
      have := hweek (t + kWeek)
      simp only [CoversInWeek]
      grind

theorem normalized_separated (list : List WorkingInterval) : Separated (normalized list) :=
  (sortAndMerge_spec _).1

/-- `normalized` covers the seconds of the week. -/
theorem covers_normalized {list : List WorkingInterval}
    (hend : ∀ t, Covers list t → t < kWeek + kDay) (t : ℤ) :
    Covers (normalized list) t ↔ CoversInWeek list t := by
  have hsorted := sortAndMerge_spec list
  have hbounds : ∀ interval ∈ sortAndMerge list, interval.stop ≤ kWeek + kDay := by
    intro interval hi
    have hlast := hend _ ((hsorted.2 _).mp (hsorted.1.covers_last hi))
    omega
  rw [normalized, (sortAndMerge_spec _).2 t,
    covers_moveTailToFront (sortAndMerge list) [] (sortAndMerge list) rfl (by simp) hsorted.1
      hbounds t]
  simp only [CoversInWeek, covers_nil, hsorted.2, false_or]

end TelegramDesktop.Data
