import TelegramDesktop.Data.WorkingIntervalsReplace

namespace TelegramDesktop.Data

open WorkingInterval

/-- The loop of `SortAndMerge`. After an interval is erased `--i` and `++i` leave the index, so that
it is never negative where the loop is entered. `none` is an index outside the list, or a loop
that goes on for longer. -/
def mergeLoop : ℕ → ℕ → ℕ → List WorkingInterval → Option (List WorkingInterval)
  | 0, _, _, _ => none
  | fuel + 1, i, count, list =>
    if i = count then some list
    else
      match list[i]? with
      | none => none
      | some interval =>
        let last := list.getD (i - 1) {}
        if i ≠ 0 ∧ interval.Proper ∧ last.Proper ∧ interval.start ≤ last.stop then
          let list := (list.set (i - 1) (last.united interval)).set i {}
          mergeLoop fuel i (count - 1) (list.eraseIdx i)
        else if ¬ interval.Proper then mergeLoop fuel i (count - 1) (list.eraseIdx i)
        else mergeLoop fuel (i + 1) count list

/-- The loop of `MoveTailToFront`. -/
def tailLoop : ℕ → List WorkingInterval → Option (List WorkingInterval)
  | 0, _ => none
  | fuel + 1, list =>
    match list.getLast? with
    | none => some list
    | some last =>
      if HasTail last then
        tailLoop fuel ((last.intersected afterWeek).shifted (-kWeek) ::
          (list.dropLast ++ withoutTail last))
      else some list

def sortAndMergeWithin (fuel : ℕ) (list : List WorkingInterval) : Option (List WorkingInterval) :=
  let sorted := list.insertionSort fun a b => a.start ≤ b.start
  mergeLoop fuel 0 sorted.length sorted

/-- `normalized` by its loops, each of which runs for at most as long as is told. -/
def normalizedWithin (fuel : ℕ) (list : List WorkingInterval) : Option (List WorkingInterval) := do
  let list ← sortAndMergeWithin fuel list
  let list ← tailLoop fuel list
  sortAndMergeWithin fuel list

/-- Behind an interval that is kept each pass takes one interval. -/
theorem mergeLoop_eq (rest : List WorkingInterval) {fuel : ℕ} (hfuel : rest.length < fuel)
    (done : List WorkingInterval) {last : WorkingInterval} (hlast : last.Proper) :
    mergeLoop fuel (done.length + 1) (done.length + 1 + rest.length) (done ++ last :: rest) =
      some (done ++ mergeInto last rest) := by
  induction rest generalizing fuel done last with
  | nil =>
    obtain ⟨fuel, rfl⟩ := Nat.exists_eq_add_of_lt hfuel
    simp [mergeLoop, mergeInto]
  | cons next rest ih =>
    cases fuel with
    | zero => exact absurd hfuel (Nat.not_lt_zero _)
    | succ fuel =>
      have hfuel' : rest.length < fuel := Nat.lt_of_succ_lt_succ hfuel
      have hcount : done.length + 1 ≠ done.length + 1 + (next :: rest).length := by simp
      have hget : (done ++ last :: next :: rest)[done.length + 1]? = some next := by simp
      have hprevious :
          (done ++ last :: next :: rest).getD (done.length + 1 - 1) {} = last := by simp
      have hless : done.length + 1 + (next :: rest).length - 1 = done.length + 1 + rest.length := by
        rw [List.length_cons]
        omega
      rw [mergeLoop, if_neg hcount, hget]
      dsimp only
      rw [hprevious, hless, mergeInto]
      by_cases hmeet : next.Proper ∧ last.Proper ∧ next.start ≤ last.stop
      · have hset : (((done ++ last :: next :: rest).set (done.length + 1 - 1)
            (last.united next)).set (done.length + 1) {}).eraseIdx (done.length + 1) =
              done ++ last.united next :: rest := by
          simp [List.eraseIdx_append]
        rw [if_pos ⟨Nat.succ_ne_zero _, hmeet⟩, if_pos hmeet, hset]
        exact ih hfuel' done (united_proper hmeet.2.1 hmeet.1)
      · rw [if_neg (fun h => hmeet h.2), if_neg hmeet]
        by_cases hnext : next.Proper
        · have hsplit : done ++ last :: next :: rest = (done ++ [last]) ++ next :: rest := by simp
          have hlength : (done ++ [last]).length = done.length + 1 := by simp
          have hmore : done.length + 1 + (next :: rest).length =
              (done ++ [last]).length + 1 + rest.length := by
            rw [hlength, List.length_cons]
            omega
          rw [if_neg (not_not.mpr hnext), if_neg (not_not.mpr hnext), hsplit, hmore, ← hlength,
            ih hfuel' (done ++ [last]) hnext, List.append_assoc]
          rfl
        · have herase : (done ++ last :: next :: rest).eraseIdx (done.length + 1) =
              done ++ last :: rest := by
            simp [List.eraseIdx_append]
          rw [if_pos hnext, if_pos hnext, herase]
          exact ih hfuel' done hlast

/-- Until an interval is kept the index is 0. -/
theorem mergeLoop_start (list : List WorkingInterval) {fuel : ℕ} (hfuel : list.length < fuel) :
    mergeLoop fuel 0 list.length list = some (mergeSorted list) := by
  induction list generalizing fuel with
  | nil =>
    obtain ⟨fuel, rfl⟩ := Nat.exists_eq_add_of_lt hfuel
    simp [mergeLoop, mergeSorted]
  | cons first list ih =>
    cases fuel with
    | zero => exact absurd hfuel (Nat.not_lt_zero _)
    | succ fuel =>
      have hfuel' : list.length < fuel := Nat.lt_of_succ_lt_succ hfuel
      have hcount : 0 ≠ (first :: list).length := (Nat.succ_ne_zero _).symm
      rw [mergeLoop, if_neg hcount, List.getElem?_cons_zero]
      dsimp only
      rw [if_neg (fun h => h.1 rfl), mergeSorted]
      by_cases hfirst : first.Proper
      · rw [if_neg (not_not.mpr hfirst), if_pos hfirst, List.length_cons, Nat.add_comm list.length]
        exact mergeLoop_eq list hfuel' [] hfirst
      · rw [if_pos hfirst, if_neg hfirst, List.eraseIdx_cons_zero, List.length_cons,
          Nat.add_sub_cancel]
        exact ih hfuel'

theorem sortAndMergeWithin_eq {list : List WorkingInterval} {fuel : ℕ}
    (hfuel : list.length < fuel) : sortAndMergeWithin fuel list = some (sortAndMerge list) :=
  mergeLoop_start _ (by rwa [List.length_insertionSort])

/-- Each pass takes one tail away. -/
theorem tailLoop_eq (list : List WorkingInterval) :
    ∃ bound, ∀ fuel ≥ bound, tailLoop fuel list = some (moveTailToFront list) := by
  induction list using moveTailToFront.induct with
  | case1 list hnone =>
    refine ⟨1, fun fuel hfuel => ?_⟩
    obtain ⟨fuel, rfl⟩ := Nat.exists_eq_add_of_le' hfuel
    rw [tailLoop, moveTailToFront, hnone]
  | case2 list last hlast htail ih =>
    obtain ⟨bound, hbound⟩ := ih
    refine ⟨bound + 1, fun fuel hfuel => ?_⟩
    obtain ⟨fuel, rfl⟩ := Nat.exists_eq_add_of_le' hfuel
    rw [Nat.add_succ, tailLoop, moveTailToFront, hlast]
    dsimp only
    rw [if_pos htail, if_pos htail]
    exact hbound _ (Nat.le_add_left _ _)
  | case3 list last hlast htail =>
    refine ⟨1, fun fuel hfuel => ?_⟩
    obtain ⟨fuel, rfl⟩ := Nat.exists_eq_add_of_le' hfuel
    rw [tailLoop, moveTailToFront, hlast]
    dsimp only
    rw [if_neg htail, if_neg htail]

theorem normalizedWithin_eq (list : List WorkingInterval) :
    ∃ bound, ∀ fuel ≥ bound, normalizedWithin fuel list = some (normalized list) := by
  obtain ⟨bound, hbound⟩ := tailLoop_eq (sortAndMerge list)
  refine ⟨list.length + 1 + bound + (moveTailToFront (sortAndMerge list)).length + 1,
    fun fuel hfuel => ?_⟩
  rw [normalizedWithin, sortAndMergeWithin_eq (by omega), Option.bind_eq_bind, Option.bind_some,
    hbound fuel (by omega), Option.bind_some,
    sortAndMergeWithin_eq (by omega), normalized]

/-- Separated lists are told apart by their seconds. -/
theorem Separated.eq_of_covers {list list' : List WorkingInterval} (h : Separated list)
    (h' : Separated list') (hcovers : ∀ t, Covers list t ↔ Covers list' t) : list = list' := by
  induction list generalizing list' with
  | nil =>
    cases list' with
    | nil => rfl
    | cons other list' =>
      exact absurd ((hcovers _).mpr (h'.covers_start List.mem_cons_self)) (covers_nil _)
  | cons first list ih =>
    cases list' with
    | nil => exact absurd ((hcovers _).mp (h.covers_start List.mem_cons_self)) (covers_nil _)
    | cons other list' =>
      have hfirst : ∀ {first : WorkingInterval} {list : List WorkingInterval} {t : ℤ},
          Separated (first :: list) → Covers (first :: list) t → first.start ≤ t := by
        rintro first list t hs ⟨interval, hi, hhas⟩
        rcases List.mem_cons.mp hi with rfl | hi
        · exact hhas.1
        · have hproper := hs.1 first List.mem_cons_self
          have hlt := List.rel_of_pairwise_cons hs.2 hi
          simp only [Proper] at hproper
          simp only [Has] at hhas
          omega
      have hstart : first.start = other.start := by
        apply le_antisymm
        · exact hfirst h ((hcovers _).mpr (h'.covers_start List.mem_cons_self))
        · exact hfirst h' ((hcovers _).mp (h.covers_start List.mem_cons_self))
      have hproper := h.1 first List.mem_cons_self
      have hproper' := h'.1 other List.mem_cons_self
      simp only [Proper] at hproper hproper'
      have hstop : first.stop = other.stop := by
        by_contra hne
        rcases lt_or_gt_of_ne hne with hlt | hlt
        · apply h.not_covers_stop List.mem_cons_self
          exact (hcovers _).mpr ⟨other, List.mem_cons_self, by omega, hlt⟩
        · apply h'.not_covers_stop List.mem_cons_self
          exact (hcovers _).mp ⟨first, List.mem_cons_self, by omega, hlt⟩
      have heq : first = other := by
        cases first
        cases other
        congr
      subst heq
      -- the seconds of the first interval are in none of the others
      have hrest : ∀ {list : List WorkingInterval} {t : ℤ}, Separated (first :: list) →
          (Covers list t ↔ Covers (first :: list) t ∧ ¬ first.Has t) := by
        intro list t hs
        rw [covers_cons]
        constructor
        · rintro ⟨interval, hi, hhas⟩
          have hlt := List.rel_of_pairwise_cons hs.2 hi
          refine ⟨Or.inr ⟨interval, hi, hhas⟩, fun hhas' => ?_⟩
          simp only [Has] at hhas hhas'
          omega
        · rintro ⟨hhas | hlist, hnot⟩
          · exact absurd hhas hnot
          · exact hlist
      rw [ih h.tail h'.tail fun t => by rw [hrest h, hrest h', hcovers]]

/-- The seconds of a list modulo the week. -/
def CoversModWeek (list : List WorkingInterval) (t : ℤ) : Prop :=
  ∃ week : ℤ, Covers list (t + week * kWeek)

theorem Inside.coversModWeek_iff {list : List WorkingInterval} (h : Inside list) {t : ℤ}
    (hstart : 0 ≤ t) (hend : t < kWeek) : CoversModWeek list t ↔ CoversInWeek list t := by
  constructor
  · rintro ⟨week, hcovers⟩
    have hb := h.bounds _ hcovers
    simp only [kWeek, kDay] at hb hend
    obtain rfl | rfl : week = 0 ∨ week = 1 := by omega
    · refine Or.inl ⟨hend, ?_⟩
      rwa [zero_mul, add_zero] at hcovers
    · refine Or.inr ⟨hstart, ?_⟩
      rwa [one_mul] at hcovers
  · rintro (⟨-, hcovers⟩ | ⟨-, hcovers⟩)
    · exact ⟨0, by rwa [zero_mul, add_zero]⟩
    · exact ⟨1, by rwa [one_mul]⟩

theorem coversModWeek_add (list : List WorkingInterval) (t week : ℤ) :
    CoversModWeek list (t + week * kWeek) ↔ CoversModWeek list t := by
  constructor
  · rintro ⟨other, hcovers⟩
    exact ⟨week + other, by rwa [add_mul, ← add_assoc]⟩
  · rintro ⟨other, hcovers⟩
    refine ⟨other - week, ?_⟩
    rwa [sub_mul, add_assoc, add_sub_cancel]

theorem Inside.normalized {list : List WorkingInterval} (h : Inside list) :
    ∀ interval ∈ normalized list, 0 ≤ interval.start ∧ interval.stop ≤ kWeek :=
  fun _ hi => bounds_of_covers h.week_bounds (normalized_separated list) hi

theorem Inside.inside_normalized {list : List WorkingInterval} (h : Inside list) :
    Inside (Data.normalized list) := by
  intro interval hi
  have hb := h.normalized interval hi
  refine ⟨hb.1, hb.2.trans ?_⟩
  decide

theorem Inside.covers_iff {list : List WorkingInterval} (h : Inside list) (t : ℤ) :
    Covers (Data.normalized list) t ↔ (0 ≤ t ∧ t < kWeek) ∧ CoversModWeek list t := by
  constructor
  · intro ht
    have hb := h.week_bounds t ht
    exact ⟨hb, (h.coversModWeek_iff hb.1 hb.2).mpr ((h.covers_normalized t).mp ht)⟩
  · rintro ⟨hb, ht⟩
    exact (h.covers_normalized t).mpr ((h.coversModWeek_iff hb.1 hb.2).mp ht)

theorem Inside.coversModWeek_normalized {list : List WorkingInterval} (h : Inside list) (t : ℤ) :
    CoversModWeek (Data.normalized list) t ↔ CoversModWeek list t := by
  have hpos : 0 < kWeek := by decide
  have hsplit : t % kWeek + t / kWeek * kWeek = t := Int.emod_add_ediv_mul t kWeek
  have hlow := Int.emod_nonneg t hpos.ne'
  have hhigh := Int.emod_lt_of_pos t hpos
  rw [← hsplit, coversModWeek_add, coversModWeek_add, h.coversModWeek_iff hlow hhigh,
    h.inside_normalized.coversModWeek_iff hlow hhigh, ← h.covers_normalized]
  constructor
  · rintro (⟨-, hcovers⟩ | ⟨-, hcovers⟩)
    · exact hcovers
    · have hb := h.week_bounds _ hcovers
      omega
  · exact fun hcovers => Or.inl ⟨hhigh, hcovers⟩

/-- `normalized` is a canonical form of the seconds of the week. -/
theorem normalized_canonical (intervals : List WorkingInterval)
    (hinside : ∀ interval ∈ intervals, 0 ≤ interval.start ∧ interval.stop ≤ kWeek + kDay) :
    (∃ bound, ∀ fuel ≥ bound, normalizedWithin fuel intervals = some (normalized intervals)) ∧
      (∀ interval ∈ normalized intervals,
        0 ≤ interval.start ∧ interval.start < interval.stop ∧ interval.stop ≤ kWeek) ∧
      (normalized intervals).Pairwise (fun a b => a.stop < b.start) ∧
      (∀ t, CoversModWeek (normalized intervals) t ↔ CoversModWeek intervals t) ∧
      (∀ others : List WorkingInterval,
        (∀ interval ∈ others, 0 ≤ interval.start ∧ interval.stop ≤ kWeek + kDay) →
        (∀ t, CoversModWeek intervals t ↔ CoversModWeek others t) →
        normalized intervals = normalized others) ∧
      normalized (normalized intervals) = normalized intervals := by
  have h : Inside intervals := hinside
  have hseparated := normalized_separated intervals
  have hsame : ∀ others, Inside others →
      (∀ t, CoversModWeek intervals t ↔ CoversModWeek others t) →
      normalized intervals = normalized others := by
    intro others hothers hcovers
    apply hseparated.eq_of_covers (normalized_separated others)
    intro t
    rw [h.covers_iff, hothers.covers_iff, hcovers]
  refine ⟨normalizedWithin_eq intervals, ?_, hseparated.2, h.coversModWeek_normalized, hsame, ?_⟩
  · intro interval hi
    have hb := h.normalized interval hi
    exact ⟨hb.1, hseparated.1 interval hi, hb.2⟩
  · exact (hsame _ h.inside_normalized fun t => (h.coversModWeek_normalized t).symm).symm

theorem normalized_canonical_tail :
    (∃ bound, ∀ fuel ≥ bound, normalizedWithin fuel [⟨kWeek - 60, kWeek + 60⟩, ⟨30, 90⟩] =
        some (normalized [⟨kWeek - 60, kWeek + 60⟩, ⟨30, 90⟩])) ∧
      (∀ interval ∈ normalized [⟨kWeek - 60, kWeek + 60⟩, ⟨30, 90⟩],
        0 ≤ interval.start ∧ interval.start < interval.stop ∧ interval.stop ≤ kWeek) ∧
      (normalized [⟨kWeek - 60, kWeek + 60⟩, ⟨30, 90⟩]).Pairwise (fun a b => a.stop < b.start) ∧
      (∀ t, CoversModWeek (normalized [⟨kWeek - 60, kWeek + 60⟩, ⟨30, 90⟩]) t ↔
        CoversModWeek [⟨kWeek - 60, kWeek + 60⟩, ⟨30, 90⟩] t) ∧
      (∀ others : List WorkingInterval,
        (∀ interval ∈ others, 0 ≤ interval.start ∧ interval.stop ≤ kWeek + kDay) →
        (∀ t, CoversModWeek [⟨kWeek - 60, kWeek + 60⟩, ⟨30, 90⟩] t ↔ CoversModWeek others t) →
        normalized [⟨kWeek - 60, kWeek + 60⟩, ⟨30, 90⟩] = normalized others) ∧
      normalized (normalized [⟨kWeek - 60, kWeek + 60⟩, ⟨30, 90⟩]) =
        normalized [⟨kWeek - 60, kWeek + 60⟩, ⟨30, 90⟩] :=
  normalized_canonical [⟨kWeek - 60, kWeek + 60⟩, ⟨30, 90⟩] (by decide)

end TelegramDesktop.Data
