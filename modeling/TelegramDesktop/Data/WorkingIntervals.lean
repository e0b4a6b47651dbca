import Mathlib

namespace TelegramDesktop.Data

def kDay : ℤ := 24 * 3600

def kWeek : ℤ := 7 * kDay

def kInNextDayMax : ℤ := 6 * 3600

structure WorkingInterval where
  start : ℤ := 0
  stop : ℤ := 0
  deriving DecidableEq

namespace WorkingInterval

/-- The conversion to `bool`. -/
def Proper (interval : WorkingInterval) : Prop := interval.start < interval.stop

instance (interval : WorkingInterval) : Decidable interval.Proper := by
  unfold Proper
  infer_instance

def shifted (interval : WorkingInterval) (offset : ℤ) : WorkingInterval :=
  ⟨interval.start + offset, interval.stop + offset⟩

def united (interval other : WorkingInterval) : WorkingInterval :=
  if ¬ interval.Proper then other
  else if ¬ other.Proper then interval
  else ⟨min interval.start other.start, max interval.stop other.stop⟩

def intersected (interval other : WorkingInterval) : WorkingInterval :=
  let result : WorkingInterval := ⟨max interval.start other.start, min interval.stop other.stop⟩
  if result.Proper then result else {}

end WorkingInterval

open WorkingInterval

/-- The loop of `SortAndMerge` behind an interval that is kept. -/
def mergeInto (last : WorkingInterval) : List WorkingInterval → List WorkingInterval
  | [] => [last]
  | next :: list =>
    if next.Proper ∧ last.Proper ∧ next.start ≤ last.stop then mergeInto (last.united next) list
    else if ¬ next.Proper then mergeInto last list
    else last :: mergeInto next list

def mergeSorted : List WorkingInterval → List WorkingInterval
  | [] => []
  | first :: list => if first.Proper then mergeInto first list else mergeSorted list

def sortAndMerge (list : List WorkingInterval) : List WorkingInterval :=
  mergeSorted (list.insertionSort fun a b => a.start ≤ b.start)

def afterWeek : WorkingInterval := ⟨kWeek, kWeek + kDay⟩

def HasTail (interval : WorkingInterval) : Prop := (interval.intersected afterWeek).Proper

instance (interval : WorkingInterval) : Decidable (HasTail interval) := by
  unfold HasTail
  infer_instance

/-- What is left of an interval with a tail, if anything. -/
def withoutTail (interval : WorkingInterval) : List WorkingInterval :=
  let kept : WorkingInterval := ⟨interval.start, (interval.intersected afterWeek).start⟩
  if kept.Proper then [kept] else []

theorem intersected_proper {a b : WorkingInterval} (h : (a.intersected b).Proper) :
    a.intersected b = ⟨max a.start b.start, min a.stop b.stop⟩ ∧
      max a.start b.start < min a.stop b.stop := by
  rw [intersected] at h ⊢
  split_ifs at h ⊢ with hp
  · exact ⟨rfl, hp⟩
  · exact absurd h (by decide)

theorem intersected_eq {a b : WorkingInterval} (h : max a.start b.start < min a.stop b.stop) :
    a.intersected b = ⟨max a.start b.start, min a.stop b.stop⟩ := if_pos h

theorem intersected_eq_empty {a b : WorkingInterval}
    (h : ¬ max a.start b.start < min a.stop b.stop) : a.intersected b = {} := if_neg h

theorem proper_intersected {a b : WorkingInterval} :
    (a.intersected b).Proper ↔ max a.start b.start < min a.stop b.stop :=
  ⟨fun h => (intersected_proper h).2, fun h => by rw [intersected_eq h]; exact h⟩

theorem hasTail_iff {interval : WorkingInterval} :
    HasTail interval ↔ max interval.start kWeek < min interval.stop (kWeek + kDay) :=
  proper_intersected

theorem not_hasTail_shifted (interval : WorkingInterval) :
    ¬ HasTail ((interval.intersected afterWeek).shifted (-kWeek)) := by
  rw [hasTail_iff, shifted]
  by_cases h : HasTail interval
  · rw [(intersected_proper h).1]
    simp only [afterWeek, kWeek, kDay]
    omega
  · rw [intersected_eq_empty (mt proper_intersected.mpr h)]
    simp only [kWeek, kDay]
    omega

theorem not_hasTail_withoutTail (interval : WorkingInterval) (h : HasTail interval) :
    ∀ kept ∈ withoutTail interval, ¬ HasTail kept := by
  intro kept hkept
  rw [withoutTail] at hkept
  split_ifs at hkept with hproper
  · rw [List.mem_singleton.mp hkept, hasTail_iff]
    rw [(intersected_proper h).1] at hproper ⊢
    simp only [Proper, afterWeek] at hproper ⊢
    omega
  · exact absurd hkept List.not_mem_nil

/-- The loop of `MoveTailToFront`. -/
def moveTailToFront (list : List WorkingInterval) : List WorkingInterval :=
  match _h : list.getLast? with
  | none => list
  | some last =>
    if HasTail last then
      moveTailToFront ((last.intersected afterWeek).shifted (-kWeek) ::
        (list.dropLast ++ withoutTail last))
    else list
termination_by list.countP fun interval => decide (HasTail interval)
decreasing_by
  rename_i htail
  have hsplit : list = list.dropLast ++ [last] := (List.dropLast_append_getLast? last _h).symm
  have hkept : (withoutTail last).countP (fun interval => decide (HasTail interval)) = 0 := by
    apply List.countP_eq_zero.mpr
    intro kept hkept
    rw [decide_eq_true_iff]
    exact not_hasTail_withoutTail last htail kept hkept
  have hfront := not_hasTail_shifted last
  have hback : [last].countP (fun interval => decide (HasTail interval)) = 1 := by simp [htail]
  conv_rhs => rw [hsplit]
  rw [List.countP_append, hback]
  simp [hfront, hkept]

def normalized (list : List WorkingInterval) : List WorkingInterval :=
  sortAndMerge (moveTailToFront (sortAndMerge list))

/-- What an interval adds to the days around a day, seen from the day. -/
def aroundDay (dayIndex : ℤ) (interval : WorkingInterval) : List WorkingInterval :=
  let now := interval.intersected ⟨(dayIndex - 1) * kDay, (dayIndex + 2) * kDay⟩
  let after := interval.intersected ⟨(dayIndex + 6) * kDay, (dayIndex + 9) * kDay⟩
  let before := interval.intersected ⟨(dayIndex - 8) * kDay, (dayIndex - 5) * kDay⟩
  (if now.Proper then [now.shifted (-dayIndex * kDay)] else []) ++
  (if after.Proper then [after.shifted (-(dayIndex + 7) * kDay)] else []) ++
  (if before.Proper then [before.shifted (-(dayIndex - 7) * kDay)] else [])

def wholeDay : WorkingInterval := ⟨0, kDay⟩

/-- The end of a day is cut, unless it closes soon after midnight. -/
def cutBack (list : List WorkingInterval) : List WorkingInterval :=
  match list.getLast? with
  | none => list
  | some back =>
    if back.start ≤ 0 ∧ kDay ≤ back.stop then list.dropLast ++ [wholeDay]
    else if kDay + kInNextDayMax < back.stop then list.dropLast ++ [back.intersected wholeDay]
    else list

/-- The beginning of a day is cut, or left to the day before. -/
def cutFront : List WorkingInterval → List WorkingInterval
  | [] => []
  | front :: list =>
    if front.start ≤ 0 then
      if front.start < 0 ∧ front.stop ≤ kInNextDayMax ∧ -kDay < front.start then list
      else if (front.intersected wholeDay).Proper then front.intersected wholeDay :: list
      else list
    else front :: list

/-- `none` is the violated `Expects`. -/
def extractDayIntervals (intervals : List WorkingInterval) (dayIndex : ℤ) :
    Option (List WorkingInterval) :=
  if 0 ≤ dayIndex ∧ dayIndex < 7 then
    let list := normalized (intervals.flatMap (aroundDay dayIndex))
    let list := list.filter fun interval => ¬ (interval.stop ≤ 0 ∨ kDay ≤ interval.start)
    some (cutFront (cutBack list))
  else none

/-- The loop of `RemoveDayIntervals`, with what lies before and behind its place and what was
pushed to the end. The second part is taken from the interval already cut to the first. -/
def removeDayLoop (dayIndex : ℤ) (done : List WorkingInterval) :
    List WorkingInterval → List WorkingInterval → List WorkingInterval
  | [], pushed => done ++ pushed
  | interval :: list, pushed =>
    let day := wholeDay.shifted (dayIndex * kDay)
    let before : WorkingInterval := ⟨0, day.start⟩
    let after : WorkingInterval := ⟨day.stop, kWeek⟩
    if interval.stop ≤ day.start ∨ day.stop ≤ interval.start then
      removeDayLoop dayIndex (done ++ [interval]) list pushed
    else if interval.stop ≤ day.start + kInNextDayMax ∧
        (interval.start < day.start ∨ dayIndex = 0 ∧ interval.start = day.start ∧
          kWeek ≤ ((interval :: (list ++ pushed)).getLastD {}).stop) then
      removeDayLoop dayIndex (done ++ [interval]) list pushed
    else
      let first := interval.intersected before
      if first.Proper then
        let second := first.intersected after
        removeDayLoop dayIndex (done ++ [first]) list
          (if second.Proper then pushed ++ [second] else pushed)
      else
        let second := interval.intersected after
        if second.Proper then removeDayLoop dayIndex (done ++ [second]) list pushed
        else removeDayLoop dayIndex done list pushed

def removeDayIntervals (intervals : List WorkingInterval) (dayIndex : ℤ) :
    List WorkingInterval :=
  normalized (removeDayLoop dayIndex [] (normalized intervals) [])

def replaceDayIntervals (intervals : List WorkingInterval) (dayIndex : ℤ)
    (replacement : List WorkingInterval) : List WorkingInterval :=
  normalized (removeDayIntervals intervals dayIndex ++
    replacement.map fun interval => interval.shifted (dayIndex * kDay))

end TelegramDesktop.Data
