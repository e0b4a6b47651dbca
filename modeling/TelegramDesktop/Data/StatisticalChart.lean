import Mathlib

namespace TelegramDesktop.Data.StatisticalChart

variable {α : Type*}

/-- Reading the vector; `none` is an index outside it. -/
def read (xPercentage : List α) (i : ℤ) : Option α :=
  if 0 ≤ i then xPercentage[i.toNat]? else none

section
variable [LinearOrder α]

/-- The loop of the three searches: `found` is the test that peeks at a neighbour, `inl` is the
index that is returned from the loop and `inr` are `left` and `right` after it. -/
def search (xPercentage : List α) (v : α) (found : ℤ → α → Option Bool) (left right : ℤ) :
    Option (ℤ ⊕ ℤ × ℤ) :=
  if left ≤ right then
    let middle := (right + left) / 2
    (read xPercentage middle).bind fun value =>
      (found middle value).bind fun result =>
        if result then some (.inl middle)
        else if v = value then some (.inl middle)
        else if v < value then search xPercentage v found left (middle - 1)
        else if v > value then search xPercentage v found (middle + 1) right
        -- here the loop would not end
        else none
  else some (.inr (left, right))
termination_by (right + 1 - left).toNat

/-- The value before the middle is read only when the one in the middle is greater. -/
def foundStart (xPercentage : List α) (v : α) (middle : ℤ) (value : α) : Option Bool :=
  if v < value then
    if middle = 0 then some true
    else (read xPercentage (middle - 1)).map fun previous => decide (v > previous)
  else some false

def foundEnd (xPercentage : List α) (v : α) (middle : ℤ) (value : α) : Option Bool :=
  if v > value then
    if middle = xPercentage.length - 1 then some true
    else (read xPercentage (middle + 1)).map fun next => decide (v < next)
  else some false

def findStartIndex [Zero α] (xPercentage : List α) (v : α) : Option ℤ :=
  if v = 0 then some 0
  else if xPercentage.length < 2 then some 0
  else (search xPercentage v (foundStart xPercentage v) 0 (xPercentage.length - 1)).map
    fun | .inl middle => middle
        | .inr (left, _) => left

def findEndIndex [One α] (xPercentage : List α) (left : ℤ) (v : α) : Option ℤ :=
  if v = 1 then some (xPercentage.length - 1)
  else (search xPercentage v (foundEnd xPercentage v) left (xPercentage.length - 1)).map
    fun | .inl middle => middle
        | .inr (_, right) => max left right

def findIndex (xPercentage : List α) (left right : ℤ) (v : α) : Option ℤ :=
  (read xPercentage left).bind fun first =>
    if v ≤ first then some left
    else (read xPercentage right).bind fun last =>
      if v ≥ last then some right
      else (search xPercentage v (foundEnd xPercentage v) left right).map
        fun | .inl middle => middle
            | .inr (_, right) => right

end

section
variable [Preorder α]

/-- The indexes of the values that are at least this one. -/
def atLeast (xPercentage : List α) (v : α) : Set ℤ := {i | ∃ y, read xPercentage i = some y ∧ v ≤ y}

def atMost (xPercentage : List α) (v : α) : Set ℤ := {i | ∃ y, read xPercentage i = some y ∧ y ≤ v}

structure Percentages [Zero α] [One α] (xPercentage : List α) : Prop where
  increasing : xPercentage.Pairwise (· < ·)
  size : 2 ≤ xPercentage.length
  first : xPercentage.head? = some 0
  last : xPercentage.getLast? = some 1

end

theorem read_of_mem {x : List α} {i : ℤ} (h0 : 0 ≤ i) (h : i < x.length) :
    ∃ y, read x i = some y := by
  rw [read, if_pos h0]
  exact ⟨_, List.getElem?_eq_getElem (by omega)⟩

theorem bounds_of_read {x : List α} {i : ℤ} {y : α} (h : read x i = some y) :
    0 ≤ i ∧ i < x.length := by
  rw [read, Option.ite_none_right_eq_some] at h
  obtain ⟨h0, h⟩ := h
  have hlt := (List.getElem?_eq_some_iff.mp h).1
  exact ⟨h0, by omega⟩

section
variable [LinearOrder α] {x : List α}

theorem read_lt (hx : x.Pairwise (· < ·)) {i j : ℤ} {y z : α} (hi : read x i = some y)
    (hj : read x j = some z) (hij : i < j) : y < z := by
  have hi0 := (bounds_of_read hi).1
  have hj0 := (bounds_of_read hj).1
  rw [read, if_pos hi0, List.getElem?_eq_some_iff] at hi
  rw [read, if_pos hj0, List.getElem?_eq_some_iff] at hj
  obtain ⟨hilt, rfl⟩ := hi
  obtain ⟨hjlt, rfl⟩ := hj
  exact List.pairwise_iff_getElem.mp hx _ _ hilt hjlt (by omega)

theorem read_le (hx : x.Pairwise (· < ·)) {i j : ℤ} {y z : α} (hi : read x i = some y)
    (hj : read x j = some z) (hij : i ≤ j) : y ≤ z := by
  obtain rfl | hlt := hij.eq_or_lt
  · rw [hi] at hj
    exact (Option.some.inj hj).le
  · exact (read_lt hx hi hj hlt).le

/-- What the loop says: the index found passes a test, and a loop that ends has all values below
on the left and all above on the right. -/
def Separates (x : List α) (v : α) (found : ℤ → α → Option Bool) (left right : ℤ) :
    ℤ ⊕ ℤ × ℤ → Prop
  | .inl middle => left ≤ middle ∧ middle ≤ right ∧
      ∃ y, read x middle = some y ∧ (v = y ∨ found middle y = some true)
  | .inr (l, r) => l = r + 1 ∧ left ≤ l ∧ r ≤ right ∧
      (∀ i y, left ≤ i → i < l → read x i = some y → y < v) ∧
      ∀ i y, r < i → i ≤ right → read x i = some y → v < y

theorem search_separates (hx : x.Pairwise (· < ·)) (v : α) (found : ℤ → α → Option Bool)
    (hfound : ∀ m y, read x m = some y → (found m y).isSome) (left right : ℤ) (hleft : 0 ≤ left)
    (hright : right < x.length) (hle : left ≤ right + 1) :
    ∃ result, search x v found left right = some result ∧
      Separates x v found left right result := by
  induction left, right using search.induct with
  | case1 left right hlr middle ihleft ihright =>
    have hmiddle : middle = (right + left) / 2 := rfl
    have hlow : left ≤ middle := by omega
    have hhigh : middle ≤ right := by omega
    obtain ⟨value, hvalue⟩ := read_of_mem (x := x) (i := middle) (by omega) (by omega)
    obtain ⟨b, hb⟩ := Option.isSome_iff_exists.mp (hfound middle value hvalue)
    rw [search, if_pos hlr]
    dsimp only
    rw [← hmiddle, hvalue, Option.bind_some, hb, Option.bind_some]
    cases b with
    | true => exact ⟨_, rfl, hlow, hhigh, value, hvalue, Or.inr hb⟩
    | false =>
      rw [if_neg Bool.false_ne_true]
      obtain hlt | heq | hgt := lt_trichotomy v value
      · rw [if_neg hlt.ne, if_pos hlt]
        obtain ⟨result, hresult, hsep⟩ := ihleft hleft (by omega) (by omega)
        refine ⟨result, hresult, ?_⟩
        cases result with
        | inl m =>
          obtain ⟨h1, h2, h3⟩ := hsep
          exact ⟨h1, by omega, h3⟩
        | inr bounds =>
          obtain ⟨h1, h2, h3, hbelow, habove⟩ := hsep
          refine ⟨h1, h2, by omega, hbelow, fun i y hi hir hy => ?_⟩
          by_cases him : i ≤ middle - 1
          · exact habove i y hi him hy
          · exact hlt.trans_le (read_le hx hvalue hy (by omega))
      · rw [if_pos heq]
        exact ⟨_, rfl, hlow, hhigh, value, hvalue, Or.inl heq⟩
      · rw [if_neg hgt.ne', if_neg hgt.le.not_gt, if_pos hgt]
        obtain ⟨result, hresult, hsep⟩ := ihright (by omega) hright (by omega)
        refine ⟨result, hresult, ?_⟩
        cases result with
        | inl m =>
          obtain ⟨h1, h2, h3⟩ := hsep
          exact ⟨by omega, h2, h3⟩
        | inr bounds =>
          obtain ⟨h1, h2, h3, hbelow, habove⟩ := hsep
          refine ⟨h1, by omega, h3, fun i y hi hir hy => ?_, habove⟩
          by_cases him : middle + 1 ≤ i
          · exact hbelow i y him hir hy
          · exact (read_le hx hy hvalue (by omega)).trans_lt hgt
  | case2 left right hlr =>
    rw [search, if_neg hlr]
    refine ⟨_, rfl, by omega, le_rfl, le_rfl, fun i y h1 h2 => ?_, fun i y h1 h2 => ?_⟩
    · omega
    · omega

theorem foundStart_isSome (v : α) {m : ℤ} {y : α} (hy : read x m = some y) :
    (foundStart x v m y).isSome := by
  have hm := bounds_of_read hy
  rw [foundStart]
  split_ifs with hv hzero
  · rfl
  · obtain ⟨previous, hprevious⟩ := read_of_mem (x := x) (i := m - 1) (by omega) (by omega)
    rw [hprevious]
    rfl
  · rfl

theorem foundEnd_isSome (v : α) {m : ℤ} {y : α} (hy : read x m = some y) :
    (foundEnd x v m y).isSome := by
  have hm := bounds_of_read hy
  rw [foundEnd]
  split_ifs with hv hlast
  · rfl
  · obtain ⟨next, hnext⟩ := read_of_mem (x := x) (i := m + 1) (by omega) (by omega)
    rw [hnext]
    rfl
  · rfl

/-- An index is the least one of a value at least `v` when the one before it is below. -/
theorem isLeast_atLeast {v : α} {i : ℤ} {y : α} (hi : read x i = some y)
    (hv : v ≤ y) (hbefore : ∀ j z, j < i → read x j = some z → z < v) :
    IsLeast (atLeast x v) i := by
  refine ⟨⟨y, hi, hv⟩, fun j hj => ?_⟩
  obtain ⟨z, hz, hvz⟩ := hj
  by_contra hlt
  exact (hbefore j z (not_le.mp hlt) hz).not_ge hvz

theorem isGreatest_atMost {v : α} {i : ℤ} {y : α} (hi : read x i = some y)
    (hv : y ≤ v) (hafter : ∀ j z, i < j → read x j = some z → v < z) :
    IsGreatest (atMost x v) i := by
  refine ⟨⟨y, hi, hv⟩, fun j hj => ?_⟩
  obtain ⟨z, hz, hzv⟩ := hj
  by_contra hlt
  exact (hafter j z (not_le.mp hlt) hz).not_ge hzv

/-- A found index of the first search has nothing of at least `v` before it. -/
theorem foundStart_isLeast (hx : x.Pairwise (· < ·)) {v : α} {m : ℤ} {y : α}
    (hy : read x m = some y) (hfound : v = y ∨ foundStart x v m y = some true) :
    IsLeast (atLeast x v) m := by
  obtain rfl | hfound := hfound
  · exact isLeast_atLeast hy le_rfl fun j z hj hz => read_lt hx hz hy hj
  · rw [foundStart] at hfound
    split_ifs at hfound with hlt hzero
    · refine isLeast_atLeast hy hlt.le fun j z hj hz => ?_
      have hj0 := (bounds_of_read hz).1
      omega
    · obtain ⟨previous, hprevious, hdecide⟩ := Option.map_eq_some_iff.mp hfound
      refine isLeast_atLeast hy hlt.le fun j z hj hz => ?_
      exact (read_le hx hz hprevious (by omega)).trans_lt (of_decide_eq_true hdecide)
    · cases hfound

theorem foundEnd_isGreatest (hx : x.Pairwise (· < ·)) {v : α} {m : ℤ} {y : α}
    (hy : read x m = some y) (hfound : v = y ∨ foundEnd x v m y = some true) :
    IsGreatest (atMost x v) m := by
  obtain rfl | hfound := hfound
  · exact isGreatest_atMost hy le_rfl fun j z hj hz => read_lt hx hy hz hj
  · rw [foundEnd] at hfound
    split_ifs at hfound with hgt hlast
    · refine isGreatest_atMost hy hgt.le fun j z hj hz => ?_
      have hjn := (bounds_of_read hz).2
      omega
    · obtain ⟨next, hnext, hdecide⟩ := Option.map_eq_some_iff.mp hfound
      refine isGreatest_atMost hy hgt.le fun j z hj hz => ?_
      exact (of_decide_eq_true hdecide).trans_le (read_le hx hnext hz (by omega))
    · cases hfound

section
variable [Zero α] [One α] (hx : Percentages x)
include hx

theorem read_zero : read x 0 = some 0 := by
  rw [read, if_pos le_rfl, Int.toNat_zero, ← List.head?_eq_getElem?]
  exact hx.first

theorem read_last : read x (x.length - 1) = some 1 := by
  have hsize := hx.size
  have hindex : ((x.length : ℤ) - 1).toNat = x.length - 1 := by omega
  rw [read, if_pos (by omega), hindex, ← List.getLast?_eq_getElem?]
  exact hx.last

theorem findStartIndex_isLeast {v : α} (h1 : v ≤ 1) :
    ∃ i, findStartIndex x v = some i ∧ IsLeast (atLeast x v) i := by
  have hsize := hx.size
  rw [findStartIndex]
  by_cases hzero : v = 0
  · rw [if_pos hzero]
    refine ⟨0, rfl, isLeast_atLeast (read_zero hx) hzero.le fun j z hj hz => ?_⟩
    have hj0 := (bounds_of_read hz).1
    omega
  rw [if_neg hzero, if_neg (by omega)]
  obtain ⟨result, hresult, hsep⟩ := search_separates hx.increasing v (foundStart x v)
    (fun _ _ => foundStart_isSome v) 0 (x.length - 1) le_rfl (by omega) (by omega)
  rw [hresult, Option.map_some]
  cases result with
  | inl m =>
    obtain ⟨-, -, y, hy, hfound⟩ := hsep
    exact ⟨m, rfl, foundStart_isLeast hx.increasing hy hfound⟩
  | inr bounds =>
    obtain ⟨l, r⟩ := bounds
    obtain ⟨hl, hlow, hhigh, hbelow, habove⟩ := hsep
    -- the last value is 1, so the loop cannot have passed it
    have hend : l ≤ x.length - 1 := by
      by_contra hlt
      exact (hbelow _ _ (by omega) (not_le.mp hlt) (read_last hx)).not_ge h1
    obtain ⟨y, hy⟩ := read_of_mem (x := x) (i := l) hlow (by omega)
    refine ⟨l, rfl, isLeast_atLeast hy ?_ fun j z hj hz => ?_⟩
    · exact (habove l y (by omega) hend hy).le
    · exact hbelow j z (bounds_of_read hz).1 hj hz

theorem findEndIndex_isGreatest {left : ℤ} {v : α} (hleft : 0 ≤ left) (hlen : left < x.length)
    (h0 : 0 ≤ v) :
    ∃ i, IsGreatest (atMost x v) i ∧ findEndIndex x left v = some (max left i) := by
  have hsize := hx.size
  rw [findEndIndex]
  by_cases hone : v = 1
  · rw [if_pos hone]
    refine ⟨x.length - 1, isGreatest_atMost (read_last hx) hone.ge fun j z hj hz => ?_, ?_⟩
    · have hjn := (bounds_of_read hz).2
      omega
    · rw [max_eq_right (by omega)]
  rw [if_neg hone]
  obtain ⟨result, hresult, hsep⟩ := search_separates hx.increasing v (foundEnd x v)
    (fun _ _ => foundEnd_isSome v) left (x.length - 1) hleft (by omega) (by omega)
  rw [hresult, Option.map_some]
  cases result with
  | inl m =>
    obtain ⟨hlow, -, y, hy, hfound⟩ := hsep
    refine ⟨m, foundEnd_isGreatest hx.increasing hy hfound, ?_⟩
    rw [max_eq_right hlow]
  | inr bounds =>
    obtain ⟨l, r⟩ := bounds
    obtain ⟨hl, hlow, hhigh, hbelow, habove⟩ := hsep
    by_cases hstart : l = left
    · -- everything from `left` on is above, so the greatest index is before it
      obtain ⟨i, hi⟩ : ∃ i, IsGreatest (atMost x v) i := by
        obtain ⟨i, hi, hmax⟩ := Int.exists_greatest_of_bdd (P := (· ∈ atMost x v))
          ⟨x.length, fun _ ⟨_, hz, _⟩ => (bounds_of_read hz).2.le⟩ ⟨0, 0, read_zero hx, h0⟩
        exact ⟨i, hi, hmax⟩
      have hbefore : i ≤ left := by
        obtain ⟨⟨y, hy, hyv⟩, -⟩ := hi
        by_contra hlt
        have hin := (bounds_of_read hy).2
        exact (habove i y (by omega) (by omega) hy).not_ge hyv
      refine ⟨i, hi, ?_⟩
      rw [max_eq_left hbefore]
      change some (max left r) = some left
      rw [max_eq_left (by omega)]
    · obtain ⟨y, hy⟩ := read_of_mem (x := x) (i := r) (by omega) (by omega)
      refine ⟨r, isGreatest_atMost hy (hbelow r y (by omega) (by omega) hy).le ?_, rfl⟩
      intro j z hj hz
      have hjn := (bounds_of_read hz).2
      exact habove j z hj (by omega) hz

/-- The greatest index between the two of a value at most `v`, and the left one without any. -/
theorem findIndex_isGreatest {left right : ℤ} (v : α) (hleft : 0 ≤ left) (hle : left ≤ right)
    (hlen : right < x.length) :
    ∃ i, findIndex x left right v = some i ∧
      (IsGreatest (Set.Icc left right ∩ atMost x v) i ∨
        Set.Icc left right ∩ atMost x v = ∅ ∧ i = left) := by
  obtain ⟨first, hfirst⟩ := read_of_mem (x := x) (i := left) hleft (by omega)
  obtain ⟨last, hlast⟩ := read_of_mem (x := x) (i := right) (by omega) hlen
  rw [findIndex, hfirst, Option.bind_some]
  by_cases hlow : v ≤ first
  · rw [if_pos hlow]
    refine ⟨left, rfl, ?_⟩
    obtain heq | hlt := hlow.eq_or_lt
    · refine Or.inl ⟨⟨⟨le_rfl, hle⟩, first, hfirst, heq.ge⟩, fun j hj => ?_⟩
      obtain ⟨-, z, hz, hzv⟩ := hj
      by_contra hjl
      exact (read_lt hx.increasing hfirst hz (not_le.mp hjl)).not_ge (heq ▸ hzv)
    · refine Or.inr ⟨Set.eq_empty_iff_forall_notMem.mpr fun j hj => ?_, rfl⟩
      obtain ⟨⟨hjl, -⟩, z, hz, hzv⟩ := hj
      exact (hlt.trans_le (read_le hx.increasing hfirst hz hjl)).not_ge hzv
  rw [if_neg hlow, hlast, Option.bind_some]
  rw [not_le] at hlow
  by_cases hhigh : v ≥ last
  · rw [if_pos hhigh]
    exact ⟨right, rfl, Or.inl ⟨⟨⟨hle, le_rfl⟩, last, hlast, hhigh⟩, fun j hj => hj.1.2⟩⟩
  rw [if_neg hhigh]
  rw [ge_iff_le, not_le] at hhigh
  obtain ⟨result, hresult, hsep⟩ := search_separates hx.increasing v (foundEnd x v)
    (fun _ _ => foundEnd_isSome v) left right hleft hlen (by omega)
  rw [hresult, Option.map_some]
  cases result with
  | inl m =>
    obtain ⟨hml, hmr, y, hy, hfound⟩ := hsep
    have hgreatest := foundEnd_isGreatest hx.increasing hy hfound
    exact ⟨m, rfl, Or.inl ⟨⟨⟨hml, hmr⟩, hgreatest.1⟩, fun j hj => hgreatest.2 hj.2⟩⟩
  | inr bounds =>
    obtain ⟨l, r⟩ := bounds
    obtain ⟨hl, hll, hrr, hbelow, habove⟩ := hsep
    -- the value at `left` is below, so the loop has moved past it
    have hmoved : left ≤ r := by
      by_contra hlt
      exact (habove left first (not_le.mp hlt) hle hfirst).not_gt hlow
    obtain ⟨y, hy⟩ := read_of_mem (x := x) (i := r) (by omega) (by omega)
    refine ⟨r, rfl, Or.inl ⟨⟨⟨hmoved, hrr⟩, y, hy, ?_⟩, fun j hj => ?_⟩⟩
    · exact (hbelow r y hmoved (by omega) hy).le
    · obtain ⟨⟨-, hjr⟩, z, hz, hzv⟩ := hj
      by_contra hlt
      exact (habove j z (not_le.mp hlt) hjr hz).not_ge hzv

end

/-- The searches read only inside the vector, end, and give the bounds. -/
theorem searches_are_bounds [Zero α] [One α] (hx : Percentages x) :
    (∀ v : α, 0 ≤ v → v ≤ 1 →
      ∃ i, findStartIndex x v = some i ∧ IsLeast (atLeast x v) i) ∧
    (∀ (left : ℤ) (v : α), 0 ≤ left → left < x.length → 0 ≤ v → v ≤ 1 →
      ∃ i, IsGreatest (atMost x v) i ∧ findEndIndex x left v = some (max left i)) ∧
    (∀ (left right : ℤ) (v : α), 0 ≤ left → left ≤ right → right < x.length → 0 ≤ v → v ≤ 1 →
      ∃ i, findIndex x left right v = some i ∧
        (IsGreatest (Set.Icc left right ∩ atMost x v) i ∨
          Set.Icc left right ∩ atMost x v = ∅ ∧ i = left)) ∧
    ∀ v w : α, 0 ≤ v → v ≤ w → w ≤ 1 →
      ∃ start finish, findStartIndex x v = some start ∧ findEndIndex x start w = some finish ∧
        start ≤ finish := by
  refine ⟨fun v _ h1 => findStartIndex_isLeast hx h1, fun left v hleft hlen h0 _ =>
    findEndIndex_isGreatest hx hleft hlen h0, fun left right v hleft hle hlen _ _ =>
    findIndex_isGreatest hx v hleft hle hlen, fun v w h0 hvw h1 => ?_⟩
  obtain ⟨start, hstart, ⟨y, hy, -⟩, -⟩ := findStartIndex_isLeast hx (hvw.trans h1)
  obtain ⟨hstart0, hstartn⟩ := bounds_of_read hy
  obtain ⟨i, -, hfinish⟩ := findEndIndex_isGreatest hx hstart0 hstartn (h0.trans hvw)
  exact ⟨start, max start i, hstart, hfinish, le_max_left start i⟩

end

theorem searches_are_bounds_thirds :
    ∃ start finish, findStartIndex [0, 1 / 3, 2 / 3, (1 : ℚ)] (1 / 2) = some start ∧
      findEndIndex [0, 1 / 3, 2 / 3, (1 : ℚ)] start (3 / 4) = some finish ∧ start ≤ finish := by
  have hx : Percentages [0, 1 / 3, 2 / 3, (1 : ℚ)] := {
    increasing := by norm_num
    size := by decide
    first := rfl
    last := rfl }
  exact (searches_are_bounds hx).2.2.2 (1 / 2) (3 / 4) (by norm_num) (by norm_num) (by norm_num)

end TelegramDesktop.Data.StatisticalChart
