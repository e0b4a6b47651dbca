import Mathlib

namespace Base

/-- A set kept as its elements in strictly increasing order. -/
@[ext]
structure FlatSet (α : Type*) [LinearOrder α] where
  elems : List α
  sorted : elems.Pairwise (· < ·)
  deriving DecidableEq

namespace FlatSet

variable {α : Type*} [LinearOrder α]

instance : Membership α (FlatSet α) := ⟨fun s x => x ∈ s.elems⟩

instance (x : α) (s : FlatSet α) : Decidable (x ∈ s) := inferInstanceAs (Decidable (x ∈ s.elems))

theorem mem_elems {x : α} {s : FlatSet α} : x ∈ s.elems ↔ x ∈ s := Iff.rfl

def empty : FlatSet α := ⟨[], .nil⟩

instance : EmptyCollection (FlatSet α) := ⟨empty⟩

instance : Inhabited (FlatSet α) := ⟨∅⟩

@[simp] theorem elems_empty : (∅ : FlatSet α).elems = [] := rfl

@[simp] theorem not_mem_empty (x : α) : x ∉ (∅ : FlatSet α) := List.not_mem_nil

def insertElem (x : α) : List α → List α
  | [] => [x]
  | y :: rest =>
    if x < y then x :: y :: rest
    else if y < x then y :: insertElem x rest
    else y :: rest

theorem mem_insertElem {x y : α} {l : List α} : y ∈ insertElem x l ↔ y = x ∨ y ∈ l := by
  induction l with
  | nil => simp [insertElem]
  | cons z rest ih =>
    rw [insertElem]
    split_ifs with h1 h2
    · simp
    · rw [List.mem_cons, ih, List.mem_cons]
      tauto
    · have heq : x = z := le_antisymm (not_lt.mp h2) (not_lt.mp h1)
      rw [heq, List.mem_cons]
      tauto

theorem insertElem_sorted (x : α) {l : List α} (h : l.Pairwise (· < ·)) :
    (insertElem x l).Pairwise (· < ·) := by
  induction l with
  | nil => simp [insertElem]
  | cons y rest ih =>
    obtain ⟨hy, hrest⟩ := List.pairwise_cons.mp h
    rw [insertElem]
    split_ifs with h1 h2
    · apply List.pairwise_cons.mpr ⟨_, h⟩
      intro z hz
      rcases List.mem_cons.mp hz with hz | hz
      · rwa [hz]
      · exact h1.trans (hy z hz)
    · apply List.pairwise_cons.mpr ⟨_, ih hrest⟩
      intro z hz
      rcases mem_insertElem.mp hz with hz | hz
      · rwa [hz]
      · exact hy z hz
    · exact h

def insert (s : FlatSet α) (x : α) : FlatSet α :=
  ⟨insertElem x s.elems, insertElem_sorted x s.sorted⟩

@[simp] theorem mem_insert {s : FlatSet α} {x y : α} : y ∈ s.insert x ↔ y = x ∨ y ∈ s :=
  mem_insertElem

def merge (s : FlatSet α) (l : List α) : FlatSet α := l.foldl insert s

@[simp] theorem mem_merge {s : FlatSet α} {l : List α} {y : α} :
    y ∈ s.merge l ↔ y ∈ s ∨ y ∈ l := by
  induction l generalizing s with
  | nil => simp [merge]
  | cons x l ih =>
    have hmerge : s.merge (x :: l) = (s.insert x).merge l := rfl
    rw [hmerge, ih, mem_insert, List.mem_cons]
    tauto

/-- The set a range is put to. -/
def ofList (l : List α) : FlatSet α := (∅ : FlatSet α).merge l

@[simp] theorem mem_ofList {l : List α} {y : α} : y ∈ ofList l ↔ y ∈ l := by
  simp [ofList]

def remove (s : FlatSet α) (x : α) : FlatSet α :=
  ⟨s.elems.filter fun y => decide (y ≠ x), s.sorted.filter _⟩

@[simp] theorem mem_remove {s : FlatSet α} {x y : α} : y ∈ s.remove x ↔ y ∈ s ∧ y ≠ x := by
  change y ∈ s.elems.filter _ ↔ _
  rw [List.mem_filter, decide_eq_true_iff]
  rfl

def size (s : FlatSet α) : ℕ := s.elems.length

def isEmpty (s : FlatSet α) : Bool := s.elems.isEmpty

theorem isEmpty_iff {s : FlatSet α} : s.isEmpty = true ↔ s = ∅ := by
  rw [isEmpty, List.isEmpty_iff]
  constructor
  · intro h
    exact FlatSet.ext h
  · intro h
    rw [h, elems_empty]

theorem nodup (s : FlatSet α) : s.elems.Nodup := s.sorted.imp fun h => h.ne

/-- A set is known by its elements. -/
theorem eq_of_mem {s t : FlatSet α} (h : ∀ x, x ∈ s ↔ x ∈ t) : s = t := by
  apply FlatSet.ext
  have hperm : s.elems.Perm t.elems := (List.perm_ext_iff_of_nodup s.nodup t.nodup).mpr h
  exact hperm.eq_of_pairwise (fun _ _ _ _ hab hba => absurd hab hba.asymm) s.sorted t.sorted

theorem size_remove_of_mem {s : FlatSet α} {x : α} (h : x ∈ s) :
    (s.remove x).size + 1 = s.size := by
  have hfilter : s.elems.filter (fun y => decide (y ≠ x)) = s.elems.erase x := by
    rw [s.nodup.erase_eq_filter]
    apply List.filter_congr
    intro y _
    exact (Bool.eq_iff_iff.mpr (by simp))
  have hlen := List.length_erase_of_mem (mem_elems.mpr h)
  have hpos := List.length_pos_of_mem (mem_elems.mpr h)
  rw [size, size, remove]
  dsimp only
  rw [hfilter, hlen]
  omega

theorem remove_of_not_mem {s : FlatSet α} {x : α} (h : x ∉ s) : s.remove x = s := by
  apply eq_of_mem
  intro y
  rw [mem_remove]
  exact ⟨And.left, fun hy => ⟨hy, fun heq => h (heq ▸ hy)⟩⟩

/-- Where `lower_bound` stands: how many elements are less. -/
def lowerBound (s : FlatSet α) (x : α) : ℕ := (s.elems.takeWhile fun y => decide (y < x)).length

theorem lowerBound_le_size (s : FlatSet α) (x : α) : s.lowerBound x ≤ s.size :=
  (List.takeWhile_prefix _).length_le

/-- The elements from `i` on, `n` of them. -/
def sub (s : FlatSet α) (i n : ℕ) : FlatSet α :=
  ⟨(s.elems.drop i).take n,
    s.sorted.sublist ((List.take_sublist ..).trans (List.drop_sublist ..))⟩

theorem size_sub {s : FlatSet α} {i n : ℕ} (h : i + n ≤ s.size) : (s.sub i n).size = n := by
  rw [size, sub, List.length_take, List.length_drop]
  rw [size] at h
  omega

theorem elems_sub_drop (s : FlatSet α) (n : ℕ) :
    (s.sub n (s.size - n)).elems = s.elems.drop n := by
  rw [sub, size]
  apply List.take_of_length_le
  rw [List.length_drop]

theorem elems_sub_take (s : FlatSet α) (n : ℕ) : (s.sub 0 n).elems = s.elems.take n := rfl

/-- The last element, or a default, has nothing behind it. -/
theorem le_getLastD {s : FlatSet α} {x : α} (h : x ∈ s) (d : α) : x ≤ s.elems.getLastD d := by
  have hne : s.elems ≠ [] := List.ne_nil_of_mem h
  rw [List.getLastD_eq_getLast?, List.getLast?_eq_some_getLast hne, Option.getD_some]
  have hsplit := List.dropLast_concat_getLast hne
  have hsorted := s.sorted
  rw [← hsplit, List.pairwise_append] at hsorted
  rw [← mem_elems, ← hsplit, List.mem_append, List.mem_singleton] at h
  rcases h with h | h
  · exact (hsorted.2.2 x h _ (List.mem_singleton.mpr rfl)).le
  · exact h.le

theorem getLastD_mem {s : FlatSet α} (h : s ≠ ∅) (d : α) : s.elems.getLastD d ∈ s := by
  have hne : s.elems ≠ [] := fun hnil => h (FlatSet.ext hnil)
  rw [List.getLastD_eq_getLast?, List.getLast?_eq_some_getLast hne, Option.getD_some]
  exact List.getLast_mem hne

/-- The elements less than an id come first. -/
theorem split_lowerBound (s : FlatSet α) (x : α) :
    ∃ before after, s.elems = before ++ after ∧ s.lowerBound x = before.length ∧
      (∀ y ∈ before, y < x) ∧ ∀ y ∈ after, x ≤ y := by
  refine ⟨s.elems.takeWhile fun y => decide (y < x), s.elems.dropWhile fun y => decide (y < x),
    List.takeWhile_append_dropWhile.symm, rfl, ?_, ?_⟩
  · intro y hy
    have hless := List.mem_takeWhile_imp hy
    exact of_decide_eq_true hless
  · intro y hy
    have hsorted := s.sorted.sublist (List.dropWhile_sublist fun y => decide (y < x))
    cases hdrop : s.elems.dropWhile fun y => decide (y < x) with
    | nil =>
      rw [hdrop] at hy
      exact absurd hy List.not_mem_nil
    | cons first rest =>
      have hfirst := List.head_dropWhile_not (fun y => decide (y < x))
        (l := s.elems) (by rw [hdrop]; exact List.cons_ne_nil _ _)
      simp only [hdrop, List.head_cons, decide_eq_false_iff_not, not_lt] at hfirst
      rw [hdrop] at hsorted hy
      rcases List.mem_cons.mp hy with heq | hmem
      · rw [heq]
        exact hfirst
      · exact hfirst.trans (List.rel_of_pairwise_cons hsorted hmem).le

theorem lowerBound_eq {s : FlatSet α} {x : α} {before after : List α}
    (h : s.elems = before ++ after) (hbefore : ∀ y ∈ before, y < x) (hafter : ∀ y ∈ after, x ≤ y) :
    s.lowerBound x = before.length := by
  have hnil : after.takeWhile (fun y => decide (y < x)) = [] := by
    cases after with
    | nil => rfl
    | cons first rest =>
      have hfirst := hafter first List.mem_cons_self
      simp [not_lt.mpr hfirst]
  rw [lowerBound, h, List.takeWhile_append_of_pos, hnil, List.append_nil]
  intro y hy
  exact decide_eq_true (hbefore y hy)

theorem lowerBound_eq_countP (s : FlatSet α) (x : α) :
    s.lowerBound x = s.elems.countP fun y => decide (y < x) := by
  obtain ⟨before, after, helems, hbound, hbefore, hafter⟩ := s.split_lowerBound x
  have hall : before.countP (fun y => decide (y < x)) = before.length :=
    List.countP_eq_length.mpr fun y hy => decide_eq_true (hbefore y hy)
  have hnone : after.countP (fun y => decide (y < x)) = 0 :=
    List.countP_eq_zero.mpr fun y hy => by simpa using hafter y hy
  rw [hbound, helems, List.countP_append, hall, hnone, Nat.add_zero]

/-- How many elements are greater. -/
def behind (s : FlatSet α) (x : α) : ℕ := s.elems.countP fun y => decide (x < y)

theorem size_eq_of_mem {s : FlatSet α} {x : α} (h : x ∈ s) :
    s.size = s.lowerBound x + 1 + s.behind x := by
  obtain ⟨before, after, helems⟩ := List.append_of_mem (mem_elems.mpr h)
  have hsorted := s.sorted
  rw [helems, List.pairwise_append] at hsorted
  have hbefore : ∀ y ∈ before, y < x := fun y hy =>
    hsorted.2.2 y hy x List.mem_cons_self
  have hafter : ∀ y ∈ after, x < y := fun y hy => List.rel_of_pairwise_cons hsorted.2.1 hy
  have hbound : s.lowerBound x = before.length := by
    apply lowerBound_eq helems hbefore
    intro y hy
    rcases List.mem_cons.mp hy with hy | hy
    · exact hy.ge
    · exact (hafter y hy).le
  have hnone : before.countP (fun y => decide (x < y)) = 0 :=
    List.countP_eq_zero.mpr fun y hy => by simpa using (hbefore y hy).le
  have hall : after.countP (fun y => decide (x < y)) = after.length :=
    List.countP_eq_length.mpr fun y hy => decide_eq_true (hafter y hy)
  rw [hbound, behind, size, helems, List.countP_append, hnone, List.length_append,
    List.length_cons]
  simp only [List.countP_cons, hall, lt_irrefl, decide_false, Bool.false_eq_true, if_false]
  omega

theorem countP_insert {s : FlatSet α} {x : α} (h : x ∉ s) (p : α → Bool) :
    (s.insert x).elems.countP p = s.elems.countP p + if p x then 1 else 0 := by
  have hperm : (s.insert x).elems.Perm (x :: s.elems) := by
    apply (List.perm_ext_iff_of_nodup (s.insert x).nodup (List.nodup_cons.mpr ⟨h, s.nodup⟩)).mpr
    intro y
    rw [List.mem_cons]
    exact mem_insert
  rw [hperm.countP_eq, List.countP_cons]

theorem lowerBound_insert {s : FlatSet α} {x : α} (h : x ∉ s) (y : α) :
    (s.insert x).lowerBound y = s.lowerBound y + if x < y then 1 else 0 := by
  rw [lowerBound_eq_countP, lowerBound_eq_countP, countP_insert h]
  simp only [decide_eq_true_eq]

theorem behind_insert {s : FlatSet α} {x : α} (h : x ∉ s) (y : α) :
    (s.insert x).behind y = s.behind y + if y < x then 1 else 0 := by
  rw [behind, behind, countP_insert h]
  simp only [decide_eq_true_eq]

/-- A run of the elements takes what lies between its ends. -/
structure Splits (s : FlatSet α) (before : List α) (window : FlatSet α) (after : List α) :
    Prop where
  elems : s.elems = before ++ window.elems ++ after

namespace Splits

variable {s window : FlatSet α} {before after : List α}

theorem size (h : s.Splits before window after) :
    s.size = before.length + window.size + after.length := by
  rw [FlatSet.size, FlatSet.size, h.elems, List.length_append, List.length_append]

theorem mem (h : s.Splits before window after) {x : α} :
    x ∈ s ↔ x ∈ before ∨ x ∈ window ∨ x ∈ after := by
  rw [← mem_elems, ← mem_elems, h.elems, List.mem_append, List.mem_append, or_assoc]

theorem before_lt (h : s.Splits before window after) {x y : α} (hx : x ∈ before)
    (hy : y ∈ window ∨ y ∈ after) : x < y := by
  have hsorted := s.sorted
  rw [h.elems, List.append_assoc, List.pairwise_append] at hsorted
  exact hsorted.2.2 x hx y (List.mem_append.mpr hy)

theorem lt_after (h : s.Splits before window after) {x y : α} (hx : x ∈ before ∨ x ∈ window)
    (hy : y ∈ after) : x < y := by
  have hsorted := s.sorted
  rw [h.elems, List.pairwise_append] at hsorted
  exact hsorted.2.2 x (List.mem_append.mpr hx) y hy

theorem refl (s : FlatSet α) : s.Splits [] s [] := ⟨by simp⟩

theorem trans {inner : FlatSet α} {before' after' : List α} (h : s.Splits before window after)
    (h' : window.Splits before' inner after') :
    s.Splits (before ++ before') inner (after' ++ after) :=
  ⟨by rw [h.elems, h'.elems]; simp only [List.append_assoc]⟩

/-- What lies between two elements of the run is in the run. -/
theorem mem_of_between (h : s.Splits before window after) {x y z : α} (hx : x ∈ window)
    (hz : z ∈ window) (hy : y ∈ s) (hxy : x < y) (hyz : y < z) : y ∈ window := by
  rcases h.mem.mp hy with hy | hy | hy
  · exact absurd (h.before_lt hy (.inl hx)) hxy.asymm
  · exact hy
  · exact absurd (h.lt_after (.inr hz) hy) hyz.asymm

theorem lowerBound (h : s.Splits before window after) {x : α} (hx : x ∈ window) :
    s.lowerBound x = before.length + window.lowerBound x := by
  have hall : before.countP (fun y => decide (y < x)) = before.length :=
    List.countP_eq_length.mpr fun y hy => decide_eq_true (h.before_lt hy (.inl hx))
  have hnone : after.countP (fun y => decide (y < x)) = 0 :=
    List.countP_eq_zero.mpr fun y hy => by simpa using (h.lt_after (.inr hx) hy).le
  rw [lowerBound_eq_countP, lowerBound_eq_countP, h.elems, List.countP_append, List.countP_append,
    hall, hnone, Nat.add_zero]

theorem behind (h : s.Splits before window after) {x : α} (hx : x ∈ window) :
    s.behind x = window.behind x + after.length := by
  have hnone : before.countP (fun y => decide (x < y)) = 0 :=
    List.countP_eq_zero.mpr fun y hy => by simpa using (h.before_lt hy (.inl hx)).le
  have hall : after.countP (fun y => decide (x < y)) = after.length :=
    List.countP_eq_length.mpr fun y hy => decide_eq_true (h.lt_after (.inr hx) hy)
  rw [FlatSet.behind, FlatSet.behind, h.elems, List.countP_append, List.countP_append, hnone, hall,
    Nat.zero_add]

theorem of_sub (s : FlatSet α) (i n : ℕ) :
    s.Splits (s.elems.take i) (s.sub i n) ((s.elems.drop i).drop n) :=
  ⟨by rw [FlatSet.sub, List.append_assoc, List.take_append_drop, List.take_append_drop]⟩

theorem remove (h : s.Splits before window after) (x : α) :
    (s.remove x).Splits (before.filter fun y => decide (y ≠ x)) (window.remove x)
      (after.filter fun y => decide (y ≠ x)) := by
  constructor
  change s.elems.filter _ = _
  rw [h.elems, List.filter_append, List.filter_append]
  rfl

/-- Elements between two bounds are a run. -/
theorem of_between {lower upper : α} (hmem : ∀ x, x ∈ window ↔ x ∈ s ∧ lower ≤ x ∧ x ≤ upper)
    (hle : lower ≤ upper) :
    s.Splits (s.elems.filter fun x => decide (x < lower)) window
      (s.elems.filter fun x => decide (upper < x)) := by
  constructor
  have hsub : ∀ p : α → Bool, (s.elems.filter p).Pairwise (· < ·) := fun p => s.sorted.filter p
  have hsorted : (s.elems.filter (fun x => decide (x < lower)) ++ window.elems ++
      s.elems.filter (fun x => decide (upper < x))).Pairwise (· < ·) := by
    apply List.pairwise_append.mpr
      ⟨List.pairwise_append.mpr ⟨hsub _, window.sorted, ?_⟩, hsub _, ?_⟩
    · intro x hx y hy
      have hlt := of_decide_eq_true (List.mem_filter.mp hx).2
      exact hlt.trans_le ((hmem y).mp hy).2.1
    · intro x hx y hy
      have hlt := of_decide_eq_true (List.mem_filter.mp hy).2
      rcases List.mem_append.mp hx with hx | hx
      · exact ((of_decide_eq_true (List.mem_filter.mp hx).2).trans_le hle).trans hlt
      · exact ((hmem x).mp hx).2.2.trans_lt hlt
  have hset : s = ⟨_, hsorted⟩ := by
    apply eq_of_mem
    intro x
    have hw : x ∈ window.elems ↔ x ∈ s ∧ lower ≤ x ∧ x ≤ upper := hmem x
    rw [← mem_elems (s := ⟨_, hsorted⟩)]
    simp only [List.mem_append, List.mem_filter, hw, mem_elems, decide_eq_true_eq]
    rcases lt_or_ge x lower with hlow | hlow
    · tauto
    · rcases le_or_gt x upper with hhigh | hhigh
      · tauto
      · tauto
  exact congrArg FlatSet.elems hset

end Splits

theorem head_mem {s : FlatSet α} {x : α} (h : s.elems.head? = some x) : x ∈ s :=
  List.mem_of_head? h

theorem last_mem {s : FlatSet α} {x : α} (h : s.elems.getLast? = some x) : x ∈ s :=
  List.mem_of_getLast? h

theorem merge_eq {s t : FlatSet α} (h : ∀ x ∈ s, x ∈ t) : s.merge t.elems = t := by
  apply eq_of_mem
  intro x
  rw [mem_merge, mem_elems]
  exact or_iff_right_of_imp (h x)

theorem merge_empty (s : FlatSet α) : s.merge (∅ : FlatSet α).elems = s := rfl

theorem lowerBound_head {s : FlatSet α} {x : α} (h : s.elems.head? = some x) :
    s.lowerBound x = 0 := by
  obtain ⟨rest, hrest⟩ := List.head?_eq_some_iff.mp h
  simp [lowerBound, hrest]

theorem behind_last {s : FlatSet α} {x : α} (h : s.elems.getLast? = some x) : s.behind x = 0 := by
  obtain ⟨init, hinit⟩ := List.getLast?_eq_some_iff.mp h
  have hsorted := s.sorted
  rw [hinit, List.pairwise_append] at hsorted
  apply List.countP_eq_zero.mpr
  intro y hy
  rw [hinit] at hy
  rcases List.mem_append.mp hy with hy | hy
  · simpa using (hsorted.2.2 y hy x (List.mem_singleton_self x)).le
  · simp [List.mem_singleton.mp hy]

theorem head_le {s : FlatSet α} {x y : α} (h : s.elems.head? = some x) (hy : y ∈ s) : x ≤ y := by
  obtain ⟨rest, hrest⟩ := List.head?_eq_some_iff.mp h
  have hsorted := s.sorted
  rw [hrest] at hsorted
  rw [← mem_elems, hrest] at hy
  rcases List.mem_cons.mp hy with hy | hy
  · exact hy.ge
  · exact (List.rel_of_pairwise_cons hsorted hy).le

theorem le_last {s : FlatSet α} {x y : α} (h : s.elems.getLast? = some x) (hy : y ∈ s) :
    y ≤ x := by
  have hle := le_getLastD hy x
  rwa [List.getLastD_eq_getLast?, h] at hle

/-- A set that is not empty has a first and a last element. -/
theorem ends_of_ne {s : FlatSet α} (h : s ≠ ∅) :
    ∃ front back, s.elems.head? = some front ∧ s.elems.getLast? = some back := by
  have hne : s.elems ≠ [] := fun hnil => h (FlatSet.ext hnil)
  exact ⟨s.elems.head hne, s.elems.getLast hne, List.head?_eq_some_head hne,
    List.getLast?_eq_some_getLast hne⟩

end FlatSet

end Base
