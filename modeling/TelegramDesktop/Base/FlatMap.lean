import Mathlib

namespace Base

/-- A map kept as its entries in strictly increasing key order. -/
@[ext]
structure FlatMap (κ ν : Type*) [LinearOrder κ] where
  entries : List (κ × ν)
  sorted : entries.Pairwise fun a b => a.1 < b.1

namespace FlatMap

variable {κ ν : Type*} [LinearOrder κ]

/-- The place of a key in a sorted list; a key that is there keeps its value. -/
def insertEntry (k : κ) (v : ν) : List (κ × ν) → List (κ × ν)
  | [] => [(k, v)]
  | e :: rest =>
    if k < e.1 then (k, v) :: e :: rest
    else if e.1 < k then e :: insertEntry k v rest
    else e :: rest

theorem mem_insertEntry {k : κ} {v : ν} {l : List (κ × ν)} {a : κ × ν}
    (h : a ∈ insertEntry k v l) : a = (k, v) ∨ a ∈ l := by
  induction l with
  | nil => simpa [insertEntry] using h
  | cons e rest ih =>
    unfold insertEntry at h
    split_ifs at h
    · simpa using h
    · rcases List.mem_cons.mp h with rfl | h
      · simp
      · exact (ih h).imp_right (List.mem_cons_of_mem _)
    · exact .inr h

theorem insertEntry_sorted (k : κ) (v : ν) {l : List (κ × ν)}
    (h : l.Pairwise fun a b => a.1 < b.1) :
    (insertEntry k v l).Pairwise fun a b => a.1 < b.1 := by
  induction l with
  | nil => simp [insertEntry]
  | cons e rest ih =>
    obtain ⟨he, hr⟩ := List.pairwise_cons.mp h
    unfold insertEntry
    split_ifs with h1 h2
    · refine List.pairwise_cons.mpr ⟨fun a ha => ?_, h⟩
      rcases List.mem_cons.mp ha with rfl | ha
      · exact h1
      · exact h1.trans (he a ha)
    · refine List.pairwise_cons.mpr ⟨fun a ha => ?_, ih hr⟩
      rcases mem_insertEntry ha with rfl | ha
      · exact h2
      · exact he a ha
    · exact h

def empty : FlatMap κ ν := ⟨[], .nil⟩

instance : EmptyCollection (FlatMap κ ν) := ⟨empty⟩

instance : Inhabited (FlatMap κ ν) := ⟨∅⟩

@[simp] theorem entries_empty : (∅ : FlatMap κ ν).entries = [] := rfl

/-- Insertion that leaves a present key alone. -/
def emplace (m : FlatMap κ ν) (k : κ) (v : ν) : FlatMap κ ν :=
  ⟨insertEntry k v m.entries, insertEntry_sorted k v m.sorted⟩

def get? (m : FlatMap κ ν) (k : κ) : Option ν :=
  (m.entries.find? fun e => decide (e.1 = k)).map Prod.snd

def contains (m : FlatMap κ ν) (k : κ) : Bool := (m.get? k).isSome

def erase (m : FlatMap κ ν) (k : κ) : FlatMap κ ν :=
  ⟨m.entries.filter fun e => decide (e.1 ≠ k), m.sorted.filter _⟩

/-- `erase(begin())`. -/
def eraseFirst (m : FlatMap κ ν) : FlatMap κ ν :=
  ⟨m.entries.tail, m.sorted.tail⟩

def keys (m : FlatMap κ ν) : List κ := m.entries.map Prod.fst

def size (m : FlatMap κ ν) : ℕ := m.entries.length

def isEmpty (m : FlatMap κ ν) : Bool := m.entries.isEmpty

theorem isEmpty_iff (m : FlatMap κ ν) : m.isEmpty = true ↔ m.entries = [] := by
  simp [isEmpty]

theorem keys_nodup (m : FlatMap κ ν) : m.keys.Nodup :=
  List.pairwise_map.mpr (m.sorted.imp fun h => h.ne)

/-- The value at a key is the one its entry holds. -/
theorem get?_eq_some_iff (m : FlatMap κ ν) (k : κ) (v : ν) :
    m.get? k = some v ↔ (k, v) ∈ m.entries := by
  have key (l : List (κ × ν)) (h : l.Pairwise fun a b => a.1 < b.1) :
      (l.find? fun e => decide (e.1 = k)).map Prod.snd = some v ↔ (k, v) ∈ l := by
    induction l with
    | nil => simp
    | cons e rest ih =>
      obtain ⟨he, hr⟩ := List.pairwise_cons.mp h
      by_cases hk : e.1 = k
      · have hn : (k, v) ∉ rest := fun hm => (he _ hm).ne hk
        simp only [List.find?_cons, hk, decide_true, Option.map_some, Option.some.injEq,
          List.mem_cons, hn, or_false]
        constructor
        · rintro rfl
          exact Prod.ext hk.symm rfl
        · rintro rfl
          rfl
      · have hne : (k, v) ≠ e := by
          rintro rfl
          exact hk rfl
        simp only [List.find?_cons, hk, decide_false, List.mem_cons, hne, false_or]
        exact ih hr
  exact key m.entries m.sorted

theorem get?_eq_none_iff (m : FlatMap κ ν) (k : κ) :
    m.get? k = none ↔ ∀ v, (k, v) ∉ m.entries := by
  constructor
  · intro h v hv
    rw [← get?_eq_some_iff, h] at hv
    cases hv
  · intro h
    cases hg : m.get? k with
    | none => rfl
    | some v => exact absurd ((m.get?_eq_some_iff k v).mp hg) (h v)

theorem contains_iff (m : FlatMap κ ν) (k : κ) :
    m.contains k = true ↔ ∃ v, (k, v) ∈ m.entries := by
  simp only [contains, Option.isSome_iff_exists, get?_eq_some_iff]

@[simp] theorem get?_empty (k : κ) : (∅ : FlatMap κ ν).get? k = none := rfl

/-- A key that is absent is added; a present one keeps its value. -/
theorem mem_emplace (m : FlatMap κ ν) (k : κ) (v : ν) (a : κ × ν) :
    a ∈ (m.emplace k v).entries ↔ a ∈ m.entries ∨ (a = (k, v) ∧ m.get? k = none) := by
  have key (l : List (κ × ν)) (h : l.Pairwise fun a b => a.1 < b.1) :
      a ∈ insertEntry k v l ↔ a ∈ l ∨ (a = (k, v) ∧ ∀ w, (k, w) ∉ l) := by
    induction l with
    | nil => simp [insertEntry]
    | cons e rest ih =>
      obtain ⟨he, hr⟩ := List.pairwise_cons.mp h
      unfold insertEntry
      split_ifs with h1 h2
      · have hn : ∀ w, (k, w) ∉ e :: rest := by
          intro w hw
          rcases List.mem_cons.mp hw with rfl | hw
          · exact lt_irrefl _ h1
          · exact lt_asymm h1 (he _ hw)
        simp only [List.mem_cons (a := a), hn, not_false_eq_true, implies_true, and_true]
        tauto
      · have hn : ∀ w, (k, w) ∈ e :: rest ↔ (k, w) ∈ rest := by
          intro w
          refine ⟨fun hw => ?_, List.mem_cons_of_mem _⟩
          rcases List.mem_cons.mp hw with rfl | hw
          · exact absurd h2 (lt_irrefl _)
          · exact hw
        simp only [List.mem_cons (a := a), ih hr, hn]
        tauto
      · have hk : k = e.1 := le_antisymm (not_lt.mp h2) (not_lt.mp h1)
        have hp : ¬ ∀ w, (k, w) ∉ e :: rest := fun hh => hh e.2 (by simp [hk])
        simp only [hp, and_false, or_false]
  rw [get?_eq_none_iff]
  exact key m.entries m.sorted

theorem get?_emplace (m : FlatMap κ ν) (k k' : κ) (v : ν) :
    (m.emplace k v).get? k' = if k' = k then some ((m.get? k).getD v) else m.get? k' := by
  split_ifs with hk
  · subst hk
    rw [get?_eq_some_iff, mem_emplace]
    cases hg : m.get? k' with
    | none => simp
    | some w => exact .inl ((m.get?_eq_some_iff _ _).mp hg)
  · apply Option.ext
    intro w
    rw [get?_eq_some_iff, get?_eq_some_iff, mem_emplace]
    simp [hk]

theorem mem_erase (m : FlatMap κ ν) (k : κ) (a : κ × ν) :
    a ∈ (m.erase k).entries ↔ a ∈ m.entries ∧ a.1 ≠ k := by
  simp [erase]

theorem get?_erase (m : FlatMap κ ν) (k k' : κ) :
    (m.erase k).get? k' = if k' = k then none else m.get? k' := by
  split_ifs with hk
  · rw [get?_eq_none_iff]
    intro v hv
    exact ((m.mem_erase k _).mp hv).2 hk
  · apply Option.ext
    intro w
    rw [get?_eq_some_iff, get?_eq_some_iff, mem_erase]
    simp [hk]

/-- Two maps with the same entries hold them in the same order. -/
theorem eq_of_mem_iff {m m' : FlatMap κ ν} (h : ∀ a, a ∈ m.entries ↔ a ∈ m'.entries) :
    m = m' := by
  apply FlatMap.ext
  have hd {l : List (κ × ν)} (hl : l.Pairwise fun a b => a.1 < b.1) : l.Nodup :=
    List.Pairwise.imp (fun hab => fun he => hab.ne (congrArg Prod.fst he)) hl
  have hp : m.entries.Perm m'.entries :=
    (List.perm_ext_iff_of_nodup (hd m.sorted) (hd m'.sorted)).mpr h
  exact hp.eq_of_pairwise (fun a b _ _ hab hba => absurd hab (lt_asymm hba)) m.sorted m'.sorted

/-- Inserting at a present key does nothing. -/
theorem emplace_of_get? {m : FlatMap κ ν} {k : κ} {v : ν} (h : m.get? k = some v) (w : ν) :
    m.emplace k w = m := by
  apply eq_of_mem_iff
  intro a
  simp [mem_emplace, h]

theorem size_emplace {m : FlatMap κ ν} {k : κ} (v : ν) (h : m.get? k = none) :
    (m.emplace k v).size = m.size + 1 := by
  have key (l : List (κ × ν)) (hn : ∀ w, (k, w) ∉ l) :
      (insertEntry k v l).length = l.length + 1 := by
    induction l with
    | nil => rfl
    | cons e rest ih =>
      have hne : k ≠ e.1 := fun he => hn e.2 (by simp [he])
      unfold insertEntry
      split_ifs with h1 h2
      · rfl
      · simp [ih fun w hw => hn w (List.mem_cons_of_mem _ hw)]
      · exact absurd (le_antisymm (not_lt.mp h2) (not_lt.mp h1)) hne
  exact key m.entries ((m.get?_eq_none_iff k).mp h)

variable {μ : Type*}

def values (m : FlatMap κ ν) : List ν := m.entries.map Prod.snd

theorem mem_values {m : FlatMap κ ν} {v : ν} : v ∈ m.values ↔ ∃ k, (k, v) ∈ m.entries := by
  simp [values]

theorem values_emplace_perm {m : FlatMap κ ν} {k : κ} {v : ν} (h : m.get? k = none) :
    (m.emplace k v).values.Perm (v :: m.values) := by
  have key (l : List (κ × ν)) (hn : ∀ w, (k, w) ∉ l) :
      (insertEntry k v l).Perm ((k, v) :: l) := by
    induction l with
    | nil => rfl
    | cons e rest ih =>
      have hne : k ≠ e.1 := fun he => hn e.2 (by simp [he])
      unfold insertEntry
      split_ifs with h1 h2
      · rfl
      · exact ((ih fun w hw => hn w (List.mem_cons_of_mem _ hw)).cons e).trans (.swap ..)
      · exact absurd (le_antisymm (not_lt.mp h2) (not_lt.mp h1)) hne
  exact (key m.entries ((m.get?_eq_none_iff k).mp h)).map Prod.snd

def filter (m : FlatMap κ ν) (P : ν → Bool) : FlatMap κ ν :=
  ⟨m.entries.filter fun e => P e.2, m.sorted.filter _⟩

def mapValues (m : FlatMap κ ν) (f : ν → μ) : FlatMap κ μ :=
  ⟨m.entries.map fun e => (e.1, f e.2), List.pairwise_map.mpr m.sorted⟩

theorem mem_filter {m : FlatMap κ ν} {P : ν → Bool} {a : κ × ν} :
    a ∈ (m.filter P).entries ↔ a ∈ m.entries ∧ P a.2 = true := by
  simp [filter]

theorem get?_filter_of_none {m : FlatMap κ ν} {k : κ} (h : m.get? k = none) (P : ν → Bool) :
    (m.filter P).get? k = none := by
  rw [get?_eq_none_iff] at h ⊢
  exact fun v hv => h v (mem_filter.mp hv).1

theorem filter_emplace_pos {m : FlatMap κ ν} {k : κ} {v : ν} {P : ν → Bool}
    (h : m.get? k = none) (hP : P v = true) :
    (m.emplace k v).filter P = (m.filter P).emplace k v := by
  apply eq_of_mem_iff
  intro a
  simp only [mem_filter, mem_emplace, h, get?_filter_of_none h P, and_true]
  constructor
  · rintro ⟨ha | rfl, hp⟩
    · exact .inl ⟨ha, hp⟩
    · exact .inr rfl
  · rintro (⟨ha, hp⟩ | rfl)
    · exact ⟨.inl ha, hp⟩
    · exact ⟨.inr rfl, hP⟩

theorem filter_emplace_neg {m : FlatMap κ ν} {k : κ} {v : ν} {P : ν → Bool}
    (hP : P v = false) : (m.emplace k v).filter P = m.filter P := by
  apply eq_of_mem_iff
  intro a
  simp only [mem_filter, mem_emplace]
  constructor
  · rintro ⟨ha | ⟨rfl, -⟩, hp⟩
    · exact ⟨ha, hp⟩
    · simp [hP] at hp
  · exact fun h => ⟨.inl h.1, h.2⟩

theorem mapValues_emplace (m : FlatMap κ ν) (k : κ) (v : ν) (f : ν → μ) :
    (m.emplace k v).mapValues f = (m.mapValues f).emplace k (f v) := by
  have key (l : List (κ × ν)) : (insertEntry k v l).map (fun e => (e.1, f e.2)) =
      insertEntry k (f v) (l.map fun e => (e.1, f e.2)) := by
    induction l with
    | nil => rfl
    | cons e rest ih =>
      simp only [insertEntry, List.map_cons]
      split_ifs <;> simp [ih]
  exact FlatMap.ext (key m.entries)

@[simp] theorem mapValues_isEmpty (m : FlatMap κ ν) (f : ν → μ) :
    (m.mapValues f).isEmpty = m.isEmpty := by
  simp [mapValues, isEmpty]

@[simp] theorem filter_empty (P : ν → Bool) : (∅ : FlatMap κ ν).filter P = ∅ := rfl

@[simp] theorem mapValues_empty (f : ν → μ) : (∅ : FlatMap κ ν).mapValues f = ∅ := rfl

theorem eq_empty_of_isEmpty {m : FlatMap κ ν} (h : m.isEmpty = true) : m = ∅ :=
  FlatMap.ext (m.isEmpty_iff.mp h)

end FlatMap

end Base
