import TelegramDesktop.Base.Keyed

namespace Base

variable {α κ : Type*} [DecidableEq κ] {key : α → κ}

/-- The last entry of a log with a key. -/
def latest (key : α → κ) (k : κ) (log : List α) : Option α :=
  (log.filter fun x => decide (key x = k)).getLast?

theorem latest_singleton (k : κ) (x : α) :
    latest key k [x] = if key x = k then some x else none := by
  by_cases hx : key x = k
  · simp [latest, hx]
  · simp [latest, hx]

/-- The later log wins. -/
theorem latest_append (k : κ) (log later : List α) :
    latest key k (log ++ later) = (latest key k later).or (latest key k log) := by
  rw [latest, List.filter_append, List.getLast?_append]
  rfl

theorem latest_cons (k : κ) (x : α) (log : List α) :
    latest key k (x :: log) = (latest key k log).or (if key x = k then some x else none) := by
  rw [← List.singleton_append, latest_append, latest_singleton]

theorem filter_key_eq_nil {k : κ} {log : List α} (h : ∀ x ∈ log, key x ≠ k) :
    (log.filter fun x => decide (key x = k)) = [] := by
  apply List.filter_eq_nil_iff.mpr
  intro x hx heq
  exact h x hx (of_decide_eq_true heq)

theorem latest_eq_none {k : κ} {log : List α} (h : ∀ x ∈ log, key x ≠ k) :
    latest key k log = none := by
  rw [latest, filter_key_eq_nil h]
  rfl

theorem mem_of_latest {k : κ} {log : List α} {x : α} (h : latest key k log = some x) :
    x ∈ log ∧ key x = k := by
  have hmem := List.mem_filter.mp (List.mem_of_getLast? h)
  exact ⟨hmem.1, of_decide_eq_true hmem.2⟩

/-- The last entry of a translated log, when the keys are translated along. -/
theorem latest_map {β κ' : Type*} [DecidableEq κ'] {key' : β → κ'} {f : β → α} {k : κ} {k' : κ'}
    (h : ∀ y, key (f y) = k ↔ key' y = k') (log : List β) :
    latest key k (log.map f) = (latest key' k' log).map f := by
  induction log with
  | nil => rfl
  | cons first rest ih =>
    rw [List.map_cons, latest_cons, latest_cons, ih, Option.map_or]
    by_cases hfirst : key' first = k'
    · rw [if_pos hfirst, if_pos ((h first).mpr hfirst), Option.map_some]
    · rw [if_neg hfirst, if_neg (mt (h first).mp hfirst), Option.map_none]

/-- Put an entry in the place of the one with its key, or at the end. -/
def place (key : α → κ) (x : α) : List α → List α
  | [] => [x]
  | first :: rest => if key first = key x then x :: rest else first :: place key x rest

theorem map_place (x : α) (queue : List α) :
    (place key x queue).map key =
      if key x ∈ queue.map key then queue.map key else queue.map key ++ [key x] := by
  induction queue with
  | nil => rfl
  | cons first rest ih =>
    by_cases hfirst : key first = key x
    · rw [place, if_pos hfirst, List.map_cons, List.map_cons, if_pos, hfirst]
      rw [hfirst]
      exact List.mem_cons_self
    · rw [place, if_neg hfirst, List.map_cons, List.map_cons, ih]
      have hmem : key x ∈ key first :: rest.map key ↔ key x ∈ rest.map key := by
        rw [List.mem_cons, or_iff_right (Ne.symm hfirst)]
      by_cases hrest : key x ∈ rest.map key
      · rw [if_pos hrest, if_pos (hmem.mpr hrest)]
      · rw [if_neg hrest, if_neg (mt hmem.mp hrest), List.cons_append]

theorem nodup_place (x : α) {queue : List α} (h : (queue.map key).Nodup) :
    ((place key x queue).map key).Nodup := by
  rw [map_place]
  by_cases hx : key x ∈ queue.map key
  · rw [if_pos hx]
    exact h
  · rw [if_neg hx]
    exact List.nodup_append.mpr ⟨h, List.nodup_singleton _, fun a ha b hb heq => by
      rw [List.mem_singleton.mp hb] at heq
      exact hx (heq ▸ ha)⟩

/-- Placing an entry is as good as pushing it, for the last entries. -/
theorem latest_place (k : κ) (x : α) {queue : List α} (h : (queue.map key).Nodup) :
    latest key k (place key x queue) = latest key k (queue ++ [x]) := by
  induction queue with
  | nil => rfl
  | cons first rest ih =>
    rw [List.map_cons, List.nodup_cons] at h
    by_cases hfirst : key first = key x
    · rw [place, if_pos hfirst, List.cons_append, latest_cons, latest_cons, latest_append,
        latest_singleton, hfirst]
      by_cases hk : key x = k
      · have hrest : latest key k rest = none := by
          apply latest_eq_none
          intro y hy heq
          apply h.1
          rw [hfirst, hk, ← heq]
          exact List.mem_map_of_mem hy
        rw [hrest, if_pos hk, if_pos hk]
        rfl
      · rw [if_neg hk, if_neg hk]
        rfl
    · rw [place, if_neg hfirst, List.cons_append, latest_cons, latest_cons, ih h.2]

/-- Taking the entry of a key out leaves the last entries of the other keys. -/
theorem latest_eraseP {k k' : κ} (hne : k' ≠ k) (queue : List α) :
    latest key k' (queue.eraseP fun y => decide (key y = k)) = latest key k' queue := by
  induction queue with
  | nil => rfl
  | cons first rest ih =>
    let taken : α → Bool := fun y => decide (key y = k)
    by_cases hfirst : key first = k
    · rw [List.eraseP_cons_of_pos (p := taken) (decide_eq_true hfirst), latest_cons,
        if_neg (hfirst ▸ hne.symm), Option.or_none]
    · rw [List.eraseP_cons_of_neg (p := taken) fun h => hfirst (of_decide_eq_true h), latest_cons,
        ih, latest_cons]

/-- Of each key there are some of the entries of a log in their order, the last among them. -/
def Coalesces (key : α → κ) (log full : List α) : Prop :=
  ∀ k, (log.filter fun x => decide (key x = k)).Sublist (full.filter fun x => decide (key x = k)) ∧
    latest key k log = latest key k full

theorem Coalesces.refl (log : List α) : Coalesces key log log :=
  fun _ => ⟨List.Sublist.refl _, rfl⟩

theorem Coalesces.trans {log mid full : List α} (h : Coalesces key log mid)
    (h' : Coalesces key mid full) : Coalesces key log full :=
  fun k => ⟨(h k).1.trans (h' k).1, (h k).2.trans (h' k).2⟩

theorem Coalesces.append {log full log' full' : List α} (h : Coalesces key log full)
    (h' : Coalesces key log' full') : Coalesces key (log ++ log') (full ++ full') := by
  intro k
  constructor
  · rw [List.filter_append, List.filter_append]
    exact (h k).1.append (h' k).1
  · rw [latest_append, latest_append, (h k).2, (h' k).2]

theorem filter_push (k : κ) (x : α) (log : List α) :
    (log ++ [x]).filter (fun y => decide (key y = k)) =
      log.filter (fun y => decide (key y = k)) ++ if key x = k then [x] else [] := by
  rw [List.filter_append, List.filter_singleton]
  by_cases hk : key x = k
  · rw [if_pos hk, decide_eq_true hk]
    rfl
  · rw [if_neg hk, decide_eq_false hk]
    rfl

theorem filter_place (k : κ) (x : α) {queue : List α} (h : (queue.map key).Nodup) :
    ((place key x queue).filter fun y => decide (key y = k)).Sublist
      ((queue ++ [x]).filter fun y => decide (key y = k)) := by
  induction queue with
  | nil => exact List.Sublist.refl _
  | cons first rest ih =>
    rw [List.map_cons, List.nodup_cons] at h
    by_cases hfirst : key first = key x
    · rw [place, if_pos hfirst, filter_push, List.filter_cons]
      by_cases hk : key x = k
      · -- There is no other entry of this key.
        have hrest : ∀ y ∈ rest, key y ≠ k := by
          intro y hy heq
          apply h.1
          rw [hfirst, hk, ← heq]
          exact List.mem_map_of_mem hy
        rw [if_pos (decide_eq_true hk), if_pos hk, filter_key_eq_nil hrest]
        exact List.sublist_append_right _ _
      · rw [if_neg fun heq => hk (of_decide_eq_true heq)]
        exact (List.Sublist.filter _ (List.sublist_cons_self first rest)).trans
          (List.sublist_append_left _ _)
    · rw [place, if_neg hfirst, List.cons_append, List.filter_cons, List.filter_cons]
      split
      · exact (ih h.2).cons_cons first
      · exact ih h.2

theorem coalesces_place (x : α) {queue : List α} (h : (queue.map key).Nodup) :
    Coalesces key (place key x queue) (queue ++ [x]) :=
  fun k => ⟨filter_place k x h, latest_place k x h⟩

/-- An entry that is handled at once leaves no use for the one that waits. -/
theorem coalesces_eraseP (x : α) {queue : List α} (h : (queue.map key).Nodup) :
    Coalesces key (x :: queue.eraseP fun y => decide (key y = key x)) (queue ++ [x]) := by
  intro k
  have hsub := (List.eraseP_sublist (p := fun y => decide (key y = key x)) (l := queue)).filter
    fun y => decide (key y = k)
  rw [filter_push, List.filter_cons, latest_cons, latest_append, latest_singleton]
  by_cases hk : key x = k
  · have hrest : ∀ y ∈ queue.eraseP (fun y => decide (key y = key x)), key y ≠ k :=
      fun y hy => hk ▸ ((mem_eraseP_key h (key x)).mp hy).2
    rw [if_pos (decide_eq_true hk), if_pos hk, if_pos hk, filter_key_eq_nil hrest,
      latest_eq_none hrest]
    exact ⟨List.sublist_append_right _ _, rfl⟩
  · rw [if_neg fun heq => hk (of_decide_eq_true heq), if_neg hk, if_neg hk, List.append_nil,
      latest_eraseP (Ne.symm hk), Option.or_none, Option.none_or]
    exact ⟨hsub, rfl⟩

end Base
