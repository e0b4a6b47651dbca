import TelegramDesktop.Base.FlatMap

namespace Base

variable {κ ν α : Type*} [LinearOrder κ]

def emplaceAll (entries : List (κ × ν)) (result : FlatMap κ ν) : FlatMap κ ν :=
  entries.foldl (fun result entry => result.emplace entry.1 entry.2) result

theorem emplaceAll_cons (entry : κ × ν) (entries : List (κ × ν)) (result : FlatMap κ ν) :
    emplaceAll (entry :: entries) result =
      emplaceAll entries (result.emplace entry.1 entry.2) := rfl

theorem mem_emplaceAll {entries : List (κ × ν)} {result : FlatMap κ ν}
    (hsorted : entries.Pairwise fun a b => a.1 < b.1)
    (hnew : ∀ entry ∈ entries, result.get? entry.1 = none) (a : κ × ν) :
    a ∈ (emplaceAll entries result).entries ↔ a ∈ result.entries ∨ a ∈ entries := by
  induction entries generalizing result with
  | nil => simp [emplaceAll]
  | cons entry entries ih =>
    have hentry := hnew entry List.mem_cons_self
    have hless : ∀ other ∈ entries, entry.1 < other.1 := fun _ h =>
      List.rel_of_pairwise_cons hsorted h
    rw [emplaceAll_cons, ih hsorted.of_cons]
    · rw [FlatMap.mem_emplace, List.mem_cons]
      simp only [hentry, and_true]
      exact or_assoc
    · intro other hother
      rw [FlatMap.get?_emplace, if_neg (hless other hother).ne']
      exact hnew other (List.mem_cons_of_mem _ hother)

/-- The entries of a map give the map back. -/
theorem emplaceAll_entries (m : FlatMap κ ν) : emplaceAll m.entries ∅ = m := by
  apply FlatMap.eq_of_mem_iff
  intro a
  rw [mem_emplaceAll m.sorted (fun entry _ => FlatMap.get?_empty entry.1)]
  simp

namespace FlatMap

/-- `m[k] = f(m[k])`, where the key may be new. -/
def upsert (m : FlatMap κ ν) (k : κ) (f : Option ν → ν) : FlatMap κ ν :=
  (m.erase k).emplace k (f (m.get? k))

theorem mem_upsert {m : FlatMap κ ν} {k : κ} {f : Option ν → ν} {a : κ × ν} :
    a ∈ (m.upsert k f).entries ↔ (a ∈ m.entries ∧ a.1 ≠ k) ∨ a = (k, f (m.get? k)) := by
  have hout : (m.erase k).get? k = none := by
    rw [get?_erase, if_pos rfl]
  rw [upsert, mem_emplace, mem_erase, hout]
  exact or_congr Iff.rfl (and_iff_left rfl)

theorem get?_upsert (m : FlatMap κ ν) (k k' : κ) (f : Option ν → ν) :
    (m.upsert k f).get? k' = if k' = k then some (f (m.get? k)) else m.get? k' := by
  have hout : (m.erase k).get? k = none := by
    rw [get?_erase, if_pos rfl]
  rw [upsert, get?_emplace, hout, get?_erase, Option.getD_none]
  split_ifs
  · rfl
  · rfl

theorem upsert_same {m : FlatMap κ ν} {k : κ} {v : ν} (h : m.get? k = some v)
    {f : Option ν → ν} (hf : f (some v) = v) : m.upsert k f = m := by
  have hv := (m.get?_eq_some_iff k v).mp h
  apply eq_of_mem_iff
  intro a
  rw [mem_upsert, h, hf]
  constructor
  · rintro (⟨ha, -⟩ | rfl)
    · exact ha
    · exact hv
  · intro ha
    by_cases hk : a.1 = k
    · refine .inr (Prod.ext hk ?_)
      have hget := (m.get?_eq_some_iff a.1 a.2).mpr ha
      rw [hk, h] at hget
      exact (Option.some.inj hget).symm
    · exact .inl ⟨ha, hk⟩

theorem upsert_new {m : FlatMap κ ν} {k : κ} (h : m.get? k = none) (f : Option ν → ν) :
    m.upsert k f = m.emplace k (f none) := by
  have herase : m.erase k = m := by
    apply eq_of_mem_iff
    intro a
    rw [mem_erase]
    refine and_iff_left_of_imp fun ha heq => ?_
    exact (m.get?_eq_none_iff k).mp h a.2 (heq ▸ ha)
  rw [upsert, herase, h]

theorem emplace_upsert {m : FlatMap κ ν} {k : κ} (h : m.get? k = none) (v : ν)
    (f : Option ν → ν) : (m.emplace k v).upsert k f = m.emplace k (f (some v)) := by
  have hget : (m.emplace k v).get? k = some v := by
    rw [get?_emplace, if_pos rfl, h]
    rfl
  have hout : ((m.emplace k v).erase k).get? k = none := by
    rw [get?_erase, if_pos rfl]
  rw [upsert, hget]
  apply eq_of_mem_iff
  intro a
  rw [mem_emplace, mem_erase, mem_emplace, mem_emplace, hout, h]
  constructor
  · rintro (⟨ha | ⟨rfl, -⟩, hne⟩ | ha)
    · exact .inl ha
    · exact absurd rfl hne
    · exact .inr ha
  · rintro (ha | ha)
    · refine .inl ⟨.inl ha, fun heq => ?_⟩
      exact (m.get?_eq_none_iff k).mp h a.2 (heq ▸ ha)
    · exact .inr ha

end FlatMap

/-- What the items of one group come to. -/
def groupValue (f : Option ν → α → ν) : Option ν → List α → Option ν
  | value, [] => value
  | value, a :: as => groupValue f (some (f value a)) as

theorem foldl_upsert {f : Option ν → α → ν} {m : FlatMap κ ν} {k : κ} (h : m.get? k = none)
    (v : ν) (as : List α) : as.foldl (fun m a => m.upsert k (f · a)) (m.emplace k v) =
      m.emplace k ((groupValue f (some v) as).getD v) := by
  induction as generalizing v with
  | nil => rfl
  | cons a as ih =>
    rw [List.foldl_cons, FlatMap.emplace_upsert h, ih, groupValue]
    congr 1
    cases as with
    | nil => rfl
    | cons b as =>
      have hsome : ∀ (w : ν) (as : List α), (groupValue f (some w) as).isSome := by
        intro w as
        induction as generalizing w with
        | nil => rfl
        | cons b as ih => exact ih _
      obtain ⟨w, hw⟩ := Option.isSome_iff_exists.mp (hsome (f (some v) a) (b :: as))
      rw [hw]
      rfl

/-- The items of the groups, one after another, give the groups back. -/
theorem foldl_groups {f : Option ν → α → ν} {groups : List (κ × ν)} (items : κ × ν → List α)
    (hsorted : groups.Pairwise fun a b => a.1 < b.1)
    (hvalue : ∀ group ∈ groups, groupValue f none (items group) = some group.2)
    {m : FlatMap κ ν} (hnew : ∀ group ∈ groups, m.get? group.1 = none) :
    groups.foldl (fun m group => (items group).foldl (fun m a => m.upsert group.1 (f · a)) m) m =
      emplaceAll groups m := by
  induction groups generalizing m with
  | nil => rfl
  | cons group groups ih =>
    have hgroup := hvalue group List.mem_cons_self
    have hfirst := hnew group List.mem_cons_self
    have hless : ∀ other ∈ groups, group.1 < other.1 := fun _ h =>
      List.rel_of_pairwise_cons hsorted h
    have hstep : (items group).foldl (fun m a => m.upsert group.1 (f · a)) m =
        m.emplace group.1 group.2 := by
      cases hitems : items group with
      | nil =>
        rw [hitems] at hgroup
        exact nomatch hgroup
      | cons a as =>
        rw [hitems, groupValue] at hgroup
        rw [List.foldl_cons, FlatMap.upsert_new hfirst, foldl_upsert hfirst, hgroup]
        rfl
    rw [List.foldl_cons, hstep, emplaceAll_cons]
    apply ih hsorted.of_cons
    · exact fun other hother => hvalue other (List.mem_cons_of_mem _ hother)
    · intro other hother
      rw [FlatMap.get?_emplace, if_neg (hless other hother).ne']
      exact hnew other (List.mem_cons_of_mem _ hother)

end Base
