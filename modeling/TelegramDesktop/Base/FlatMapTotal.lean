import TelegramDesktop.Base.FlatMapFold

namespace Base.FlatMap

variable {κ ν M : Type*} [LinearOrder κ] [AddCommMonoid M]

def total (m : FlatMap κ ν) (f : κ → ν → M) : M := (m.entries.map fun e => f e.1 e.2).sum

@[simp] theorem total_empty (f : κ → ν → M) : (∅ : FlatMap κ ν).total f = 0 := rfl

theorem entries_emplace_perm {m : FlatMap κ ν} {k : κ} (h : m.get? k = none) (v : ν) :
    (m.emplace k v).entries.Perm ((k, v) :: m.entries) := by
  have hnodup (m : FlatMap κ ν) : m.entries.Nodup := m.keys_nodup.of_map
  apply (List.perm_ext_iff_of_nodup (hnodup _) _).mpr
  · intro a
    rw [mem_emplace, List.mem_cons]
    simp only [h, and_true]
    exact or_comm
  · exact List.nodup_cons.mpr ⟨(m.get?_eq_none_iff k).mp h v, hnodup m⟩

theorem total_emplace {m : FlatMap κ ν} {k : κ} (h : m.get? k = none) (v : ν)
    (f : κ → ν → M) : (m.emplace k v).total f = f k v + m.total f :=
  ((entries_emplace_perm h v).map fun e : κ × ν => f e.1 e.2).sum_eq.trans List.sum_cons

theorem emplace_erase {m : FlatMap κ ν} {k : κ} {v : ν} (h : m.get? k = some v) :
    (m.erase k).emplace k v = m := by
  have hv := upsert_same (f := fun value => value.getD v) h rfl
  rw [upsert, h] at hv
  exact hv

/-- What is at a key, and the rest. -/
theorem total_erase (m : FlatMap κ ν) (k : κ) (f : κ → ν → M) :
    (m.get? k).elim 0 (f k) + (m.erase k).total f = m.total f := by
  cases h : m.get? k with
  | none =>
    have hsame : m.erase k = m := by
      apply eq_of_mem_iff
      intro a
      rw [mem_erase]
      exact and_iff_left_of_imp fun ha heq => (m.get?_eq_none_iff k).mp h a.2 (heq ▸ ha)
    rw [hsame]
    exact zero_add _
  | some v =>
    have hout : (m.erase k).get? k = none := by
      rw [get?_erase, if_pos rfl]
    have hsum := total_emplace hout v f
    rw [emplace_erase h] at hsum
    exact hsum.symm

/-- A sum grows by what the value at the key grows by. -/
theorem total_upsert {m : FlatMap κ ν} {k : κ} {g : Option ν → ν} {f : κ → ν → M} {a : M}
    (h : f k (g (m.get? k)) = (m.get? k).elim 0 (f k) + a) :
    (m.upsert k g).total f = m.total f + a := by
  have hout : (m.erase k).get? k = none := by
    rw [get?_erase, if_pos rfl]
  rw [upsert, total_emplace hout, h, ← total_erase m k f]
  exact add_right_comm _ _ _

/-- A map with the same keys has them in the same order. -/
theorem keys_upsert {m : FlatMap κ ν} {k : κ} {v : ν} (h : m.get? k = some v)
    (g : Option ν → ν) : (m.upsert k g).keys = m.keys := by
  have hk : k ∈ m.keys := List.mem_map_of_mem ((m.get?_eq_some_iff k v).mp h)
  have hsorted (m : FlatMap κ ν) : m.keys.Pairwise (· < ·) := List.pairwise_map.mpr m.sorted
  apply List.Perm.eq_of_pairwise (fun a b _ _ hab hba => absurd hab (lt_asymm hba))
    (hsorted _) (hsorted _)
  apply (List.perm_ext_iff_of_nodup (keys_nodup _) (keys_nodup _)).mpr
  intro x
  simp only [keys, List.mem_map, mem_upsert]
  constructor
  · rintro ⟨e, ⟨he, -⟩ | rfl, rfl⟩
    · exact ⟨e, he, rfl⟩
    · exact List.mem_map.mp hk
  · rintro ⟨e, he, rfl⟩
    by_cases hx : e.1 = k
    · exact ⟨(k, g (m.get? k)), .inr rfl, hx.symm⟩
    · exact ⟨e, .inl ⟨he, hx⟩, rfl⟩

theorem size_eq_keys (m : FlatMap κ ν) : m.size = m.keys.length := (List.length_map _).symm

theorem get?_of_mem {m : FlatMap κ ν} {e : κ × ν} (h : e ∈ m.entries) : m.get? e.1 = some e.2 :=
  (m.get?_eq_some_iff e.1 e.2).mpr h

end Base.FlatMap
