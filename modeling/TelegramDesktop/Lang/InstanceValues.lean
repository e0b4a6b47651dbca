import Mathlib
import TelegramDesktop.Lang.Instance

namespace TelegramDesktop.Lang

open Base

variable {K : Type*} (g : Generated K) {k : K}

theorem Generated.name_injective {k' : K} (h : g.name k = g.name k') : k = k' := by
  have hk := (g.getKeyIndex_iff (g.name k) k).mpr rfl
  rw [h, (g.getKeyIndex_iff (g.name k') k').mpr rfl] at hk
  exact (Option.some.inj hk).symm

theorem parseKeyValue_eq_some {key value : Bytes} {text : Text} :
    parseKeyValue g key value = some (k, text) ↔ key = g.name k ∧ parse g k value = some text := by
  simp only [parseKeyValue, Option.bind_eq_some_iff, Option.map_eq_some_iff, Prod.mk.injEq]
  constructor
  · rintro ⟨k', hkey, text', htext, rfl, rfl⟩
    exact ⟨(g.getKeyIndex_iff key k').mp hkey, htext⟩
  · rintro ⟨hkey, htext⟩
    exact ⟨k, (g.getKeyIndex_iff key k).mpr hkey, text, htext, rfl, rfl⟩

theorem parseKeyValue_eq_none {key value : Bytes} :
    parseKeyValue g key value = none ↔ ∀ k, key = g.name k → parse g k value = none := by
  constructor
  · intro h k hkey
    by_contra hparse
    obtain ⟨text, htext⟩ := Option.ne_none_iff_exists'.mp hparse
    rw [(parseKeyValue_eq_some g).mpr ⟨hkey, htext⟩] at h
    exact nomatch h
  · intro h
    by_contra hsome
    obtain ⟨⟨k, text⟩, heq⟩ := Option.ne_none_iff_exists'.mp hsome
    obtain ⟨hkey, htext⟩ := (parseKeyValue_eq_some g).mp heq
    rw [h k hkey] at htext
    exact nomatch htext

theorem foldlM_next (result : Text) (tagsUsed : List ℕ) (chunk : Bytes) {value : Bytes}
    (hvalue : kOpen ∉ value) :
    value.foldlM (ValueParser.next g k) ⟨result, tagsUsed, chunk, none⟩ =
      some ⟨result, tagsUsed, chunk ++ value, none⟩ := by
  induction value generalizing chunk with
  | nil =>
    rw [List.append_nil]
    rfl
  | cons ch value ih =>
    rw [List.mem_cons, not_or] at hvalue
    rw [List.foldlM_cons, ValueParser.next]
    dsimp only
    rw [if_neg (Ne.symm hvalue.1), Option.bind_eq_bind, Option.bind_some, ih _ hvalue.2,
      List.append_assoc, List.singleton_append]

/-- A value without tags is its text. -/
theorem parse_plain {value : Bytes} (hvalue : kOpen ∉ value) :
    parse g k value = some (g.fromUtf8 value) := by
  rw [parse, foldlM_next g [] [] [] hvalue, Option.bind_some]
  dsimp only [Option.isSome_none]
  rw [if_neg Bool.false_ne_true, ValueParser.appendToResult]
  dsimp only
  rw [List.nil_append]
  split_ifs with hnil
  · rw [hnil, g.fromUtf8_nil]
  · rw [List.nil_append]

/-- What a pack says of a key, if that can be parsed. -/
def override (pack : LangPack K) (k : K) : Option Text :=
  (pack.nonDefaultValues.get? (g.name k)).bind (parse g k)

def baseOverride (s : Instance K) (k : K) : Option Text :=
  s.base.bind fun base => override g base k

/-- The value that a key is to have. -/
def effective (s : Instance K) (k : K) : Text :=
  ((override g s.own k).or (baseOverride g s k)).getD (g.getOriginalValue k)

variable [DecidableEq K]

omit [DecidableEq K] in
theorem get?_put (pack : LangPack K) (key value key' : Bytes) :
    (pack.put key value).nonDefaultValues.get? key' =
      if key' = key then some value else pack.nonDefaultValues.get? key' := by
  rw [LangPack.put, FlatMap.get?_emplace, FlatMap.get?_erase, FlatMap.get?_erase, if_pos rfl]
  split_ifs
  · rfl
  · rfl

theorem nonDefaultValues_applyValue (pack : LangPack K) (key value : Bytes) :
    (pack.applyValue g key value).nonDefaultValues = (pack.put key value).nonDefaultValues := by
  rw [LangPack.applyValue]
  cases parseKeyValue g key value with
  | none => rfl
  | some found => rfl

theorem override_applyValue (pack : LangPack K) (key value : Bytes) (k : K) :
    override g (pack.applyValue g key value) k =
      if g.name k = key then parse g k value else override g pack k := by
  rw [override, nonDefaultValues_applyValue, get?_put]
  split_ifs
  · rfl
  · rfl

theorem nonDefaultSet_applyValue (pack : LangPack K) (key value : Bytes) (k : K) :
    (pack.applyValue g key value).nonDefaultSet k =
      ((decide (g.name k = key) && (parse g k value).isSome) || pack.nonDefaultSet k) := by
  rw [LangPack.applyValue]
  cases hfound : parseKeyValue g key value with
  | none =>
    have hnone : ¬ (g.name k = key ∧ (parse g k value).isSome = true) := by
      rintro ⟨hkey, hsome⟩
      rw [(parseKeyValue_eq_none g).mp hfound k hkey.symm] at hsome
      exact Bool.false_ne_true hsome
    rw [← Bool.decide_coe (parse g k value).isSome, ← Bool.decide_and, decide_eq_false hnone,
      Bool.false_or]
    rfl
  | some found =>
    obtain ⟨k', text⟩ := found
    obtain ⟨rfl, htext⟩ := (parseKeyValue_eq_some g).mp hfound
    dsimp only [LangPack.mark]
    rw [Function.update_apply]
    by_cases hk : k = k'
    · subst hk
      rw [if_pos rfl, htext]
      simp
    · have hname : ¬ g.name k = g.name k' := fun h => hk (g.name_injective h)
      rw [if_neg hk, decide_eq_false hname, Bool.false_and, Bool.false_or]
      rfl

theorem override_resetValue (pack : LangPack K) (key : Bytes) (k : K) :
    override g (pack.resetValue g key) k =
      if g.name k = key then none else override g pack k := by
  have hvalues : (pack.resetValue g key).nonDefaultValues = pack.nonDefaultValues.erase key := by
    rw [LangPack.resetValue]
    cases g.getKeyIndex key with
    | none => rfl
    | some k => rfl
  rw [override, hvalues, FlatMap.get?_erase]
  split_ifs
  · rfl
  · rfl

theorem nonDefaultSet_resetValue (pack : LangPack K) (key : Bytes) (k : K) :
    (pack.resetValue g key).nonDefaultSet k =
      if g.name k = key then false else pack.nonDefaultSet k := by
  rw [LangPack.resetValue]
  cases hkey : g.getKeyIndex key with
  | none =>
    have hname : ¬ g.name k = key := by
      intro h
      rw [(g.getKeyIndex_iff key k).mpr h.symm] at hkey
      exact nomatch hkey
    rw [if_neg hname]
  | some k' =>
    have hk' := (g.getKeyIndex_iff key k').mp hkey
    dsimp only [LangPack.mark]
    rw [Function.update_apply, hk']
    by_cases hk : k = k'
    · rw [if_pos hk, if_pos (congrArg g.name hk)]
    · rw [if_neg hk, if_neg fun h => hk (g.name_injective h)]

theorem values_write (s : Instance K) (key value : Bytes) (k : K) (b : K → Bool) :
    (match parseKeyValue g key value with
      | none => s
      | some (k', text) => if b k' then s.setValue k' text else s).values k =
      if g.name k = key ∧ b k = true then (parse g k value).getD (s.values k)
      else s.values k := by
  cases hfound : parseKeyValue g key value with
  | none =>
    dsimp only
    split_ifs with h
    · rw [(parseKeyValue_eq_none g).mp hfound k h.1.symm]
      rfl
    · rfl
  | some found =>
    obtain ⟨k', text⟩ := found
    obtain ⟨rfl, htext⟩ := (parseKeyValue_eq_some g).mp hfound
    dsimp only
    by_cases hk : k = k'
    · subst hk
      rw [htext]
      by_cases hb : b k = true
      · rw [if_pos hb, if_pos ⟨rfl, hb⟩, Option.getD_some]
        exact Function.update_self k text s.values
      · rw [if_neg hb, if_neg fun h => hb h.2]
    · have hname : ¬ (g.name k = g.name k' ∧ b k = true) := fun h => hk (g.name_injective h.1)
      rw [if_neg hname]
      split_ifs
      · exact Function.update_of_ne hk text s.values
      · rfl

theorem values_reset (s : Instance K) (key : Bytes) (text : K → Text) (k : K) (b : K → Bool) :
    (match g.getKeyIndex key with
      | none => s
      | some k' => if b k' then s.setValue k' (text k') else s).values k =
      if g.name k = key ∧ b k = true then text k else s.values k := by
  cases hkey : g.getKeyIndex key with
  | none =>
    have hname : ¬ (g.name k = key ∧ b k = true) := by
      rintro ⟨h, -⟩
      rw [(g.getKeyIndex_iff key k).mpr h.symm] at hkey
      exact nomatch hkey
    rw [if_neg hname]
  | some k' =>
    obtain rfl := (g.getKeyIndex_iff key k').mp hkey
    dsimp only
    by_cases hk : k = k'
    · subst hk
      by_cases hb : b k = true
      · rw [if_pos hb, if_pos ⟨rfl, hb⟩]
        exact Function.update_self k (text k) s.values
      · rw [if_neg hb, if_neg fun h => hb h.2]
    · have hname : ¬ (g.name k = g.name k' ∧ b k = true) := fun h => hk (g.name_injective h.1)
      rw [if_neg hname]
      split_ifs
      · exact Function.update_of_ne hk (text k') s.values
      · rfl

namespace Instance

theorem own_applyValue (s : Instance K) (key value : Bytes) :
    (s.applyValue g key value).own = s.own.applyValue g key value := by
  rw [applyValue]
  cases parseKeyValue g key value with
  | none => rfl
  | some found => rfl

theorem base_applyValue (s : Instance K) (key value : Bytes) :
    (s.applyValue g key value).base = s.base := by
  rw [applyValue]
  cases parseKeyValue g key value with
  | none => rfl
  | some found => rfl

theorem values_applyValue (s : Instance K) (key value : Bytes) (k : K) :
    (s.applyValue g key value).values k =
      if g.name k = key then (parse g k value).getD (s.values k) else s.values k := by
  have h := values_write g { s with own := s.own.applyValue g key value } key value k fun _ => true
  simp only [if_true, and_true] at h
  exact h

theorem own_resetValue (s : Instance K) (key : Bytes) :
    (s.resetValue g key).own = s.own.resetValue g key := by
  rw [resetValue]
  cases g.getKeyIndex key with
  | none => rfl
  | some k => rfl

theorem base_resetValue (s : Instance K) (key : Bytes) : (s.resetValue g key).base = s.base := by
  rw [resetValue]
  cases g.getKeyIndex key with
  | none => rfl
  | some k => rfl

theorem values_resetValue (s : Instance K) (key : Bytes) (k : K) :
    (s.resetValue g key).values k =
      if g.name k = key then
        if s.baseNonDefaultValue g key ≠ [] then s.baseNonDefaultValue g key
        else g.getOriginalValue k
      else s.values k := by
  have h := values_reset g { s with own := s.own.resetValue g key } key
    (fun k => if s.baseNonDefaultValue g key ≠ [] then s.baseNonDefaultValue g key
      else g.getOriginalValue k) k fun _ => true
  simp only [if_true, and_true] at h
  exact h

theorem own_applyBaseValue (s : Instance K) (key value : Bytes) :
    (s.applyBaseValue g key value).own = s.own := by
  rw [applyBaseValue]
  cases parseKeyValue g key value with
  | none => rfl
  | some found =>
    dsimp only
    split_ifs
    · rfl
    · rfl

theorem base_applyBaseValue (s : Instance K) (key value : Bytes) :
    (s.applyBaseValue g key value).base = s.base.map fun base => base.applyValue g key value := by
  rw [applyBaseValue]
  cases parseKeyValue g key value with
  | none => rfl
  | some found =>
    dsimp only
    split_ifs
    · rfl
    · rfl

theorem values_applyBaseValue (s : Instance K) (key value : Bytes) (k : K) :
    (s.applyBaseValue g key value).values k =
      if g.name k = key ∧ (!s.own.nonDefaultSet k) = true then
        (parse g k value).getD (s.values k)
      else s.values k :=
  values_write g { s with base := s.base.map fun base => base.applyValue g key value } key value k
    fun k => !s.own.nonDefaultSet k

theorem own_resetBaseValue (s : Instance K) (key : Bytes) :
    (s.resetBaseValue g key).own = s.own := by
  rw [resetBaseValue]
  cases g.getKeyIndex key with
  | none => rfl
  | some k =>
    dsimp only
    split_ifs
    · rfl
    · rfl

theorem base_resetBaseValue (s : Instance K) (key : Bytes) :
    (s.resetBaseValue g key).base = s.base.map fun base => base.resetValue g key := by
  rw [resetBaseValue]
  cases g.getKeyIndex key with
  | none => rfl
  | some k =>
    dsimp only
    split_ifs
    · rfl
    · rfl

theorem values_resetBaseValue (s : Instance K) (key : Bytes) (k : K) :
    (s.resetBaseValue g key).values k =
      if g.name k = key ∧ (!s.own.nonDefaultSet k) = true then g.getOriginalValue k
      else s.values k :=
  values_reset g { s with base := s.base.map fun base => base.resetValue g key } key
    g.getOriginalValue k fun k => !s.own.nonDefaultSet k

end Instance

/-- What is set is what the own overrides set, and the values are those of the overrides. -/
structure Exact (s : Instance K) : Prop where
  nonDefaultSet : ∀ k, s.own.nonDefaultSet k = (override g s.own k).isSome
  values : ∀ k, s.values k = effective g s k

/-- A change that the tables follow: an own value with bad tags comes to a key without a good one,
a base value with bad tags to a key with a good own one or without a good one in the base, and an
own value is reset to a base value that is not empty and has no tags, if to any. -/
def Meets (s : Instance K) : PackKind → Change → Prop
  | .current, .set key value =>
    ∀ k, g.name k = key → parse g k value = none → override g s.own k = none
  | .current, .reset key =>
    ∀ k, g.name k = key → ∀ base ∈ s.base, ∀ value ∈ base.nonDefaultValues.get? key,
      kOpen ∉ value ∧ g.fromUtf8 value ≠ []
  | .base, .set key value =>
    ∀ k, g.name k = key → parse g k value = none →
      override g s.own k ≠ none ∨ baseOverride g s k = none
  | .base, .reset _ => True

namespace Exact

variable {g} {s : Instance K}

theorem applyValue {key value : Bytes} (hs : Exact g s)
    (hmeets : Meets g s .current (.set key value)) : Exact g (s.applyValue g key value) := by
  constructor
  · intro k
    rw [Instance.own_applyValue, nonDefaultSet_applyValue, override_applyValue, hs.nonDefaultSet]
    split_ifs with hk
    · rw [decide_eq_true hk, Bool.true_and]
      cases hparse : parse g k value with
      | none => rw [hmeets k hk hparse, Option.isSome_none, Bool.or_false]
      | some text => rw [Option.isSome_some, Bool.true_or]
    · rw [decide_eq_false hk, Bool.false_and, Bool.false_or]
  · intro k
    rw [Instance.values_applyValue, effective, Instance.own_applyValue, override_applyValue,
      baseOverride, Instance.base_applyValue, hs.values]
    split_ifs with hk
    · cases hparse : parse g k value with
      | none =>
        rw [Option.getD_none, effective, hmeets k hk hparse]
        rfl
      | some text => rfl
    · rfl

theorem resetValue {key : Bytes} (hs : Exact g s) (hmeets : Meets g s .current (.reset key)) :
    Exact g (s.resetValue g key) := by
  constructor
  · intro k
    rw [Instance.own_resetValue, nonDefaultSet_resetValue, override_resetValue]
    split_ifs
    · rfl
    · exact hs.nonDefaultSet k
  · intro k
    rw [Instance.values_resetValue, effective, Instance.own_resetValue, override_resetValue,
      baseOverride, Instance.base_resetValue]
    by_cases hk : g.name k = key
    · rw [if_pos hk, if_pos hk, Option.none_or, Instance.baseNonDefaultValue]
      subst hk
      cases hbase : s.base with
      | none => rfl
      | some base =>
        rw [Option.bind_some, Option.bind_some, override]
        cases hvalue : base.nonDefaultValues.get? (g.name k) with
        | none => rfl
        | some value =>
          have hplain := hmeets k rfl base hbase value hvalue
          rw [Option.bind_some, parse_plain g hplain.1]
          exact if_pos hplain.2
    · rw [if_neg hk, if_neg hk]
      exact hs.values k

theorem applyBaseValue {key value : Bytes} (hs : Exact g s) (hbase : s.base.isSome)
    (hmeets : Meets g s .base (.set key value)) : Exact g (s.applyBaseValue g key value) := by
  constructor
  · intro k
    rw [Instance.own_applyBaseValue]
    exact hs.nonDefaultSet k
  · intro k
    obtain ⟨base, hbase⟩ := Option.isSome_iff_exists.mp hbase
    have hafter : baseOverride g (s.applyBaseValue g key value) k =
        if g.name k = key then parse g k value else baseOverride g s k := by
      rw [baseOverride, Instance.base_applyBaseValue, hbase, Option.map_some, Option.bind_some,
        override_applyValue, baseOverride, hbase]
      rfl
    rw [Instance.values_applyBaseValue, effective, hafter, Instance.own_applyBaseValue,
      hs.nonDefaultSet, hs.values, effective]
    by_cases hk : g.name k = key
    · cases hown : override g s.own k with
      | some text =>
        rw [if_neg fun h => Bool.false_ne_true h.2]
        rfl
      | none =>
        rw [if_pos ⟨hk, rfl⟩, if_pos hk, Option.none_or]
        cases hparse : parse g k value with
        | some text => rfl
        | none =>
          have hnone := (hmeets k hk hparse).resolve_left fun h => h hown
          rw [Option.getD_none, hnone]
          rfl
    · rw [if_neg fun h => hk h.1, if_neg hk]

theorem resetBaseValue (key : Bytes) (hs : Exact g s) (hbase : s.base.isSome) :
    Exact g (s.resetBaseValue g key) := by
  constructor
  · intro k
    rw [Instance.own_resetBaseValue]
    exact hs.nonDefaultSet k
  · intro k
    obtain ⟨base, hbase⟩ := Option.isSome_iff_exists.mp hbase
    have hafter : baseOverride g (s.resetBaseValue g key) k =
        if g.name k = key then none else baseOverride g s k := by
      rw [baseOverride, Instance.base_resetBaseValue, hbase, Option.map_some, Option.bind_some,
        override_resetValue, baseOverride, hbase]
      rfl
    rw [Instance.values_resetBaseValue, effective, hafter, Instance.own_resetBaseValue,
      hs.nonDefaultSet, hs.values, effective]
    by_cases hk : g.name k = key
    · cases hown : override g s.own k with
      | some text =>
        rw [if_neg fun h => Bool.false_ne_true h.2]
        rfl
      | none =>
        rw [if_pos ⟨hk, rfl⟩, if_pos hk]
        rfl
    · rw [if_neg fun h => hk h.1, if_neg hk]

end Exact

end TelegramDesktop.Lang
