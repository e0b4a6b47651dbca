import Mathlib
import TelegramDesktop.Lang.InstanceValues

namespace TelegramDesktop.Lang

open Base

variable {K : Type*} [DecidableEq K] {g : Generated K} {s : Instance K}

omit [DecidableEq K] in
theorem readStrings_entries (entries : List (Bytes × Bytes)) (rest : List Field) :
    readStrings entries.length
        (entries.flatMap (fun entry => [Field.bytes entry.1, Field.bytes entry.2]) ++ rest) =
      some (entries, rest) := by
  induction entries with
  | nil => rfl
  | cons entry entries ih =>
    rw [List.flatMap_cons, List.append_assoc, List.length_cons]
    simp only [List.cons_append, List.nil_append, readStrings, ih, Option.map_some]

omit [DecidableEq K] in
theorem readPack_serialize {pack : LangPack K} (base : List Field)
    (hsize : pack.nonDefaultValues.size ≤ kLangValuesLimit) :
    readPack (pack.serialize base) =
      some ⟨pack.id, pack.pluralId, pack.name, pack.nativeName, pack.version,
        pack.nonDefaultValues.entries, base⟩ := by
  have hlimit : ¬ (kLangValuesLimit : ℤ) < pack.nonDefaultValues.size := by omega
  have htag : ¬ (kSerializeVersionTag ≠ kSerializeVersionTag ∨
      kSerializeVersion ≠ kSerializeVersion) := by simp
  rw [LangPack.serialize, List.append_assoc]
  simp only [List.cons_append, List.nil_append, readPack]
  rw [if_neg htag, if_neg hlimit, Int.toNat_natCast, FlatMap.size, readStrings_entries]
  rfl

namespace LangPack

theorem get?_applyValue (pack : LangPack K) (key value key' : Bytes) :
    (pack.applyValue g key value).nonDefaultValues.get? key' =
      if key' = key then some value else pack.nonDefaultValues.get? key' := by
  rw [nonDefaultValues_applyValue, get?_put]

theorem get?_foldl_applyValue {entries : List (Bytes × Bytes)} {pack : LangPack K}
    (hnodup : (entries.map Prod.fst).Nodup)
    (habsent : ∀ entry ∈ entries, pack.nonDefaultValues.get? entry.1 = none) (key value : Bytes) :
    (entries.foldl (fun pack entry => pack.applyValue g entry.1 entry.2)
        pack).nonDefaultValues.get? key = some value ↔
      (key, value) ∈ entries ∨ pack.nonDefaultValues.get? key = some value := by
  induction entries generalizing pack with
  | nil => simp
  | cons entry entries ih =>
    rw [List.map_cons, List.nodup_cons] at hnodup
    have hlater : ∀ e ∈ entries,
        (pack.applyValue g entry.1 entry.2).nonDefaultValues.get? e.1 = none := by
      intro e he
      have hne : e.1 ≠ entry.1 := fun h => hnodup.1 (h ▸ List.mem_map_of_mem he)
      rw [get?_applyValue, if_neg hne]
      exact habsent e (List.mem_cons_of_mem _ he)
    have hentry := habsent entry List.mem_cons_self
    rw [List.foldl_cons, ih hnodup.2 hlater, get?_applyValue, List.mem_cons, Prod.ext_iff]
    by_cases hkey : key = entry.1
    · subst hkey
      have hnot : (entry.1, value) ∉ entries :=
        fun h => hnodup.1 (List.mem_map.mpr ⟨_, h, rfl⟩)
      rw [if_pos rfl, hentry]
      simp [hnot, eq_comm]
    · simp [hkey]

/-- A pack without values gets those of another. -/
theorem nonDefaultValues_foldl {pack : LangPack K} (hpack : pack.nonDefaultValues = ∅)
    (values : FlatMap Bytes Bytes) :
    (values.entries.foldl (fun pack entry => pack.applyValue g entry.1 entry.2)
      pack).nonDefaultValues = values := by
  have habsent : ∀ entry ∈ values.entries, pack.nonDefaultValues.get? entry.1 = none :=
    fun _ _ => by rw [hpack, FlatMap.get?_empty]
  apply FlatMap.eq_of_mem_iff
  rintro ⟨key, value⟩
  rw [← FlatMap.get?_eq_some_iff, get?_foldl_applyValue values.keys_nodup habsent, hpack]
  simp

end LangPack

theorem own_foldl_applyValue (entries : List (Bytes × Bytes)) :
    (entries.foldl (fun s entry => s.applyValue g entry.1 entry.2) s).own =
      entries.foldl (fun pack entry => pack.applyValue g entry.1 entry.2) s.own := by
  induction entries generalizing s with
  | nil => rfl
  | cons entry entries ih => rw [List.foldl_cons, ih, Instance.own_applyValue, List.foldl_cons]

theorem base_foldl_applyValue (entries : List (Bytes × Bytes)) :
    (entries.foldl (fun s entry => s.applyValue g entry.1 entry.2) s).base = s.base := by
  induction entries generalizing s with
  | nil => rfl
  | cons entry entries ih => rw [List.foldl_cons, ih, Instance.base_applyValue]

theorem own_foldl_applyBaseValue (entries : List (Bytes × Bytes)) :
    (entries.foldl (fun s entry => s.applyBaseValue g entry.1 entry.2) s).own = s.own := by
  induction entries generalizing s with
  | nil => rfl
  | cons entry entries ih => rw [List.foldl_cons, ih, Instance.own_applyBaseValue]

theorem base_foldl_applyBaseValue (entries : List (Bytes × Bytes)) :
    (entries.foldl (fun s entry => s.applyBaseValue g entry.1 entry.2) s).base =
      s.base.map fun base =>
        entries.foldl (fun pack entry => pack.applyValue g entry.1 entry.2) base := by
  induction entries generalizing s with
  | nil => exact Option.map_id'.symm
  | cons entry entries ih =>
    rw [List.foldl_cons, ih, Instance.base_applyBaseValue, Option.map_map]
    rfl

namespace Exact

theorem foldl_applyValue {entries : List (Bytes × Bytes)} (hs : Exact g s)
    (hnodup : (entries.map Prod.fst).Nodup)
    (habsent : ∀ entry ∈ entries, s.own.nonDefaultValues.get? entry.1 = none) :
    Exact g (entries.foldl (fun s entry => s.applyValue g entry.1 entry.2) s) := by
  induction entries generalizing s with
  | nil => exact hs
  | cons entry entries ih =>
    rw [List.map_cons, List.nodup_cons] at hnodup
    have hmeets : Meets g s .current (.set entry.1 entry.2) := by
      intro k hk _
      rw [override, hk, habsent entry List.mem_cons_self]
      rfl
    refine ih (hs.applyValue hmeets) hnodup.2 fun e he => ?_
    have hne : e.1 ≠ entry.1 := fun h => hnodup.1 (h ▸ List.mem_map_of_mem he)
    rw [Instance.own_applyValue, LangPack.get?_applyValue, if_neg hne]
    exact habsent e (List.mem_cons_of_mem _ he)

theorem foldl_applyBaseValue {entries : List (Bytes × Bytes)} (hs : Exact g s)
    {base : LangPack K} (hbase : s.base = some base) (hnodup : (entries.map Prod.fst).Nodup)
    (habsent : ∀ entry ∈ entries, base.nonDefaultValues.get? entry.1 = none) :
    Exact g (entries.foldl (fun s entry => s.applyBaseValue g entry.1 entry.2) s) := by
  induction entries generalizing s base with
  | nil => exact hs
  | cons entry entries ih =>
    rw [List.map_cons, List.nodup_cons] at hnodup
    have hmeets : Meets g s .base (.set entry.1 entry.2) := by
      intro k hk _
      right
      rw [baseOverride, hbase, Option.bind_some, override, hk, habsent entry List.mem_cons_self]
      rfl
    have hlater : (s.applyBaseValue g entry.1 entry.2).base =
        some (base.applyValue g entry.1 entry.2) := by
      rw [Instance.base_applyBaseValue, hbase, Option.map_some]
    refine ih (hs.applyBaseValue (Option.isSome_of_mem hbase) hmeets) hlater hnodup.2
      fun e he => ?_
    have hne : e.1 ≠ entry.1 := fun h => hnodup.1 (h ▸ List.mem_map_of_mem he)
    rw [LangPack.get?_applyValue, if_neg hne]
    exact habsent e (List.mem_cons_of_mem _ he)

end Exact

omit [DecidableEq K] in
theorem effective_congr {s' : Instance K}
    (hown : s'.own.nonDefaultValues = s.own.nonDefaultValues)
    (hbase : (s'.base.map LangPack.nonDefaultValues) = s.base.map LangPack.nonDefaultValues)
    (k : K) : effective g s' k = effective g s k := by
  have hoverride : baseOverride g s' k = baseOverride g s k := by
    cases hs' : s'.base with
    | none =>
      rw [hs', Option.map_none, eq_comm, Option.map_eq_none_iff] at hbase
      rw [baseOverride, baseOverride, hs', hbase]
    | some base' =>
      rw [hs', Option.map_some, eq_comm, Option.map_eq_some_iff] at hbase
      obtain ⟨base, hs, hvalues⟩ := hbase
      rw [baseOverride, baseOverride, hs', hs, Option.bind_some, Option.bind_some, override,
        override, hvalues]
  rw [effective, effective, hoverride, override, hown, ← override]

/-- The packs that are read back. -/
def WithinLimit (s : Instance K) : Prop :=
  s.own.nonDefaultValues.size ≤ kLangValuesLimit ∧
    ∀ base ∈ s.base, base.nonDefaultValues.size ≤ kLangValuesLimit

theorem fillBase_serialize (hs : Exact g s) (hnone : s.base = none) {pack : LangPack K}
    (hsize : pack.nonDefaultValues.size ≤ kLangValuesLimit) :
    Exact g (s.fillBase g (pack.serialize [])) ∧
      (s.fillBase g (pack.serialize [])).own = s.own ∧
      ((s.fillBase g (pack.serialize [])).base.map LangPack.nonDefaultValues) =
        some pack.nonDefaultValues := by
  rw [Instance.fillBase, readPack_serialize [] hsize]
  dsimp only
  have hempty : Exact g { s with
      base := some
        { id := pack.id
          pluralId := pack.pluralId
          name := pack.name
          nativeName := pack.nativeName
          version := pack.version } } := by
    refine ⟨hs.nonDefaultSet, fun k => ?_⟩
    have hvalues := hs.values k
    rw [effective, baseOverride, hnone] at hvalues
    exact hvalues
  refine ⟨hempty.foldl_applyBaseValue rfl pack.nonDefaultValues.keys_nodup fun _ _ => rfl, ?_, ?_⟩
  · rw [own_foldl_applyBaseValue]
  · rw [base_foldl_applyBaseValue, Option.map_some, Option.map_some,
      LangPack.nonDefaultValues_foldl rfl]

theorem exact_created (id : Text) : Exact g (Instance.created g id) :=
  ⟨fun _ => rfl, fun _ => rfl⟩

/-- The base that is read, before the values of the instance. -/
theorem reloadBase_spec (hlimit : WithinLimit s) {saved : List Field}
    (hsaved : saved = (s.base.map fun base => base.serialize []).getD []) :
    let read := if saved.isEmpty then Instance.created g [] else
      (Instance.created g []).fillBase g saved
    Exact g read ∧ read.own.nonDefaultValues = ∅ ∧
      (read.base.map LangPack.nonDefaultValues) = s.base.map LangPack.nonDefaultValues := by
  cases hbase : s.base with
  | none =>
    rw [hbase, Option.map_none, Option.getD_none] at hsaved
    subst hsaved
    exact ⟨exact_created [], rfl, rfl⟩
  | some base =>
    rw [hbase, Option.map_some, Option.getD_some] at hsaved
    subst hsaved
    obtain ⟨hexact, hown, hvalues⟩ :=
      fillBase_serialize (exact_created (g := g) []) rfl (hlimit.2 base hbase)
    have hempty : (base.serialize []).isEmpty = false := rfl
    dsimp only
    rw [hempty, if_neg Bool.false_ne_true, hvalues, hown]
    exact ⟨hexact, rfl, rfl⟩

/-- What is saved is what is read. -/
theorem reload_spec (hlimit : WithinLimit s) :
    Exact g (s.reload g) ∧ (s.reload g).own.nonDefaultValues = s.own.nonDefaultValues ∧
      ((s.reload g).base.map LangPack.nonDefaultValues) =
        s.base.map LangPack.nonDefaultValues := by
  let saved := (s.base.map fun base => base.serialize []).getD []
  obtain ⟨read, hread⟩ : ∃ read, read = if saved.isEmpty then Instance.created g [] else
    (Instance.created g []).fillBase g saved := ⟨_, rfl⟩
  have hspec := reloadBase_spec (g := g) hlimit (rfl : saved = _)
  dsimp only at hspec
  rw [← hread] at hspec
  obtain ⟨hexact, hown, hbase⟩ := hspec
  have hreload : s.reload g = s.own.nonDefaultValues.entries.foldl
      (fun s entry => s.applyValue g entry.1 entry.2) { read with
        own := { read.own with
          id := s.own.id
          pluralId := s.own.pluralId
          name := s.own.name
          nativeName := s.own.nativeName
          version := s.own.version } } := by
    rw [Instance.reload, Instance.fillFromSerialized, Instance.serialize,
      readPack_serialize _ hlimit.1, hread]
    rfl
  have hnamed : Exact g { read with
      own := { read.own with
        id := s.own.id
        pluralId := s.own.pluralId
        name := s.own.name
        nativeName := s.own.nativeName
        version := s.own.version } } := ⟨hexact.nonDefaultSet, hexact.values⟩
  rw [hreload]
  refine ⟨hnamed.foldl_applyValue s.own.nonDefaultValues.keys_nodup fun _ _ => ?_, ?_, ?_⟩
  · rw [hown, FlatMap.get?_empty]
  · rw [own_foldl_applyValue]
    exact LangPack.nonDefaultValues_foldl (by exact hown) _
  · rw [base_foldl_applyValue]
    exact hbase

/-- The changes of a difference come when `Meets` holds. -/
def ChangesMeet (g : Generated K) (pack : PackKind) : Instance K → List Change → Prop
  | _, [] => True
  | s, change :: changes =>
    Meets g s pack change ∧ ChangesMeet g pack (s.applyChange g pack change) changes

def OperationMeets (g : Generated K) (s : Instance K) : Instance.Operation → Prop
  | .applyDifference pack difference =>
    ChangesMeet g pack (s.setVersion difference.version pack)
      (difference.strings.flatMap handleString)
  | .reload => WithinLimit s

def RunMeets (g : Generated K) : Instance K → List Instance.Operation → Prop
  | _, [] => True
  | s, operation :: operations =>
    OperationMeets g s operation ∧ RunMeets g (s.step g operation) operations

theorem Instance.isSome_base_applyChange (pack : PackKind) (change : Change) :
    (s.applyChange g pack change).base.isSome = s.base.isSome := by
  cases pack with
  | current =>
    cases change with
    | set key value => rw [applyChange, base_applyValue]
    | reset key => rw [applyChange, base_resetValue]
  | base =>
    cases change with
    | set key value => rw [applyChange, base_applyBaseValue, Option.isSome_map]
    | reset key => rw [applyChange, base_resetBaseValue, Option.isSome_map]

namespace Exact

theorem applyChange {pack : PackKind} {change : Change} (hs : Exact g s)
    (hbase : s.base.isSome) (hmeets : Meets g s pack change) :
    Exact g (s.applyChange g pack change) := by
  cases pack with
  | current =>
    cases change with
    | set key value => exact hs.applyValue hmeets
    | reset key => exact hs.resetValue hmeets
  | base =>
    cases change with
    | set key value => exact hs.applyBaseValue hbase hmeets
    | reset key => exact hs.resetBaseValue key hbase

theorem changes {pack : PackKind} {changes : List Change} (hs : Exact g s)
    (hbase : s.base.isSome) (hmeets : ChangesMeet g pack s changes) :
    Exact g (changes.foldl (fun s change => s.applyChange g pack change) s) ∧
      (changes.foldl (fun s change => s.applyChange g pack change) s).base.isSome := by
  induction changes generalizing s with
  | nil => exact ⟨hs, hbase⟩
  | cons change changes ih =>
    refine ih (hs.applyChange hbase hmeets.1) ?_ hmeets.2
    rw [Instance.isSome_base_applyChange]
    exact hbase

theorem setVersion (hs : Exact g s) (version : ℤ) (pack : PackKind) :
    Exact g (s.setVersion version pack) := by
  cases pack with
  | current => exact ⟨hs.nonDefaultSet, hs.values⟩
  | base =>
    have hbase : ((s.setVersion version .base).base.map LangPack.nonDefaultValues) =
        s.base.map LangPack.nonDefaultValues := by
      change ((s.base.map fun base => { base with version := version }).map _) = _
      rw [Option.map_map]
      rfl
    refine ⟨hs.nonDefaultSet, fun k => ?_⟩
    refine (hs.values k).trans (effective_congr ?_ hbase.symm k)
    rfl

theorem step {operation : Instance.Operation} (hs : Exact g s) (hbase : s.base.isSome)
    (hmeets : OperationMeets g s operation) :
    Exact g (s.step g operation) ∧ (s.step g operation).base.isSome := by
  cases operation with
  | applyDifference pack difference =>
    refine (hs.setVersion difference.version pack).changes ?_ hmeets
    cases pack with
    | current => exact hbase
    | base => rw [Instance.setVersion, Option.isSome_map, hbase]
  | reload =>
    obtain ⟨hexact, -, hvalues⟩ := reload_spec (g := g) hmeets
    refine ⟨hexact, ?_⟩
    rw [Instance.step, ← Option.isSome_map (f := LangPack.nonDefaultValues), hvalues,
      Option.isSome_map, hbase]

theorem run {operations : List Instance.Operation} (hs : Exact g s) (hbase : s.base.isSome)
    (hmeets : RunMeets g s operations) : Exact g (s.run g operations) := by
  induction operations generalizing s with
  | nil => exact hs
  | cons operation operations ih =>
    obtain ⟨hstep, hsome⟩ := hs.step hbase hmeets.1
    exact ih hstep hsome hmeets.2

end Exact

theorem values_reload (hs : Exact g s) (hlimit : WithinLimit s) :
    (s.reload g).values = s.values := by
  obtain ⟨hexact, hown, hbase⟩ := reload_spec (g := g) hlimit
  funext k
  rw [hexact.values, hs.values, effective_congr hown hbase]

/-- The values are those of the overrides while no change is of the kinds that the tables do not
follow, and are the same after they are saved and read, if there are not too many. -/
theorem run_effective (g : Generated K) (id pluralId name nativeName baseId : Text)
    (operations : List Instance.Operation)
    (hmeets : RunMeets g (Instance.switchToId g id pluralId name nativeName baseId) operations) :
    let s := (Instance.switchToId g id pluralId name nativeName baseId).run g operations
    (∀ k, s.values k = effective g s k) ∧
      (WithinLimit s → (s.reload g).values = s.values) := by
  have hstart : Exact g (Instance.switchToId g id pluralId name nativeName baseId) :=
    ⟨fun _ => rfl, fun _ => rfl⟩
  have hrun := hstart.run rfl hmeets
  exact ⟨hrun.values, values_reload hrun⟩

local instance neZero_unit : NeZero 65536 := ⟨by decide⟩

/-- A key `"k"`, whose tag is `"n"`, with the original value `"o"`. -/
def oneKey : Generated Unit where
  getKeyIndex key := if key = ascii "k" then some () else none
  name _ := ascii "k"
  getKeyIndex_iff key k := by simp
  getTagIndex tag := if tag = ascii "n" then some 0 else none
  isTagReplaced _ index := index == 0
  getOriginalValue _ := [111]
  fromUtf8 bytes := bytes.map fun ch => Fin.ofNat 65536 ch.val
  fromUtf8_nil := rfl

def oneKeyChange (string : LangPackString) (pack : PackKind) : Instance.Operation :=
  .applyDifference pack ⟨1, [string]⟩

/-- A base value with a tag, one of the current pack over it, both read again, and another one. -/
def oneKeyOperations : List Instance.Operation := [
  oneKeyChange (.plain (ascii "k") (ascii "{n}")) .base,
  oneKeyChange (.plain (ascii "k") (ascii "ab")) .current,
  .reload,
  oneKeyChange (.plain (ascii "k") (ascii "cd")) .current]

theorem run_effective_oneKey :
    ((Instance.switchToId oneKey [] [] [] [] []).run oneKey oneKeyOperations).values () =
      effective oneKey ((Instance.switchToId oneKey [] [] [] [] []).run oneKey oneKeyOperations)
        () := by
  refine (run_effective oneKey [] [] [] [] [] oneKeyOperations
    ⟨⟨?_, trivial⟩, ⟨?_, trivial⟩, ?_, ⟨?_, trivial⟩, trivial⟩).1 ()
  · rintro ⟨⟩ _ h
    exact absurd h (by decide)
  · rintro ⟨⟩ _ h
    exact absurd h (by decide)
  · exact ⟨by decide, by decide⟩
  · rintro ⟨⟩ _ h
    exact absurd h (by decide)

/-- A base value with a tag, to which a key is reset, is shown with the braces of its tag. -/
theorem run_effective_lost :
    ¬ ∀ (id pluralId name nativeName baseId : Text) (operations : List Instance.Operation),
      let s := (Instance.switchToId oneKey id pluralId name nativeName baseId).run oneKey operations
      (∀ k, s.values k = effective oneKey s k) ∧ (s.reload oneKey).values = s.values := by
  intro h
  have hlost := (h [] [] [] [] [] [oneKeyChange (.plain (ascii "k") (ascii "{n}")) .base,
    oneKeyChange (.deleted (ascii "k")) .current]).1 ()
  revert hlost
  decide

end TelegramDesktop.Lang
