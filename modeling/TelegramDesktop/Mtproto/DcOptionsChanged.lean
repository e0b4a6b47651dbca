import TelegramDesktop.Mtproto.DcOptionsReachable

namespace TelegramDesktop.Mtproto.DcOptions
open Base

variable {Key : Type}

/-- `processFromList` with the ids that `_changed` is fired with. -/
def processFromListFired (d : DcOptions Key) (options : List Endpoint) (overwrite : Bool) :
    Option (DcOptions Key × List DcId) :=
  if options.isEmpty || d.immutable then some (d, [])
  else
    let data := applyAll (if overwrite then ∅ else d.data) options
    (countOptionsDifference d.data.entries data.entries).map fun result =>
      (if result.isEmpty then d else { d with data := data }, result)

theorem processFromListFired_fst (d : DcOptions Key) (options : List Endpoint)
    (overwrite : Bool) :
    (processFromListFired d options overwrite).map Prod.fst =
      processFromList d options overwrite := by
  unfold processFromListFired processFromList
  by_cases hstop : (options.isEmpty || d.immutable) = true
  · rw [if_pos hstop, if_pos hstop]
    rfl
  · rw [if_neg hstop, if_neg hstop, Option.map_map]
    rfl

/-- The list of a dc in the entries of a map. -/
def listOf (entries : List (DcId × List Endpoint)) (id : DcId) : Option (List Endpoint) :=
  (entries.find? fun entry => decide (entry.1 = id)).map Prod.snd

def sameLists : Option (List Endpoint) → Option (List Endpoint) → Bool
  | none, none => true
  | some m, some n => equalLists m n
  | _, _ => false

abbrev Sorted (entries : List (DcId × List Endpoint)) : Prop :=
  entries.Pairwise fun a b => a.1 < b.1

theorem listOf_cons (entry : DcId × List Endpoint) (entries : List (DcId × List Endpoint))
    (id : DcId) : listOf (entry :: entries) id =
      if entry.1 = id then some entry.2 else listOf entries id := by
  unfold listOf
  rw [List.find?_cons]
  by_cases h : entry.1 = id <;> simp [h]

theorem listOf_eq_none {entries : List (DcId × List Endpoint)} {id : DcId}
    (h : ∀ entry ∈ entries, id < entry.1) : listOf entries id = none := by
  induction entries with
  | nil => rfl
  | cons entry entries ih =>
    rw [listOf_cons, if_neg (h entry List.mem_cons_self).ne',
      ih fun other hother => h other (List.mem_cons_of_mem _ hother)]

/-- What the merge finds: each dc whose lists are told apart, in order. -/
structure Difference (as bs : List (DcId × List Endpoint)) (ids : List DcId) : Prop where
  mem : ∀ id, id ∈ ids ↔ sameLists (listOf as id) (listOf bs id) = false
  sorted : ids.Pairwise (· < ·)

theorem exists_of_listOf {entries : List (DcId × List Endpoint)} {id : DcId}
    (h : listOf entries id ≠ none) : ∃ entry ∈ entries, entry.1 = id := by
  by_contra hnone
  apply h
  rw [listOf, Option.map_eq_none_iff, List.find?_eq_none]
  intro entry hentry heq
  exact hnone ⟨entry, hentry, of_decide_eq_true heq⟩

/-- An id that is found behind the heads is behind them in order. -/
theorem Difference.lt {as bs : List (DcId × List Endpoint)} {ids : List DcId} {least : DcId}
    (h : Difference as bs ids) (has : ∀ entry ∈ as, least < entry.1)
    (hbs : ∀ entry ∈ bs, least < entry.1) : ∀ id ∈ ids, least < id := by
  intro id hid
  have hdiffer := (h.mem id).mp hid
  by_cases ha : listOf as id = none
  · by_cases hb : listOf bs id = none
    · rw [ha, hb] at hdiffer
      exact nomatch hdiffer
    · obtain ⟨entry, hentry, rfl⟩ := exists_of_listOf hb
      exact hbs entry hentry
  · obtain ⟨entry, hentry, rfl⟩ := exists_of_listOf ha
    exact has entry hentry

theorem Difference.nil : Difference [] [] [] where
  mem := fun id => by simp [listOf, sameLists]
  sorted := List.Pairwise.nil

section Merge

variable {a b : DcId × List Endpoint} {as bs : List (DcId × List Endpoint)} {ids : List DcId}

theorem Difference.consLeft (ha : ∀ entry ∈ as, a.1 < entry.1) (hb : ∀ entry ∈ bs, a.1 < entry.1)
    (h : Difference as bs ids) : Difference (a :: as) bs (a.1 :: ids) where
  mem := fun id => by
    rw [List.mem_cons, h.mem, listOf_cons]
    by_cases hid : a.1 = id
    · subst hid
      rw [if_pos rfl, listOf_eq_none hb]
      simp [sameLists]
    · rw [if_neg hid]
      simp [Ne.symm hid]
  sorted := List.pairwise_cons.mpr ⟨h.lt ha hb, h.sorted⟩

theorem Difference.consRight (ha : ∀ entry ∈ as, b.1 < entry.1) (hb : ∀ entry ∈ bs, b.1 < entry.1)
    (h : Difference as bs ids) : Difference as (b :: bs) (b.1 :: ids) where
  mem := fun id => by
    rw [List.mem_cons, h.mem, listOf_cons b]
    by_cases hid : b.1 = id
    · subst hid
      rw [if_pos rfl, listOf_eq_none ha]
      simp [sameLists]
    · rw [if_neg hid]
      simp [Ne.symm hid]
  sorted := List.pairwise_cons.mpr ⟨h.lt ha hb, h.sorted⟩

theorem Difference.consBoth (hab : a.1 = b.1) (ha : ∀ entry ∈ as, a.1 < entry.1)
    (hb : ∀ entry ∈ bs, a.1 < entry.1) (h : Difference as bs ids) :
    Difference (a :: as) (b :: bs) (if equalLists a.2 b.2 then ids else a.1 :: ids) := by
  have hout : a.1 ∉ ids := fun hmem => lt_irrefl _ (h.lt ha hb _ hmem)
  have hmem : ∀ id, sameLists (listOf (a :: as) id) (listOf (b :: bs) id) =
      if a.1 = id then equalLists a.2 b.2 else sameLists (listOf as id) (listOf bs id) := by
    intro id
    rw [listOf_cons, listOf_cons, ← hab]
    split_ifs <;> rfl
  split_ifs with hequal
  · refine ⟨fun id => ?_, h.sorted⟩
    rw [hmem]
    by_cases hid : a.1 = id
    · subst hid
      simp [hequal, hout]
    · rw [if_neg hid, h.mem]
  · refine ⟨fun id => ?_, List.pairwise_cons.mpr ⟨h.lt ha hb, h.sorted⟩⟩
    rw [hmem, List.mem_cons]
    by_cases hid : a.1 = id
    · subst hid
      simp [hequal]
    · rw [if_neg hid, h.mem]
      simp [Ne.symm hid]

end Merge

theorem difference_of_eq {as bs : List (DcId × List Endpoint)} {ids : List DcId}
    (has : Sorted as) (hbs : Sorted bs) (h : countOptionsDifference as bs = some ids) :
    Difference as bs ids := by
  fun_induction countOptionsDifference as bs generalizing ids with
  | case1 =>
    obtain rfl := Option.some.inj h
    exact .nil
  | case2 a as hlt ih =>
    obtain ⟨rest, hrest, rfl⟩ := Option.map_eq_some_iff.mp h
    rw [Sorted, List.pairwise_cons] at has
    exact (ih has.2 hbs hrest).consLeft has.1 fun entry hentry => nomatch hentry
  | case3 => exact nomatch h
  | case4 b bs hlt ih =>
    obtain ⟨rest, hrest, rfl⟩ := Option.map_eq_some_iff.mp h
    rw [Sorted, List.pairwise_cons] at hbs
    exact (ih has hbs.2 hrest).consRight (fun entry hentry => nomatch hentry) hbs.1
  | case5 => exact nomatch h
  | case6 a as b bs hlt ih =>
    obtain ⟨rest, hrest, rfl⟩ := Option.map_eq_some_iff.mp h
    rw [Sorted, List.pairwise_cons] at has
    have hsorted := hbs
    rw [Sorted, List.pairwise_cons] at hsorted
    refine (ih has.2 hbs hrest).consLeft has.1 fun entry hentry => ?_
    rcases List.mem_cons.mp hentry with rfl | hentry
    · exact hlt
    · exact hlt.trans (hsorted.1 entry hentry)
  | case7 a as b bs hge hlt ih =>
    obtain ⟨rest, hrest, rfl⟩ := Option.map_eq_some_iff.mp h
    rw [Sorted, List.pairwise_cons] at hbs
    have hsorted := has
    rw [Sorted, List.pairwise_cons] at hsorted
    refine (ih has hbs.2 hrest).consRight (fun entry hentry => ?_) hbs.1
    rcases List.mem_cons.mp hentry with rfl | hentry
    · exact hlt
    · exact hlt.trans (hsorted.1 entry hentry)
  | case8 a as b bs hge hle hequal ih =>
    rw [Sorted, List.pairwise_cons] at has hbs
    have hid : a.1 = b.1 := le_antisymm (not_lt.mp hle) (not_lt.mp hge)
    have hboth := (ih has.2 hbs.2 h).consBoth hid has.1 (hid ▸ hbs.1)
    rwa [if_pos hequal] at hboth
  | case9 a as b bs hge hle hequal ih =>
    obtain ⟨rest, hrest, rfl⟩ := Option.map_eq_some_iff.mp h
    rw [Sorted, List.pairwise_cons] at has hbs
    have hid : a.1 = b.1 := le_antisymm (not_lt.mp hle) (not_lt.mp hge)
    have hboth := (ih has.2 hbs.2 hrest).consBoth hid has.1 (hid ▸ hbs.1)
    rwa [if_neg hequal] at hboth

/-- The merge reads an ended map exactly when one of the maps alone has the dc that stands for
its end. -/
theorem difference_isSome {as bs : List (DcId × List Endpoint)} (has : Sorted as)
    (hbs : Sorted bs) : (countOptionsDifference as bs).isSome = true ↔
      (listOf as Int32.maxValue).isSome = (listOf bs Int32.maxValue).isSome := by
  have hmax : ∀ id : DcId, id ≤ Int32.maxValue := fun id => Int32.le_maxValue id
  fun_induction countOptionsDifference as bs with
  | case1 => simp [listOf]
  | case2 a as hlt ih =>
    rw [Sorted, List.pairwise_cons] at has
    rw [Option.isSome_map, listOf_cons, if_neg hlt.ne]
    exact ih has.2 hbs
  | case3 a as hge =>
    have hid : a.1 = Int32.maxValue := le_antisymm (hmax _) (not_lt.mp hge)
    rw [listOf_cons, if_pos hid]
    simp [listOf]
  | case4 b bs hlt ih =>
    rw [Sorted, List.pairwise_cons] at hbs
    rw [Option.isSome_map, listOf_cons b, if_neg hlt.ne]
    exact ih has hbs.2
  | case5 b bs hge =>
    have hid : b.1 = Int32.maxValue := le_antisymm (hmax _) (not_lt.mp hge)
    rw [listOf_cons, if_pos hid]
    simp [listOf]
  | case6 a as b bs hlt ih =>
    rw [Sorted, List.pairwise_cons] at has
    rw [Option.isSome_map, listOf_cons a, if_neg (hlt.trans_le (hmax _)).ne]
    exact ih has.2 hbs
  | case7 a as b bs hge hlt ih =>
    rw [Sorted, List.pairwise_cons] at hbs
    rw [Option.isSome_map, listOf_cons b, if_neg (hlt.trans_le (hmax _)).ne]
    exact ih has hbs.2
  | case8 a as b bs hge hle hequal ih | case9 a as b bs hge hle hequal ih =>
    rw [Sorted, List.pairwise_cons] at has hbs
    have hid : a.1 = b.1 := le_antisymm (not_lt.mp hle) (not_lt.mp hge)
    have hrest := ih has.2 hbs.2
    rw [listOf_cons, listOf_cons, ← hid]
    split_ifs with hend
    · rw [listOf_eq_none (hend ▸ has.1), listOf_eq_none (hend ▸ hid ▸ hbs.1)] at hrest
      simpa using hrest
    · simpa using hrest

/-- The addresses of a dc. -/
def HasAddress (data : Data) (id : DcId) (ip : List UInt8) (port : Int32) : Prop :=
  ∃ list, data.get? id = some list ∧ ∃ endpoint ∈ list, endpoint.ip = ip ∧ endpoint.port = port

/-- The options of a dc as a set. -/
def HasOption (data : Data) (id : DcId) (ip : List UInt8) (port flags : Int32)
    (secret : List UInt8) : Prop :=
  ∃ list, data.get? id = some list ∧ ∃ endpoint ∈ list, endpoint.ip = ip ∧
    endpoint.port = port ∧ endpoint.flags = flags ∧ endpoint.secret = secret

def SameAddresses (a b : Data) (id : DcId) : Prop :=
  ∀ ip port, HasAddress a id ip port ↔ HasAddress b id ip port

def SameOptions (a b : Data) (id : DcId) : Prop :=
  ∀ ip port flags secret, HasOption a id ip port flags secret ↔ HasOption b id ip port flags secret

theorem SameOptions.sameAddresses {a b : Data} {id : DcId} (h : SameOptions a b id) :
    SameAddresses a b id := by
  intro ip port
  constructor
  · rintro ⟨list, hlist, endpoint, hmem, hip, hport⟩
    obtain ⟨list', hlist', endpoint', hmem', hip', hport', -⟩ :=
      (h ip port endpoint.flags endpoint.secret).mp
        ⟨list, hlist, endpoint, hmem, hip, hport, rfl, rfl⟩
    exact ⟨list', hlist', endpoint', hmem', hip', hport'⟩
  · rintro ⟨list, hlist, endpoint, hmem, hip, hport⟩
    obtain ⟨list', hlist', endpoint', hmem', hip', hport', -⟩ :=
      (h ip port endpoint.flags endpoint.secret).mpr
        ⟨list, hlist, endpoint, hmem, hip, hport, rfl, rfl⟩
    exact ⟨list', hlist', endpoint', hmem', hip', hport'⟩

/-- No dc is empty or has an address twice. -/
def Distinct (data : Data) : Prop := ∀ id list, data.get? id = some list →
  list ≠ [] ∧ list.Pairwise fun a b => sameAddress b a = false

theorem Distinct.applyOneOption {data : Data} (h : Distinct data) (option : Endpoint) :
    Distinct (applyOneOption data option).1 := by
  intro id list hget
  rw [applyOneOption_fst, FlatMap.get?_upsert] at hget
  split_ifs at hget with hid
  · obtain rfl := Option.some.inj hget
    cases hlist : data.get? option.id with
    | none => exact ⟨List.cons_ne_nil _ _, List.pairwise_singleton _ _⟩
    | some list =>
      obtain ⟨hne, hdistinct⟩ := h _ _ hlist
      unfold addOption
      dsimp only
      split_ifs with hany
      · exact ⟨hne, hdistinct⟩
      · refine ⟨by simp, List.pairwise_append.mpr
          ⟨hdistinct, List.pairwise_singleton _ _, fun a ha b hb => ?_⟩⟩
        rw [List.mem_singleton.mp hb]
        by_contra hsame
        exact hany (List.any_eq_true.mpr ⟨a, ha, Bool.eq_true_of_not_eq_false hsame⟩)
  · exact h id list hget

theorem Distinct.applyAll {data : Data} (h : Distinct data) (options : List Endpoint) :
    Distinct (applyAll data options) := by
  induction options generalizing data with
  | nil => exact h
  | cons option options ih => exact ih (h.applyOneOption option)

theorem Distinct.empty : Distinct ∅ := fun id list h => by
  rw [FlatMap.get?_empty] at h
  exact nomatch h

theorem sameAddress_iff {a b : Endpoint} :
    sameAddress a b = true ↔ a.ip = b.ip ∧ a.port = b.port := by
  simp [sameAddress]

/-- Lists without repeated addresses are told apart by their sets of addresses. -/
theorem equalLists_iff {m n : List Endpoint}
    (hm : m.Pairwise fun a b => sameAddress b a = false)
    (hn : n.Pairwise fun a b => sameAddress b a = false) :
    equalLists m n = true ↔ ∀ ip port, (∃ e ∈ m, e.ip = ip ∧ e.port = port) ↔
      ∃ e ∈ n, e.ip = ip ∧ e.port = port := by
  let address : Endpoint → List UInt8 × Int32 := fun e => (e.ip, e.port)
  have hnodup : ∀ {l : List Endpoint}, (l.Pairwise fun a b => sameAddress b a = false) →
      (l.map address).Nodup := by
    intro l hl
    refine List.pairwise_map.mpr (hl.imp fun {a b} hab heq => ?_)
    obtain ⟨hip, hport⟩ := Prod.mk.inj heq
    rw [sameAddress_iff.mpr ⟨hip.symm, hport.symm⟩] at hab
    exact nomatch hab
  have hmem : ∀ (l : List Endpoint) ip port, (∃ e ∈ l, e.ip = ip ∧ e.port = port) ↔
      (ip, port) ∈ l.map address := by
    intro l ip port
    rw [List.mem_map]
    simp only [address, Prod.mk.injEq]
  have hequal : equalLists m n = true ↔
      m.length = n.length ∧ m.map address ⊆ n.map address := by
    simp only [equalLists, Bool.and_eq_true, beq_iff_eq, List.all_eq_true, List.any_eq_true,
      sameAddress_iff]
    refine and_congr_right fun _ => ⟨fun h a ha => ?_, fun h e he => ?_⟩
    · obtain ⟨e, he, rfl⟩ := List.mem_map.mp ha
      obtain ⟨f, hf, hip, hport⟩ := h e he
      exact List.mem_map.mpr ⟨f, hf, Prod.ext hip.symm hport.symm⟩
    · obtain ⟨f, hf, heq⟩ := List.mem_map.mp (h (List.mem_map_of_mem he))
      obtain ⟨hip, hport⟩ := Prod.mk.inj heq
      exact ⟨f, hf, hip.symm, hport.symm⟩
  rw [hequal]
  constructor
  · rintro ⟨hlength, hsub⟩ ip port
    have hperm : (m.map address).Perm (n.map address) :=
      (List.subperm_of_subset (hnodup hm) hsub).perm_of_length_le
        (by rw [List.length_map, List.length_map, hlength])
    rw [hmem, hmem, hperm.mem_iff]
  · intro h
    have hperm : (m.map address).Perm (n.map address) :=
      (List.perm_ext_iff_of_nodup (hnodup hm) (hnodup hn)).mpr fun a => by
        have := h a.1 a.2
        rwa [hmem, hmem] at this
    have hlength := hperm.length_eq
    rw [List.length_map, List.length_map] at hlength
    exact ⟨hlength, hperm.subset⟩

theorem sameLists_iff {a b : Data} (ha : Distinct a) (hb : Distinct b) (id : DcId) :
    sameLists (a.get? id) (b.get? id) = true ↔ SameAddresses a b id := by
  have hget : ∀ (data : Data) ip port, HasAddress data id ip port ↔
      ∃ e ∈ (data.get? id).getD [], e.ip = ip ∧ e.port = port := by
    intro data ip port
    unfold HasAddress
    cases data.get? id with
    | none => simp
    | some list => simp
  have hfirst : ∀ list : List Endpoint, list ≠ [] →
      ∃ ip port, ∃ e ∈ list, e.ip = ip ∧ e.port = port := by
    intro list hne
    obtain ⟨first, rest, rfl⟩ := List.exists_cons_of_ne_nil hne
    exact ⟨_, _, first, List.mem_cons_self, rfl, rfl⟩
  unfold SameAddresses
  simp only [hget]
  cases hla : a.get? id with
  | none =>
    cases hlb : b.get? id with
    | none => simp [sameLists]
    | some n =>
      obtain ⟨ip, port, hsome⟩ := hfirst n (hb id n hlb).1
      refine ⟨fun h => absurd h (by simp [sameLists]), fun h => ?_⟩
      exact absurd ((h ip port).mpr hsome) (by simp)
  | some m =>
    cases hlb : b.get? id with
    | none =>
      obtain ⟨ip, port, hsome⟩ := hfirst m (ha id m hla).1
      refine ⟨fun h => absurd h (by simp [sameLists]), fun h => ?_⟩
      exact absurd ((h ip port).mp hsome) (by simp)
    | some n => exact equalLists_iff (ha id m hla).2 (hb id n hlb).2

/-- The dc id that stands for the end of a map in the merge. -/
def HasEndId (data : Data) : Bool := (data.get? Int32.maxValue).isSome

/-- The list is stored as it is, and the dcs whose options differ as sets are told about, each
once. -/
def Overwrites (d : DcOptions Key) (options : List Endpoint) : Prop :=
  ∃ d' fired, processFromListFired d options true = some (d', fired) ∧
    d'.data = applyAll ∅ options ∧ fired.Nodup ∧
    ∀ id, id ∈ fired ↔ ¬SameOptions d.data d'.data id

/-- Nothing changes, or the addresses of some dc do and no dc has other flags or secrets at the
same addresses. -/
def Noticed (was now : Data) : Prop :=
  was = now ∨ (∃ id, ¬SameAddresses was now id) ∧
    ∀ id, SameAddresses was now id → SameOptions was now id

/-- The options that were added before, in any number of calls, and a list that replaces them:
a change is stored and told about only when the addresses show it. -/
theorem setFromList_overwrites_iff (environment : Environment) (keys : PublicKeys Key)
    (history : List Endpoint) (first : Endpoint) (rest : List Endpoint) :
    Overwrites ⟨environment, applyAll ∅ history, keys, false⟩ (first :: rest) ↔
      HasEndId (applyAll ∅ history) = HasEndId (applyAll ∅ (first :: rest)) ∧
        Noticed (applyAll ∅ history) (applyAll ∅ (first :: rest)) := by
  have hwas := Distinct.empty.applyAll history
  have hnow := Distinct.empty.applyAll (first :: rest)
  unfold Overwrites processFromListFired
  simp only [List.isEmpty_cons, Bool.or_false, Bool.false_eq_true, if_false, if_true]
  generalize applyAll ∅ history = was at hwas ⊢
  generalize applyAll ∅ (first :: rest) = now at hnow ⊢
  have hsome := difference_isSome was.sorted now.sorted
  change _ ↔ HasEndId was = HasEndId now at hsome
  cases hdifference : countOptionsDifference was.entries now.entries with
  | none =>
    rw [hdifference] at hsome
    constructor
    · rintro ⟨d', fired, h, -⟩
      exact nomatch h
    · rintro ⟨hend, -⟩
      exact nomatch hsome.mpr hend
  | some ids =>
    rw [hdifference] at hsome
    have hend := hsome.mp rfl
    have hdiffer := difference_of_eq was.sorted now.sorted hdifference
    have hids : ∀ id, id ∈ ids ↔ ¬SameAddresses was now id := by
      intro id
      rw [← sameLists_iff hwas hnow, Bool.not_eq_true]
      exact hdiffer.mem id
    have hnodup : ids.Nodup := hdiffer.sorted.imp fun h => h.ne
    simp only [Option.map_some, Option.some.injEq, Prod.mk.injEq, hend, true_and]
    unfold Noticed
    rcases ids with _ | ⟨changed, more⟩
    · have hsame : ∀ id, SameAddresses was now id := fun id => by
        by_contra h
        exact absurd ((hids id).mpr h) List.not_mem_nil
      constructor
      · rintro ⟨d', fired, ⟨rfl, rfl⟩, hdata, -⟩
        exact Or.inl hdata
      · rintro (rfl | ⟨⟨id, hid⟩, -⟩)
        · exact ⟨_, [], ⟨rfl, rfl⟩, rfl, List.nodup_nil, fun id => by simp [SameOptions]⟩
        · exact absurd (hsame id) hid
    · have hchanged : ¬SameAddresses was now changed := (hids changed).mp List.mem_cons_self
      constructor
      · rintro ⟨d', fired, ⟨rfl, rfl⟩, -, -, hfired⟩
        refine Or.inr ⟨⟨changed, hchanged⟩, fun id hid => ?_⟩
        by_contra hoptions
        exact (hids id).mp ((hfired id).mpr hoptions) hid
      · rintro (rfl | ⟨-, hkept⟩)
        · exact absurd (fun ip port => Iff.rfl) hchanged
        · refine ⟨_, _, ⟨rfl, rfl⟩, rfl, hnodup, fun id => ?_⟩
          rw [hids]
          exact not_congr ⟨hkept id, SameOptions.sameAddresses⟩

def sampleEndpoint (flags : Int32) : Endpoint := ⟨2, flags, [49], 443, []⟩

/-- Other flags for the address of a dc are neither stored nor told about. -/
theorem setFromList_drops_flags :
    ¬Overwrites (⟨.production, applyAll ∅ [sampleEndpoint 0], ∅, false⟩ : DcOptions Unit)
      [sampleEndpoint 1] := by
  rintro ⟨d', fired, h, hdata, -⟩
  have hentries : ∀ flags, (applyAll ∅ [sampleEndpoint flags]).entries =
      [(2, [sampleEndpoint flags])] := fun flags => rfl
  have hdifference : countOptionsDifference [(2, [sampleEndpoint 0])] [(2, [sampleEndpoint 1])] =
      some [] := by
    simp [countOptionsDifference, equalLists, sameAddress, sampleEndpoint]
  unfold processFromListFired at h
  simp only [List.isEmpty_cons, Bool.or_false, Bool.false_eq_true, if_false, if_true, hentries,
    hdifference, Option.map_some, List.isEmpty_nil, Option.some.injEq, Prod.mk.injEq] at h
  obtain ⟨rfl, rfl⟩ := h
  have hsame : [((2 : DcId), [sampleEndpoint 0])] = [((2 : DcId), [sampleEndpoint 1])] :=
    congrArg FlatMap.entries hdata
  exact absurd hsame (by decide)

end TelegramDesktop.Mtproto.DcOptions
