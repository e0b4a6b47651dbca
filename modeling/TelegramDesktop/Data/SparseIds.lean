import TelegramDesktop.Base.FlatSet
import TelegramDesktop.Data.ScheduledMessages

namespace TelegramDesktop.Data
open Base

class IdsContainer (C : Type*) where
  elems : C → List ℤ

instance : IdsContainer (FlatSet ℤ) := ⟨FlatSet.elems⟩

instance : IdsContainer (List ℤ) := ⟨id⟩

structure AbstractSparseIds (C : Type*) where
  ids : C
  fullCount : Option ℤ := none
  skippedBefore : Option ℤ := none
  skippedAfter : Option ℤ := none

namespace AbstractSparseIds

variable {C : Type*} [IdsContainer C]

def indexOf (s : AbstractSparseIds C) (id : ℤ) : Option ℕ := (IdsContainer.elems s.ids).idxOf? id

def size (s : AbstractSparseIds C) : ℕ := (IdsContainer.elems s.ids).length

/-- `operator[]`, where `none` is a violated `Expects`. -/
def get (s : AbstractSparseIds C) (index : ℕ) : Option ℤ := (IdsContainer.elems s.ids)[index]?

def nearest (s : AbstractSparseIds (FlatSet ℤ)) (id : ℤ) : Option ℤ :=
  (s.ids.elems[s.ids.lowerBound id]?).or s.ids.elems.getLast?

end AbstractSparseIds

abbrev SparseIdsSlice := AbstractSparseIds (FlatSet ℤ)

abbrev SparseUnsortedIdsSlice := AbstractSparseIds (List ℤ)

structure FullMsgId where
  peer : ℕ
  msg : ℤ
  deriving DecidableEq

/-- The key of a merged slice, in whose constructor a topic has no migrated peer. A peer that is
not there is 0. -/
structure SparseIdsMergedSlice.Key where
  peerId : ℕ
  topicRootId : ℤ
  migratedPeerId : ℕ
  universalId : ℤ
  topic : topicRootId ≠ 0 → migratedPeerId = 0

def SparseIdsMergedSlice.Key.of (peerId : ℕ) (topicRootId : ℤ) (migratedPeerId : ℕ)
    (universalId : ℤ) : Key :=
  { peerId
    topicRootId
    migratedPeerId := if topicRootId ≠ 0 then 0 else migratedPeerId
    universalId
    topic := fun h => if_pos h }

structure SparseIdsMergedSlice where
  key : SparseIdsMergedSlice.Key
  part : SparseIdsSlice := { ids := ∅ }
  migrated : Option SparseIdsSlice := none
  unsorted : Option SparseUnsortedIdsSlice := none

namespace SparseIdsMergedSlice

def add (a b : Option ℤ) : Option ℤ := do return (← a) + (← b)

def computeIdOfKey (key : Key) : FullMsgId :=
  if 0 ≤ key.universalId then ⟨key.peerId, key.universalId⟩
  else ⟨key.migratedPeerId, ServerMaxMsgId + key.universalId⟩

def isFromPart (s : SparseIdsMergedSlice) (fullId : FullMsgId) : Bool := s.key.peerId == fullId.peer

def isFromMigrated (s : SparseIdsMergedSlice) (fullId : FullMsgId) : Bool :=
  s.migrated.isSome && s.key.migratedPeerId == fullId.peer

def isolatedInPart (s : SparseIdsMergedSlice) : Bool :=
  decide (IsServerMsgId s.key.universalId) &&
    (s.migrated.isNone || s.part.skippedBefore != some 0)

def isolatedInMigrated (s : SparseIdsMergedSlice) : Option Bool :=
  if IsServerMsgId (ServerMaxMsgId + s.key.universalId) then
    s.migrated.map fun migrated => migrated.skippedAfter != some 0
  else some false

def migratedSize (s : SparseIdsMergedSlice) : Option ℕ :=
  if s.isolatedInPart then some 0 else s.migrated.map AbstractSparseIds.size

def fullCount (s : SparseIdsMergedSlice) : Option ℤ :=
  match s.unsorted with
  | some unsorted => unsorted.fullCount
  | none =>
    add s.part.fullCount (match s.migrated with
      | some migrated => migrated.fullCount
      | none => some 0)

def skippedBefore (s : SparseIdsMergedSlice) : Option (Option ℤ) :=
  match s.unsorted with
  | some unsorted => some unsorted.skippedBefore
  | none => do
    let isolated ← s.isolatedInMigrated
    return add (if isolated then some 0 else s.part.skippedBefore) (match s.migrated with
      | some migrated => if s.isolatedInPart then migrated.fullCount else migrated.skippedBefore
      | none => some 0)

def skippedAfter (s : SparseIdsMergedSlice) : Option (Option ℤ) :=
  match s.unsorted with
  | some unsorted => some unsorted.skippedAfter
  | none => do
    let isolated ← s.isolatedInMigrated
    let after ← if s.isolatedInPart then some (some 0)
      else s.migrated.map AbstractSparseIds.skippedAfter
    return add (if isolated then s.part.fullCount else s.part.skippedAfter) after

def indexOf (s : SparseIdsMergedSlice) (fullId : FullMsgId) : Option (Option ℕ) :=
  match s.unsorted with
  | some unsorted => some (unsorted.indexOf fullId.msg)
  | none =>
    if s.isFromPart fullId then
      s.migratedSize.map fun size => (s.part.indexOf fullId.msg).map (· + size)
    else if s.isolatedInPart then some none
    else if s.isFromMigrated fullId then
      s.migrated.map fun migrated => migrated.indexOf fullId.msg
    else some none

def size (s : SparseIdsMergedSlice) : Option ℕ :=
  match s.unsorted with
  | some unsorted => some unsorted.size
  | none => do
    let migrated ← if s.isolatedInPart then some 0 else s.migratedSize
    let isolated ← s.isolatedInMigrated
    return migrated + if isolated then 0 else s.part.size

/-- `operator[]`. -/
def get (s : SparseIdsMergedSlice) (index : ℕ) : Option FullMsgId := do
  let size ← s.size
  if size ≤ index then none
  else
    match s.unsorted with
    | some unsorted => return ⟨s.key.peerId, ← unsorted.get index⟩
    | none =>
      let migratedSize ← s.migratedSize
      if index < migratedSize then
        return ⟨s.key.migratedPeerId, ← (← s.migrated).get index⟩
      else return ⟨s.key.peerId, ← s.part.get (index - migratedSize)⟩

def distance (s : SparseIdsMergedSlice) (a b : Key) : Option (Option ℤ) := do
  match ← s.indexOf (computeIdOfKey a) with
  | none => return none
  | some i =>
    match ← s.indexOf (computeIdOfKey b) with
    | none => return none
    | some j => return some ((j : ℤ) - i)

def nearest (s : SparseIdsMergedSlice) (id : ℤ) : Option (Option FullMsgId) :=
  match s.unsorted with
  | some unsorted =>
    if (unsorted.indexOf id).isSome then some (some ⟨s.key.peerId, id⟩)
    else some ((unsorted.get (unsorted.size / 2)).map fun id => ⟨s.key.peerId, id⟩)
  | none =>
    let fromPart := fun result : ℤ => (⟨s.key.peerId, result⟩ : FullMsgId)
    let fromMigrated := fun result : ℤ => (⟨s.key.migratedPeerId, result⟩ : FullMsgId)
    if IsServerMsgId id then
      match s.part.nearest id with
      | some result => some (some (fromPart result))
      | none =>
        if s.isolatedInPart then some none
        else s.migrated.map fun migrated => (migrated.nearest (ServerMaxMsgId - 1)).map fromMigrated
    else
      match s.migrated.bind fun migrated => migrated.nearest (id + ServerMaxMsgId) with
      | some result => some (some (fromMigrated result))
      | none => do
        if ← s.isolatedInMigrated then return none
        else return (s.part.nearest 0).map fromPart

/-- The `Expects` of `CreateViewer` on its key. -/
def Accepted (key : Key) : Prop :=
  IsServerMsgId key.universalId ∨ key.universalId = 0 ∨
    IsServerMsgId (ServerMaxMsgId + key.universalId) ∧ key.migratedPeerId ≠ 0

/-- What a viewer gives: it takes a migrated slice if there is a migrated peer. -/
def viewed (key : Key) (part migrated : SparseIdsSlice) : SparseIdsMergedSlice :=
  { key, part, migrated := if key.migratedPeerId ≠ 0 then some migrated else none }

/-- Indices and ids of a slice agree, and every accessor is defined. -/
structure Coherent (s : SparseIdsMergedSlice) : Prop where
  skippedBefore : s.skippedBefore.isSome
  skippedAfter : s.skippedAfter.isSome
  size : s.size.isSome
  nearest : ∀ id, (s.nearest id).isSome
  indexOf : ∀ id, (s.indexOf id).isSome
  get : ∀ size, s.size = some size → ∀ i < size,
    ∃ id, s.get i = some id ∧ s.indexOf id = some (some i)
  index : ∀ id i, s.indexOf id = some (some i) →
    ∃ size, s.size = some size ∧ i < size ∧ s.get i = some id
  distance : ∀ a b, ∃ result, s.distance a b = some result ∧ ∀ d : ℤ, result = some d ↔
    ∃ i j : ℕ, s.get i = some (computeIdOfKey a) ∧ s.get j = some (computeIdOfKey b) ∧ d = j - i

section Sequence

variable {s : SparseIdsMergedSlice}

/-- A merged slice is coherent if indices and ids in it are those of one sequence. -/
theorem Coherent.of_seq (seq : List FullMsgId) (hbefore : s.skippedBefore.isSome)
    (hafter : s.skippedAfter.isSome)
    (hnearest : ∀ id, (s.nearest id).isSome) (hsize : s.size = some seq.length)
    (hget : ∀ i, s.get i = seq[i]?)
    (hindex : ∀ id, ∃ index, s.indexOf id = some index ∧
      ∀ i, index = some i ↔ seq[i]? = some id) : Coherent s where
  skippedBefore := hbefore
  skippedAfter := hafter
  size := hsize ▸ rfl
  nearest := hnearest
  indexOf id := by
    obtain ⟨index, heq, -⟩ := hindex id
    rw [heq]
    rfl
  get size heq i hi := by
    obtain rfl := Option.some.inj (hsize.symm.trans heq)
    obtain ⟨index, hof, hiff⟩ := hindex seq[i]
    refine ⟨seq[i], (hget i).trans (List.getElem?_eq_getElem hi), ?_⟩
    rw [hof, (hiff i).mpr (List.getElem?_eq_getElem hi)]
  index id i heq := by
    obtain ⟨index, hof, hiff⟩ := hindex id
    have hi := (hiff i).mp (Option.some.inj (hof.symm.trans heq))
    exact ⟨seq.length, hsize, (List.getElem?_eq_some_iff.mp hi).1, (hget i).trans hi⟩
  distance a b := by
    obtain ⟨first, hfirst, hfirst'⟩ := hindex (computeIdOfKey a)
    obtain ⟨second, hsecond, hsecond'⟩ := hindex (computeIdOfKey b)
    simp only [hget, ← hfirst', ← hsecond', SparseIdsMergedSlice.distance, hfirst, hsecond,
      Option.bind_eq_bind, Option.bind_some]
    cases first with
    | none => exact ⟨none, rfl, by simp⟩
    | some i =>
      cases second with
      | none => exact ⟨none, rfl, by simp⟩
      | some j => exact ⟨some (j - i), rfl, by simp [eq_comm]⟩

end Sequence

section Accessors

variable {s : SparseIdsMergedSlice} {migrated : SparseIdsSlice}

theorem indexOf_eq_some_iff (slice : SparseIdsSlice) (id : ℤ) (i : ℕ) :
    slice.indexOf id = some i ↔ slice.ids.elems[i]? = some id := by
  rw [AbstractSparseIds.indexOf, IdsContainer.elems, List.idxOf?_eq_some_iff,
    List.getElem?_eq_some_iff]
  constructor
  · rintro ⟨hi, heq, -⟩
    exact ⟨hi, heq⟩
  · rintro ⟨hi, heq⟩
    refine ⟨hi, heq, fun j hj hsame => ?_⟩
    have hne := List.nodup_iff_getElem?_ne_getElem?.mp slice.ids.nodup j i hj hi
    apply hne
    rw [List.getElem?_eq_getElem hi, List.getElem?_eq_getElem (hj.trans hi), heq]
    exact congrArg some hsame

theorem nearest_defined (hu : s.unsorted = none) {isolated : Bool}
    (hmigrated : s.isolatedInMigrated = some isolated)
    (hany : s.isolatedInPart = true ∨ s.migrated.isSome = true) (id : ℤ) :
    (s.nearest id).isSome := by
  rw [nearest, hu, hmigrated]
  dsimp only
  split_ifs with hid hpart
  · cases s.part.nearest id <;> rfl
  · cases s.part.nearest id with
    | some result => rfl
    | none =>
      obtain ⟨migrated, hm⟩ := Option.isSome_iff_exists.mp (hany.resolve_left hpart)
      rw [hm]
      rfl
  · cases s.migrated.bind fun migrated => migrated.nearest (id + ServerMaxMsgId) with
    | some result => rfl
    | none => cases isolated <;> rfl

theorem size_isolated (hu : s.unsorted = none) (hpart : s.isolatedInPart = true)
    (hmigrated : s.isolatedInMigrated = some false) : s.size = some s.part.size := by
  simp [size, hu, hpart, hmigrated]

theorem get_isolated (hu : s.unsorted = none) (hpart : s.isolatedInPart = true)
    (hmigrated : s.isolatedInMigrated = some false) (i : ℕ) :
    s.get i = (s.part.ids.elems.map fun id => (⟨s.key.peerId, id⟩ : FullMsgId))[i]? := by
  rw [get, size_isolated hu hpart hmigrated, List.getElem?_map]
  have hsize : s.part.size = s.part.ids.elems.length := rfl
  by_cases hi : s.part.size ≤ i
  · rw [List.getElem?_eq_none (hsize ▸ hi)]
    simp [hi]
  · simp [hi, hu, migratedSize, hpart, AbstractSparseIds.get, IdsContainer.elems,
      Option.map_eq_bind]

theorem indexOf_isolated (hu : s.unsorted = none) (hpart : s.isolatedInPart = true)
    (id : FullMsgId) : s.indexOf id =
      some (if s.key.peerId = id.peer then s.part.indexOf id.msg else none) := by
  rw [indexOf, hu]
  by_cases hpeer : s.key.peerId = id.peer
  · simp [isFromPart, hpeer, migratedSize, hpart]
  · simp [isFromPart, hpeer, hpart]

theorem migratedSize_merged (hpart : s.isolatedInPart = false)
    (hm : s.migrated = some migrated) : s.migratedSize = some migrated.size := by
  simp [migratedSize, hpart, hm]

theorem size_merged (hu : s.unsorted = none) (hpart : s.isolatedInPart = false)
    (hm : s.migrated = some migrated) {isolated : Bool}
    (hmigrated : s.isolatedInMigrated = some isolated) :
    s.size = some (migrated.size + if isolated then 0 else s.part.size) := by
  simp [size, hu, hpart, hmigrated, migratedSize_merged hpart hm]

theorem get_merged (hu : s.unsorted = none) (hpart : s.isolatedInPart = false)
    (hm : s.migrated = some migrated) {isolated : Bool}
    (hmigrated : s.isolatedInMigrated = some isolated)
    (hnone : isolated = true → s.part.ids.elems = []) (i : ℕ) :
    s.get i = ((migrated.ids.elems.map fun id => (⟨s.key.migratedPeerId, id⟩ : FullMsgId)) ++
      s.part.ids.elems.map fun id => (⟨s.key.peerId, id⟩ : FullMsgId))[i]? := by
  have hsize : s.size = some (migrated.ids.elems.length + s.part.ids.elems.length) := by
    rw [size_merged hu hpart hm hmigrated]
    cases isolated with
    | false => rfl
    | true =>
      rw [hnone rfl]
      rfl
  rw [get, hsize]
  by_cases hi : migrated.ids.elems.length + s.part.ids.elems.length ≤ i
  · rw [List.getElem?_eq_none (by simpa using hi)]
    simp [hi]
  · have hlength : migrated.size = migrated.ids.elems.length := rfl
    rw [List.getElem?_append, List.length_map, List.getElem?_map, List.getElem?_map]
    by_cases hlt : i < migrated.ids.elems.length
    · simp [hi, hu, migratedSize_merged hpart hm, hlength, hlt, hm, AbstractSparseIds.get,
        IdsContainer.elems]
    · simp [hi, hu, migratedSize_merged hpart hm, hlength, hlt, AbstractSparseIds.get,
        IdsContainer.elems, Option.map_eq_bind]

theorem indexOf_merged (hu : s.unsorted = none) (hpart : s.isolatedInPart = false)
    (hm : s.migrated = some migrated) (id : FullMsgId) :
    s.indexOf id = some (
      if s.key.peerId = id.peer then (s.part.indexOf id.msg).map (· + migrated.size)
      else if s.key.migratedPeerId = id.peer then migrated.indexOf id.msg else none) := by
  rw [indexOf, hu, migratedSize_merged hpart hm, hpart]
  by_cases hpeer : s.key.peerId = id.peer
  · simp [isFromPart, hpeer]
  · by_cases hmigrated : s.key.migratedPeerId = id.peer
    · simp [isFromPart, isFromMigrated, hpeer, hmigrated, hm]
    · simp [isFromPart, isFromMigrated, hpeer, hmigrated]

end Accessors

section Viewed

variable {key : Key} {part migrated : SparseIdsSlice}

theorem isolatedInPart_viewed : (viewed key part migrated).isolatedInPart = true ↔
    IsServerMsgId key.universalId ∧ (key.migratedPeerId = 0 ∨ part.skippedBefore ≠ some 0) := by
  rw [isolatedInPart, viewed]
  by_cases hpeer : key.migratedPeerId = 0
  · simp [hpeer]
  · simp [hpeer]

theorem isolatedInMigrated_viewed (part migrated : SparseIdsSlice) (h : Accepted key)
    (hexists : key.universalId ≠ 0 ∨ key.migratedPeerId ≠ 0) :
    (viewed key part migrated).isolatedInMigrated =
      some (decide (key.universalId < 0 ∧ migrated.skippedAfter ≠ some 0)) := by
  have hserver : IsServerMsgId (ServerMaxMsgId + key.universalId) ↔ key.universalId < 0 := by
    rcases h with h | h | h
    all_goals
      simp only [IsServerMsgId, ServerMaxMsgId] at h ⊢
      omega
  rw [isolatedInMigrated, viewed]
  by_cases hneg : key.universalId < 0
  · have hpeer : key.migratedPeerId ≠ 0 := by
      rcases h with h | h | h
      · exact absurd h.1 (not_lt.mpr hneg.le)
      · omega
      · exact h.2
    rw [if_pos (hserver.mpr hneg)]
    by_cases hskipped : migrated.skippedAfter = some 0
    · simp [hpeer, hneg, hskipped]
    · simp [hpeer, hneg, hskipped]
  · rw [if_neg (mt hserver.mp hneg)]
    simp [hneg]

/-- The part alone is always coherent. -/
theorem coherent_isolated (h : Accepted key)
    (hpart : (viewed key part migrated).isolatedInPart = true) :
    Coherent (viewed key part migrated) := by
  have hid := (isolatedInPart_viewed.mp hpart).1
  have hmigrated : (viewed key part migrated).isolatedInMigrated = some false := by
    rw [isolatedInMigrated_viewed part migrated h (.inl hid.1.ne')]
    simp [hid.1.le]
  have hu : (viewed key part migrated).unsorted = none := rfl
  apply Coherent.of_seq (part.ids.elems.map fun id => (⟨key.peerId, id⟩ : FullMsgId))
  · simp [skippedBefore, hu, hmigrated]
  · simp [skippedAfter, hu, hmigrated, hpart]
  · exact nearest_defined hu hmigrated (.inl hpart)
  · rw [size_isolated hu hpart hmigrated, List.length_map]
    rfl
  · exact get_isolated hu hpart hmigrated
  · intro id
    refine ⟨_, indexOf_isolated hu hpart id, fun i => ?_⟩
    change (if key.peerId = id.peer then part.indexOf id.msg else none) = some i ↔ _
    rw [List.getElem?_map]
    by_cases hpeer : key.peerId = id.peer
    · rw [if_pos hpeer, indexOf_eq_some_iff, Option.map_eq_some_iff]
      constructor
      · intro hi
        exact ⟨id.msg, hi, by rw [hpeer]⟩
      · rintro ⟨msg, hi, rfl⟩
        exact hi
    · rw [if_neg hpeer, Option.map_eq_some_iff]
      constructor
      · intro hi
        nomatch hi
      · rintro ⟨msg, -, rfl⟩
        exact absurd rfl hpeer

/-- The migrated slice and the part after it are coherent if and only if every id of them is
found where it is shown. -/
theorem coherent_merged_iff (h : Accepted key) (hpeer : key.migratedPeerId ≠ 0)
    (hpart : (viewed key part migrated).isolatedInPart = false) :
    Coherent (viewed key part migrated) ↔
      (key.universalId < 0 → migrated.skippedAfter ≠ some 0 → part.size = 0) ∧
        (key.peerId = key.migratedPeerId → migrated.size = 0) := by
  have hu : (viewed key part migrated).unsorted = none := rfl
  have hm : (viewed key part migrated).migrated = some migrated := if_pos hpeer
  have hmigrated := isolatedInMigrated_viewed part migrated h (.inr hpeer)
  have hsize := size_merged hu hpart hm hmigrated
  have hindexOf : ∀ id, (viewed key part migrated).indexOf id = some (
      if key.peerId = id.peer then (part.indexOf id.msg).map (· + migrated.size)
      else if key.migratedPeerId = id.peer then migrated.indexOf id.msg else none) :=
    indexOf_merged hu hpart hm
  have hnone : (key.universalId < 0 → migrated.skippedAfter ≠ some 0 → part.size = 0) →
      decide (key.universalId < 0 ∧ migrated.skippedAfter ≠ some 0) = true →
        (viewed key part migrated).part.ids.elems = [] := by
    intro hzero hisolated
    have hboth := of_decide_eq_true hisolated
    exact List.length_eq_zero_iff.mp (hzero hboth.1 hboth.2)
  constructor
  · intro hcoherent
    have hpartNone : key.universalId < 0 → migrated.skippedAfter ≠ some 0 → part.size = 0 := by
      intro hneg hskipped
      by_contra hsome
      obtain ⟨id, hid⟩ := List.exists_mem_of_length_pos (Nat.pos_of_ne_zero hsome)
      obtain ⟨i, hi⟩ := List.mem_iff_getElem?.mp hid
      have hof := (hindexOf ⟨key.peerId, id⟩).trans (congrArg some (if_pos rfl))
      rw [(indexOf_eq_some_iff part id i).mpr hi, Option.map_some] at hof
      obtain ⟨size, hsize', hlt, -⟩ := hcoherent.index _ _ hof
      rw [hsize] at hsize'
      have heq := Option.some.inj hsize'
      simp only [hneg, hskipped, ne_eq, not_false_eq_true, and_self, decide_true, if_true,
        Nat.add_zero] at heq
      omega
    refine ⟨hpartNone, fun hsame => ?_⟩
    by_contra hsome
    have hpos : 0 < migrated.ids.elems.length := Nat.pos_of_ne_zero hsome
    have hlength : migrated.size = migrated.ids.elems.length := rfl
    obtain ⟨id, hget, hof⟩ := hcoherent.get _ hsize 0 (by omega)
    rw [get_merged hu hpart hm hmigrated (hnone hpartNone),
      List.getElem?_append_left (by simpa using hpos), List.getElem?_map,
      Option.map_eq_some_iff] at hget
    obtain ⟨msg, -, rfl⟩ := hget
    have hfirst := (hindexOf ⟨key.migratedPeerId, msg⟩).trans (congrArg some (if_pos hsame))
    obtain ⟨i, -, hi⟩ := Option.map_eq_some_iff.mp (Option.some.inj (hfirst.symm.trans hof))
    omega
  · rintro ⟨hpartNone, hmigratedNone⟩
    apply Coherent.of_seq
      ((migrated.ids.elems.map fun id => (⟨key.migratedPeerId, id⟩ : FullMsgId)) ++
        part.ids.elems.map fun id => (⟨key.peerId, id⟩ : FullMsgId))
    · simp [skippedBefore, hu, hmigrated]
    · simp [skippedAfter, hu, hmigrated, hpart, hm]
    · exact nearest_defined hu hmigrated (.inr (hm ▸ rfl))
    · rw [hsize, List.length_append, List.length_map, List.length_map]
      split_ifs with hisolated
      · have hempty : part.ids.elems = [] := hnone hpartNone hisolated
        rw [hempty]
        rfl
      · rfl
    · exact get_merged hu hpart hm hmigrated (hnone hpartNone)
    · intro id
      refine ⟨_, hindexOf id, fun i => ?_⟩
      have hlength : migrated.size = migrated.ids.elems.length := rfl
      rw [List.getElem?_append, List.length_map, List.getElem?_map, List.getElem?_map, ← hlength]
      by_cases hlt : i < migrated.size
      · rw [if_pos hlt, Option.map_eq_some_iff]
        have hdiffer : key.peerId ≠ key.migratedPeerId := by
          intro hsame
          have hzero := hmigratedNone hsame
          omega
        constructor
        · intro hi
          split_ifs at hi with hpart hmigrated
          · obtain ⟨j, -, rfl⟩ := Option.map_eq_some_iff.mp hi
            omega
          · exact ⟨id.msg, (indexOf_eq_some_iff migrated id.msg i).mp hi, by rw [hmigrated]⟩
        · rintro ⟨msg, hi, rfl⟩
          rw [if_neg hdiffer, if_pos rfl]
          exact (indexOf_eq_some_iff migrated msg i).mpr hi
      · rw [if_neg hlt, Option.map_eq_some_iff]
        constructor
        · intro hi
          split_ifs at hi with hpart hmigrated
          · obtain ⟨j, hj, rfl⟩ := Option.map_eq_some_iff.mp hi
            rw [Nat.add_sub_cancel]
            exact ⟨id.msg, (indexOf_eq_some_iff part id.msg j).mp hj, by rw [hpart]⟩
          · have hi' := (indexOf_eq_some_iff migrated id.msg i).mp hi
            exact absurd (List.getElem?_eq_some_iff.mp hi').1 hlt
        · rintro ⟨msg, hi, rfl⟩
          rw [if_pos rfl, Option.map_eq_some_iff]
          exact ⟨i - migrated.size, (indexOf_eq_some_iff part msg _).mpr hi, by omega⟩

theorem not_coherent_absent (hid : key.universalId = 0) (hpeer : key.migratedPeerId = 0) :
    ¬ Coherent (viewed key part migrated) := by
  intro hcoherent
  have hsize := hcoherent.size
  have hpart : (viewed key part migrated).isolatedInPart = false := by
    rw [Bool.eq_false_iff, ne_eq, isolatedInPart_viewed, IsServerMsgId, hid]
    simp
  have hm : (viewed key part migrated).migrated = none := if_neg (not_not_intro hpeer)
  have hu : (viewed key part migrated).unsorted = none := rfl
  simp [size, hu, hpart, migratedSize, hm] at hsize

end Viewed

/-- A merged slice that is viewed is coherent if and only if the universal id is not 0 without a
migrated peer, no part is hidden behind a migrated slice that has more to load, and ids of the
migrated slice are not taken for those of the part. -/
theorem coherent_iff (key : Key) (h : Accepted key) (part migrated : SparseIdsSlice) :
    Coherent (viewed key part migrated) ↔
      (key.universalId ≠ 0 ∨ key.migratedPeerId ≠ 0) ∧
        (key.universalId < 0 → migrated.skippedAfter ≠ some 0 → part.size = 0) ∧
        (key.migratedPeerId ≠ 0 → key.peerId = key.migratedPeerId →
          IsServerMsgId key.universalId ∧ part.skippedBefore ≠ some 0 ∨ migrated.size = 0) := by
  by_cases hpart : (viewed key part migrated).isolatedInPart = true
  · obtain ⟨hid, hisolated⟩ := isolatedInPart_viewed.mp hpart
    refine iff_of_true (coherent_isolated h hpart) ⟨.inl hid.1.ne', ?_, ?_⟩
    · intro hneg
      exact absurd hneg (not_lt.mpr hid.1.le)
    · intro hpeer _
      exact .inl ⟨hid, hisolated.resolve_left hpeer⟩
  · have hnot := mt isolatedInPart_viewed.mpr hpart
    by_cases hpeer : key.migratedPeerId = 0
    · have hid : key.universalId = 0 := by
        rcases h with h | h | h
        · exact absurd ⟨h, .inl hpeer⟩ hnot
        · exact h
        · exact absurd hpeer h.2
      refine iff_of_false (not_coherent_absent hid hpeer) ?_
      rintro ⟨hid' | hpeer', -⟩
      · exact hid' hid
      · exact hpeer' hpeer
    · rw [coherent_merged_iff h hpeer (Bool.eq_false_iff.mpr hpart)]
      have hright : ¬ (IsServerMsgId key.universalId ∧ part.skippedBefore ≠ some 0) :=
        fun hboth => hnot ⟨hboth.1, .inr hboth.2⟩
      simp only [hpeer, ne_eq, not_false_eq_true, or_true, true_and, true_implies,
        or_iff_right hright]

/-- A chat that has been migrated, looked at from one of its old messages. -/
def migratedKey : Key := Key.of 1 0 2 (7 - ServerMaxMsgId)

theorem coherent_iff_migrated :
    Coherent (viewed migratedKey { ids := .ofList [30, 40] }
      { ids := .ofList [5, 7], skippedAfter := some 0 }) := by
  apply (coherent_iff migratedKey (.inr (.inr ⟨by decide, by decide⟩)) _ _).mpr
  refine ⟨.inl (by decide), ?_, ?_⟩
  · exact fun _ hskipped => absurd rfl hskipped
  · exact fun _ hsame => absurd hsame (by decide)

/-- Behind an old message the part is not shown while the migrated slice has more to load, but an
id of it has an index, which is not less than the size. -/
theorem not_coherent_viewed :
    ¬ ∀ key : Key, Accepted key → ∀ part migrated : SparseIdsSlice,
      Coherent (viewed key part migrated) := by
  intro h
  have hcoherent := h migratedKey (.inr (.inr ⟨by decide, by decide⟩))
    { ids := .ofList [30, 40] } { ids := .ofList [5, 7] }
  obtain ⟨size, hsize, hlt, -⟩ := hcoherent.index ⟨1, 30⟩ 2 (by decide)
  have htwo : size = 2 := Option.some.inj (hsize.symm.trans (by decide))
  omega

end SparseIdsMergedSlice

end TelegramDesktop.Data
