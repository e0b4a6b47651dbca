import TelegramDesktop.Base.Run
import TelegramDesktop.Storage.SparseIdsListSlices

namespace TelegramDesktop.Storage.SparseIdsList
open Base
open Data (ServerMaxMsgId)

/-- The ids and the range an operation adds. -/
def Op.added : Op → Option (List ℤ × Range ℤ)
  | .addNew messageId => some ([messageId], ⟨messageId, ServerMaxMsgId⟩)
  | .addExisting messageId noSkipRange => some ([messageId], noSkipRange)
  | .addSlice messageIds noSkipRange _ => some (messageIds, noSkipRange)
  | _ => none

/-- The count an operation brings. -/
def Op.count : Op → Option ℤ
  | .addSlice _ _ count => count
  | _ => none

def Op.incrementsCount : Op → Bool
  | .addNew _ => true
  | _ => false

/-- What is added lies in its range. -/
def Op.Valid (op : Op) : Prop :=
  ∀ messages range, op.added = some (messages, range) →
    range.fromId ≤ range.till ∧ ∀ id ∈ messages, range.Holds id

/-- What is added lies among the ids of the server. -/
def Op.Server (op : Op) : Prop :=
  ∀ messages range, op.added = some (messages, range) →
    0 ≤ range.fromId ∧ range.till ≤ ServerMaxMsgId

theorem apply_added (list : SparseIdsList) {op : Op} {messages : List ℤ} {range : Range ℤ}
    (h : op.added = some (messages, range)) :
    list.apply op = (list.addRange messages range op.count op.incrementsCount).map
      fun (list, update) => (list, some update) := by
  cases op with
  | addNew messageId =>
    obtain ⟨rfl, rfl⟩ := Prod.mk.inj (Option.some.inj h)
    rfl
  | addExisting messageId noSkipRange =>
    obtain ⟨rfl, rfl⟩ := Prod.mk.inj (Option.some.inj h)
    rfl
  | addSlice messageIds noSkipRange count =>
    obtain ⟨rfl, rfl⟩ := Prod.mk.inj (Option.some.inj h)
    rfl
  | removeOne messageId => exact absurd h (by simp [Op.added])
  | removeAll => exact absurd h (by simp [Op.added])
  | invalidateBottom => exact absurd h (by simp [Op.added])

theorem not_both (op : Op) : ¬ (op.count.isSome = true ∧ op.incrementsCount = true) := by
  cases op <;> simp [Op.count, Op.incrementsCount]

structure Known where
  ids : Set ℤ
  covered : Set ℤ

def Known.add (known : Known) (messages : List ℤ) (range : Range ℤ) : Known :=
  { ids := known.ids ∪ {id | id ∈ messages}
    covered := known.covered ∪ {id | (messages ≠ [] ∨ range.fromId ≠ range.till) ∧ range.Holds id} }

def Known.apply (known : Known) : Op → Known
  | .addNew messageId => known.add [messageId] ⟨messageId, ServerMaxMsgId⟩
  | .addExisting messageId noSkipRange => known.add [messageId] noSkipRange
  | .addSlice messageIds noSkipRange _ => known.add messageIds noSkipRange
  | .removeOne messageId => { known with ids := known.ids \ {messageId} }
  | .removeAll => { ids := ∅, covered := ∅ }
  | .invalidateBottom => { known with covered := ∅ }

def Known.run (ops : List Op) : Known := ops.foldl Known.apply ⟨∅, ∅⟩

theorem Known.apply_added (known : Known) {op : Op} {messages : List ℤ} {range : Range ℤ}
    (h : op.added = some (messages, range)) : known.apply op = known.add messages range := by
  cases op with
  | addNew messageId =>
    obtain ⟨rfl, rfl⟩ := Prod.mk.inj (Option.some.inj h)
    rfl
  | addExisting messageId noSkipRange =>
    obtain ⟨rfl, rfl⟩ := Prod.mk.inj (Option.some.inj h)
    rfl
  | addSlice messageIds noSkipRange count =>
    obtain ⟨rfl, rfl⟩ := Prod.mk.inj (Option.some.inj h)
    rfl
  | removeOne messageId => exact absurd h (by simp [Op.added])
  | removeAll => exact absurd h (by simp [Op.added])
  | invalidateBottom => exact absurd h (by simp [Op.added])

/-- Well-formed slices of server ids. -/
structure Ok (list : SparseIdsList) : Prop where
  wellFormed : WellFormed list.slices
  server : ∀ slice ∈ list.slices, 0 ≤ slice.range.fromId ∧ slice.range.till ≤ ServerMaxMsgId

/-- What is united is among the ids of the server. -/
theorem united_server {slices before meets after : List (Slice ℤ)} {messages : List ℤ}
    {range : Range ℤ} {slice : Slice ℤ} (ha : Around slices range before meets after)
    (h : ∀ s ∈ slices, 0 ≤ s.range.fromId ∧ s.range.till ≤ ServerMaxMsgId)
    (hu : United messages range meets slice)
    (hserver : 0 ≤ range.fromId ∧ range.till ≤ ServerMaxMsgId) :
    ∀ s ∈ before ++ slice :: after, 0 ≤ s.range.fromId ∧ s.range.till ≤ ServerMaxMsgId := by
  have hin : ∀ s, s ∈ before ∨ s ∈ meets ∨ s ∈ after →
      0 ≤ s.range.fromId ∧ s.range.till ≤ ServerMaxMsgId := by
    intro s hs
    apply h
    rw [ha.split]
    simp only [List.mem_append]
    tauto
  intro s hs
  rcases List.mem_append.mp hs with hs | hs
  · exact hin s (.inl hs)
  · rcases List.mem_cons.mp hs with hs | hs
    · rw [hs]
      have hlow := hu.lt_fromId (-1) (by omega) fun other hother => by
        have := (hin other (.inr (.inl hother))).1
        omega
      have hhigh := hu.till_lt (ServerMaxMsgId + 1) (by omega) fun other hother => by
        have := (hin other (.inr (.inl hother))).2
        omega
      omega
    · exact hin s (.inr (.inr hs))

/-- An addition by what it does to the slices. -/
inductive Adds (slices : List (Slice ℤ)) (messages : List ℤ) (range : Range ℤ) :
    AddResult ℤ → Prop
  | ignored (hmessages : messages = []) (hrange : range.fromId = range.till) :
      Adds slices messages range { slices }
  | united (before meets after : List (Slice ℤ)) (slice : Slice ℤ)
      (hnew : ¬ (range.fromId = range.till ∧ messages = []))
      (ha : Around slices range before meets after) (hu : United messages range meets slice) :
      Adds slices messages range {
        slices := before ++ slice :: after
        updated := slice
        added := slice.messages.size - (meets.head?.elim 0 fun first => first.messages.size) }

theorem addRangeItemsAndCountNew_adds {slices : List (Slice ℤ)} (h : WellFormed slices)
    (messages : List ℤ) {range : Range ℤ} (hrange : range.fromId ≤ range.till) :
    ∃ result, addRangeItemsAndCountNew slices messages range = some result ∧
      Adds slices messages range result := by
  rw [addRangeItemsAndCountNew, if_pos hrange]
  by_cases hignored : range.fromId = range.till ∧ messages = []
  · rw [if_pos hignored]
    exact ⟨_, rfl, .ignored hignored.2 hignored.1⟩
  · rw [if_neg hignored]
    obtain ⟨before, meets, after, slice, ha, hu, heq⟩ := addToSlices_spec h messages hrange
    exact ⟨_, heq, .united before meets after slice hignored ha hu⟩

/-- A lone slice is left or widened. -/
theorem widenLone_slices (count : Option ℤ) (slices : List (Slice ℤ)) :
    (widenLone count slices).slices = slices ∨
      ∃ slice, slices = [slice] ∧
        (widenLone count slices).slices = [{ slice with range := fullRange }] := by
  match slices with
  | [] => exact .inl rfl
  | _ :: _ :: _ => exact .inl rfl
  | [slice] =>
    rw [widenLone]
    dsimp only
    split
    · exact .inr ⟨slice, rfl, rfl⟩
    · exact .inl rfl

theorem ok_congr {list list' : SparseIdsList} (h : list.Ok) (heq : list'.slices = list.slices) :
    list'.Ok := by
  refine ⟨?_, ?_⟩
  · rw [heq]
    exact h.wellFormed
  · rw [heq]
    exact h.server

theorem widened_ok {count : Option ℤ} {slices : List (Slice ℤ)} (h : WellFormed slices)
    (hserver : ∀ slice ∈ slices, 0 ≤ slice.range.fromId ∧ slice.range.till ≤ ServerMaxMsgId) :
    Ok (widenLone count slices) := by
  rcases widenLone_slices count slices with heq | ⟨slice, hslices, heq⟩
  · have hok : Ok ⟨count, slices⟩ := ⟨h, hserver⟩
    exact ok_congr hok heq
  · have hmem : slice ∈ slices := by rw [hslices]; simp
    have hbounds := hserver slice hmem
    have hfull : fullRange.fromId ≤ fullRange.till := by decide
    constructor
    · rw [heq]
      refine ⟨List.pairwise_singleton .., ?_, ?_⟩
      · intro s hs
        rw [List.mem_singleton.mp hs]
        exact hfull
      · intro s hs id hid
        rw [List.mem_singleton.mp hs] at hid ⊢
        have hholds := h.inside slice hmem id hid
        exact ⟨hbounds.1.trans hholds.1, hholds.2.trans hbounds.2⟩
    · rw [heq]
      intro s hs
      rw [List.mem_singleton.mp hs]
      exact ⟨le_rfl, le_rfl⟩

theorem widened_held (count : Option ℤ) (slices : List (Slice ℤ)) (id : ℤ) :
    Held (widenLone count slices).slices id ↔ Held slices id := by
  rcases widenLone_slices count slices with heq | ⟨slice, hslices, heq⟩
  · rw [heq]
  · rw [heq, hslices]
    simp only [Held, List.mem_singleton, exists_eq_left]

theorem widened_covered {count : Option ℤ} {slices : List (Slice ℤ)} {id : ℤ}
    (hserver : ∀ slice ∈ slices, 0 ≤ slice.range.fromId ∧ slice.range.till ≤ ServerMaxMsgId)
    (h : Covered slices id) : Covered (widenLone count slices).slices id := by
  rcases widenLone_slices count slices with heq | ⟨slice, hslices, heq⟩
  · rwa [heq]
  · obtain ⟨s, hs, hholds⟩ := h
    have hbounds := hserver s hs
    rw [heq]
    refine ⟨_, List.mem_singleton.mpr rfl, ?_, ?_⟩
    · exact hbounds.1.trans hholds.1
    · exact hholds.2.trans hbounds.2

/-- What an addition does, in terms of its slices before they are widened. -/
theorem addRange_eq (list : SparseIdsList) {messages : List ℤ} {range : Range ℤ}
    {count : Option ℤ} {incrementCount : Bool}
    (hboth : ¬ (count.isSome = true ∧ incrementCount = true)) {result : AddResult ℤ}
    (hresult : addRangeItemsAndCountNew list.slices messages range = some result) :
    ∃ list' update, list.addRange messages range count incrementCount = some (list', update) ∧
      list'.slices = (widenLone (addedCount list.count count incrementCount result.added)
        result.slices).slices := by
  rw [addRange, if_neg hboth, hresult, Option.bind_eq_bind, Option.bind_some]
  dsimp only
  cases result.updated with
  | none => exact ⟨_, _, rfl, rfl⟩
  | some slice => exact ⟨_, _, rfl, rfl⟩

/-- The list stands for the known ids and positions. -/
structure Refines (list : SparseIdsList) (known : Known) : Prop where
  ok : list.Ok
  ids : ∀ id, Held list.slices id ↔ id ∈ known.ids
  covered : ∀ id ∈ known.covered, Covered list.slices id

theorem Refines.added {list : SparseIdsList} {known : Known} (h : list.Refines known)
    {messages : List ℤ} {range : Range ℤ} {count : Option ℤ} {incrementCount : Bool}
    (hboth : ¬ (count.isSome = true ∧ incrementCount = true))
    (hrange : range.fromId ≤ range.till) (hmessages : ∀ id ∈ messages, range.Holds id)
    (hserver : 0 ≤ range.fromId ∧ range.till ≤ ServerMaxMsgId) :
    ∃ list' update, list.addRange messages range count incrementCount = some (list', update) ∧
      list'.Refines (known.add messages range) := by
  obtain ⟨result, hresult, hadds⟩ :=
    addRangeItemsAndCountNew_adds h.ok.wellFormed messages hrange
  obtain ⟨list', update, heq, hslices⟩ := addRange_eq list hboth hresult
  refine ⟨list', update, heq, ?_⟩
  cases hadds with
  | ignored hnil hpoint =>
    refine ⟨ok_congr (widened_ok h.ok.wellFormed h.ok.server) hslices, ?_, ?_⟩
    · intro id
      rw [hslices, widened_held, h.ids, hnil, Known.add]
      simp
    · intro id hid
      rw [hslices]
      apply widened_covered h.ok.server
      rw [Known.add] at hid
      rcases hid with hid | ⟨hne, -⟩
      · exact h.covered id hid
      · rcases hne with hne | hne
        · exact absurd hnil hne
        · exact absurd hpoint hne
  | united before meets after slice hnew ha hu =>
    have hwf := ha.wellFormed h.ok.wellFormed hu hrange hmessages
    have hbounds := united_server ha h.ok.server hu hserver
    refine ⟨ok_congr (widened_ok hwf hbounds) hslices, ?_, ?_⟩
    · intro id
      rw [hslices, widened_held, ha.held hu, h.ids, Known.add]
      exact or_comm
    · intro id hid
      rw [hslices]
      apply widened_covered hbounds
      apply ha.covered hu
      rw [Known.add] at hid
      exact hid.imp (h.covered id) And.right

theorem removeAll_ok : removeAll.Ok := by
  have hfull : fullRange.fromId ≤ fullRange.till := by decide
  refine ⟨⟨List.pairwise_singleton .., ?_, ?_⟩, ?_⟩ <;> intro s hs <;>
    rw [List.mem_singleton.mp hs]
  · exact hfull
  · exact fun id hid => absurd hid (FlatSet.not_mem_empty id)
  · exact ⟨le_rfl, le_rfl⟩

theorem Ok.removeOne {list : SparseIdsList} (h : list.Ok) (messageId : ℤ) :
    (list.removeOne messageId).Ok := by
  constructor
  · exact removed_wellFormed h.wellFormed messageId
  · rcases h.wellFormed.removeFromSlices_spec messageId with
      ⟨heq, -⟩ | ⟨before, slice, after, hsplit, -, heq⟩
    · rw [SparseIdsList.removeOne, heq]
      exact h.server
    · rw [SparseIdsList.removeOne, heq]
      have hserver := h.server
      rw [hsplit] at hserver
      intro s hs
      simp only [List.mem_append, List.mem_cons] at hs hserver
      rcases hs with hs | hs | hs
      · exact hserver s (.inl hs)
      · rw [hs]
        exact hserver slice (.inr (.inl rfl))
      · exact hserver s (.inr (.inr hs))

theorem Ok.invalidateBottom {list : SparseIdsList} (h : list.Ok) : list.invalidateBottom.Ok := by
  have hwf := bottomed_wellFormed h.wellFormed ServerMaxMsgId
  constructor
  · exact hwf
  · rcases invalidateBottomOfSlices_spec list.slices ServerMaxMsgId with
      heq | ⟨before, last, hsplit, hlast, heq⟩
    · rw [SparseIdsList.invalidateBottom, heq]
      exact h.server
    · rw [SparseIdsList.invalidateBottom, heq]
      have hserver := h.server
      have hinside := h.wellFormed.inside last (by rw [hsplit]; simp)
      have hordered := h.wellFormed.ordered last (by rw [hsplit]; simp)
      rw [hsplit] at hserver
      intro s hs
      simp only [List.mem_append, List.mem_singleton] at hs hserver
      rcases hs with hs | hs
      · exact hserver s (.inl hs)
      · rw [hs]
        refine ⟨(hserver last (.inr rfl)).1, ?_⟩
        dsimp only
        rw [← hlast]
        by_cases hnil : last.messages = ∅
        · rw [hnil]
          exact hordered
        · exact (hinside _ (FlatSet.getLastD_mem hnil _)).2

/-- An operation with valid server ids does to the list what it does to the sets. -/
theorem Refines.apply {list : SparseIdsList} {known : Known} (h : list.Refines known) {op : Op}
    (hvalid : op.Valid) (hserver : op.Server) :
    ∃ list' update, list.apply op = some (list', update) ∧ list'.Refines (known.apply op) := by
  cases hadded : op.added with
  | some added =>
    obtain ⟨hrange, hmessages⟩ := hvalid added.1 added.2 hadded
    obtain ⟨list', update, heq, hrefines⟩ :=
      h.added (not_both op) hrange hmessages (hserver added.1 added.2 hadded)
    refine ⟨list', some update, ?_, ?_⟩
    · rw [apply_added list hadded, heq]
      rfl
    · rwa [Known.apply_added known hadded]
  | none =>
    cases op with
    | addNew messageId => simp [Op.added] at hadded
    | addExisting messageId noSkipRange => simp [Op.added] at hadded
    | addSlice messageIds noSkipRange count => simp [Op.added] at hadded
    | removeOne messageId =>
      refine ⟨_, none, rfl, h.ok.removeOne messageId, ?_, ?_⟩
      · intro id
        exact (removed_held h.ok.wellFormed messageId id).trans (and_congr_left' (h.ids id))
      · intro id hid
        exact (removed_covered h.ok.wellFormed messageId id).mpr (h.covered id hid)
    | removeAll =>
      refine ⟨_, none, rfl, removeAll_ok, ?_, fun id hid => absurd hid (Set.notMem_empty id)⟩
      intro id
      simp [removeAll, Held, Known.apply]
    | invalidateBottom =>
      refine ⟨_, none, rfl, h.ok.invalidateBottom, ?_,
        fun id hid => absurd hid (Set.notMem_empty id)⟩
      intro id
      exact (bottomed_held list.slices ServerMaxMsgId id).trans (h.ids id)

def step : Option SparseIdsList → Op → Option SparseIdsList × List (Option (SliceUpdate ℤ))
  | none, _ => (none, [])
  | some list, op =>
    match list.apply op with
    | none => (none, [])
    | some (list, update) => (some list, [update])

theorem step_some {list list' : SparseIdsList} {op : Op} {update : Option (SliceUpdate ℤ)}
    (h : list.apply op = some (list', update)) : step (some list) op = (some list', [update]) := by
  rw [step, h]

theorem Known.run_concat (ops : List Op) (op : Op) :
    Known.run (ops ++ [op]) = (Known.run ops).apply op := List.foldl_concat ..

theorem refines_empty : ({} : SparseIdsList).Refines (Known.run []) where
  ok := ⟨.nil, fun _ hs => absurd hs List.not_mem_nil⟩
  ids id := iff_of_false (fun ⟨_, hs, _⟩ => absurd hs List.not_mem_nil) (Set.notMem_empty id)
  covered id hid := absurd hid (Set.notMem_empty id)

/-- Valid operations on server ids keep the list to the sets it stands for. -/
theorem run_refines {ops : List Op} (h : ∀ op ∈ ops, op.Valid ∧ op.Server) :
    ∃ list, (run step (some {}) ops).1 = some list ∧ list.Refines (Known.run ops) := by
  induction ops using List.reverseRecOn with
  | nil => exact ⟨_, rfl, refines_empty⟩
  | append_singleton ops op ih =>
    obtain ⟨list, hlist, hrefines⟩ := ih fun o ho => h o (List.mem_append_left _ ho)
    have hop := h op (List.mem_append_right _ (List.mem_singleton.mpr rfl))
    obtain ⟨list', update, heq, hrefines'⟩ := hrefines.apply hop.1 hop.2
    refine ⟨list', ?_, by rwa [Known.run_concat]⟩
    rw [Base.run_concat, hlist, step_some heq]

/-- Sorted slices that do not touch, with the known ids inside their ranges, and one slice for
each position known. -/
structure Represents (list : SparseIdsList) (known : Known) : Prop where
  apart : list.slices.Pairwise fun a b => a.range.till < b.range.fromId
  inside : ∀ slice ∈ list.slices, ∀ id ∈ slice.messages, slice.range.Holds id
  ids : ∀ id, id ∈ known.ids ↔ ∃ slice ∈ list.slices, id ∈ slice.messages
  covered : ∀ id ∈ known.covered, ∃! slice, slice ∈ list.slices ∧ slice.range.Holds id

theorem Refines.represents {list : SparseIdsList} {known : Known} (h : list.Refines known) :
    list.Represents known where
  apart := h.ok.wellFormed.apart
  inside := h.ok.wellFormed.inside
  ids id := (h.ids id).symm
  covered id hid := by
    obtain ⟨slice, hs, hholds⟩ := h.covered id hid
    refine ⟨slice, ⟨hs, hholds⟩, fun other hother => ?_⟩
    exact h.ok.wellFormed.eq_of_holds hother.1 hs hother.2 hholds

/-- Every run of valid operations on server ids represents the sets. -/
theorem run_represents (ops : List Op) (h : ∀ op ∈ ops, op.Valid ∧ op.Server) :
    ∃ list, (run step (some {}) ops).1 = some list ∧ list.Represents (Known.run ops) := by
  obtain ⟨list, hlist, hrefines⟩ := run_refines h
  exact ⟨list, hlist, hrefines.represents⟩

theorem valid_addSlice {ids : List ℤ} {range : Range ℤ} (count : Option ℤ)
    (hordered : range.fromId ≤ range.till)
    (hids : ∀ id ∈ ids, range.fromId ≤ id ∧ id ≤ range.till)
    (hserver : 0 ≤ range.fromId ∧ range.till ≤ ServerMaxMsgId) :
    (Op.addSlice ids range count).Valid ∧ (Op.addSlice ids range count).Server := by
  constructor
  · intro messages other hadded
    obtain ⟨rfl, rfl⟩ := Prod.mk.inj (Option.some.inj hadded)
    exact ⟨hordered, hids⟩
  · intro messages other hadded
    obtain ⟨rfl, rfl⟩ := Prod.mk.inj (Option.some.inj hadded)
    exact hserver

/-- Two slices that a third one bridges, and a removal. -/
def bridgedOps : List Op := [
  .addSlice [5, 7] ⟨1, 10⟩ (some 9),
  .addSlice [20] ⟨15, 30⟩ none,
  .addSlice [12] ⟨8, 16⟩ none,
  .removeOne 5]

theorem run_represents_slice :
    ∃ list, (run step (some {}) bridgedOps).1 = some list ∧
      list.Represents (Known.run bridgedOps) := by
  apply run_represents
  intro op hop
  simp only [bridgedOps, List.mem_cons, List.not_mem_nil, or_false] at hop
  rcases hop with rfl | rfl | rfl | rfl
  · exact valid_addSlice _ (by decide) (by decide) (by decide)
  · exact valid_addSlice _ (by decide) (by decide) (by decide)
  · exact valid_addSlice _ (by decide) (by decide) (by decide)
  · exact ⟨fun _ _ hadded => by simp [Op.added] at hadded,
      fun _ _ hadded => by simp [Op.added] at hadded⟩

/-- A lone slice behind the last server id is widened to a range that misses its id. -/
theorem widened_misses_id :
    ¬ ∀ ops : List Op, (∀ op ∈ ops, op.Valid) →
      ∃ list, (run step (some {}) ops).1 = some list ∧ list.Represents (Known.run ops) := by
  intro h
  let id := ServerMaxMsgId + 5
  have hvalid : ∀ op ∈ [Op.addSlice [id] ⟨id, id⟩ (some 1)], op.Valid := by
    intro op hop messages range hadded
    rw [List.mem_singleton.mp hop] at hadded
    obtain ⟨rfl, rfl⟩ := Prod.mk.inj (Option.some.inj hadded)
    refine ⟨le_rfl, fun x hx => ?_⟩
    rw [List.mem_singleton.mp hx]
    exact ⟨le_rfl, le_rfl⟩
  obtain ⟨list, hlist, hrepresents⟩ := h _ hvalid
  have hslices : some list = some ⟨some 1, [⟨FlatSet.ofList [id], fullRange⟩]⟩ :=
    hlist.symm.trans (by decide)
  have hslice := hrepresents.inside ⟨FlatSet.ofList [id], fullRange⟩
    (by rw [Option.some.inj hslices]; exact List.mem_singleton.mpr rfl) id
    (FlatSet.mem_ofList.mpr (List.mem_singleton.mpr rfl))
  exact absurd hslice.2 (by decide)

end TelegramDesktop.Storage.SparseIdsList
