import TelegramDesktop.Storage.SparseIdsListSlices
import TelegramDesktop.Data.SliceBuilder

namespace TelegramDesktop.Data
open Base Storage

def MinMessagePosition : MessagePosition := .min

def MaxMessagePosition : MessagePosition := .max

def FullMessagesRange : Range MessagePosition := ⟨MinMessagePosition, MaxMessagePosition⟩

structure MessagesList where
  count : Option ℤ := none
  slices : List (Slice MessagePosition) := []
  deriving DecidableEq

namespace MessagesList

/-- `none` is a violated `Expects`, here and below. -/
def addRangeItemsAndCountNew (slices : List (Slice MessagePosition))
    (messages : List MessagePosition) (noSkipRange : Range MessagePosition) :
    Option (AddResult MessagePosition) :=
  if noSkipRange.fromId ≤ noSkipRange.till then addToSlices slices messages noSkipRange else none

/-- A lone slice with the full range has all messages. -/
def wholeCount (count : Option ℤ) : List (Slice MessagePosition) → Option ℤ
  | [front] => if front.range = FullMessagesRange then some (front.messages.size : ℤ) else count
  | _ => count

def addRange (list : MessagesList) (messages : List MessagePosition)
    (noSkipRange : Range MessagePosition) (count : Option ℤ) (incrementCount : Bool) :
    Option (MessagesList × SliceUpdate MessagePosition) :=
  if count.isSome ∧ incrementCount then none
  else do
    let result ← addRangeItemsAndCountNew list.slices messages noSkipRange
    let count := SparseIdsList.addedCount list.count count incrementCount result.added
    let count := wholeCount count result.slices
    match result.updated with
    | none => return (⟨count, result.slices⟩, { count })
    | some slice => return (⟨count, result.slices⟩, ⟨slice.messages, slice.range, count⟩)

def addOne (list : MessagesList) (messageId : MessagePosition) :
    Option (MessagesList × SliceUpdate MessagePosition) :=
  list.addRange [messageId] ⟨messageId, messageId⟩ none true

def addNew (list : MessagesList) (messageId : MessagePosition) :
    Option (MessagesList × SliceUpdate MessagePosition) :=
  list.addRange [messageId] ⟨messageId, MaxMessagePosition⟩ none true

def addSlice (list : MessagesList) (messageIds : List MessagePosition)
    (noSkipRange : Range MessagePosition) (count : Option ℤ) :
    Option (MessagesList × SliceUpdate MessagePosition) :=
  list.addRange messageIds noSkipRange count false

/-- The update is fired only if there is a slice around the message. -/
def removeOne (list : MessagesList) (messageId : MessagePosition) :
    MessagesList × Option (SliceUpdate MessagePosition) :=
  let list' : MessagesList :=
    { count := list.count.map (· - 1), slices := removeFromSlices list.slices messageId }
  (list', (sliceAround list.slices messageId).map fun found =>
    ⟨found.2.messages.remove messageId, found.2.range, list'.count⟩)

/-- What `removeLessThan` leaves of a slice that goes on behind the message. -/
def cutSlice (slice : Slice MessagePosition) (messageId : MessagePosition) :
    Slice MessagePosition :=
  let till := slice.messages.lowerBound messageId
  { messages := slice.messages.sub till (slice.messages.size - till)
    range := { slice.range with fromId := MinMessagePosition } }

/-- The loop of `removeLessThan`, with the number of messages that were removed. -/
def removeLessLoop (messageId : MessagePosition) :
    List (Slice MessagePosition) → ℕ → List (Slice MessagePosition) × ℕ
  | [], removed => ([], removed)
  | slice :: slices, removed =>
    if slice.range.till ≤ messageId then
      removeLessLoop messageId slices (removed + slice.messages.size)
    else if slice.range.fromId ≤ messageId then
      (cutSlice slice messageId :: slices, removed + slice.messages.lowerBound messageId)
    else (slice :: slices, removed)

def removeLessThan (list : MessagesList) (messageId : MessagePosition) : MessagesList :=
  let (slices, removed) := removeLessLoop messageId list.slices 0
  { count := if removed ≠ 0 then list.count.map (· - (removed : ℤ)) else list.count
    slices }

def invalidate : MessagesList := {}

def invalidateBottom (list : MessagesList) : MessagesList :=
  { count := none, slices := invalidateBottomOfSlices list.slices MaxMessagePosition }

inductive Op
  | addOne (messageId : MessagePosition)
  | addNew (messageId : MessagePosition)
  | addSlice (messageIds : List MessagePosition) (noSkipRange : Range MessagePosition)
      (count : Option ℤ)
  | removeOne (messageId : MessagePosition)
  | removeLessThan (messageId : MessagePosition)
  | invalidate
  | invalidateBottom

def apply (list : MessagesList) : Op → Option MessagesList
  | .addOne messageId => (list.addOne messageId).map Prod.fst
  | .addNew messageId => (list.addNew messageId).map Prod.fst
  | .addSlice messageIds noSkipRange count =>
    (list.addSlice messageIds noSkipRange count).map Prod.fst
  | .removeOne messageId => some (list.removeOne messageId).1
  | .removeLessThan messageId => some (list.removeLessThan messageId)
  | .invalidate => some invalidate
  | .invalidateBottom => some list.invalidateBottom

def run (ops : List Op) : Option MessagesList := ops.foldlM apply {}

/-- The range between the first and the last position. -/
def Inside (range : Range MessagePosition) : Prop :=
  MinMessagePosition ≤ range.fromId ∧ range.till ≤ MaxMessagePosition

/-- Positions that messages have, with the ones of a slice in its range. -/
def Op.Valid : Op → Prop
  | .addOne messageId => MinMessagePosition ≤ messageId ∧ messageId ≤ MaxMessagePosition
  | .addNew messageId => MinMessagePosition ≤ messageId ∧ messageId ≤ MaxMessagePosition
  | .addSlice messageIds noSkipRange _ =>
    noSkipRange.fromId ≤ noSkipRange.till ∧ Inside noSkipRange ∧
      ∀ id ∈ messageIds, noSkipRange.Holds id
  | _ => True

structure Ok (list : MessagesList) : Prop where
  wellFormed : WellFormed list.slices
  inside : ∀ slice ∈ list.slices, Inside slice.range

theorem ok_invalidate : invalidate.Ok :=
  ⟨.nil, fun _ hs => absurd hs List.not_mem_nil⟩

/-- What an addition does, for any positions in its range. -/
theorem addRange_spec {list : MessagesList} (h : list.Ok) {messages : List MessagePosition}
    {range : Range MessagePosition} {count : Option ℤ} {incrementCount : Bool}
    (hboth : ¬ (count.isSome = true ∧ incrementCount = true))
    (hrange : range.fromId ≤ range.till) (hinside : Inside range)
    (hmessages : ∀ id ∈ messages, range.Holds id) :
    ∃ before meets after slice, Around list.slices range before meets after ∧
      United messages range meets slice ∧
      (list.addRange messages range count incrementCount).map Prod.fst = some {
        count := wholeCount (SparseIdsList.addedCount list.count count incrementCount
          (slice.messages.size - (meets.head?.elim 0 fun first => first.messages.size)))
            (before ++ slice :: after)
        slices := before ++ slice :: after } ∧
      Ok ⟨none, before ++ slice :: after⟩ := by
  obtain ⟨before, meets, after, slice, ha, hu, heq⟩ :=
    addToSlices_spec h.wellFormed messages hrange
  refine ⟨before, meets, after, slice, ha, hu, ?_, ?_⟩
  · rw [addRange, if_neg hboth, addRangeItemsAndCountNew, if_pos hrange, heq, Option.bind_eq_bind,
      Option.bind_some]
    rfl
  · refine ⟨ha.wellFormed h.wellFormed hu hrange hmessages, ?_⟩
    have hin : ∀ s, s ∈ before ∨ s ∈ meets ∨ s ∈ after → Inside s.range := by
      intro s hs
      apply h.inside
      rw [ha.split]
      simp only [List.mem_append]
      tauto
    intro s hs
    rcases List.mem_append.mp hs with hs | hs
    · exact hin s (.inl hs)
    · rcases List.mem_cons.mp hs with hs | hs
      · rw [hs]
        exact ⟨hu.le_fromId hinside.1 fun other hother => (hin other (.inr (.inl hother))).1,
          hu.till_le hinside.2 fun other hother => (hin other (.inr (.inl hother))).2⟩
      · exact hin s (.inr (.inr hs))

theorem Ok.congr {list list' : MessagesList} (h : list.Ok) (heq : list'.slices = list.slices) :
    list'.Ok := by
  constructor
  · rw [heq]
    exact h.wellFormed
  · rw [heq]
    exact h.inside

theorem Ok.addRange {list : MessagesList} (h : list.Ok) {messages : List MessagePosition}
    {range : Range MessagePosition} {count : Option ℤ} {incrementCount : Bool}
    (hboth : ¬ (count.isSome = true ∧ incrementCount = true))
    (hrange : range.fromId ≤ range.till) (hinside : Inside range)
    (hmessages : ∀ id ∈ messages, range.Holds id) :
    ∃ list', (list.addRange messages range count incrementCount).map Prod.fst = some list' ∧
      list'.Ok := by
  obtain ⟨before, meets, after, slice, -, -, heq, hok⟩ :=
    addRange_spec h hboth hrange hinside hmessages
  exact ⟨_, heq, hok.congr rfl⟩

theorem Ok.removeOne {list : MessagesList} (h : list.Ok) (messageId : MessagePosition) :
    (list.removeOne messageId).1.Ok := by
  constructor
  · exact removed_wellFormed h.wellFormed messageId
  · rw [MessagesList.removeOne]
    rcases h.wellFormed.removeFromSlices_spec messageId with
      ⟨heq, -⟩ | ⟨before, slice, after, hsplit, -, heq⟩
    · rw [heq]
      exact h.inside
    · rw [heq]
      have hinside := h.inside
      rw [hsplit] at hinside
      intro s hs
      simp only [List.mem_append, List.mem_cons] at hs hinside
      rcases hs with hs | hs | hs
      · exact hinside s (.inl hs)
      · rw [hs]
        exact hinside slice (.inr (.inl rfl))
      · exact hinside s (.inr (.inr hs))

theorem Ok.invalidateBottom {list : MessagesList} (h : list.Ok) : list.invalidateBottom.Ok := by
  constructor
  · exact bottomed_wellFormed h.wellFormed MaxMessagePosition
  · rw [MessagesList.invalidateBottom]
    rcases invalidateBottomOfSlices_spec list.slices MaxMessagePosition with
      heq | ⟨before, last, hsplit, hlast, heq⟩
    · rw [heq]
      exact h.inside
    · rw [heq]
      have hmem : last ∈ list.slices := by simp [hsplit]
      have hinside := h.inside
      have hholds := h.wellFormed.inside last hmem
      have hordered := h.wellFormed.ordered last hmem
      rw [hsplit] at hinside
      intro s hs
      simp only [List.mem_append, List.mem_singleton] at hs hinside
      rcases hs with hs | hs
      · exact hinside s (.inl hs)
      · rw [hs]
        refine ⟨(hinside last (.inr rfl)).1, ?_⟩
        dsimp only
        rw [← hlast]
        by_cases hnil : last.messages = ∅
        · rw [hnil]
          exact hordered
        · exact (hholds _ (FlatSet.getLastD_mem hnil _)).2

theorem mem_cutSlice {slice : Slice MessagePosition} {messageId id : MessagePosition} :
    id ∈ (cutSlice slice messageId).messages ↔ id ∈ slice.messages ∧ messageId ≤ id := by
  obtain ⟨before, after, helems, hbound, hbefore, hafter⟩ :=
    slice.messages.split_lowerBound messageId
  rw [← FlatSet.mem_elems, ← FlatSet.mem_elems, cutSlice]
  dsimp only
  rw [FlatSet.elems_sub_drop, hbound, helems, List.drop_left, List.mem_append]
  constructor
  · exact fun hid => ⟨.inr hid, hafter id hid⟩
  · rintro ⟨hid | hid, hle⟩
    · exact absurd (hbefore id hid) (not_lt.mpr hle)
    · exact hid

theorem size_cutSlice (slice : Slice MessagePosition) (messageId : MessagePosition) :
    (cutSlice slice messageId).messages.size + slice.messages.lowerBound messageId =
      slice.messages.size := by
  have hle := slice.messages.lowerBound_le_size messageId
  rw [cutSlice]
  dsimp only
  rw [FlatSet.size_sub (by omega)]
  omega

/-- Slices that begin behind a message are not touched by the loop. -/
theorem held_behind {slices : List (Slice MessagePosition)} {messageId : MessagePosition}
    (id : MessagePosition) (h : WellFormed slices)
    (hbehind : ∀ slice ∈ slices, messageId < slice.range.fromId) :
    Held slices id ↔
      ∃ slice ∈ slices, messageId < slice.range.till ∧ id ∈ slice.messages ∧ messageId ≤ id := by
  constructor
  · rintro ⟨slice, hs, hid⟩
    have hlt := hbehind slice hs
    exact ⟨slice, hs, hlt.trans_le (h.ordered slice hs), hid,
      (hlt.trans_le (h.inside slice hs id hid).1).le⟩
  · rintro ⟨slice, hs, -, hid, -⟩
    exact ⟨slice, hs, hid⟩

/-- What the loop leaves: of the slices that end behind the message, the ids from it on. -/
theorem removeLessLoop_spec (messageId : MessagePosition) {slices : List (Slice MessagePosition)}
    (h : WellFormed slices) (hinside : ∀ slice ∈ slices, Inside slice.range) (removed : ℕ) :
    WellFormed (removeLessLoop messageId slices removed).1 ∧
      (∀ slice ∈ (removeLessLoop messageId slices removed).1, Inside slice.range) ∧
      (∀ id, Held (removeLessLoop messageId slices removed).1 id ↔
        ∃ slice ∈ slices, messageId < slice.range.till ∧ id ∈ slice.messages ∧ messageId ≤ id) ∧
      (removeLessLoop messageId slices removed).2 +
          ((removeLessLoop messageId slices removed).1.map fun slice => slice.messages.size).sum =
        removed + (slices.map fun slice => slice.messages.size).sum := by
  induction slices generalizing removed with
  | nil => simpa [removeLessLoop, Held] using h
  | cons slice slices ih =>
    have hbehind : messageId < slice.range.till →
        ∀ other ∈ slices, messageId < other.range.fromId :=
      fun htill other hother => htill.trans (List.rel_of_pairwise_cons h.apart hother)
    have hinside' : ∀ other ∈ slices, Inside other.range :=
      fun other hother => hinside other (List.mem_cons_of_mem _ hother)
    rw [removeLessLoop]
    split_ifs with htill hfrom
    · -- the whole slice goes, though a message at its end is not less
      obtain ⟨hwf, hin, hheld, hsum⟩ := ih h.tail hinside' (removed + slice.messages.size)
      refine ⟨hwf, hin, fun id => ?_, ?_⟩
      · rw [hheld, List.exists_mem_cons_iff]
        exact (or_iff_right fun hlt => absurd hlt.1 (not_lt.mpr htill)).symm
      · rw [hsum, List.map_cons, List.sum_cons, Nat.add_assoc]
    · have hlt := not_le.mp htill
      have hslice := hinside slice List.mem_cons_self
      refine ⟨?_, ?_, fun id => ?_, ?_⟩
      · refine ⟨List.pairwise_cons.mpr ⟨?_, h.apart.tail⟩, ?_, ?_⟩
        · exact fun other hother => List.rel_of_pairwise_cons h.apart hother
        · intro s hs
          rcases List.mem_cons.mp hs with rfl | hs
          · exact hslice.1.trans (h.ordered slice List.mem_cons_self)
          · exact h.ordered s (List.mem_cons_of_mem _ hs)
        · intro s hs id hid
          rcases List.mem_cons.mp hs with rfl | hs
          · have hholds := h.inside slice List.mem_cons_self id (mem_cutSlice.mp hid).1
            exact ⟨hslice.1.trans hholds.1, hholds.2⟩
          · exact h.inside s (List.mem_cons_of_mem _ hs) id hid
      · intro s hs
        rcases List.mem_cons.mp hs with rfl | hs
        · exact ⟨le_rfl, hslice.2⟩
        · exact hinside' s hs
      · rw [Held, List.exists_mem_cons_iff, List.exists_mem_cons_iff, mem_cutSlice]
        have hrest := held_behind id h.tail (hbehind hlt)
        rw [Held] at hrest
        rw [hrest, and_iff_right hlt]
      · have hsize := size_cutSlice slice messageId
        rw [List.map_cons, List.map_cons, List.sum_cons, List.sum_cons]
        omega
    · have hlt := not_le.mp hfrom
      refine ⟨h, hinside, fun id => held_behind id h fun other hother => ?_, rfl⟩
      rcases List.mem_cons.mp hother with rfl | hother
      · exact hlt
      · exact hbehind (not_le.mp htill) other hother

theorem Ok.removeLessThan {list : MessagesList} (h : list.Ok) (messageId : MessagePosition) :
    (list.removeLessThan messageId).Ok := by
  have hspec := removeLessLoop_spec messageId h.wellFormed h.inside 0
  exact ⟨hspec.1, hspec.2.1⟩

theorem Ok.apply {list : MessagesList} (h : list.Ok) {op : Op} (hvalid : op.Valid) :
    ∃ list', list.apply op = some list' ∧ list'.Ok := by
  have hlone : ∀ {x y : MessagePosition}, x ≤ y → ∀ id ∈ [x], (⟨x, y⟩ : Range _).Holds id := by
    intro x y hle id hid
    rw [List.mem_singleton.mp hid]
    exact ⟨le_rfl, hle⟩
  cases op with
  | addOne messageId =>
    exact h.addRange (by simp) le_rfl ⟨hvalid.1, hvalid.2⟩ (hlone le_rfl)
  | addNew messageId =>
    exact h.addRange (by simp) hvalid.2 ⟨hvalid.1, le_rfl⟩ (hlone hvalid.2)
  | addSlice messageIds noSkipRange count =>
    exact h.addRange (by simp) hvalid.1 hvalid.2.1 hvalid.2.2
  | removeOne messageId => exact ⟨_, rfl, h.removeOne messageId⟩
  | removeLessThan messageId => exact ⟨_, rfl, h.removeLessThan messageId⟩
  | invalidate => exact ⟨_, rfl, ok_invalidate⟩
  | invalidateBottom => exact ⟨_, rfl, h.invalidateBottom⟩

/-- Every run of valid operations is one, and its slices are sorted, apart and hold their ids. -/
theorem run_ok {ops : List Op} (hvalid : ∀ op ∈ ops, op.Valid) :
    ∃ list, run ops = some list ∧ list.Ok := by
  induction ops using List.reverseRecOn with
  | nil => exact ⟨_, rfl, ok_invalidate⟩
  | append_singleton ops op ih =>
    obtain ⟨list, hrun, hok⟩ := ih fun o ho => hvalid o (List.mem_append_left _ ho)
    obtain ⟨list', happly, hok'⟩ := hok.apply (hvalid op (by simp))
    refine ⟨list', ?_, hok'⟩
    rw [run] at hrun ⊢
    rw [List.foldlM_append, hrun, Option.bind_eq_bind, Option.bind_some, List.foldlM_cons, happly]
    rfl

/-- Exactly the ids below the message are gone, and a count tells how many they were. -/
structure RemovedLessThan (list list' : MessagesList) (messageId : MessagePosition) : Prop where
  ids : ∀ id, Held list'.slices id ↔ Held list.slices id ∧ messageId ≤ id
  wellFormed : WellFormed list'.slices
  count : list'.count =
    list.count.map fun count : ℤ => count - (heldIds list.slices \ heldIds list'.slices).card

/-- The count tells of what was removed, whether or not it should have been. -/
theorem count_removeLessThan {list : MessagesList} (h : list.Ok) (messageId : MessagePosition) :
    (list.removeLessThan messageId).count = list.count.map fun count : ℤ =>
      count - (heldIds list.slices \ heldIds (list.removeLessThan messageId).slices).card := by
  obtain ⟨hwf, -, hheld, hsum⟩ := removeLessLoop_spec messageId h.wellFormed h.inside 0
  have hsubset : heldIds (list.removeLessThan messageId).slices ⊆ heldIds list.slices := by
    intro id hid
    obtain ⟨slice, hs, -, hmem, -⟩ := (hheld id).mp (mem_heldIds.mp hid)
    exact mem_heldIds.mpr ⟨slice, hs, hmem⟩
  have hcard : (heldIds list.slices \ heldIds (list.removeLessThan messageId).slices).card =
      (removeLessLoop messageId list.slices 0).2 := by
    rw [Finset.card_sdiff_of_subset hsubset, h.wellFormed.card_heldIds]
    change _ - (heldIds (removeLessLoop messageId list.slices 0).1).card = _
    rw [hwf.card_heldIds]
    omega
  rw [hcard, MessagesList.removeLessThan]
  dsimp only
  split_ifs with hremoved
  · rfl
  · rw [not_not.mp hremoved, Nat.cast_zero]
    cases list.count with
    | none => rfl
    | some count => rw [Option.map_some, sub_zero]

/-- In every state exactly the ids below a message are removed if and only if the message is not
held by a slice that ends with it. -/
theorem removeLessThan_exact_iff (ops : List Op) (hvalid : ∀ op ∈ ops, op.Valid)
    (messageId : MessagePosition) :
    ∃ list, run ops = some list ∧
      (RemovedLessThan list (list.removeLessThan messageId) messageId ↔
        ¬ ∃ slice ∈ list.slices, slice.range.till = messageId ∧ messageId ∈ slice.messages) := by
  obtain ⟨list, hrun, hok⟩ := run_ok hvalid
  obtain ⟨hwf, -, hheld, -⟩ := removeLessLoop_spec messageId hok.wellFormed hok.inside 0
  refine ⟨list, hrun, ?_, ?_⟩
  · rintro h ⟨slice, hs, htill, hmem⟩
    obtain ⟨other, hother, hlt, hmem', -⟩ :=
      (hheld messageId).mp ((h.ids messageId).mpr ⟨⟨slice, hs, hmem⟩, le_rfl⟩)
    have hsame := hok.wellFormed.eq_of_holds hs hother (hok.wellFormed.inside slice hs _ hmem)
      (hok.wellFormed.inside other hother _ hmem')
    rw [← hsame, htill] at hlt
    exact lt_irrefl _ hlt
  · intro hnone
    refine ⟨fun id => ?_, hwf, count_removeLessThan hok messageId⟩
    refine (hheld id).trans ⟨?_, ?_⟩
    · rintro ⟨slice, hs, -, hmem, hle⟩
      exact ⟨⟨slice, hs, hmem⟩, hle⟩
    · rintro ⟨⟨slice, hs, hmem⟩, hle⟩
      refine ⟨slice, hs, ?_, hmem, hle⟩
      have hholds := hok.wellFormed.inside slice hs id hmem
      rcases (hle.trans hholds.2).lt_or_eq with hlt | heq
      · exact hlt
      · have hid : id = messageId := le_antisymm (heq ▸ hholds.2) hle
        exact absurd ⟨slice, hs, heq.symm, hid ▸ hmem⟩ hnone

def lonePosition : MessagePosition := { date := 5, peer := 1, msg := 7 }

theorem valid_lone : ∀ op ∈ [Op.addOne lonePosition], op.Valid := by
  intro op hop
  rw [List.mem_singleton.mp hop]
  exact ⟨by decide, by decide⟩

def positionAt (date : ℤ) : MessagePosition := { date, peer := 1, msg := 7 }

/-- Two slices, the first of which has a message before the position and one behind it. -/
def twoSlices : List Op := [
  .addSlice [positionAt 5, positionAt 8, positionAt 9] ⟨positionAt 4, positionAt 10⟩ (some 6),
  .addSlice [positionAt 20] ⟨positionAt 15, positionAt 20⟩ none]

theorem removeLessThan_exact_iff_inside :
    ∃ list, run twoSlices = some list ∧
      (RemovedLessThan list (list.removeLessThan (positionAt 8)) (positionAt 8) ↔
        ¬ ∃ slice ∈ list.slices, slice.range.till = positionAt 8 ∧
          positionAt 8 ∈ slice.messages) := by
  apply removeLessThan_exact_iff
  intro op hop
  simp only [twoSlices, List.mem_cons, List.not_mem_nil, or_false] at hop
  rcases hop with rfl | rfl
  · exact ⟨by decide, ⟨by decide, by decide⟩, by decide⟩
  · exact ⟨by decide, ⟨by decide, by decide⟩, by decide⟩

/-- A message at the end of a slice is removed with those before it. -/
theorem removeLessThan_takes_last :
    ¬ ∀ ops : List Op, (∀ op ∈ ops, op.Valid) → ∀ messageId,
      ∃ list, run ops = some list ∧
        RemovedLessThan list (list.removeLessThan messageId) messageId := by
  intro h
  obtain ⟨list, hrun, hremoved⟩ := h _ valid_lone lonePosition
  have hlist : some list =
      some ⟨none, [⟨FlatSet.ofList [lonePosition], ⟨lonePosition, lonePosition⟩⟩]⟩ :=
    hrun.symm.trans (by decide)
  obtain rfl := Option.some.inj hlist
  have hheld := (hremoved.ids lonePosition).mpr ⟨⟨_, List.mem_singleton_self _, by decide⟩, le_rfl⟩
  obtain ⟨slice, hs, -⟩ := hheld
  have hnil : (removeLessThan ⟨none, [⟨FlatSet.ofList [lonePosition],
      ⟨lonePosition, lonePosition⟩⟩]⟩ lonePosition).slices = [] := by decide
  rw [hnil] at hs
  exact List.not_mem_nil hs

end MessagesList

end TelegramDesktop.Data
