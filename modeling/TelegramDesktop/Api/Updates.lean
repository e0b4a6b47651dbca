import TelegramDesktop.Base.FlatMap

namespace TelegramDesktop.Api
open Base

variable {α : Type*}

/-- `content` stands for the users, the chats and the updates of a packet. -/
inductive MTPUpdates (α : Type*)
  | updates (content : α) (date seq : ℤ)
  | updatesCombined (content : α) (date seqStart seq : ℤ)
  | updateShort (content : α) (date : ℤ)

namespace MTPUpdates

/-- The number that a packet is held by. -/
def start : MTPUpdates α → ℤ
  | updates _ _ seq => seq
  | updatesCombined _ _ seqStart _ => seqStart
  | updateShort _ _ => 0

def seq : MTPUpdates α → ℤ
  | updates _ _ seq => seq
  | updatesCombined _ _ _ seq => seq
  | updateShort _ _ => 0

/-- A packet with `seq` 0, or one that has none. -/
def Unnumbered (u : MTPUpdates α) : Prop := u.start = 0 ∧ u.seq = 0

instance (u : MTPUpdates α) : Decidable u.Unnumbered :=
  inferInstanceAs (Decidable (u.start = 0 ∧ u.seq = 0))

end MTPUpdates

/-- `fed` are the packets whose contents were fed. -/
structure Updates (α : Type*) where
  updatesDate : ℤ := 0
  updatesQts : ℤ := 0
  updatesSeq : ℤ := 0
  byMinChannelTimer : Bool := false
  bySeqUpdates : FlatMap ℤ (MTPUpdates α) := ∅
  bySeqTimer : Bool := false
  fed : List (MTPUpdates α) := []

namespace Updates

def feed (s : Updates α) (u : MTPUpdates α) : Updates α := { s with fed := s.fed ++ [u] }

/-- The loop in `setState`, with the call of `applyUpdates` in it; each round but the last one
takes a packet out, so that `n` rounds are enough for `n` packets. -/
def flush (apply : Updates α → MTPUpdates α → Updates α) (seq : ℤ) :
    ℕ → Updates α → Updates α
  | 0, s => s
  | n + 1, s =>
    match s.bySeqUpdates.entries with
    | [] => s
    | (start, v) :: _ =>
      if start ≤ seq + 1 then
        let s := { s with bySeqUpdates := s.bySeqUpdates.eraseFirst }
        if start = seq + 1 then apply s v else flush apply seq n s
      else { s with bySeqTimer := true }

/-- `setState` without `pts`, which `applyUpdates` does not give. -/
def setState (apply : Updates α → MTPUpdates α → Updates α) (s : Updates α)
    (date qts seq : ℤ) : Updates α :=
  let s := { s with
    updatesDate :=
      if s.updatesDate < date ∧ s.byMinChannelTimer = false then date else s.updatesDate
    updatesQts := if qts ≠ 0 ∧ s.updatesQts < qts then qts else s.updatesQts }
  if seq ≠ 0 ∧ seq ≠ s.updatesSeq then
    flush apply seq s.bySeqUpdates.size { s with updatesSeq := seq, bySeqTimer := false }
  else s

/-- The branches of `updates` and `updatesCombined`. -/
def applyNumbered (apply : Updates α → MTPUpdates α → Updates α) (s : Updates α)
    (u : MTPUpdates α) (date start seq : ℤ) : Updates α :=
  if start ≠ 0 ∧ start ≤ s.updatesSeq then s
  else if start ≠ 0 ∧ s.updatesSeq + 1 < start then
    { s with bySeqUpdates := s.bySeqUpdates.emplace start u, bySeqTimer := true }
  else setState apply (s.feed u) date s.updatesQts seq

def applyWith (apply : Updates α → MTPUpdates α → Updates α) (s : Updates α) :
    MTPUpdates α → Updates α
  | .updates content date seq =>
    applyNumbered apply s (.updates content date seq) date seq seq
  | .updatesCombined content date seqStart seq =>
    applyNumbered apply s (.updatesCombined content date seqStart seq) date seqStart seq
  | .updateShort content date =>
    setState apply (s.feed (.updateShort content date)) date s.updatesQts s.updatesSeq

/-- `applyUpdates` and the calls inside it, at most `n` in one another. -/
def applyNested : ℕ → Updates α → MTPUpdates α → Updates α
  | 0, s, u => applyWith (fun s _ => s) s u
  | n + 1, s, u => applyWith (applyNested n) s u

/-- Each call inside another one is for a packet that was taken out. -/
def applyUpdates (s : Updates α) (u : MTPUpdates α) : Updates α :=
  applyNested s.bySeqUpdates.size s u

def run (s : Updates α) (deliveries : List (MTPUpdates α)) : Updates α :=
  deliveries.foldl applyUpdates s

/-- Numbered packets whose ranges follow one another. -/
def Tiles : ℤ → List (MTPUpdates α) → Prop
  | _, [] => True
  | seq, u :: log => u.start = seq + 1 ∧ u.start ≤ u.seq ∧ Tiles u.seq log

/-- The last number of a log that starts after `seq`. -/
def lastSeq (seq : ℤ) (log : List (MTPUpdates α)) : ℤ := (log.getLast?.map MTPUpdates.seq).getD seq

variable {s : Updates α} {log : List (MTPUpdates α)}

theorem Tiles.below {seq : ℤ} (h : Tiles seq log) : ∀ u ∈ log, seq < u.start ∧ u.start ≤ u.seq := by
  induction log generalizing seq with
  | nil => exact fun u hu => nomatch hu
  | cons v log ih =>
    obtain ⟨hstart, hle, hrest⟩ := h
    intro u hu
    rcases List.mem_cons.mp hu with rfl | hu
    · exact ⟨by omega, hle⟩
    · obtain ⟨hbelow, hle'⟩ := ih hrest u hu
      exact ⟨by omega, hle'⟩

theorem lastSeq_cons (seq : ℤ) (u : MTPUpdates α) (log : List (MTPUpdates α)) :
    lastSeq seq (u :: log) = lastSeq u.seq log := by
  rw [lastSeq, lastSeq, List.getLast?_cons, Option.map_some, Option.getD_some]
  cases log.getLast? with
  | none => rfl
  | some _ => rfl

theorem Tiles.append {seq : ℤ} {done todo : List (MTPUpdates α)} (h : Tiles seq (done ++ todo)) :
    Tiles seq done ∧ Tiles (lastSeq seq done) todo := by
  induction done generalizing seq with
  | nil => exact ⟨trivial, h⟩
  | cons u done ih =>
    obtain ⟨hstart, hle, hrest⟩ := h
    obtain ⟨hdone, htodo⟩ := ih hrest
    refine ⟨⟨hstart, hle, hdone⟩, ?_⟩
    rw [lastSeq_cons]
    exact htodo

end Updates

end TelegramDesktop.Api
