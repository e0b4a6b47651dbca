import Mathlib

namespace Base

/-- What the first elements of a stream say of the packet they start. -/
inductive PacketLength
  | unknown
  | invalid
  | size (n : ℕ)
  deriving DecidableEq, Repr

/-- A length field at the start of a packet. Once it is there, what follows does not
change it. -/
structure Framing (α : Type*) where
  length : List α → PacketLength
  nil : length [] = .unknown
  stable : ∀ bs cs, length bs ≠ .unknown → length (bs ++ cs) = length bs
  pos : ∀ bs n, length bs = .size n → 0 < n

/-- A stream cut into packets: `rest` begins one that is not complete, or that has an
invalid length. -/
structure Cut (α : Type*) where
  packets : List (List α)
  rest : List α
  invalid : Bool

namespace Framing

variable {α : Type*} (F : Framing α)

/-- Cut a stream from its start. -/
def cut (bs : List α) : Cut α :=
  match _h : F.length bs with
  | .unknown => ⟨[], bs, false⟩
  | .invalid => ⟨[], bs, true⟩
  | .size n =>
    if n ≤ bs.length then
      let t := cut (bs.drop n)
      ⟨bs.take n :: t.packets, t.rest, t.invalid⟩
    else ⟨[], bs, false⟩
termination_by bs.length
decreasing_by
  have := F.pos bs n _h
  rw [List.length_drop]
  omega

variable {F} {bs : List α}

theorem cut_unknown (h : F.length bs = .unknown) : F.cut bs = ⟨[], bs, false⟩ := by
  unfold cut
  split <;> simp_all

theorem cut_invalid (h : F.length bs = .invalid) : F.cut bs = ⟨[], bs, true⟩ := by
  unfold cut
  split <;> simp_all

theorem cut_short {n : ℕ} (h : F.length bs = .size n) (hn : bs.length < n) :
    F.cut bs = ⟨[], bs, false⟩ := by
  unfold cut
  split
  · rfl
  · simp_all
  · rename_i m hm
    have : m = n := by
      rw [h] at hm
      exact (PacketLength.size.inj hm).symm
    rw [if_neg (by omega)]

theorem cut_packet {n : ℕ} (h : F.length bs = .size n) (hn : n ≤ bs.length) :
    F.cut bs = ⟨bs.take n :: (F.cut (bs.drop n)).packets, (F.cut (bs.drop n)).rest,
      (F.cut (bs.drop n)).invalid⟩ := by
  rw [cut]
  split
  · simp_all
  · simp_all
  · rename_i m hm
    obtain rfl : m = n := by
      rw [h] at hm
      exact (PacketLength.size.inj hm).symm
    rw [if_pos hn]

@[simp] theorem cut_nil : F.cut [] = ⟨[], [], false⟩ := cut_unknown F.nil

theorem length_ne_unknown {n : ℕ} (h : F.length bs = .size n) : F.length bs ≠ .unknown := by
  rw [h]
  exact PacketLength.noConfusion

/-- An invalid length stays where it is when more of the stream comes. -/
theorem cut_append_invalid (bs cs : List α) (h : (F.cut bs).invalid = true) :
    F.cut (bs ++ cs) = ⟨(F.cut bs).packets, (F.cut bs).rest ++ cs, true⟩ := by
  induction hlen : bs.length using Nat.strong_induction_on generalizing bs with
  | _ k ih =>
    cases hl : F.length bs with
    | unknown =>
      rw [cut_unknown hl] at h
      cases h
    | invalid =>
      have hl' : F.length (bs ++ cs) = .invalid := by
        rw [F.stable bs cs (by rw [hl]; exact PacketLength.noConfusion), hl]
      rw [cut_invalid hl, cut_invalid hl']
    | size n =>
      by_cases hn : n ≤ bs.length
      · have hpos := F.pos bs n hl
        have hl' := (F.stable bs cs (length_ne_unknown hl)).trans hl
        rw [cut_packet hl hn] at h ⊢
        rw [cut_packet hl' (by rw [List.length_append]; omega), List.take_append_of_le_length hn,
          List.drop_append_of_le_length hn, ih (bs.drop n).length ?_ _ h rfl]
        rw [List.length_drop]
        omega
      · rw [cut_short hl (by omega)] at h
        cases h

/-- Cutting goes on from what was left. -/
theorem cut_append (bs cs : List α) (h : (F.cut bs).invalid = false) :
    F.cut (bs ++ cs) = ⟨(F.cut bs).packets ++ (F.cut ((F.cut bs).rest ++ cs)).packets,
      (F.cut ((F.cut bs).rest ++ cs)).rest, (F.cut ((F.cut bs).rest ++ cs)).invalid⟩ := by
  induction hlen : bs.length using Nat.strong_induction_on generalizing bs with
  | _ k ih =>
    cases hl : F.length bs with
    | unknown => simp [cut_unknown hl]
    | invalid =>
      rw [cut_invalid hl] at h
      cases h
    | size n =>
      by_cases hn : n ≤ bs.length
      · have hpos := F.pos bs n hl
        have hl' := (F.stable bs cs (length_ne_unknown hl)).trans hl
        rw [cut_packet hl hn] at h ⊢
        rw [cut_packet hl' (by rw [List.length_append]; omega), List.take_append_of_le_length hn,
          List.drop_append_of_le_length hn, ih (bs.drop n).length ?_ _ h rfl]
        · rfl
        · rw [List.length_drop]
          omega
      · simp [cut_short hl (by omega : bs.length < n)]

end Framing

end Base
