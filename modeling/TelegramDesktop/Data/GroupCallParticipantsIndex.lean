import Mathlib
import TelegramDesktop.Base.Keyed
import TelegramDesktop.Data.GroupCallParticipants

namespace TelegramDesktop.Data.GroupCallParticipants

open Base

variable {P : Type*} {index : FlatMap ℕ P} {l : List (Participant P)} {peer q : P} {k : ℕ}

theorem get?_emplaceSsrc (index : FlatMap ℕ P) (now : ℕ) (peer : P) (k : ℕ) :
    (emplaceSsrc index now peer).get? k =
      if now ≠ 0 ∧ k = now then some ((index.get? now).getD peer) else index.get? k := by
  rw [emplaceSsrc]
  split_ifs with hzero hnow hnow
  · exact absurd hzero hnow.1
  · rfl
  · rw [FlatMap.get?_emplace, if_pos hnow.2]
  · rw [FlatMap.get?_emplace, if_neg fun heq => hnow ⟨hzero, heq⟩]

theorem of_get?_emplaceSsrc {now : ℕ} (h : (emplaceSsrc index now peer).get? k = some q) :
    (now ≠ 0 ∧ k = now ∧ q = peer) ∨ index.get? k = some q := by
  rw [get?_emplaceSsrc] at h
  split_ifs at h with hnow
  · obtain ⟨hzero, rfl⟩ := hnow
    cases hk : index.get? k with
    | none =>
      rw [hk] at h
      exact .inl ⟨hzero, rfl, (Option.some.inj h).symm⟩
    | some p =>
      rw [hk] at h
      exact .inr h
  · exact .inr h

theorem isSome_emplaceSsrc (now : ℕ) :
    ((emplaceSsrc index now peer).get? k).isSome = true ↔
      (now ≠ 0 ∧ k = now) ∨ (index.get? k).isSome = true := by
  rw [get?_emplaceSsrc]
  split_ifs with hnow
  · exact iff_of_true rfl (.inl hnow)
  · exact (or_iff_right hnow).symm

/-- An entry of the patched index is new, or was there and is not the one given up. -/
theorem of_get?_changeSsrc {was now : ℕ} (h : (changeSsrc index was now peer).get? k = some q) :
    (now ≠ 0 ∧ k = now ∧ q = peer) ∨ (index.get? k = some q ∧ (was ≠ now → k ≠ was)) := by
  rw [changeSsrc] at h
  split_ifs at h with hchange
  · rcases of_get?_emplaceSsrc h with hnew | hold
    · exact .inl hnew
    · rw [FlatMap.get?_erase] at hold
      split_ifs at hold with hk
      exact .inr ⟨hold, fun _ => hk⟩
  · exact .inr ⟨h, fun hne => absurd hne hchange⟩

theorem isSome_changeSsrc (was now : ℕ) :
    ((changeSsrc index was now peer).get? k).isSome = true ↔
      (was ≠ now ∧ now ≠ 0 ∧ k = now) ∨
        ((was ≠ now → k ≠ was) ∧ (index.get? k).isSome = true) := by
  rw [changeSsrc]
  split_ifs with hchange
  · rw [isSome_emplaceSsrc, FlatMap.get?_erase]
    split_ifs with hk
    · simp [hchange, hk]
    · simp [hchange, hk]
  · simp [hchange]

variable [LinearOrder P] {s s' : GroupCallParticipants P}

theorem mem_of_find {s : GroupCallParticipants P} {p : Participant P}
    (h : s.findParticipant peer = some p) : p ∈ s.participants ∧ p.peer = peer :=
  ⟨List.mem_of_find?_eq_some h,
    of_decide_eq_true (List.find?_some (p := fun p : Participant P => decide (p.peer = peer)) h)⟩

theorem ne_of_find (h : s.findParticipant peer = none) :
    ∀ p ∈ s.participants, p.peer ≠ peer := by
  intro p hp heq
  have hnone := List.find?_eq_none.mp h p hp
  exact hnone (decide_eq_true heq)

theorem exists_find {p : Participant P} (hp : p ∈ s.participants) :
    ∃ i, s.findParticipant p.peer = some i := by
  cases hfind : s.findParticipant p.peer with
  | none => exact absurd rfl (ne_of_find hfind p hp)
  | some i => exact ⟨i, rfl⟩

theorem map_modifyParticipant {β : Type*} (g : Participant P → β)
    {f : Participant P → Participant P}
    (hf : ∀ p ∈ l, p.peer = peer → g (f p) = g p) :
    (modifyParticipant peer f l).map g = l.map g := by
  induction l with
  | nil => rfl
  | cons p rest ih =>
    rw [modifyParticipant]
    split_ifs with hp
    · rw [List.map_cons, List.map_cons, hf p List.mem_cons_self hp]
    · rw [List.map_cons, List.map_cons, ih fun q hq => hf q (List.mem_cons_of_mem p hq)]

theorem mem_modifyParticipant {f : Participant P → Participant P} {p : Participant P}
    (hl : (l.map Participant.peer).Nodup) (hp : p ∈ modifyParticipant peer f l) :
    (p ∈ l ∧ p.peer ≠ peer) ∨ ∃ i ∈ l, i.peer = peer ∧ p = f i := by
  induction l with
  | nil => exact nomatch hp
  | cons first rest ih =>
    rw [List.map_cons, List.nodup_cons] at hl
    rw [modifyParticipant] at hp
    split_ifs at hp with hfirst
    · rcases List.mem_cons.mp hp with rfl | hp
      · exact .inr ⟨first, List.mem_cons_self, hfirst, rfl⟩
      · refine .inl ⟨List.mem_cons_of_mem _ hp, fun heq => hl.1 ?_⟩
        rw [hfirst, ← heq]
        exact List.mem_map_of_mem hp
    · rcases List.mem_cons.mp hp with rfl | hp
      · exact .inl ⟨List.mem_cons_self, hfirst⟩
      · rcases ih hl.2 hp with ⟨hmem, hne⟩ | ⟨i, hi, heq⟩
        · exact .inl ⟨List.mem_cons_of_mem _ hmem, hne⟩
        · exact .inr ⟨i, List.mem_cons_of_mem _ hi, heq⟩

/-- The other participants stay as they are. -/
theorem mem_modifyParticipant_of_ne {f : Participant P → Participant P} {p : Participant P}
    (hp : p ∈ l) (hne : p.peer ≠ peer) : p ∈ modifyParticipant peer f l := by
  induction l with
  | nil => exact nomatch hp
  | cons first rest ih =>
    rw [modifyParticipant]
    rcases List.mem_cons.mp hp with rfl | hp
    · rw [if_neg hne]
      exact List.mem_cons_self
    · split_ifs
      · exact List.mem_cons_of_mem _ hp
      · exact List.mem_cons_of_mem _ (ih hp)

theorem mem_modifyParticipant_self {f : Participant P → Participant P} {i : Participant P}
    (hi : i ∈ l) (hpeer : i.peer = peer) (hl : (l.map Participant.peer).Nodup) :
    f i ∈ modifyParticipant peer f l := by
  induction l with
  | nil => exact nomatch hi
  | cons first rest ih =>
    rw [List.map_cons, List.nodup_cons] at hl
    rw [modifyParticipant]
    rcases List.mem_cons.mp hi with rfl | hi
    · rw [if_pos hpeer]
      exact List.mem_cons_self
    · rw [if_neg fun hfirst => hl.1 (by rw [hfirst, ← hpeer]; exact List.mem_map_of_mem hi)]
      exact List.mem_cons_of_mem _ (ih hi hl.2)

def Holds (p : Participant P) (ssrc : ℕ) : Prop :=
  ssrc ≠ 0 ∧ (p.ssrc = ssrc ∨ p.additionalSsrc = ssrc)

structure Valid (s : GroupCallParticipants P) : Prop where
  nodup : (s.participants.map Participant.peer).Nodup
  index : ∀ ssrc peer, s.findPeerByAudioSsrc ssrc = some peer →
    ∃ p ∈ s.participants, p.peer = peer ∧ Holds p ssrc
  finishes : ∀ e ∈ s.speakingByActiveFinishes.entries, ∃ p ∈ s.participants, p.peer = e.1

/-- Each source that somebody has is in the index. -/
def Covered (s : GroupCallParticipants P) : Prop :=
  ∀ p ∈ s.participants, ∀ ssrc, Holds p ssrc → (s.findPeerByAudioSsrc ssrc).isSome = true

/-- What the index is about. -/
def source (p : Participant P) : P × ℕ × ℕ := (p.peer, p.ssrc, p.additionalSsrc)

/-- A change of what is heard and not of who is heard. -/
structure Same (s s' : GroupCallParticipants P) : Prop where
  sources : s'.participants.map source = s.participants.map source
  index : s'.participantPeerByAudioSsrc = s.participantPeerByAudioSsrc
  finishes : ∀ e ∈ s'.speakingByActiveFinishes.entries,
    (∃ time, (e.1, time) ∈ s.speakingByActiveFinishes.entries) ∨
      ∃ p ∈ s.participants, p.peer = e.1

omit [LinearOrder P] in
theorem exists_source {l l' : List (Participant P)} (h : l'.map source = l.map source)
    {p : Participant P} (hp : p ∈ l) :
    ∃ p' ∈ l', p'.peer = p.peer ∧ ∀ ssrc, Holds p' ssrc ↔ Holds p ssrc := by
  have hmem : source p ∈ l'.map source := by
    rw [h]
    exact List.mem_map_of_mem hp
  obtain ⟨p', hp', heq⟩ := List.mem_map.mp hmem
  obtain ⟨hpeer, hsources⟩ := Prod.mk.inj heq
  obtain ⟨hssrc, hadditional⟩ := Prod.mk.inj hsources
  refine ⟨p', hp', hpeer, fun ssrc => ?_⟩
  rw [Holds, Holds, hssrc, hadditional]

theorem Same.refl (s : GroupCallParticipants P) : Same s s :=
  ⟨rfl, rfl, fun e he => .inl ⟨e.2, he⟩⟩

theorem Same.peers (h : Same s s') :
    s'.participants.map Participant.peer = s.participants.map Participant.peer := by
  have hpeers := congrArg (List.map Prod.fst) h.sources
  rw [List.map_map, List.map_map] at hpeers
  exact hpeers

theorem Valid.same (hs : Valid s) (h : Same s s') : Valid s' where
  nodup := by
    rw [h.peers]
    exact hs.nodup
  index ssrc peer hfind := by
    rw [findPeerByAudioSsrc, h.index] at hfind
    obtain ⟨p, hp, hpeer, hholds⟩ := hs.index ssrc peer hfind
    obtain ⟨p', hp', hpeer', hsame⟩ := exists_source h.sources hp
    exact ⟨p', hp', hpeer'.trans hpeer, (hsame ssrc).mpr hholds⟩
  finishes e he := by
    have hold : ∃ p ∈ s.participants, p.peer = e.1 := by
      rcases h.finishes e he with ⟨time, htime⟩ | hp
      · exact hs.finishes (e.1, time) htime
      · exact hp
    obtain ⟨p, hp, hpeer⟩ := hold
    obtain ⟨p', hp', hpeer', -⟩ := exists_source h.sources hp
    exact ⟨p', hp', hpeer'.trans hpeer⟩

theorem Covered.same (hs : Covered s) (h : Same s s') : Covered s' := by
  intro p' hp' ssrc hholds
  obtain ⟨p, hp, -, hsame⟩ := exists_source h.sources.symm hp'
  rw [findPeerByAudioSsrc, h.index]
  exact hs p hp ssrc ((hsame ssrc).mpr hholds)

theorem Same.trans {s₁ s₂ s₃ : GroupCallParticipants P} (h : Same s₁ s₂) (h' : Same s₂ s₃) :
    Same s₁ s₃ where
  sources := h'.sources.trans h.sources
  index := h'.index.trans h.index
  finishes e he := by
    rcases h'.finishes e he with ⟨time, htime⟩ | ⟨p, hp, hpeer⟩
    · exact h.finishes (e.1, time) htime
    · obtain ⟨p', hp', hpeer', -⟩ := exists_source h.sources.symm hp
      exact .inr ⟨p', hp', hpeer'.trans hpeer⟩

theorem Same.fire (h : Same s s') (event : Fired P) : Same s (s'.fire event) :=
  ⟨h.sources, h.index, h.finishes⟩

/-- The flags of a participant are no part of its sources. -/
theorem Same.modify (h : Same s s') {f : Participant P → Participant P}
    (hf : ∀ p, source (f p) = source p) (peer : P) :
    Same s { s' with participants := modifyParticipant peer f s'.participants } where
  sources := (map_modifyParticipant source fun p _ _ => hf p).trans h.sources
  index := h.index
  finishes := h.finishes

theorem Same.setSounding (h : Same s s') (participant : Participant P)
    (useAdditional sounding speaking : Bool) :
    Same s (s'.setSounding participant useAdditional sounding speaking) := by
  have hsource : ∀ p : Participant P,
      source (p.withSounding useAdditional sounding speaking) = source p := by
    intro p
    rw [Participant.withSounding]
    split_ifs
    · rfl
    · rfl
  rw [GroupCallParticipants.setSounding]
  dsimp only
  generalize (if useAdditional = true then participant.additionalSounding
    else participant.sounding) = nowSounding
  generalize (if useAdditional = true then participant.additionalSpeaking
    else participant.speaking) = nowSpeaking
  split_ifs
  · exact (h.modify hsource participant.peer).fire _
  · exact h

/-- The `Assert` of `applyLastSpoke` holds. -/
theorem Valid.applyLastSpoke (hs : Valid s) (ssrc : ℕ) (times : LastSpokeTimes) (now : ℤ) :
    ∃ s', s.applyLastSpoke ssrc times now = some s' ∧ Same s s' := by
  rw [GroupCallParticipants.applyLastSpoke]
  cases hindex : s.findPeerByAudioSsrc ssrc with
  | none => exact ⟨s, rfl, .refl s⟩
  | some peer =>
    obtain ⟨p, hp, rfl, -⟩ := hs.index ssrc peer hindex
    obtain ⟨participant, hfind⟩ := exists_find hp
    have hquiet : Same s { s with
        speakingByActiveFinishes := s.speakingByActiveFinishes.erase participant.peer } :=
      ⟨rfl, rfl, fun e he => .inl ⟨e.2, ((FlatMap.mem_erase _ _ _).mp he).1⟩⟩
    dsimp only
    rw [hfind, Option.map_some]
    refine ⟨_, rfl, Same.setSounding ?_ _ _ _ _⟩
    split_ifs
    · exact hquiet.fire _
    · exact hquiet

theorem same_applyActiveUpdate (inCall : Bool) (times : LastSpokeTimes)
    (participantPeerLoaded : Option P) (now unixtime : ℤ) :
    Same s (s.applyActiveUpdate inCall times participantPeerLoaded now unixtime) := by
  rw [GroupCallParticipants.applyActiveUpdate]
  split_ifs
  · exact .refl s
  · cases hfind : participantPeerLoaded.bind s.findParticipant with
    | none => exact .refl s
    | some participant =>
      obtain ⟨peer, -, hfind⟩ := Option.bind_eq_some_iff.mp hfind
      obtain ⟨hp, -⟩ := mem_of_find hfind
      have hspeaks : ∀ finishes : ℤ, Same s { s with
          speakingByActiveFinishes :=
            (s.speakingByActiveFinishes.erase participant.peer).emplace participant.peer
              finishes } := by
        intro finishes
        refine ⟨rfl, rfl, fun e he => ?_⟩
        rcases (FlatMap.mem_emplace _ _ _ _).mp he with hold | ⟨rfl, -⟩
        · exact .inl ⟨e.2, ((FlatMap.mem_erase _ _ _).mp hold).1⟩
        · exact .inr ⟨participant, hp, rfl⟩
      dsimp only
      split_ifs
      · exact .refl s
      · exact .refl s
      · refine ((hspeaks _).modify ?_ _).fire _
        intro p
        rfl
      · refine (hspeaks _).modify ?_ _
        intro p
        rfl

theorem same_stopSpeaking {p : Participant P} (hp : p ∈ s.participants) :
    ∃ s', s.stopSpeaking p.peer = some s' ∧ Same s s' := by
  obtain ⟨participant, hfind⟩ := exists_find hp
  rw [GroupCallParticipants.stopSpeaking, hfind, Option.map_some]
  refine ⟨_, rfl, ?_⟩
  split_ifs
  · refine ((Same.refl s).modify ?_ _).fire _
    intro p
    rfl
  · exact .refl s

/-- The `Assert` of `checkFinishSpeakingByActive` holds for each participant to stop. -/
theorem Valid.foldlM_stopSpeaking (hs : Valid s) (stop : List P)
    (hstop : ∀ peer ∈ stop, ∃ p ∈ s.participants, p.peer = peer) :
    ∃ s', stop.foldlM GroupCallParticipants.stopSpeaking s = some s' ∧ Same s s' := by
  induction stop generalizing s with
  | nil => exact ⟨s, rfl, .refl s⟩
  | cons peer stop ih =>
    obtain ⟨p, hp, rfl⟩ := hstop peer List.mem_cons_self
    obtain ⟨s₁, hfirst, hsame⟩ := same_stopSpeaking hp
    obtain ⟨s₂, hrest, hsame'⟩ := ih (hs.same hsame) (by
      intro peer hpeer
      obtain ⟨p', hp', heq⟩ := hstop peer (List.mem_cons_of_mem _ hpeer)
      obtain ⟨p₁, hp₁, heq₁, -⟩ := exists_source hsame.sources hp'
      exact ⟨p₁, hp₁, heq₁.trans heq⟩)
    refine ⟨s₂, ?_, hsame.trans hsame'⟩
    rw [List.foldlM_cons, hfirst]
    exact hrest

theorem Valid.checkFinishSpeakingByActive (hs : Valid s) (now : ℤ) :
    ∃ s', s.checkFinishSpeakingByActive now = some s' ∧ Same s s' := by
  have hleft : Same s { s with
      speakingByActiveFinishes :=
        s.speakingByActiveFinishes.filter fun time => !decide (time ≤ now) } :=
    ⟨rfl, rfl, fun e he => .inl ⟨e.2, (FlatMap.mem_filter.mp he).1⟩⟩
  rw [GroupCallParticipants.checkFinishSpeakingByActive]
  obtain ⟨s', hstop, hsame⟩ := (hs.same hleft).foldlM_stopSpeaking
    (s.speakingByActiveFinishes.filter fun time => decide (time ≤ now)).keys (by
      intro peer hpeer
      obtain ⟨e, he, rfl⟩ := List.mem_map.mp hpeer
      exact hs.finishes e (FlatMap.mem_filter.mp he).1)
  exact ⟨s', hstop, hleft.trans hsame⟩

theorem Same.count (h : Same s s') (count : ℤ) :
    Same s { s' with serverParticipantsCount := count } :=
  ⟨h.sources, h.index, h.finishes⟩

theorem same_leave_none (h : s.findParticipant peer = none) (sliceSource : ApplySliceSource) :
    Same s (s.leave sliceSource peer) := by
  rw [leave, h]
  dsimp only
  split_ifs
  · exact (Same.refl s).count _
  · exact .refl s

theorem same_leave_some {i : Participant P} (h : s.findParticipant peer = some i)
    (sliceSource : ApplySliceSource) : Same (s.eraseParticipant i) (s.leave sliceSource peer) := by
  rw [leave, h]
  dsimp only
  have herased := Same.refl (s.eraseParticipant i)
  split_ifs
  · exact (herased.fire _).count _
  · exact herased.fire _
  · exact herased.count _
  · exact herased

theorem same_applyParticipant {data : MTPParticipant P} (hleft : data.left = false)
    (sliceSource : ApplySliceSource) :
    let was := s.findParticipant data.peer
    let value := Participant.ofData was sliceSource data
    Same (was.elim (s.pushParticipant value) fun i => s.replaceParticipant i value)
      (s.applyParticipant sliceSource data) := by
  intro was value
  have hdone := Same.refl (was.elim (s.pushParticipant value) fun i => s.replaceParticipant i value)
  rw [applyParticipant, hleft, if_neg Bool.false_ne_true]
  dsimp only
  split_ifs
  · exact (hdone.count _).fire _
  · exact hdone.fire _
  · exact hdone.count _
  · exact hdone

theorem Valid.eq_of_peer (hs : Valid s) {p i : Participant P} (hp : p ∈ s.participants)
    (hi : i ∈ s.participants) (h : p.peer = i.peer) : p = i :=
  List.inj_on_of_nodup_map hs.nodup hp hi h

theorem Valid.eraseParticipant (hs : Valid s) {i : Participant P} (hi : i ∈ s.participants) :
    Valid (s.eraseParticipant i) where
  nodup := hs.nodup.sublist (List.eraseP_sublist.map _)
  index ssrc peer hfind := by
    rw [findPeerByAudioSsrc, GroupCallParticipants.eraseParticipant, FlatMap.get?_erase,
      FlatMap.get?_erase] at hfind
    split_ifs at hfind with hadditional hssrc
    obtain ⟨p, hp, hpeer, hholds⟩ := hs.index ssrc peer hfind
    refine ⟨p, (mem_eraseP_key hs.nodup i.peer).mpr ⟨hp, fun heq => ?_⟩, hpeer, hholds⟩
    rw [hs.eq_of_peer hp hi heq] at hholds
    rcases hholds.2 with hmain | hrole
    · exact hssrc hmain.symm
    · exact hadditional hrole.symm
  finishes e he := by
    obtain ⟨hold, hne⟩ := (FlatMap.mem_erase _ _ _).mp he
    obtain ⟨p, hp, hpeer⟩ := hs.finishes e hold
    exact ⟨p, (mem_eraseP_key hs.nodup i.peer).mpr ⟨hp, hpeer ▸ hne⟩, hpeer⟩

theorem Valid.pushParticipant (hs : Valid s) {value : Participant P}
    (hnew : ∀ p ∈ s.participants, p.peer ≠ value.peer) : Valid (s.pushParticipant value) where
  nodup := nodup_push hs.nodup hnew
  index ssrc peer hfind := by
    have hlast : value ∈ (s.pushParticipant value).participants :=
      List.mem_append_right _ (List.mem_singleton.mpr rfl)
    rcases of_get?_emplaceSsrc hfind with ⟨hne, rfl, rfl⟩ | hfind
    · exact ⟨value, hlast, rfl, hne, .inr rfl⟩
    · rcases of_get?_emplaceSsrc hfind with ⟨hne, rfl, rfl⟩ | hold
      · exact ⟨value, hlast, rfl, hne, .inl rfl⟩
      · obtain ⟨p, hp, hpeer⟩ := hs.index ssrc peer hold
        exact ⟨p, List.mem_append_left _ hp, hpeer⟩
  finishes e he := by
    obtain ⟨p, hp, hpeer⟩ := hs.finishes e he
    exact ⟨p, List.mem_append_left _ hp, hpeer⟩

/-- The participants when `i` becomes `value`. -/
theorem mem_replaceParticipant (hs : Valid s) {i value p : Participant P}
    (hi : i ∈ s.participants) (hvalue : value.peer = i.peer) :
    p ∈ (s.replaceParticipant i value).participants ↔
      (p ∈ s.participants ∧ p.peer ≠ value.peer) ∨ p = value := by
  constructor
  · intro hp
    rcases mem_modifyParticipant hs.nodup hp with hother | ⟨-, -, -, heq⟩
    · exact .inl hother
    · exact .inr heq
  · rintro (⟨hp, hne⟩ | rfl)
    · exact mem_modifyParticipant_of_ne hp hne
    · exact mem_modifyParticipant_self hi hvalue.symm hs.nodup

theorem Valid.replaceParticipant (hs : Valid s) {i value : Participant P}
    (hi : i ∈ s.participants) (hvalue : value.peer = i.peer) :
    Valid (s.replaceParticipant i value) where
  nodup := by
    rw [GroupCallParticipants.replaceParticipant]
    rw [map_modifyParticipant Participant.peer fun p _ heq => heq.symm]
    exact hs.nodup
  index ssrc peer hfind := by
    have hself := (mem_replaceParticipant hs (p := value) hi hvalue).mpr (.inr rfl)
    rcases of_get?_changeSsrc hfind with ⟨hne, rfl, rfl⟩ | ⟨hfind, hadditional⟩
    · exact ⟨value, hself, rfl, hne, .inr rfl⟩
    rcases of_get?_changeSsrc hfind with ⟨hne, rfl, rfl⟩ | ⟨hold, hssrc⟩
    · exact ⟨value, hself, rfl, hne, .inl rfl⟩
    obtain ⟨p, hp, rfl, hholds⟩ := hs.index ssrc peer hold
    by_cases hpeer : p.peer = value.peer
    · obtain rfl := hs.eq_of_peer hp hi (hpeer.trans hvalue)
      refine ⟨value, hself, hvalue, hholds.1, ?_⟩
      -- an old source that is still in the index has not been changed
      rcases hholds.2 with hmain | hrole
      · exact .inl (by by_contra hne; exact hssrc (fun h => hne (h ▸ hmain)) hmain.symm)
      · exact .inr (by by_contra hne; exact hadditional (fun h => hne (h ▸ hrole)) hrole.symm)
    · exact ⟨p, (mem_replaceParticipant hs hi hvalue).mpr (.inl ⟨hp, hpeer⟩), rfl, hholds⟩
  finishes e he := by
    obtain ⟨p, hp, hpeer⟩ := hs.finishes e he
    by_cases hvalue' : p.peer = value.peer
    · exact ⟨value, (mem_replaceParticipant hs hi hvalue).mpr (.inr rfl), hvalue'.symm.trans hpeer⟩
    · exact ⟨p, (mem_replaceParticipant hs hi hvalue).mpr (.inl ⟨hp, hvalue'⟩), hpeer⟩

/-- Nobody but `peer` has the source. -/
def OwnedBy (s : GroupCallParticipants P) (peer : P) (ssrc : ℕ) : Prop :=
  ∀ p ∈ s.participants, p.peer ≠ peer → ¬ Holds p ssrc

/-- The sources that `i` gives up when it becomes `value` are not taken from anyone, and neither
are they what `i` keeps in its other role. -/
def ChangeKeeps (s : GroupCallParticipants P) (i value : Participant P) : Prop :=
  (i.ssrc ≠ value.ssrc → OwnedBy s i.peer i.ssrc ∧
    (i.ssrc ≠ 0 → i.additionalSsrc = value.additionalSsrc → i.additionalSsrc ≠ i.ssrc)) ∧
  (i.additionalSsrc ≠ value.additionalSsrc → OwnedBy s i.peer i.additionalSsrc ∧
    (i.additionalSsrc ≠ 0 → value.ssrc ≠ i.additionalSsrc))

def EntryKeeps (sliceSource : ApplySliceSource) (s : GroupCallParticipants P)
    (data : MTPParticipant P) : Prop :=
  ∀ i, s.findParticipant data.peer = some i →
    if data.left then OwnedBy s i.peer i.ssrc ∧ OwnedBy s i.peer i.additionalSsrc
    else ChangeKeeps s i (.ofData (some i) sliceSource data)

def SliceKeeps (sliceSource : ApplySliceSource) :
    GroupCallParticipants P → List (MTPParticipant P) → Prop
  | _, [] => True
  | s, data :: rest =>
    EntryKeeps sliceSource s data ∧
      SliceKeeps sliceSource (s.applyParticipant sliceSource data) rest

theorem Covered.eraseParticipant (hs : Valid s) (hcovered : Covered s) {i : Participant P}
    (hssrc : OwnedBy s i.peer i.ssrc) (hadditional : OwnedBy s i.peer i.additionalSsrc) :
    Covered (s.eraseParticipant i) := by
  intro p hp ssrc hholds
  obtain ⟨hold, hne⟩ := (mem_eraseP_key hs.nodup i.peer).mp hp
  rw [findPeerByAudioSsrc, GroupCallParticipants.eraseParticipant, FlatMap.get?_erase,
    FlatMap.get?_erase, if_neg, if_neg]
  · exact hcovered p hold ssrc hholds
  · rintro rfl
    exact hssrc p hold hne hholds
  · rintro rfl
    exact hadditional p hold hne hholds

theorem Covered.pushParticipant (hcovered : Covered s) (value : Participant P) :
    Covered (s.pushParticipant value) := by
  intro p hp ssrc hholds
  rw [findPeerByAudioSsrc, GroupCallParticipants.pushParticipant, isSome_emplaceSsrc,
    isSome_emplaceSsrc]
  rcases List.mem_append.mp hp with hold | hlast
  · exact .inr (.inr (hcovered p hold ssrc hholds))
  · obtain rfl := List.mem_singleton.mp hlast
    obtain ⟨hne, rfl | rfl⟩ := hholds
    · exact .inr (.inl ⟨hne, rfl⟩)
    · exact .inl ⟨hne, rfl⟩

theorem Covered.replaceParticipant (hs : Valid s) (hcovered : Covered s) {i value : Participant P}
    (hi : i ∈ s.participants) (hvalue : value.peer = i.peer) (hkeeps : ChangeKeeps s i value) :
    Covered (s.replaceParticipant i value) := by
  intro p hp ssrc hholds
  obtain ⟨hmain, hrole⟩ := hkeeps
  rw [findPeerByAudioSsrc, GroupCallParticipants.replaceParticipant, patchIndex,
    isSome_changeSsrc, isSome_changeSsrc]
  rcases (mem_replaceParticipant hs hi hvalue).mp hp with ⟨hold, hne⟩ | rfl
  · have hother : p.peer ≠ i.peer := hvalue ▸ hne
    refine .inr ⟨fun hchange heq => ?_, .inr ⟨fun hchange heq => ?_, hcovered p hold ssrc hholds⟩⟩
    · exact (hrole hchange).1 p hold hother (heq ▸ hholds)
    · exact (hmain hchange).1 p hold hother (heq ▸ hholds)
  · obtain ⟨hne, rfl | rfl⟩ := hholds
    · refine .inr ⟨fun hchange heq => (hrole hchange).2 (heq ▸ hne) heq, ?_⟩
      by_cases hchange : i.ssrc = p.ssrc
      · exact .inr ⟨fun h => absurd hchange h, hcovered i hi _ ⟨hne, .inl hchange⟩⟩
      · exact .inl ⟨hchange, hne, rfl⟩
    · by_cases hchange : i.additionalSsrc = p.additionalSsrc
      · refine .inr ⟨fun h => absurd hchange h, .inr ⟨fun h heq => ?_, ?_⟩⟩
        · exact (hmain h).2 (heq ▸ hne) hchange (hchange.trans heq)
        · exact hcovered i hi _ ⟨hne, .inr hchange⟩
      · exact .inl ⟨hchange, hne, rfl⟩

theorem Valid.applyParticipant (hs : Valid s) (sliceSource : ApplySliceSource)
    (data : MTPParticipant P) :
    Valid (s.applyParticipant sliceSource data) ∧
      (Covered s → EntryKeeps sliceSource s data →
        Covered (s.applyParticipant sliceSource data)) := by
  cases hfind : s.findParticipant data.peer with
  | none =>
    cases hleft : data.left with
    | true =>
      have hsame := same_leave_none hfind sliceSource
      rw [GroupCallParticipants.applyParticipant, hleft, if_pos rfl]
      exact ⟨hs.same hsame, fun hcovered _ => hcovered.same hsame⟩
    | false =>
      have hsame := same_applyParticipant (s := s) hleft sliceSource
      rw [hfind] at hsame
      exact ⟨(hs.pushParticipant (ne_of_find hfind)).same hsame,
        fun hcovered _ => (hcovered.pushParticipant _).same hsame⟩
  | some i =>
    obtain ⟨hi, hpeer⟩ := mem_of_find hfind
    cases hleft : data.left with
    | true =>
      have hsame := same_leave_some hfind sliceSource
      rw [GroupCallParticipants.applyParticipant, hleft, if_pos rfl]
      refine ⟨(hs.eraseParticipant hi).same hsame, fun hcovered hkeeps => ?_⟩
      have howned := hkeeps i hfind
      rw [hleft, if_pos rfl] at howned
      exact (hcovered.eraseParticipant hs howned.1 howned.2).same hsame
    | false =>
      have hsame := same_applyParticipant (s := s) hleft sliceSource
      rw [hfind] at hsame
      refine ⟨(hs.replaceParticipant hi hpeer.symm).same hsame, fun hcovered hkeeps => ?_⟩
      have hchange := hkeeps i hfind
      rw [hleft, if_neg Bool.false_ne_true] at hchange
      exact (hcovered.replaceParticipant hs hi hpeer.symm hchange).same hsame

theorem Valid.applyParticipantsSlice (hs : Valid s) (list : List (MTPParticipant P))
    (sliceSource : ApplySliceSource) :
    Valid (s.applyParticipantsSlice list sliceSource) ∧
      (Covered s → SliceKeeps sliceSource s list →
        Covered (s.applyParticipantsSlice list sliceSource)) := by
  induction list generalizing s with
  | nil => exact ⟨hs, fun hcovered _ => hcovered⟩
  | cons data rest ih =>
    obtain ⟨hfirst, hcovers⟩ := hs.applyParticipant sliceSource data
    obtain ⟨hrest, hcovers'⟩ := ih hfirst
    exact ⟨hrest, fun hcovered hkeeps => hcovers' (hcovers hcovered hkeeps.1) hkeeps.2⟩

/-- The call before a full list of participants is put in. -/
def cleared (s : GroupCallParticipants P) : GroupCallParticipants P :=
  { s with participants := [], speakingByActiveFinishes := ∅, participantPeerByAudioSsrc := ∅ }

theorem Valid.cleared (s : GroupCallParticipants P) : Valid (cleared s) where
  nodup := .nil
  index _ _ hfind := nomatch hfind
  finishes _ he := nomatch he

theorem Covered.cleared (s : GroupCallParticipants P) : Covered (cleared s) :=
  fun _ hp => nomatch hp

def OperationKeeps (s : GroupCallParticipants P) : Operation P → Prop
  | .applyParticipantsSlice list sliceSource => SliceKeeps sliceSource s list
  | .processFullCallFields participants _ => SliceKeeps .fullReloaded (cleared s) participants
  | _ => True

def RunKeeps : GroupCallParticipants P → List (Operation P) → Prop
  | _, [] => True
  | s, operation :: rest =>
    OperationKeeps s operation ∧ ∀ s', s.step operation = some s' → RunKeeps s' rest

theorem Valid.step (hs : Valid s) (operation : Operation P) :
    ∃ s', s.step operation = some s' ∧ Valid s' ∧
      (Covered s → OperationKeeps s operation → Covered s') := by
  cases operation with
  | applyParticipantsSlice list sliceSource =>
    exact ⟨_, rfl, hs.applyParticipantsSlice list sliceSource⟩
  | processFullCallFields participants count =>
    obtain ⟨hvalid, hcovers⟩ :=
      (Valid.cleared s).applyParticipantsSlice participants .fullReloaded
    have hsame := (Same.refl (GroupCallParticipants.applyParticipantsSlice
      (GroupCallParticipants.cleared s) participants .fullReloaded)).count count
    exact ⟨_, rfl, hvalid.same hsame, fun _ hkeeps => (hcovers (.cleared s) hkeeps).same hsame⟩
  | applyLastSpoke ssrc times now =>
    obtain ⟨s', heq, hsame⟩ := hs.applyLastSpoke ssrc times now
    exact ⟨s', heq, hs.same hsame, fun hcovered _ => hcovered.same hsame⟩
  | applyActiveUpdate inCall times participantPeerLoaded now unixtime =>
    have hsame : Same s _ :=
      same_applyActiveUpdate inCall times participantPeerLoaded now unixtime
    exact ⟨_, rfl, hs.same hsame, fun hcovered _ => hcovered.same hsame⟩
  | checkFinishSpeakingByActive now =>
    obtain ⟨s', heq, hsame⟩ := hs.checkFinishSpeakingByActive now
    exact ⟨s', heq, hs.same hsame, fun hcovered _ => hcovered.same hsame⟩

theorem Valid.run (hs : Valid s) (operations : List (Operation P)) :
    ∃ s', s.run operations = some s' ∧ Valid s' ∧
      (Covered s → RunKeeps s operations → Covered s') := by
  induction operations generalizing s with
  | nil => exact ⟨s, rfl, hs, fun hcovered _ => hcovered⟩
  | cons operation rest ih =>
    obtain ⟨s₁, hfirst, hvalid, hcovers⟩ := hs.step operation
    obtain ⟨s₂, hrest, hvalid', hcovers'⟩ := ih hvalid
    refine ⟨s₂, ?_, hvalid', fun hcovered hkeeps => ?_⟩
    · rw [GroupCallParticipants.run, List.foldlM_cons, hfirst]
      exact hrest
    · exact hcovers' (hcovers hcovered hkeeps.1) (hkeeps.2 s₁ hfirst)

/-- The sources that are there are pairwise different. -/
def DistinctSources (s : GroupCallParticipants P) : Prop :=
  ((s.participants.flatMap fun p => [p.ssrc, p.additionalSsrc]).filter (· ≠ 0)).Nodup

omit [LinearOrder P] in
theorem Holds.mem {p : Participant P} (h : Holds p k) :
    k ∈ [p.ssrc, p.additionalSsrc].filter (· ≠ 0) := by
  rw [List.mem_filter, List.mem_cons, List.mem_singleton, decide_eq_true_iff]
  exact ⟨h.2.imp Eq.symm Eq.symm, h.1⟩

theorem DistinctSources.eq (hs : DistinctSources s) {p i : Participant P}
    (hp : p ∈ s.participants) (hi : i ∈ s.participants) (hpk : Holds p k) (hik : Holds i k) :
    p = i := by
  rw [DistinctSources, List.filter_flatMap, List.nodup_flatMap] at hs
  have hsymm : Std.Symm (Function.onFun List.Disjoint fun p : Participant P =>
      [p.ssrc, p.additionalSsrc].filter (· ≠ 0)) :=
    ⟨fun _ _ h => h.symm⟩
  by_contra hne
  have hdisjoint := hs.2.forall hp hi hne
  exact hdisjoint hpk.mem hik.mem

/-- A call that nobody has told about yet. -/
def created (P : Type*) [LinearOrder P] (count : ℤ) : GroupCallParticipants P where
  serverParticipantsCount := count

/-- Whatever comes, the index speaks of current participants, and it knows all of them if no
source is given up while another one has it. -/
theorem run_index (count : ℤ) (operations : List (Operation P)) :
    ∃ s, (created P count).run operations = some s ∧
      (s.participants.map Participant.peer).Nodup ∧
      (∀ ssrc peer, s.findPeerByAudioSsrc ssrc = some peer →
        ∃ p ∈ s.participants, p.peer = peer ∧ (p.ssrc = ssrc ∨ p.additionalSsrc = ssrc)) ∧
      (∀ e ∈ s.speakingByActiveFinishes.entries, ∃ p ∈ s.participants, p.peer = e.1) ∧
      (RunKeeps (created P count) operations → DistinctSources s →
        ∀ p ∈ s.participants, ∀ ssrc, Holds p ssrc → s.findPeerByAudioSsrc ssrc = some p.peer) := by
  have hstart : Valid (created P count) := (Valid.cleared (created P count)).same (.refl _)
  obtain ⟨s, heq, hs, hcovers⟩ := hstart.run operations
  refine ⟨s, heq, hs.nodup, fun ssrc peer hfind => ?_, hs.finishes, ?_⟩
  · obtain ⟨p, hp, hpeer, -, hrole⟩ := hs.index ssrc peer hfind
    exact ⟨p, hp, hpeer, hrole⟩
  · intro hkeeps hdistinct p hp ssrc hholds
    have hcovered := hcovers (Covered.cleared (created P count)) hkeeps p hp ssrc hholds
    obtain ⟨peer, hfind⟩ := Option.isSome_iff_exists.mp hcovered
    obtain ⟨i, hi, rfl, hholds'⟩ := hs.index ssrc peer hfind
    rw [hfind, hdistinct.eq hi hp hholds' hholds]

def entry (peer : ℕ) (source : ℤ) : MTPParticipant ℕ where
  peer := peer
  source := source

theorem run_index_swapped :
    ∃ s, (created ℕ 0).run [
        .applyParticipantsSlice [entry 1 10, entry 2 20] .updateReceived,
        .applyParticipantsSlice [entry 1 20, entry 2 10] .updateReceived] = some s ∧
      DistinctSources s ∧ (∃ p ∈ s.participants, p.peer = 1 ∧ Holds p 20) ∧
      s.findPeerByAudioSsrc 20 = none := by
  refine ⟨_, rfl, ?_, ?_, ?_⟩
  · unfold DistinctSources
    decide
  · refine ⟨_, List.mem_cons_self, rfl, by decide, .inl rfl⟩
  · decide

end TelegramDesktop.Data.GroupCallParticipants
