import TelegramDesktop.Api.Updates

namespace TelegramDesktop.Api.Updates
open Base

variable {α : Type*} {s s₁ : Updates α} {log : List (MTPUpdates α)} {seq₀ : ℤ}
  {D : MTPUpdates α → Prop} {u : MTPUpdates α}

/-- The numbered packets that were fed. -/
def fedNumbered (s : Updates α) : List (MTPUpdates α) := s.fed.filter fun u => !u.Unnumbered

theorem Tiles.le_lastSeq {seq : ℤ} (h : Tiles seq log) :
    seq ≤ lastSeq seq log ∧ ∀ u ∈ log, u.seq ≤ lastSeq seq log := by
  induction log generalizing seq with
  | nil => exact ⟨le_rfl, fun u hu => nomatch hu⟩
  | cons v log ih =>
    have hone : Tiles seq ([v] ++ log) := h
    obtain ⟨hstart, hle, hrest⟩ := h
    obtain ⟨hseq, hall⟩ := ih hrest
    rw [lastSeq_cons]
    refine ⟨by omega, fun u hu => ?_⟩
    rcases List.mem_cons.mp hu with rfl | hu
    · exact hseq
    · exact hall u hu

theorem Tiles.eq_of_start {seq : ℤ} (h : Tiles seq log) {u v : MTPUpdates α} (hu : u ∈ log)
    (hv : v ∈ log) (heq : u.start = v.start) : u = v := by
  induction log generalizing seq with
  | nil => exact nomatch hu
  | cons w log ih =>
    obtain ⟨-, hle, hrest⟩ := h
    rcases List.mem_cons.mp hu with rfl | hu'
    · rcases List.mem_cons.mp hv with rfl | hv'
      · rfl
      · have hbelow := (hrest.below v hv').1
        omega
    · rcases List.mem_cons.mp hv with rfl | hv'
      · have hbelow := (hrest.below u hu').1
        omega
      · exact ih hrest hu' hv'

/-- How the state stands to the log, when the packets of `D` came. -/
structure Follows (seq₀ : ℤ) (log : List (MTPUpdates α)) (D : MTPUpdates α → Prop)
    (s : Updates α) : Prop where
  fed : ∃ todo, log = s.fedNumbered ++ todo
  seq : s.updatesSeq = lastSeq seq₀ s.fedNumbered
  held : ∀ k u, (k, u) ∈ s.bySeqUpdates.entries → u ∈ log ∧ k = u.start ∧ s.updatesSeq + 1 < k
  kept : ∀ u, D u → u ∈ log → u ∈ s.fed ∨ (u.start, u) ∈ s.bySeqUpdates.entries

/-- What `bySeqTimer` is for. -/
def Awaited (s : Updates α) : Prop := s.bySeqTimer = true ↔ s.bySeqUpdates.entries ≠ []

section
variable (hlog : Tiles seq₀ log) (hpos : 0 < seq₀) (hs : Follows seq₀ log D s)
include hlog hs

theorem Follows.seq_ge : seq₀ ≤ s.updatesSeq := by
  obtain ⟨todo, hsplit⟩ := hs.fed
  rw [hs.seq]
  exact (hsplit ▸ hlog).append.1.le_lastSeq.1

theorem Follows.fed_le (hfed : u ∈ s.fedNumbered) : u.start ≤ s.updatesSeq := by
  obtain ⟨todo, hsplit⟩ := hs.fed
  have hdone := (hsplit ▸ hlog).append.1
  rw [hs.seq]
  exact (hdone.below u hfed).2.trans (hdone.le_lastSeq.2 u hfed)

theorem Follows.fed_of_le (hu : u ∈ log) (hle : u.start ≤ s.updatesSeq) : u ∈ s.fed := by
  obtain ⟨todo, hsplit⟩ := hs.fed
  have htodo := (hsplit ▸ hlog).append.2
  rw [← hs.seq] at htodo
  rw [hsplit, List.mem_append] at hu
  rcases hu with hu | hu
  · exact List.mem_of_mem_filter hu
  · have hbelow := (htodo.below u hu).1
    omega

/-- The packet after the last one that was fed. -/
theorem Follows.next (hu : u ∈ log) (hstart : u.start = s.updatesSeq + 1) :
    ∃ todo, log = s.fedNumbered ++ u :: todo ∧ Tiles u.seq todo := by
  obtain ⟨todo, hsplit⟩ := hs.fed
  have htodo := (hsplit ▸ hlog).append.2
  rw [← hs.seq] at htodo
  have hin : u ∈ todo := by
    rw [hsplit, List.mem_append] at hu
    refine hu.resolve_left fun hfed => ?_
    have hle := hs.fed_le hlog hfed
    omega
  cases todo with
  | nil => exact nomatch hin
  | cons v todo =>
    obtain ⟨hv, hle, hrest⟩ := htodo
    rcases List.mem_cons.mp hin with rfl | hin
    · exact ⟨todo, hsplit, hrest⟩
    · have hbelow := (hrest.below u hin).1
      omega

end

/-- The state after a packet is fed and before the loop. -/
structure Opened (s s₁ : Updates α) (u : MTPUpdates α) : Prop where
  fed : s₁.fed = s.fed ++ [u]
  seq : s₁.updatesSeq = u.seq
  timer : s₁.bySeqTimer = false
  held : s₁.bySeqUpdates = s.bySeqUpdates

theorem applyNumbered_next (apply : Updates α → MTPUpdates α → Updates α) {date start seq : ℤ}
    (hstart : start = s.updatesSeq + 1) (hle : start ≤ seq) (hpos : 0 < s.updatesSeq)
    (hseq : u.seq = seq) :
    ∃ s₁, applyNumbered apply s u date start seq = flush apply seq s₁.bySeqUpdates.size s₁ ∧
      Opened s s₁ u := by
  have hgo : seq ≠ 0 ∧ seq ≠ s.updatesSeq := ⟨by omega, by omega⟩
  rw [applyNumbered, if_neg (by omega), if_neg (by omega), setState]
  exact ⟨{ s with
    updatesDate := _, updatesQts := _, updatesSeq := seq, bySeqTimer := false, fed := _ },
    if_pos hgo, rfl, hseq.symm, rfl, rfl⟩

theorem applyWith_next (apply : Updates α → MTPUpdates α → Updates α)
    (hstart : u.start = s.updatesSeq + 1) (hle : u.start ≤ u.seq) (hpos : 0 < s.updatesSeq) :
    ∃ s₁, applyWith apply s u = flush apply u.seq s₁.bySeqUpdates.size s₁ ∧ Opened s s₁ u := by
  cases u with
  | updates content date seq => exact applyNumbered_next apply hstart hle hpos rfl
  | updatesCombined content date seqStart seq =>
    exact applyNumbered_next apply hstart hle hpos rfl
  | updateShort content date =>
    change (0 : ℤ) = s.updatesSeq + 1 at hstart
    omega

/-- What the loop does when nothing stale is held. -/
theorem flush_cases (apply : Updates α → MTPUpdates α → Updates α) {seq : ℤ}
    (hheld : ∀ k u, (k, u) ∈ s.bySeqUpdates.entries → seq < k) :
    (s.bySeqUpdates.entries = [] ∧ flush apply seq s.bySeqUpdates.size s = s) ∨
    (∃ v rest, s.bySeqUpdates.entries = (seq + 1, v) :: rest ∧
      flush apply seq s.bySeqUpdates.size s =
        apply { s with bySeqUpdates := s.bySeqUpdates.eraseFirst } v) ∨
    ∃ k v rest, s.bySeqUpdates.entries = (k, v) :: rest ∧ seq + 1 < k ∧
      flush apply seq s.bySeqUpdates.size s = { s with bySeqTimer := true } := by
  rw [FlatMap.size]
  cases hentries : s.bySeqUpdates.entries with
  | nil => exact .inl ⟨rfl, rfl⟩
  | cons entry rest =>
    obtain ⟨k, v⟩ := entry
    have hlt := hheld k v (hentries ▸ List.mem_cons_self)
    rw [List.length_cons, flush, hentries]
    dsimp only
    by_cases hk : k ≤ seq + 1
    · have hnext : k = seq + 1 := by omega
      subst hnext
      exact .inr (.inl ⟨v, rest, rfl, by rw [if_pos hk, if_pos rfl]⟩)
    · exact .inr (.inr ⟨k, v, rest, rfl, by omega, if_neg hk⟩)

/-- No packet that is held is stale after the next one is fed. -/
theorem Follows.opened (hlog : Tiles seq₀ log) (hpos : 0 < seq₀) (hs : Follows seq₀ log D s)
    (hu : u ∈ log) (hstart : u.start = s.updatesSeq + 1) (hopened : Opened s s₁ u) :
    (∃ todo, log = s₁.fedNumbered ++ todo) ∧ s₁.updatesSeq = lastSeq seq₀ s₁.fedNumbered ∧
      ∀ k v, (k, v) ∈ s₁.bySeqUpdates.entries → v ∈ log ∧ k = v.start ∧ s₁.updatesSeq < k := by
  obtain ⟨todo, hsplit, htodo⟩ := hs.next hlog hu hstart
  have hge := hs.seq_ge hlog
  have hnumbered : (!decide u.Unnumbered) = true := by
    rw [Bool.not_eq_true', decide_eq_false_iff_not]
    rintro ⟨hzero, -⟩
    omega
  have hfed : s₁.fedNumbered = s.fedNumbered ++ [u] := by
    rw [fedNumbered, hopened.fed, List.filter_append, List.filter_singleton, hnumbered]
    rfl
  refine ⟨⟨todo, by rw [hfed, List.append_assoc]; exact hsplit⟩, ?_, fun k v hheld => ?_⟩
  · rw [hopened.seq, hfed, lastSeq, List.getLast?_concat]
    rfl
  · rw [hopened.held] at hheld
    obtain ⟨hv, hk, hlt⟩ := hs.held k v hheld
    refine ⟨hv, hk, ?_⟩
    rw [hsplit, List.mem_append, List.mem_cons] at hv
    rcases hv with hv | rfl | hv
    · have hle := hs.fed_le hlog hv
      omega
    · omega
    · rw [hopened.seq, hk]
      exact (htodo.below v hv).1

/-- What is known between the loop of one packet and the call for the next. -/
theorem Follows.taken (hlog : Tiles seq₀ log) (hpos : 0 < seq₀) (hs : Follows seq₀ log D s)
    (hu : u ∈ log) (hstart : u.start = s.updatesSeq + 1) (hopened : Opened s s₁ u)
    {v : MTPUpdates α} {rest : List (ℤ × MTPUpdates α)}
    (hentries : s₁.bySeqUpdates.entries = (s₁.updatesSeq + 1, v) :: rest) :
    v ∈ log ∧ v.start = s₁.updatesSeq + 1 ∧
      Follows seq₀ log (fun w => (w = u ∨ D w) ∧ w ≠ v)
        { s₁ with bySeqUpdates := s₁.bySeqUpdates.eraseFirst } := by
  obtain ⟨hfed, hseq, hheld⟩ := hs.opened hlog hpos hu hstart hopened
  obtain ⟨hv, hk, -⟩ := hheld _ v (hentries ▸ List.mem_cons_self)
  have hsorted := s₁.bySeqUpdates.sorted
  rw [hentries] at hsorted
  have hrest : s₁.bySeqUpdates.eraseFirst.entries = rest := congrArg List.tail hentries
  refine ⟨hv, hk.symm, hfed, hseq, fun k w hw => ?_, fun w hw hin => ?_⟩
  · dsimp only at hw
    rw [hrest] at hw
    obtain ⟨hlogged, hkey, -⟩ := hheld k w (hentries ▸ List.mem_cons_of_mem _ hw)
    exact ⟨hlogged, hkey, List.rel_of_pairwise_cons hsorted hw⟩
  · dsimp only
    obtain ⟨rfl | hcame, hne⟩ := hw
    · exact .inl (by rw [hopened.fed]; exact List.mem_append_right _ List.mem_cons_self)
    · rcases hs.kept w hcame hin with hw | hw
      · exact .inl (by rw [hopened.fed]; exact List.mem_append_left _ hw)
      · rw [← hopened.held, hentries] at hw
        rcases List.mem_cons.mp hw with heq | hw
        · exact absurd (congrArg Prod.snd heq) hne
        · exact .inr (hrest.symm ▸ hw)

theorem Follows.mono {E : MTPUpdates α → Prop} (hs : Follows seq₀ log D s)
    (h : ∀ v, E v → D v) : Follows seq₀ log E s :=
  ⟨hs.fed, hs.seq, hs.held, fun v hv => hs.kept v (h v hv)⟩

/-- The next packet is fed, and then the calls inside go on with those that follow it. -/
theorem Follows.applyWith_next (hlog : Tiles seq₀ log) (hpos : 0 < seq₀)
    (hs : Follows seq₀ log D s) (hu : u ∈ log) (hstart : u.start = s.updatesSeq + 1)
    {apply : Updates α → MTPUpdates α → Updates α}
    (hnext : ∀ (s₂ : Updates α) (v : MTPUpdates α) (E : MTPUpdates α → Prop),
      Follows seq₀ log E s₂ → v ∈ log → v.start = s₂.updatesSeq + 1 →
      s₂.bySeqUpdates.size < s.bySeqUpdates.size →
      Follows seq₀ log (fun w => w = v ∨ E w) (apply s₂ v) ∧ Awaited (apply s₂ v)) :
    Follows seq₀ log (fun v => v = u ∨ D v) (applyWith apply s u) ∧
      Awaited (applyWith apply s u) := by
  obtain ⟨s₁, happly, hopened⟩ := Updates.applyWith_next apply hstart (hlog.below u hu).2
    (hpos.trans_le (hs.seq_ge hlog))
  obtain ⟨hfed, hseq, hheld⟩ := hs.opened hlog hpos hu hstart hopened
  have hkept : ∀ v, v = u ∨ D v → v ∈ log →
      v ∈ s₁.fed ∨ (v.start, v) ∈ s₁.bySeqUpdates.entries := by
    rintro v hv hin
    rw [hopened.fed, hopened.held]
    rcases hv with rfl | hv
    · exact .inl (List.mem_append_right _ List.mem_cons_self)
    · exact (hs.kept v hv hin).imp_left (List.mem_append_left _)
  rw [happly, ← hopened.seq]
  rcases flush_cases apply fun k v hv => (hheld k v hv).2.2 with
    ⟨hempty, hflush⟩ | ⟨v, rest, hentries, hflush⟩ | ⟨k, v, rest, hentries, hk, hflush⟩
  · rw [hflush]
    refine ⟨⟨hfed, hseq, fun k v hv => ?_, hkept⟩, ?_⟩
    · rw [hempty] at hv
      exact nomatch hv
    · rw [Awaited, hopened.timer, hempty]
      exact iff_of_false Bool.false_ne_true fun h => h rfl
  · rw [hflush]
    obtain ⟨hv, hfollows, htaken⟩ := hs.taken hlog hpos hu hstart hopened hentries
    have hless : s₁.bySeqUpdates.eraseFirst.size < s.bySeqUpdates.size := by
      rw [← hopened.held, FlatMap.size, FlatMap.size, hentries]
      change s₁.bySeqUpdates.entries.tail.length < _
      rw [hentries]
      exact Nat.lt_succ_self _
    obtain ⟨hdone, hawaited⟩ := hnext _ v _ htaken hv hfollows hless
    refine ⟨hdone.mono fun w hw => ?_, hawaited⟩
    by_cases heq : w = v
    · exact .inl heq
    · exact .inr ⟨hw, heq⟩
  · rw [hflush]
    refine ⟨⟨hfed, hseq, fun k' v' hv' => ?_, hkept⟩, ?_⟩
    · obtain ⟨hin, hkey, -⟩ := hheld k' v' hv'
      refine ⟨hin, hkey, ?_⟩
      dsimp only at hv' ⊢
      have hsorted := s₁.bySeqUpdates.sorted
      rw [hentries] at hsorted hv'
      rcases List.mem_cons.mp hv' with heq | hv'
      · obtain ⟨rfl, -⟩ := Prod.mk.inj heq
        exact hk
      · have hlt : k < k' := List.rel_of_pairwise_cons hsorted hv'
        omega
    · rw [Awaited, hentries]
      exact iff_of_true rfl (List.cons_ne_nil _ _)

/-- With as many calls inside one another as packets are held. -/
theorem Follows.applyNested_next (hlog : Tiles seq₀ log) (hpos : 0 < seq₀) {n : ℕ}
    (hs : Follows seq₀ log D s) (hu : u ∈ log) (hstart : u.start = s.updatesSeq + 1)
    (hn : s.bySeqUpdates.size ≤ n) :
    Follows seq₀ log (fun v => v = u ∨ D v) (applyNested n s u) ∧ Awaited (applyNested n s u) := by
  induction n generalizing s u D with
  | zero =>
    apply hs.applyWith_next hlog hpos hu hstart
    intro s₂ v E _ _ _ hless
    omega
  | succ n ih =>
    apply hs.applyWith_next hlog hpos hu hstart
    intro s₂ v E hs₂ hv hnext hless
    exact ih hs₂ hv hnext (by omega)

theorem applyNested_eq (n : ℕ) (s : Updates α) (u : MTPUpdates α) :
    ∃ apply, applyNested n s u = applyWith apply s u := by
  cases n with
  | zero => exact ⟨_, rfl⟩
  | succ n => exact ⟨_, rfl⟩

/-- A numbered packet that is not the next one is dropped or held. -/
theorem applyWith_other (apply : Updates α → MTPUpdates α → Updates α) (hpos : 0 < u.start)
    (hne : u.start ≠ s.updatesSeq + 1) :
    (u.start ≤ s.updatesSeq ∧ applyWith apply s u = s) ∨
      (s.updatesSeq + 1 < u.start ∧ applyWith apply s u =
        { s with bySeqUpdates := s.bySeqUpdates.emplace u.start u, bySeqTimer := true }) := by
  have hnumbered : ∀ date start seq : ℤ, 0 < start → start ≠ s.updatesSeq + 1 →
      (start ≤ s.updatesSeq ∧ applyNumbered apply s u date start seq = s) ∨
        (s.updatesSeq + 1 < start ∧ applyNumbered apply s u date start seq =
          { s with bySeqUpdates := s.bySeqUpdates.emplace start u, bySeqTimer := true }) := by
    intro date start seq hstart hother
    rw [applyNumbered]
    by_cases hle : start ≤ s.updatesSeq
    · exact .inl ⟨hle, if_pos ⟨hstart.ne', hle⟩⟩
    · refine .inr ⟨by omega, ?_⟩
      rw [if_neg fun h => hle h.2, if_pos ⟨hstart.ne', by omega⟩]
  cases u with
  | updates content date seq => exact hnumbered date seq seq hpos hne
  | updatesCombined content date seqStart seq => exact hnumbered date seqStart seq hpos hne
  | updateShort content date => exact absurd hpos (lt_irrefl 0)

/-- A packet without a number is fed and changes no number. -/
theorem applyWith_unnumbered (apply : Updates α → MTPUpdates α → Updates α) (hu : u.Unnumbered) :
    (applyWith apply s u).fed = s.fed ++ [u] ∧ (applyWith apply s u).updatesSeq = s.updatesSeq ∧
      (applyWith apply s u).bySeqUpdates = s.bySeqUpdates ∧
      (applyWith apply s u).bySeqTimer = s.bySeqTimer := by
  have hkept : ∀ date seq : ℤ, seq = 0 ∨ seq = s.updatesSeq →
      ∃ date' qts', setState apply (s.feed u) date s.updatesQts seq =
        { s.feed u with updatesDate := date', updatesQts := qts' } := by
    intro date seq hseq
    have hstay : ¬ (seq ≠ 0 ∧ seq ≠ s.updatesSeq) := by omega
    exact ⟨_, _, if_neg hstay⟩
  have hzero : ∀ date start seq : ℤ, start = 0 → seq = 0 →
      ∃ date' qts', applyNumbered apply s u date start seq =
        { s.feed u with updatesDate := date', updatesQts := qts' } := by
    intro date start seq hstart hseq
    rw [applyNumbered, if_neg fun h => h.1 hstart, if_neg fun h => h.1 hstart]
    exact hkept date seq (.inl hseq)
  obtain ⟨date', qts', happly⟩ : ∃ date' qts', applyWith apply s u =
      { s.feed u with updatesDate := date', updatesQts := qts' } := by
    cases u with
    | updates content date seq => exact hzero date seq seq hu.1 hu.2
    | updatesCombined content date seqStart seq => exact hzero date seqStart seq hu.1 hu.2
    | updateShort content date => exact hkept date s.updatesSeq (.inr rfl)
  rw [happly]
  exact ⟨rfl, rfl, rfl, rfl⟩

theorem Follows.holds (hlog : Tiles seq₀ log) (hs : Follows seq₀ log D s) (hu : u ∈ log) :
    (u.start, u) ∈ (s.bySeqUpdates.emplace u.start u).entries := by
  rw [FlatMap.mem_emplace]
  cases hget : s.bySeqUpdates.get? u.start with
  | none => exact .inr ⟨rfl, rfl⟩
  | some v =>
    have hv := (FlatMap.get?_eq_some_iff _ _ _).mp hget
    obtain ⟨hin, hstart, -⟩ := hs.held _ v hv
    rw [hlog.eq_of_start hu hin hstart]
    exact .inl (hstart ▸ hv)

/-- One delivery. -/
theorem Follows.applyUpdates (hlog : Tiles seq₀ log) (hpos : 0 < seq₀)
    (hs : Follows seq₀ log D s) (hawaited : Awaited s) (hu : u ∈ log ∨ u.Unnumbered) :
    Follows seq₀ log (fun v => v = u ∨ D v) (s.applyUpdates u) ∧ Awaited (s.applyUpdates u) := by
  obtain ⟨apply, happly⟩ := applyNested_eq s.bySeqUpdates.size s u
  rcases hu with hu | hu
  · by_cases hstart : u.start = s.updatesSeq + 1
    · exact hs.applyNested_next hlog hpos hu hstart le_rfl
    · obtain ⟨hbelow, hle⟩ := hlog.below u hu
      rw [Updates.applyUpdates, happly]
      rcases applyWith_other apply (hpos.trans hbelow) hstart with ⟨hold, hstay⟩ | ⟨hlt, hhold⟩
      · rw [hstay]
        refine ⟨⟨hs.fed, hs.seq, hs.held, fun v hv hin => ?_⟩, hawaited⟩
        rcases hv with rfl | hv
        · exact .inl (hs.fed_of_le hlog hin hold)
        · exact hs.kept v hv hin
      · rw [hhold]
        refine ⟨⟨hs.fed, hs.seq, fun k v hv => ?_, fun v hv hin => ?_⟩, ?_⟩
        · rcases (FlatMap.mem_emplace _ _ _ _).mp hv with hv | ⟨heq, -⟩
          · exact hs.held k v hv
          · obtain ⟨rfl, rfl⟩ := Prod.mk.inj heq
            exact ⟨hu, rfl, hlt⟩
        · rcases hv with rfl | hv
          · exact .inr (hs.holds hlog hu)
          · exact (hs.kept v hv hin).imp_right fun hv => (FlatMap.mem_emplace _ _ _ _).mpr (.inl hv)
        · have hheld := hs.holds hlog hu
          exact iff_of_true rfl (List.ne_nil_of_mem hheld)
  · rw [Updates.applyUpdates, happly]
    obtain ⟨hfed, hseq, hheld, htimer⟩ := applyWith_unnumbered apply hu
    have hdone : (applyWith apply s u).fedNumbered = s.fedNumbered := by
      rw [fedNumbered, hfed, List.filter_append, List.filter_singleton, decide_eq_true hu]
      exact List.append_nil _
    refine ⟨⟨hdone ▸ hs.fed, ?_, ?_, fun v hv hin => ?_⟩, ?_⟩
    · rw [hseq, hdone, hs.seq]
    · rw [hheld, hseq]
      exact hs.held
    · rw [hfed, hheld]
      rcases hv with rfl | hv
      · exact .inl (List.mem_append_right _ List.mem_cons_self)
      · exact (hs.kept v hv hin).imp_left (List.mem_append_left _)
    · rw [Awaited, htimer, hheld]
      exact hawaited

/-- The deliveries so far. -/
theorem Follows.run (hlog : Tiles seq₀ log) (hpos : 0 < seq₀) (hs : Follows seq₀ log D s)
    (hawaited : Awaited s) {deliveries : List (MTPUpdates α)}
    (hdeliveries : ∀ u ∈ deliveries, u ∈ log ∨ u.Unnumbered) :
    Follows seq₀ log (fun v => v ∈ deliveries ∨ D v) (s.run deliveries) ∧
      Awaited (s.run deliveries) := by
  induction deliveries generalizing s D with
  | nil => exact ⟨hs.mono fun v hv => hv.resolve_left (List.not_mem_nil), hawaited⟩
  | cons u deliveries ih =>
    obtain ⟨hu, hrest⟩ := List.forall_mem_cons.mp hdeliveries
    obtain ⟨hone, hawaitedOne⟩ := hs.applyUpdates hlog hpos hawaited hu
    obtain ⟨hall, hawaitedAll⟩ := ih hone hawaitedOne hrest
    refine ⟨hall.mono fun v hv => ?_, hawaitedAll⟩
    rw [List.mem_cons] at hv
    tauto

/-- A state in which no numbered packet came since its number was known. -/
def start (date qts seq : ℤ) (byMinChannelTimer : Bool) : Updates α where
  updatesDate := date
  updatesQts := qts
  updatesSeq := seq
  byMinChannelTimer := byMinChannelTimer

theorem Follows.start (seq₀ : ℤ) (log : List (MTPUpdates α)) (date qts : ℤ) (timer : Bool) :
    Follows seq₀ log (fun _ => False) (start date qts seq₀ timer) where
  fed := ⟨log, rfl⟩
  seq := rfl
  held _ _ hheld := nomatch hheld
  kept _ hcame := hcame.elim

/-- However the packets of a log are delivered, those that were fed are a prefix of it. -/
theorem run_feeds_prefix (hlog : Tiles seq₀ log) (hpos : 0 < seq₀) (date qts : ℤ) (timer : Bool)
    {deliveries : List (MTPUpdates α)}
    (hdeliveries : ∀ u ∈ deliveries, u ∈ log ∨ u.Unnumbered) :
    let s := (start date qts seq₀ timer).run deliveries
    (∃ n, s.fedNumbered = log.take n ∧ s.updatesSeq = lastSeq seq₀ (log.take n)) ∧
    (∀ u ∈ deliveries, u ∈ log → u ∉ s.fedNumbered →
      (u.start, u) ∈ s.bySeqUpdates.entries) ∧
    (s.bySeqTimer = true ↔ ∃ k u, (k, u) ∈ s.bySeqUpdates.entries ∧ s.updatesSeq + 1 < k) ∧
    ((∀ u ∈ log, u ∈ deliveries) →
      s.updatesSeq = lastSeq seq₀ log ∧ s.bySeqUpdates.entries = []) := by
  intro s
  have hnone : Awaited (start date qts seq₀ timer : Updates α) :=
    iff_of_false Bool.false_ne_true fun h => h rfl
  obtain ⟨hs, hawaited⟩ := (Follows.start seq₀ log date qts timer).run hlog hpos hnone hdeliveries
  obtain ⟨todo, hsplit⟩ := hs.fed
  have htodo := (hsplit ▸ hlog).append.2
  rw [← hs.seq] at htodo
  have hprefix : s.fedNumbered = log.take s.fedNumbered.length := by
    conv_rhs => rw [hsplit]
    exact List.take_left.symm
  refine ⟨⟨_, hprefix, hprefix ▸ hs.seq⟩, fun u hu hin hnot => ?_, ?_, fun hall => ?_⟩
  · refine (hs.kept u (.inl hu) hin).resolve_left fun hfed => hnot (List.mem_filter.mpr ⟨hfed, ?_⟩)
    have hbelow := (hlog.below u hin).1
    rw [Bool.not_eq_true', decide_eq_false_iff_not]
    rintro ⟨hzero, -⟩
    omega
  · have htimer : s.bySeqTimer = true ↔ s.bySeqUpdates.entries ≠ [] := hawaited
    rw [htimer]
    constructor
    · intro hne
      obtain ⟨⟨k, u⟩, hku⟩ := List.exists_mem_of_ne_nil _ hne
      exact ⟨k, u, hku, (hs.held k u hku).2.2⟩
    · rintro ⟨k, u, hku, -⟩
      exact List.ne_nil_of_mem hku
  · have hdone : todo = [] := by
      cases todo with
      | nil => rfl
      | cons u todo =>
        have hin : u ∈ log := hsplit ▸ List.mem_append_right _ List.mem_cons_self
        have hnext : u.start = s.updatesSeq + 1 := htodo.1
        rcases hs.kept u (.inl (hall u hin)) hin with hfed | hheld
        · have hle : u.start ≤ s.updatesSeq := by
            apply hs.fed_le hlog
            refine List.mem_filter.mpr ⟨hfed, ?_⟩
            have hbelow := (hlog.below u hin).1
            rw [Bool.not_eq_true', decide_eq_false_iff_not]
            rintro ⟨hzero, -⟩
            omega
          omega
        · have hlt : s.updatesSeq + 1 < u.start := (hs.held _ u hheld).2.2
          omega
    rw [hdone, List.append_nil] at hsplit
    refine ⟨?_, ?_⟩
    · rw [hs.seq, ← hsplit]
    · apply List.eq_nil_iff_forall_not_mem.mpr
      rintro ⟨k, u⟩ hku
      obtain ⟨hin, hk, hlt⟩ := hs.held k u hku
      have hle := hs.fed_le hlog (hsplit ▸ hin)
      omega

def logOfTwo : List (MTPUpdates Unit) := [.updates () 10 6, .updatesCombined () 11 7 8]

theorem run_feeds_prefix_two :
    ((start 0 0 5 false).run logOfTwo.reverse).updatesSeq = 8 ∧
      ((start 0 0 5 false).run logOfTwo.reverse).bySeqUpdates.entries = [] := by
  have hlog : Tiles 5 logOfTwo := ⟨rfl, le_refl 6, rfl, by decide, trivial⟩
  have hfed := run_feeds_prefix hlog (by decide) 0 0 false
    fun u hu => .inl (List.mem_reverse.mp hu)
  apply hfed.2.2.2
  exact fun u hu => List.mem_reverse.mpr hu

end TelegramDesktop.Api.Updates
