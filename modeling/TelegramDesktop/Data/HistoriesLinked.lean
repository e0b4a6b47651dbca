import TelegramDesktop.Data.Histories

namespace TelegramDesktop.Data.Histories
open Base

variable {H : Type} [LinearOrder H] {s s' : Histories H} {h h' : H} {id : ℕ}

@[simp] theorem lookup_put (state : State) :
    (s.put h state).lookup h' = if h' = h then some state else s.lookup h' :=
  FlatMap.get?_upsert ..

@[simp] theorem state_put (state : State) :
    (s.put h state).state h' = if h' = h then state else s.state h' := by
  rw [Histories.state, lookup_put]
  split_ifs
  · rfl
  · rfl

@[simp] theorem state_emit (event : Event H) : (s.emit event).state h = s.state h := rfl

@[simp] theorem state_request (target : Target H) : (s.request target).state h = s.state h := rfl

@[simp] theorem state_cancel (mtpId : ℕ) : (s.cancel mtpId).state h = s.state h := rfl

@[simp] theorem state_generate (generator : Query) :
    (s.generate h id generator).state h' = s.state h' := by
  cases generator <;> rfl

/-- What the requests of a history see of its state. -/
structure SameRequests (a b : State) : Prop where
  postponed : a.postponed = b.postponed
  sent : a.sent = b.sent
  willReadTill : a.willReadTill = b.willReadTill
  sentReadTill : a.sentReadTill = b.sentReadTill
  postponedRequestEntry : a.postponedRequestEntry = b.postponedRequestEntry

theorem SameRequests.refl (a : State) : SameRequests a a := ⟨rfl, rfl, rfl, rfl, rfl⟩

theorem eq_of_isEmpty {state : State} (hempty : isEmpty state = true) :
    SameRequests {} state := by
  simp only [isEmpty, Bool.and_eq_true, Bool.not_eq_true', beq_iff_eq] at hempty
  obtain ⟨⟨⟨⟨hpostponed, hflag⟩, hsent⟩, hwill⟩, hread⟩ := hempty
  exact ⟨(FlatMap.eq_empty_of_isEmpty hpostponed).symm, (FlatMap.eq_empty_of_isEmpty hsent).symm,
    hwill.symm, hread.symm, hflag.symm⟩

/-- An empty state is as good as none. -/
theorem state_checkEmptyState : SameRequests ((s.checkEmptyState h).state h') (s.state h') := by
  rw [checkEmptyState]
  cases hlookup : s.lookup h with
  | none => exact .refl _
  | some state =>
    dsimp only
    split_ifs with hempty
    · by_cases hh : h' = h
      · have hgone : ({ s with states := s.states.erase h } : Histories H).lookup h' = none := by
          change (s.states.erase h).get? h' = none
          rw [FlatMap.get?_erase, if_pos hh]
        rw [Histories.state, hgone, Histories.state, hh, hlookup]
        exact eq_of_isEmpty hempty
      · have hkept : ({ s with states := s.states.erase h } : Histories H).lookup h' =
            s.lookup h' := by
          change (s.states.erase h).get? h' = s.states.get? h'
          rw [FlatMap.get?_erase, if_neg hh]
        rw [Histories.state, hkept]
        exact .refl _
    · exact .refl _

/-- Every answer finds its request, and every number is used once. -/
structure Linked (s : Histories H) : Prop where
  answerable : ∀ m h id q, (m, Target.request h id q) ∈ s.flights.entries →
    ∃ r, (id, r) ∈ (s.state h).sent.entries ∧ r.id = m ∧ r.generator = q
  own : ∀ h id r, (id, r) ∈ (s.state h).sent.entries →
    r.id ≤ s.mtpAutoincrement ∧
      ∀ t, (r.id, t) ∈ s.flights.entries → t = .request h id r.generator
  flight_le : ∀ m t, (m, t) ∈ s.flights.entries → m ≤ s.mtpAutoincrement
  sent_le : ∀ h id r, (id, r) ∈ (s.state h).sent.entries → id ≤ s.requestAutoincrement
  postponed_le : ∀ h id q, (id, q) ∈ (s.state h).postponed.entries → id ≤ s.requestAutoincrement
  apart : ∀ h id r q, (id, r) ∈ (s.state h).sent.entries → (id, q) ∉ (s.state h).postponed.entries
  plain_sent : ∀ h id r, (id, r) ∈ (s.state h).sent.entries → r.type = .history →
    r.generator = .plain
  plain_postponed : ∀ h id q, (id, q) ∈ (s.state h).postponed.entries → q = .plain

theorem Linked.start : Linked ({} : Histories H) :=
  ⟨nofun, nofun, nofun, nofun, nofun, nofun, nofun, nofun⟩

/-- The rest of the data does not matter. -/
theorem Linked.congr (hs : Linked s) (hsent : ∀ h, (s'.state h).sent = (s.state h).sent)
    (hpostponed : ∀ h, (s'.state h).postponed = (s.state h).postponed)
    (hflights : s'.flights = s.flights) (hmtp : s'.mtpAutoincrement = s.mtpAutoincrement)
    (hrequest : s'.requestAutoincrement = s.requestAutoincrement) : Linked s' := by
  obtain ⟨h₁, h₂, h₃, h₄, h₅, h₆, h₇, h₈⟩ := hs
  constructor
  · simpa only [hsent, hflights] using h₁
  · simpa only [hsent, hflights, hmtp] using h₂
  · simpa only [hflights, hmtp] using h₃
  · simpa only [hsent, hrequest] using h₄
  · simpa only [hpostponed, hrequest] using h₅
  · simpa only [hsent, hpostponed] using h₆
  · simpa only [hsent] using h₇
  · simpa only [hpostponed] using h₈

/-- Fewer flights leave everything answerable. -/
theorem Linked.cancel (hs : Linked s) (m : ℕ) : Linked (s.cancel m) := by
  have hless : ∀ a, a ∈ (s.cancel m).flights.entries → a ∈ s.flights.entries := fun a ha =>
    ((s.flights.mem_erase m a).mp ha).1
  refine ⟨fun m' h id q hmem => hs.answerable m' h id q (hless _ hmem), fun h id r hr => ?_,
    fun m' t hmem => hs.flight_le m' t (hless _ hmem), hs.sent_le, hs.postponed_le, hs.apart,
    hs.plain_sent, hs.plain_postponed⟩
  obtain ⟨hle, hown⟩ := hs.own h id r hr
  exact ⟨hle, fun t ht => hown t (hless _ ht)⟩

theorem Linked.put_read (hs : Linked s) (state : State) (hsent : state.sent = (s.state h).sent)
    (hpostponed : state.postponed = (s.state h).postponed) : Linked (s.put h state) := by
  apply hs.congr
  · intro h'
    rw [state_put]
    split_ifs with hh
    · rw [hsent, hh]
    · rfl
  · intro h'
    rw [state_put]
    split_ifs with hh
    · rw [hpostponed, hh]
    · rfl
  · rfl
  · rfl
  · rfl

theorem checkEmptyState_counters : (s.checkEmptyState h).flights = s.flights ∧
    (s.checkEmptyState h).mtpAutoincrement = s.mtpAutoincrement ∧
    (s.checkEmptyState h).requestAutoincrement = s.requestAutoincrement := by
  rw [Histories.checkEmptyState]
  cases s.lookup h with
  | none => exact ⟨rfl, rfl, rfl⟩
  | some state =>
    dsimp only
    split_ifs
    · exact ⟨rfl, rfl, rfl⟩
    · exact ⟨rfl, rfl, rfl⟩

theorem Linked.checkEmptyState (hs : Linked s) : Linked (s.checkEmptyState h) :=
  hs.congr (fun _ => state_checkEmptyState.sent) (fun _ => state_checkEmptyState.postponed)
    checkEmptyState_counters.1 checkEmptyState_counters.2.1 checkEmptyState_counters.2.2

/-- A new request to the server is linked to nothing when it is not a request of a history. -/
theorem Linked.request (hs : Linked s) {target : Target H}
    (hother : ∀ h id q, target ≠ .request h id q) : Linked (s.request target) := by
  have hmem : ∀ a, a ∈ (s.request target).flights.entries →
      a ∈ s.flights.entries ∨ a = (s.mtpAutoincrement + 1, target) := fun a ha =>
    ((s.flights.mem_emplace _ _ a).mp ha).imp_right And.left
  refine ⟨?_, ?_, ?_, hs.sent_le, hs.postponed_le, hs.apart, hs.plain_sent, hs.plain_postponed⟩
  · intro m h id q hflight
    rcases hmem _ hflight with hflight | heq
    · exact hs.answerable m h id q hflight
    · exact absurd (Prod.ext_iff.mp heq).2.symm (hother h id q)
  · intro h id r hr
    obtain ⟨hle, hown⟩ := hs.own h id r hr
    refine ⟨hle.trans (Nat.le_succ _), fun t ht => ?_⟩
    rcases hmem _ ht with ht | heq
    · exact hown t ht
    · have hid := (Prod.ext_iff.mp heq).1
      dsimp only at hid
      omega
  · intro m t ht
    rcases hmem _ ht with ht | heq
    · exact (hs.flight_le m t ht).trans (Nat.le_succ _)
    · exact (Prod.ext_iff.mp heq).1.le

theorem flights_generate (generator : Query) : (s.generate h id generator).flights =
    s.flights.emplace (s.mtpAutoincrement + 1) (.request h id generator) := by
  cases generator <;> rfl

theorem mtpAutoincrement_generate (generator : Query) :
    (s.generate h id generator).mtpAutoincrement = s.mtpAutoincrement + 1 := by
  cases generator <;> rfl

theorem requestAutoincrement_generate (generator : Query) :
    (s.generate h id generator).requestAutoincrement = s.requestAutoincrement := by
  cases generator <;> rfl

theorem state_sendNow {type : RequestType} {generator : Query} :
    (s.sendNow h id type generator).state h' =
      if h' = h then { s.state h with
        sent := (s.state h).sent.emplace id ⟨generator, s.mtpAutoincrement + 1, type⟩ }
      else s.state h' := by
  rw [sendNow]
  dsimp only
  rw [state_put, state_generate, state_generate, mtpAutoincrement_generate]

theorem mem_sent_sendNow {type : RequestType} {generator : Query}
    (hsent : ∀ r, (id, r) ∉ (s.state h).sent.entries) {id' : ℕ} {r : SentRequest} :
    (id', r) ∈ ((s.sendNow h id type generator).state h').sent.entries ↔
      (id', r) ∈ (s.state h').sent.entries ∨
        (h' = h ∧ id' = id ∧ r = ⟨generator, s.mtpAutoincrement + 1, type⟩) := by
  have hnew : (s.state h).sent.get? id = none := (FlatMap.get?_eq_none_iff _ _).mpr hsent
  rw [state_sendNow]
  split_ifs with hh
  · rw [FlatMap.mem_emplace, hh]
    simp only [hnew, Prod.mk.injEq, and_true, true_and]
  · simp only [hh, false_and, or_false]

theorem postponed_sendNow {type : RequestType} {generator : Query} :
    ((s.sendNow h id type generator).state h').postponed = (s.state h').postponed := by
  rw [state_sendNow]
  split_ifs with hh
  · rw [hh]
  · rfl

/-- A request with a number that is not in use is linked to its answer. -/
theorem Linked.sendNow (hs : Linked s) {type : RequestType} {generator : Query}
    (hsent : ∀ r, (id, r) ∉ (s.state h).sent.entries)
    (hpostponed : ∀ q, (id, q) ∉ (s.state h).postponed.entries) (hle : id ≤ s.requestAutoincrement)
    (hplain : type = .history → generator = .plain) :
    Linked (s.sendNow h id type generator) := by
  have hfresh : s.flights.get? (s.mtpAutoincrement + 1) = none := by
    rw [FlatMap.get?_eq_none_iff]
    intro t ht
    have hbound := hs.flight_le _ t ht
    omega
  have hflights : ∀ a, a ∈ (s.sendNow h id type generator).flights.entries ↔
      a ∈ s.flights.entries ∨ a = (s.mtpAutoincrement + 1, .request h id generator) := by
    intro a
    change a ∈ (s.generate h id generator).flights.entries ↔ _
    rw [flights_generate, FlatMap.mem_emplace]
    exact or_congr_right (and_iff_left hfresh)
  have hmtp : (s.sendNow h id type generator).mtpAutoincrement = s.mtpAutoincrement + 1 :=
    mtpAutoincrement_generate generator
  have hrequest : (s.sendNow h id type generator).requestAutoincrement = s.requestAutoincrement :=
    requestAutoincrement_generate generator
  have hmem : ∀ h' id' r, (id', r) ∈ ((s.sendNow h id type generator).state h').sent.entries ↔
      (id', r) ∈ (s.state h').sent.entries ∨
        (h' = h ∧ id' = id ∧ r = ⟨generator, s.mtpAutoincrement + 1, type⟩) :=
    fun _ _ _ => mem_sent_sendNow hsent
  have hkept : ∀ h', ((s.sendNow h id type generator).state h').postponed =
      (s.state h').postponed := fun _ => postponed_sendNow
  refine ⟨?_, ?_, ?_, ?_, ?_, ?_, ?_, ?_⟩
  · intro m h' id' q hflight
    rcases (hflights _).mp hflight with hflight | heq
    · obtain ⟨r, hr, hid⟩ := hs.answerable m h' id' q hflight
      exact ⟨r, (hmem _ _ _).mpr (.inl hr), hid⟩
    · obtain ⟨rfl, htarget⟩ := Prod.mk.inj heq
      obtain ⟨rfl, rfl, rfl⟩ := Target.request.inj htarget
      exact ⟨_, (hmem _ _ _).mpr (.inr ⟨rfl, rfl, rfl⟩), rfl, rfl⟩
  · intro h' id' r hr
    rw [hmtp]
    rcases (hmem _ _ _).mp hr with hr | ⟨rfl, rfl, rfl⟩
    · obtain ⟨hbound, hown⟩ := hs.own h' id' r hr
      refine ⟨by omega, fun t ht => ?_⟩
      rcases (hflights _).mp ht with ht | heq
      · exact hown t ht
      · have hid := (Prod.mk.inj heq).1
        omega
    · refine ⟨le_rfl, fun t ht => ?_⟩
      rcases (hflights _).mp ht with ht | heq
      · have hbound := hs.flight_le _ t ht
        dsimp only at hbound
        omega
      · exact (Prod.mk.inj heq).2
  · intro m t ht
    rw [hmtp]
    rcases (hflights _).mp ht with ht | heq
    · have hbound := hs.flight_le m t ht
      omega
    · exact (Prod.mk.inj heq).1.le
  · intro h' id' r hr
    rw [hrequest]
    rcases (hmem _ _ _).mp hr with hr | ⟨-, rfl, -⟩
    · exact hs.sent_le h' id' r hr
    · exact hle
  · intro h' id' q hq
    rw [hkept] at hq
    rw [hrequest]
    exact hs.postponed_le h' id' q hq
  · intro h' id' r q hr
    rw [hkept]
    rcases (hmem _ _ _).mp hr with hr | ⟨rfl, rfl, -⟩
    · exact hs.apart h' id' r q hr
    · exact hpostponed q
  · intro h' id' r hr htype
    rcases (hmem _ _ _).mp hr with hr | ⟨-, -, rfl⟩
    · exact hs.plain_sent h' id' r hr htype
    · exact hplain htype
  · intro h' id' q hq
    rw [hkept] at hq
    exact hs.plain_postponed h' id' q hq

/-- Requests that are taken back stay linked when their flights are cancelled. -/
theorem Linked.of_less (hs : Linked s)
    (hsent : ∀ h id r, (id, r) ∈ (s'.state h).sent.entries → (id, r) ∈ (s.state h).sent.entries)
    (hpostponed : ∀ h id q, (id, q) ∈ (s'.state h).postponed.entries →
      (id, q) ∈ (s.state h).postponed.entries ∨
        ∃ r, (id, r) ∈ (s.state h).sent.entries ∧ (id, r) ∉ (s'.state h).sent.entries ∧
          r.type = .history ∧ r.generator = q)
    (hflights : ∀ a, a ∈ s'.flights.entries → a ∈ s.flights.entries)
    (hkept : ∀ m h id q, (m, Target.request h id q) ∈ s'.flights.entries →
      ∀ r, (id, r) ∈ (s.state h).sent.entries → r.id = m → (id, r) ∈ (s'.state h).sent.entries)
    (hmtp : s'.mtpAutoincrement = s.mtpAutoincrement)
    (hrequest : s'.requestAutoincrement = s.requestAutoincrement) : Linked s' := by
  refine ⟨?_, ?_, ?_, ?_, ?_, ?_, ?_, ?_⟩
  · intro m h id q hflight
    obtain ⟨r, hr, hid, hgenerator⟩ := hs.answerable m h id q (hflights _ hflight)
    exact ⟨r, hkept m h id q hflight r hr hid, hid, hgenerator⟩
  · intro h id r hr
    rw [hmtp]
    obtain ⟨hle, hown⟩ := hs.own h id r (hsent h id r hr)
    exact ⟨hle, fun t ht => hown t (hflights _ ht)⟩
  · intro m t ht
    rw [hmtp]
    exact hs.flight_le m t (hflights _ ht)
  · intro h id r hr
    rw [hrequest]
    exact hs.sent_le h id r (hsent h id r hr)
  · intro h id q hq
    rw [hrequest]
    rcases hpostponed h id q hq with hq | ⟨r, hr, -⟩
    · exact hs.postponed_le h id q hq
    · exact hs.sent_le h id r hr
  · intro h id r q hr hq
    rcases hpostponed h id q hq with hq | ⟨r', hr', hnot, -⟩
    · exact hs.apart h id r q (hsent h id r hr) hq
    · have hget := (FlatMap.get?_eq_some_iff _ _ _).mpr (hsent h id r hr)
      rw [(FlatMap.get?_eq_some_iff _ _ _).mpr hr'] at hget
      rw [Option.some.inj hget] at hnot
      exact hnot hr
  · intro h id r hr
    exact hs.plain_sent h id r (hsent h id r hr)
  · intro h id q hq
    rcases hpostponed h id q hq with hq | ⟨r, hr, -, htype, rfl⟩
    · exact hs.plain_postponed h id q hq
    · exact hs.plain_sent h id r hr htype

/-- Only flights are cancelled. -/
theorem cancelAll_eq (entries : List (ℕ × SentRequest)) :
    entries.foldl (fun s entry => s.cancel entry.2.id) s =
      { s with
        flights := entries.foldl (fun flights entry => flights.erase entry.2.id) s.flights } := by
  induction entries generalizing s with
  | nil => rfl
  | cons entry entries ih => exact ih

omit [LinearOrder H] in
theorem mem_flights_cancelAll (entries : List (ℕ × SentRequest)) {flights : FlatMap ℕ (Target H)}
    {a : ℕ × Target H} :
    a ∈ (entries.foldl (fun flights entry => flights.erase entry.2.id) flights).entries ↔
      a ∈ flights.entries ∧ ∀ entry ∈ entries, a.1 ≠ entry.2.id := by
  induction entries generalizing flights with
  | nil => exact (and_iff_left fun _ h => nomatch h).symm
  | cons entry entries ih =>
    rw [List.foldl_cons, ih, List.forall_mem_cons, FlatMap.mem_erase, and_assoc]

/-- The state of a history with its history requests put off. -/
theorem mem_resendHistoryRequests (hs : Linked s) :
    (∀ id' r, (id', r) ∈ ((s.resendHistoryRequests h).state h).sent.entries ↔
      (id', r) ∈ (s.state h).sent.entries ∧ r.type ≠ .history) ∧
    (∀ id' q, (id', q) ∈ ((s.resendHistoryRequests h).state h).postponed.entries ↔
      (id', q) ∈ (s.state h).postponed.entries ∨
        ∃ r, (id', r) ∈ (s.state h).sent.entries ∧ r.type = .history ∧ r.generator = q) ∧
    ∀ h', h' ≠ h → (s.resendHistoryRequests h).state h' = s.state h' := by
  refine ⟨fun id' r => ?_, fun id' q => ?_, fun h' hh => ?_⟩
  · rw [resendHistoryRequests, state_put, if_pos rfl, FlatMap.mem_filter, bne_iff_ne]
  · rw [resendHistoryRequests, state_put, if_pos rfl, mem_emplaceAll]
    · simp only [List.mem_map, List.mem_filter, beq_iff_eq, Prod.mk.injEq, Prod.exists]
      refine or_congr_right ⟨?_, ?_⟩
      · rintro ⟨id'', r, ⟨hr, htype⟩, rfl, hq⟩
        exact ⟨r, hr, htype, hq⟩
      · rintro ⟨r, hr, htype, hq⟩
        exact ⟨id', r, ⟨hr, htype⟩, rfl, hq⟩
    · exact List.pairwise_map.mpr ((s.state h).sent.sorted.filter _)
    · intro entry hentry
      obtain ⟨a, ha, rfl⟩ := List.mem_map.mp hentry
      rw [FlatMap.get?_eq_none_iff]
      exact fun q hq => hs.apart h a.1 a.2 q (List.mem_of_mem_filter ha) hq
  · rw [resendHistoryRequests, state_put, if_neg hh, cancelAll_eq]
    rfl

theorem Linked.resendHistoryRequests (hs : Linked s) : Linked (s.resendHistoryRequests h) := by
  obtain ⟨hsent, hpostponed, hother⟩ := mem_resendHistoryRequests (h := h) hs
  have hflights : ∀ a, a ∈ (s.resendHistoryRequests h).flights.entries ↔ a ∈ s.flights.entries ∧
      ∀ entry ∈ (s.state h).sent.entries.filter fun entry => entry.2.type == .history,
        a.1 ≠ entry.2.id := by
    intro a
    rw [Histories.resendHistoryRequests, cancelAll_eq]
    exact mem_flights_cancelAll _
  refine hs.of_less ?_ ?_ (fun a ha => ((hflights a).mp ha).1) ?_ ?_ ?_
  · intro h' id r hr
    by_cases hh : h' = h
    · subst hh
      exact ((hsent id r).mp hr).1
    · rwa [hother h' hh] at hr
  · intro h' id q hq
    by_cases hh : h' = h
    · subst hh
      refine ((hpostponed id q).mp hq).imp_right ?_
      rintro ⟨r, hr, htype, hgenerator⟩
      exact ⟨r, hr, fun hkept => ((hsent id r).mp hkept).2 htype, htype, hgenerator⟩
    · rw [hother h' hh] at hq
      exact .inl hq
  · intro m h' id q hflight r hr hid
    by_cases hh : h' = h
    · subst hh
      refine (hsent id r).mpr ⟨hr, fun htype => ?_⟩
      have hnot := ((hflights _).mp hflight).2 (id, r)
        (List.mem_filter.mpr ⟨hr, beq_iff_eq.mpr htype⟩)
      exact hnot hid.symm
    · rwa [hother h' hh]
  · rw [Histories.resendHistoryRequests, cancelAll_eq]
    rfl
  · rw [Histories.resendHistoryRequests, cancelAll_eq]
    rfl

/-- A request that is no longer sent is not answered either. -/
theorem mem_eraseSent (s : Histories H) (h : H) (id : ℕ) :
    (∀ id' r, (id', r) ∈ ((s.eraseSent h id).state h).sent.entries ↔
      (id', r) ∈ (s.state h).sent.entries ∧ id' ≠ id) ∧
    (∀ h', ((s.eraseSent h id).state h').postponed = (s.state h').postponed) ∧
    (∀ h', h' ≠ h → ((s.eraseSent h id).state h').sent = (s.state h').sent) ∧
    ∀ a, a ∈ (s.eraseSent h id).flights.entries ↔ a ∈ s.flights.entries ∧
      ∀ r, (id, r) ∈ (s.state h).sent.entries → a.1 ≠ r.id := by
  cases hget : (s.state h).sent.get? id with
  | none =>
    have hself : s.eraseSent h id =
        { s with historyByRequest := s.historyByRequest.erase id } := by
      have hget' : (state { s with historyByRequest := s.historyByRequest.erase id } h).sent.get?
          id = none := hget
      rw [eraseSent]
      rw [hget']
    have hnot := ((s.state h).sent.get?_eq_none_iff id).mp hget
    rw [hself]
    refine ⟨fun id' r => ?_, fun _ => rfl, fun _ _ => rfl, fun a => ?_⟩
    · refine (and_iff_left_of_imp fun hr => ?_).symm
      rintro rfl
      exact hnot r hr
    · exact (and_iff_left fun r hr => absurd hr (hnot r)).symm
  | some request =>
    have hself : s.eraseSent h id = ({ s with
        historyByRequest := s.historyByRequest.erase id }.cancel request.id).put h
          { s.state h with sent := (s.state h).sent.erase id } := by
      have hget' : (state { s with historyByRequest := s.historyByRequest.erase id } h).sent.get?
          id = some request := hget
      rw [eraseSent]
      rw [hget']
      rfl
    have hmem := ((s.state h).sent.get?_eq_some_iff id request).mp hget
    rw [hself]
    refine ⟨fun id' r => ?_, fun h' => ?_, fun h' hh => ?_, fun a => ?_⟩
    · rw [state_put, if_pos rfl]
      exact FlatMap.mem_erase _ _ _
    · rw [state_put]
      split_ifs with hh
      · rw [hh]
      · rfl
    · rw [state_put, if_neg hh]
      rfl
    · change a ∈ (s.flights.erase request.id).entries ↔ _
      rw [FlatMap.mem_erase]
      refine and_congr_right fun _ => ⟨fun hne r hr => ?_, fun hall => hall request hmem⟩
      have hget' := (FlatMap.get?_eq_some_iff _ _ _).mpr hr
      rw [hget] at hget'
      rwa [← Option.some.inj hget']

theorem eraseSent_fields : (s.eraseSent h id).mtpAutoincrement = s.mtpAutoincrement ∧
    (s.eraseSent h id).requestAutoincrement = s.requestAutoincrement := by
  rw [Histories.eraseSent]
  split
  · exact ⟨rfl, rfl⟩
  · exact ⟨rfl, rfl⟩

theorem Linked.eraseSent (hs : Linked s) : Linked (s.eraseSent h id) := by
  obtain ⟨hsent, hpostponed, hother, hflights⟩ := mem_eraseSent s h id
  refine hs.of_less ?_ ?_ (fun a ha => ((hflights a).mp ha).1) ?_ eraseSent_fields.1
    eraseSent_fields.2
  · intro h' id' r hr
    by_cases hh : h' = h
    · subst hh
      exact ((hsent id' r).mp hr).1
    · rwa [hother h' hh] at hr
  · intro h' id' q hq
    rw [hpostponed] at hq
    exact .inl hq
  · intro m h' id' q hflight r hr hid
    by_cases hh : h' = h
    · subst hh
      refine (hsent id' r).mpr ⟨hr, ?_⟩
      rintro rfl
      exact ((hflights _).mp hflight).2 r hr hid.symm
    · rwa [hother h' hh]

/-- What is kept by each postponed generator that is called is kept by all of them. -/
theorem sendAll_rule {P : Histories H → Prop} {h : H}
    (hstep : ∀ s id, Linked s → P s → (∀ r, (id, r) ∉ (s.state h).sent.entries) →
      P (s.sendNow h id .history .plain))
    {entries : List (ℕ × Query)} {s : Histories H} (hs : Linked s) (hP : P s)
    (hsorted : entries.Pairwise fun a b => a.1 < b.1)
    (hnew : ∀ entry ∈ entries, entry.1 ≤ s.requestAutoincrement ∧ entry.2 = .plain ∧
      (∀ r, (entry.1, r) ∉ (s.state h).sent.entries) ∧
      ∀ q, (entry.1, q) ∉ (s.state h).postponed.entries) :
    Linked (entries.foldl (fun s entry => s.sendNow h entry.1 .history entry.2) s) ∧
      P (entries.foldl (fun s entry => s.sendNow h entry.1 .history entry.2) s) := by
  induction entries generalizing s with
  | nil => exact ⟨hs, hP⟩
  | cons entry entries ih =>
    obtain ⟨hle, hplain, hsent, hpostponed⟩ := hnew entry List.mem_cons_self
    rw [List.foldl_cons, hplain]
    apply ih
    · exact hs.sendNow hsent hpostponed hle fun _ => rfl
    · exact hstep s entry.1 hs hP hsent
    · exact hsorted.of_cons
    · intro other hother
      obtain ⟨hle', hplain', hsent', hpostponed'⟩ := hnew other (List.mem_cons_of_mem _ hother)
      refine ⟨?_, hplain', fun r hr => ?_, ?_⟩
      · exact hle'.trans (requestAutoincrement_generate _).ge
      · rcases (mem_sent_sendNow hsent).mp hr with hr | ⟨-, heq, -⟩
        · exact hsent' r hr
        · exact (List.rel_of_pairwise_cons hsorted hother).ne' heq
      · rw [postponed_sendNow]
        exact hpostponed'

theorem Linked.dropPostponed (hs : Linked s) {postponed : FlatMap ℕ Query}
    (hless : ∀ a ∈ postponed.entries, a ∈ (s.state h).postponed.entries) :
    Linked (s.put h { s.state h with postponed := postponed }) := by
  refine hs.of_less ?_ ?_ (fun a ha => ha) ?_ rfl rfl
  · intro h' id r hr
    rw [state_put] at hr
    split_ifs at hr with hh
    · rwa [hh]
    · exact hr
  · intro h' id q hq
    rw [state_put] at hq
    split_ifs at hq with hh
    · rw [hh]
      exact .inl (hless _ hq)
    · exact .inl hq
  · intro m h' id q _ r hr _
    rw [state_put]
    split_ifs with hh
    · rwa [← hh]
    · exact hr

theorem sendPostponed_rule {P : Histories H → Prop} {h : H}
    (hstep : ∀ s id, Linked s → P s → (∀ r, (id, r) ∉ (s.state h).sent.entries) →
      P (s.sendNow h id .history .plain))
    (hs : Linked s) (hP : P s) (hput : P (s.put h { s.state h with postponed := ∅ })) :
    Linked (s.sendPostponed h) ∧ P (s.sendPostponed h) := by
  rw [Histories.sendPostponed]
  split_ifs
  · apply sendAll_rule hstep
    · exact hs.dropPostponed fun _ h => nomatch h
    · exact hput
    · exact (s.state h).postponed.sorted
    · intro entry hentry
      refine ⟨hs.postponed_le h entry.1 entry.2 hentry, hs.plain_postponed h entry.1 entry.2 hentry,
        fun r hr => ?_, fun q hq => ?_⟩
      · rw [state_put, if_pos rfl] at hr
        exact hs.apart h entry.1 r entry.2 hr hentry
      · rw [state_put, if_pos rfl] at hq
        exact nomatch hq
  · exact ⟨hs, hP⟩

theorem Linked.sendPostponed (hs : Linked s) : Linked (s.sendPostponed h) :=
  (sendPostponed_rule (P := fun _ => True) (fun _ _ _ _ _ => trivial) hs trivial trivial).1

theorem Linked.postponeRequestDialogEntries (hs : Linked s) :
    Linked s.postponeRequestDialogEntries := by
  rw [Histories.postponeRequestDialogEntries]
  split_ifs
  · exact hs
  · exact hs.congr (fun _ => rfl) (fun _ => rfl) rfl rfl rfl

/-- What a move is, when it does not fail. -/
theorem moveDialogRequest_cases (hmove : s.moveDialogRequest h = some s') :
    ((s.state h).postponedRequestEntry = true ∧ postponeEntryRequest (s.state h) = false ∧
      ∃ callbacks, s.dialogRequests.get? h = some callbacks ∧
        s' = ({ s with
          dialogRequestsPending := s.dialogRequestsPending.emplace h callbacks
          dialogRequests := s.dialogRequests.erase h }.put h
            { s.state h with postponedRequestEntry := false }).postponeRequestDialogEntries) ∨
    (((s.state h).postponedRequestEntry = true → postponeEntryRequest (s.state h) = true) ∧
      s' = s) := by
  rw [moveDialogRequest] at hmove
  by_cases hflag : ((s.state h).postponedRequestEntry && !postponeEntryRequest (s.state h)) = true
  · rw [if_pos hflag] at hmove
    obtain ⟨callbacks, hcallbacks, hmove⟩ := Option.bind_eq_some_iff.mp hmove
    rw [Bool.and_eq_true, Bool.not_eq_true'] at hflag
    by_cases hpending : s.dialogRequestsPending.contains h = true
    · rw [if_pos hpending] at hmove
      exact nomatch hmove
    · rw [if_neg hpending] at hmove
      exact .inl ⟨hflag.1, hflag.2, callbacks, hcallbacks, (Option.some.inj hmove).symm⟩
  · rw [if_neg hflag] at hmove
    refine .inr ⟨fun hset => ?_, (Option.some.inj hmove).symm⟩
    by_contra hentry
    rw [hset, Bool.eq_false_of_not_eq_true hentry] at hflag
    exact hflag rfl

theorem Linked.moveDialogRequest (hs : Linked s) (hmove : s.moveDialogRequest h = some s') :
    Linked s' := by
  rcases moveDialogRequest_cases hmove with ⟨-, -, callbacks, -, rfl⟩ | ⟨-, rfl⟩
  · apply Linked.postponeRequestDialogEntries
    have hput := hs.put_read (h := h) { s.state h with postponedRequestEntry := false } rfl rfl
    exact hput.congr (fun _ => rfl) (fun _ => rfl) rfl rfl rfl
  · exact hs

theorem Linked.finishSentRequest (hs : Linked s) (hfinish : s.finishSentRequest h id = some s') :
    Linked s' := by
  obtain ⟨moved, hmoved, rfl⟩ := Option.map_eq_some_iff.mp hfinish
  exact (hs.eraseSent.sendPostponed.moveDialogRequest hmoved).checkEmptyState

theorem Linked.emit (hs : Linked s) (event : Event H) : Linked (s.emit event) :=
  hs.congr (fun _ => rfl) (fun _ => rfl) rfl rfl rfl

theorem Linked.checkPostponed (hs : Linked s) (hfinish : s.checkPostponed h id = some s') :
    Linked s' := by
  rw [Histories.checkPostponed] at hfinish
  split at hfinish
  · exact (hs.emit _).finishSentRequest hfinish
  · cases hfinish
    exact hs.emit _

theorem state_of_lookup {state : State} (hlookup : s.lookup h = some state) :
    state = s.state h := by
  rw [Histories.state, hlookup]
  rfl

/-- A request is cancelled before it is looked for in its history. -/
def giveUp (s : Histories H) (h : H) (id : ℕ) : Histories H :=
  { s with historyByRequest := s.historyByRequest.erase id }.emit (.cancelled h id)

/-- A postponed request is forgotten. -/
def drop (s : Histories H) (h : H) (id : ℕ) : Histories H :=
  s.put h { s.state h with postponed := (s.state h).postponed.erase id }

theorem Linked.giveUp (hs : Linked s) (h : H) (id : ℕ) : Linked (s.giveUp h id) :=
  hs.congr (fun _ => rfl) (fun _ => rfl) rfl rfl rfl

theorem Linked.drop (hs : Linked s) (h : H) (id : ℕ) : Linked (s.drop h id) :=
  hs.dropPostponed fun _ ha => ((FlatMap.mem_erase _ _ _).mp ha).1

/-- A cancelled request is unknown, or is finished once it is dropped. -/
theorem cancelRequest_eq (s : Histories H) (id : ℕ) : s.cancelRequest id = some s ∨
    ∃ h, s.cancelRequest id = some (s.giveUp h id) ∨
      s.cancelRequest id = ((s.giveUp h id).drop h id).finishSentRequest h id := by
  rw [cancelRequest]
  split
  · exact .inl rfl
  · rename_i h _
    refine .inr ⟨h, ?_⟩
    have hgive : s.giveUp h id = emit { s with
        historyByRequest := s.historyByRequest.erase id } (.cancelled h id) := rfl
    dsimp only
    rw [← hgive]
    cases hlookup : (s.giveUp h id).lookup h with
    | none =>
      left
      rfl
    | some state =>
      right
      dsimp only
      rw [state_of_lookup hlookup]
      rfl

/-- What is kept by giving up, dropping and finishing is kept by cancelling. -/
theorem cancelRequest_rule {P : Histories H → Prop} (hcancel : s.cancelRequest id = some s')
    (hsame : P s) (hgiveUp : ∀ h, P (s.giveUp h id))
    (hfinish : ∀ h, ((s.giveUp h id).drop h id).finishSentRequest h id = some s' → P s') :
    P s' := by
  rcases cancelRequest_eq s id with heq | ⟨h, heq | heq⟩
  · rw [heq] at hcancel
    cases hcancel
    exact hsame
  · rw [heq] at hcancel
    cases hcancel
    exact hgiveUp h
  · exact hfinish h (heq ▸ hcancel)

theorem Linked.cancelRequest (hs : Linked s) (hcancel : s.cancelRequest id = some s') :
    Linked s' :=
  cancelRequest_rule hcancel hs (fun h => hs.giveUp h id)
    fun h hfinish => ((hs.giveUp h id).drop h id).finishSentRequest hfinish

theorem Linked.markRequestEntry (hs : Linked s) : Linked (s.markRequestEntry h) := by
  rw [Histories.markRequestEntry]
  split_ifs
  · exact hs.put_read _ rfl rfl
  · exact hs

theorem Linked.postponeNew (hs : Linked s) (hle : id ≤ s.requestAutoincrement)
    (hsent : ∀ r, (id, r) ∉ (s.state h).sent.entries) : Linked (s.put h { s.state h with
      postponed := (s.state h).postponed.emplace id .plain }) := by
  have hkept : ∀ h', ((s.put h { s.state h with
      postponed := (s.state h).postponed.emplace id .plain }).state h').sent =
      (s.state h').sent := by
    intro h'
    rw [state_put]
    split_ifs with hh
    · rw [hh]
    · rfl
  have hmem : ∀ h' id' q, (id', q) ∈ ((s.put h { s.state h with
      postponed := (s.state h).postponed.emplace id .plain }).state h').postponed.entries →
      (id', q) ∈ (s.state h').postponed.entries ∨ (h' = h ∧ id' = id ∧ q = .plain) := by
    intro h' id' q hq
    rw [state_put] at hq
    split_ifs at hq with hh
    · rw [hh]
      refine ((FlatMap.mem_emplace _ _ _ _).mp hq).imp_right fun heq => ?_
      exact ⟨rfl, Prod.mk.inj heq.1⟩
    · exact .inl hq
  refine ⟨?_, ?_, hs.flight_le, ?_, ?_, ?_, ?_, ?_⟩
  · intro m h' id' q hflight
    rw [hkept]
    exact hs.answerable m h' id' q hflight
  · intro h' id' r hr
    rw [hkept] at hr
    exact hs.own h' id' r hr
  · intro h' id' r hr
    rw [hkept] at hr
    exact hs.sent_le h' id' r hr
  · intro h' id' q hq
    rcases hmem h' id' q hq with hq | ⟨-, rfl, -⟩
    · exact hs.postponed_le h' id' q hq
    · exact hle
  · intro h' id' r q hr hq
    rw [hkept] at hr
    rcases hmem h' id' q hq with hq | ⟨rfl, rfl, -⟩
    · exact hs.apart h' id' r q hr hq
    · exact hsent r hr
  · intro h' id' r hr
    rw [hkept] at hr
    exact hs.plain_sent h' id' r hr
  · intro h' id' q hq
    rcases hmem h' id' q hq with hq | ⟨-, -, rfl⟩
    · exact hs.plain_postponed h' id' q hq
    · rfl

/-- A request gets the next number. -/
def returnNext (s : Histories H) (h : H) : Histories H :=
  { s with
    requestAutoincrement := s.requestAutoincrement + 1
    historyByRequest := s.historyByRequest.emplace (s.requestAutoincrement + 1) h }.emit
      (.returned h (s.requestAutoincrement + 1))

theorem Linked.returnNext (hs : Linked s) : Linked (s.returnNext h) := by
  obtain ⟨h₁, h₂, h₃, h₄, h₅, h₆, h₇, h₈⟩ := hs
  exact ⟨h₁, h₂, h₃, fun h id r hr => (h₄ h id r hr).trans (Nat.le_succ _),
    fun h id q hq => (h₅ h id q hq).trans (Nat.le_succ _), h₆, h₇, h₈⟩

/-- The next number is not in use. -/
theorem Linked.next_unused (hs : Linked s) :
    (∀ r, (s.requestAutoincrement + 1, r) ∉ ((s.returnNext h).state h).sent.entries) ∧
      ∀ q, (s.requestAutoincrement + 1, q) ∉ ((s.returnNext h).state h).postponed.entries := by
  constructor
  · intro r hr
    have hle := hs.sent_le h _ r hr
    omega
  · intro q hq
    have hle := hs.postponed_le h _ q hq
    omega

theorem sendRequest_eq (type : RequestType) (generator : Query) :
    s.sendRequest h type generator =
      if type = .history ∧ postponeHistoryRequest (s.state h) = true then
        (s.returnNext h).put h { s.state h with
          postponed := (s.state h).postponed.emplace (s.requestAutoincrement + 1) generator }
      else
        let sent := ((s.returnNext h).sendNow h (s.requestAutoincrement + 1) type
          generator).markRequestEntry h
        if postponeHistoryRequest (sent.state h) then sent.resendHistoryRequests h else sent := rfl

theorem Linked.sendRequest (hs : Linked s) {type : RequestType} {generator : Query}
    (hplain : type = .history → generator = .plain) :
    Linked (s.sendRequest h type generator) := by
  have hnext := hs.returnNext (h := h)
  obtain ⟨hsent, hpostponed⟩ := hs.next_unused (h := h)
  have hmark := (hnext.sendNow hsent hpostponed le_rfl hplain).markRequestEntry (h := h)
  rw [sendRequest_eq]
  dsimp only
  split_ifs with hgate hdelete
  · rw [hplain hgate.1]
    exact hnext.postponeNew le_rfl hsent
  · exact hmark.resendHistoryRequests
  · exact hmark

end TelegramDesktop.Data.Histories
