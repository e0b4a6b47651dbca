import TelegramDesktop.Data.HistoriesMoves

namespace TelegramDesktop.Data.Histories
open Base

variable {H : Type} [LinearOrder H] {s s' s'' : Histories H} {h h' : H} {id : ℕ}

/-- No history request is sent with a delete, every sent request waits for its answer, and
every number that was given is of a request that is sent, postponed, finished or cancelled. -/
structure Placed (s : Histories H) : Prop where
  gate : ∀ h id r, (id, r) ∈ (s.state h).sent.entries → r.type = .history →
    postponeHistoryRequest (s.state h) = false
  flying : ∀ h id r, (id, r) ∈ (s.state h).sent.entries →
    (r.id, Target.request h id r.generator) ∈ s.flights.entries
  found : ∀ h id, Event.returned h id ∈ s.events →
    Event.finished h id ∈ s.events ∨ Event.cancelled h id ∈ s.events ∨
      (s.state h).sent.get? id ≠ none ∨ (s.state h).postponed.get? id ≠ none

/-- What is postponed waits for a delete. -/
def Held (s : Histories H) (h : H) : Prop :=
  ∀ id q, (id, q) ∈ (s.state h).postponed.entries → postponeHistoryRequest (s.state h) = true

theorem Placed.start : Placed ({} : Histories H) := ⟨nofun, nofun, nofun⟩

theorem Held.start : Held ({} : Histories H) h := nofun

/-- The requests of the histories are as they were. -/
structure SamePlaces (s s' : Histories H) : Prop where
  sent : ∀ h, (s'.state h).sent = (s.state h).sent
  postponed : ∀ h, (s'.state h).postponed = (s.state h).postponed
  flights : ∀ m h id q, (m, Target.request h id q) ∈ s.flights.entries →
    (m, Target.request h id q) ∈ s'.flights.entries
  events : ∀ e ∈ s.events, e ∈ s'.events
  returned : ∀ h id, Event.returned h id ∈ s'.events → Event.returned h id ∈ s.events
  invoked : ∀ h id, s'.events.count (.invoked h id) = s.events.count (.invoked h id)

theorem SamePlaces.gate (hsame : SamePlaces s s') :
    postponeHistoryRequest (s'.state h) = postponeHistoryRequest (s.state h) := by
  rw [postponeHistoryRequest, postponeHistoryRequest, hsame.sent]

theorem SamePlaces.trans (h₁ : SamePlaces s s') (h₂ : SamePlaces s' s'') : SamePlaces s s'' :=
  ⟨fun h => (h₂.sent h).trans (h₁.sent h), fun h => (h₂.postponed h).trans (h₁.postponed h),
    fun m h id q hflight => h₂.flights m h id q (h₁.flights m h id q hflight),
    fun e he => h₂.events e (h₁.events e he),
    fun h id hgiven => h₁.returned h id (h₂.returned h id hgiven),
    fun h id => (h₂.invoked h id).trans (h₁.invoked h id)⟩

theorem Placed.same (hp : Placed s) (hsame : SamePlaces s s') : Placed s' := by
  refine ⟨fun h id r => ?_, fun h id r => ?_, fun h id hreturned => ?_⟩
  · rw [hsame.sent, hsame.gate]
    exact hp.gate h id r
  · rw [hsame.sent]
    exact fun hr => hsame.flights _ _ _ _ (hp.flying h id r hr)
  · rw [hsame.sent, hsame.postponed]
    exact (hp.found h id (hsame.returned h id hreturned)).imp (hsame.events _)
      (Or.imp_left (hsame.events _))

theorem Held.same (hheld : Held s h) (hsame : SamePlaces s s') : Held s' h := by
  intro id q
  rw [hsame.postponed, hsame.gate]
  exact hheld id q

theorem SamePlaces.of_fields (hsent : ∀ h, (s'.state h).sent = (s.state h).sent)
    (hpostponed : ∀ h, (s'.state h).postponed = (s.state h).postponed)
    (hflights : s'.flights = s.flights) (hevents : s'.events = s.events) : SamePlaces s s' :=
  ⟨hsent, hpostponed, fun _ _ _ _ => by rw [hflights]; exact fun hflight => hflight,
    fun _ => by rw [hevents]; exact fun he => he, fun _ _ => by rw [hevents]; exact fun he => he,
    fun _ _ => by rw [hevents]⟩

/-- No two requests that wait for an answer have the same number. -/
theorem Placed.id_ne (hl : Linked s) (hp : Placed s) {id' : ℕ} {r r' : SentRequest}
    (hr : (id, r) ∈ (s.state h).sent.entries) (hr' : (id', r') ∈ (s.state h').sent.entries)
    (heq : r.id = r'.id) : h = h' ∧ id = id' := by
  have hflight := hp.flying h' id' r' hr'
  rw [← heq] at hflight
  obtain ⟨rfl, rfl, -⟩ := Target.request.inj ((hl.own h id r hr).2 _ hflight)
  exact ⟨rfl, rfl⟩

theorem events_sendNow (s : Histories H) (h : H) (id : ℕ) (type : RequestType)
    (generator : Query) :
    ∃ more, (s.sendNow h id type generator).events = s.events ++ .invoked h id :: more ∧
      ∀ e ∈ more, ∃ tillId, e = .readHistory h tillId := by
  cases generator with
  | readHistory tillId =>
    refine ⟨[.readHistory h tillId], List.append_assoc _ _ _, fun e he => ⟨tillId, ?_⟩⟩
    exact List.mem_singleton.mp he
  | _ => exact ⟨[], rfl, nofun⟩

theorem flights_sendNow {type : RequestType} {generator : Query} (hl : Linked s)
    {a : ℕ × Target H} : a ∈ (s.sendNow h id type generator).flights.entries ↔
      a ∈ s.flights.entries ∨ a = (s.mtpAutoincrement + 1, .request h id generator) := by
  change a ∈ (s.generate h id generator).flights.entries ↔ _
  rw [flights_generate]
  exact flights_request hl

theorem flights_resendHistoryRequests {a : ℕ × Target H} :
    a ∈ (s.resendHistoryRequests h).flights.entries ↔ a ∈ s.flights.entries ∧
      ∀ id r, (id, r) ∈ (s.state h).sent.entries → r.type = .history → a.1 ≠ r.id := by
  rw [Histories.resendHistoryRequests, cancelAll_eq]
  refine (mem_flights_cancelAll _).trans (and_congr_right fun _ => ?_)
  simp only [List.mem_filter, beq_iff_eq, and_imp, Prod.forall]

theorem events_resendHistoryRequests : (s.resendHistoryRequests h).events = s.events := by
  rw [Histories.resendHistoryRequests, cancelAll_eq]
  rfl

theorem get?_ne_none_iff {κ ν : Type} [LinearOrder κ] {m : FlatMap κ ν} {k : κ} :
    m.get? k ≠ none ↔ ∃ v, (k, v) ∈ m.entries := by
  rw [Option.ne_none_iff_exists']
  simp only [FlatMap.get?_eq_some_iff]

/-- With a delete, the history requests that were sent are postponed. -/
theorem Placed.resendHistoryRequests (hl : Linked s)
    (hflying : ∀ h id r, (id, r) ∈ (s.state h).sent.entries →
      (r.id, Target.request h id r.generator) ∈ s.flights.entries)
    (hgate : ∀ h', h' ≠ h → ∀ id r, (id, r) ∈ (s.state h').sent.entries → r.type = .history →
      postponeHistoryRequest (s.state h') = false)
    (hfound : ∀ h id, Event.returned h id ∈ s.events →
      Event.finished h id ∈ s.events ∨ Event.cancelled h id ∈ s.events ∨
        (s.state h).sent.get? id ≠ none ∨ (s.state h).postponed.get? id ≠ none) :
    Placed (s.resendHistoryRequests h) := by
  obtain ⟨hsent, hpostponed, hother⟩ := mem_resendHistoryRequests (h := h) hl
  constructor
  · intro h' id r hr htype
    by_cases hh : h' = h
    · subst hh
      exact absurd htype ((hsent id r).mp hr).2
    · rw [hother h' hh] at hr ⊢
      exact hgate h' hh id r hr htype
  · intro h' id r hr
    apply flights_resendHistoryRequests.mpr
    have hold : (id, r) ∈ (s.state h').sent.entries ∧ (h' = h → r.type ≠ .history) := by
      by_cases hh : h' = h
      · subst hh
        exact ⟨((hsent id r).mp hr).1, fun _ => ((hsent id r).mp hr).2⟩
      · rw [hother h' hh] at hr
        exact ⟨hr, fun heq => absurd heq hh⟩
    refine ⟨hflying h' id r hold.1, fun id' r' hr' htype heq => ?_⟩
    have hflight := hflying h id' r' hr'
    change r.id = r'.id at heq
    rw [← heq] at hflight
    obtain ⟨rfl, rfl, -⟩ := Target.request.inj ((hl.own h' id r hold.1).2 _ hflight)
    rw [← FlatMap.get?_eq_some_iff] at hr'
    rw [(FlatMap.get?_eq_some_iff _ _ _).mpr hold.1] at hr'
    cases hr'
    exact hold.2 rfl htype
  · intro h' id hreturned
    rw [events_resendHistoryRequests] at hreturned ⊢
    refine (hfound h' id hreturned).imp_right (Or.imp_right ?_)
    by_cases hh : h' = h
    · subst hh
      simp only [get?_ne_none_iff, hsent, hpostponed]
      rintro (⟨r, hr⟩ | ⟨q, hq⟩)
      · by_cases htype : r.type = .history
        · exact .inr ⟨_, .inr ⟨r, hr, htype, rfl⟩⟩
        · exact .inl ⟨r, hr, htype⟩
      · exact .inr ⟨q, .inl hq⟩
    · rw [hother h' hh]
      exact fun hplace => hplace

theorem mem_events_sendNow {type : RequestType} {generator : Query} {e : Event H}
    (he : ∀ tillId, e ≠ .readHistory h tillId) :
    e ∈ (s.sendNow h id type generator).events ↔ e ∈ s.events ∨ e = .invoked h id := by
  obtain ⟨more, hevents, hmore⟩ := events_sendNow s h id type generator
  rw [hevents, List.mem_append, List.mem_cons]
  refine or_congr_right (or_iff_left fun hin => ?_)
  obtain ⟨tillId, heq⟩ := hmore e hin
  exact he tillId heq

theorem count_sendNow {type : RequestType} {generator : Query} {id' : ℕ} :
    (s.sendNow h id type generator).events.count (.invoked h' id') =
      s.events.count (.invoked h' id') + if h' = h ∧ id' = id then 1 else 0 := by
  obtain ⟨more, hevents, hmore⟩ := events_sendNow s h id type generator
  have hnone : more.count (.invoked h' id') = 0 := by
    refine List.count_eq_zero.mpr fun hin => ?_
    obtain ⟨tillId, heq⟩ := hmore _ hin
    exact nomatch heq
  rw [hevents, List.count_append, List.count_cons, hnone, Nat.zero_add]
  refine congrArg (_ + ·) (if_congr ?_ rfl rfl)
  rw [beq_iff_eq, Event.invoked.injEq]
  exact and_congr eq_comm eq_comm

/-- Until a delete is finished it keeps what is postponed. -/
def Calm (s s' : Histories H) : Prop :=
  ∀ h, postponeHistoryRequest (s.state h) = true → postponeHistoryRequest (s'.state h) = true ∧
    ∀ id q, (id, q) ∈ (s.state h).postponed.entries → (id, q) ∈ (s'.state h).postponed.entries ∧
      s'.events.count (.invoked h id) = s.events.count (.invoked h id)

theorem Calm.trans (h₁ : Calm s s') (h₂ : Calm s' s'') : Calm s s'' := by
  intro h hdelete
  obtain ⟨hdelete', hkept⟩ := h₁ h hdelete
  obtain ⟨hdelete'', hkept'⟩ := h₂ h hdelete'
  refine ⟨hdelete'', fun id q hq => ?_⟩
  obtain ⟨hq', hcount⟩ := hkept id q hq
  obtain ⟨hq'', hcount'⟩ := hkept' id q hq'
  exact ⟨hq'', hcount'.trans hcount⟩

theorem SamePlaces.calm (hsame : SamePlaces s s') : Calm s s' := by
  intro h hdelete
  refine ⟨hsame.gate.trans hdelete, fun id q hq => ⟨?_, hsame.invoked h id⟩⟩
  rwa [hsame.postponed]

/-- Everything about the requests of the histories. -/
structure Gated (s : Histories H) : Prop extends Placed s where
  held : ∀ h, Held s h

theorem Gated.start : Gated ({} : Histories H) := ⟨.start, fun _ => .start⟩

theorem Gated.same (hg : Gated s) (hsame : SamePlaces s s') : Gated s' :=
  ⟨hg.toPlaced.same hsame, fun h => (hg.held h).same hsame⟩

theorem SamePlaces.markRequestEntry : SamePlaces s (s.markRequestEntry h) := by
  obtain ⟨-, -, -, -, -, hflights, hevents⟩ := markRequestEntry_fields (s := s) (h := h)
  exact .of_fields (fun _ => markRequestEntry_same.sent) (fun _ => markRequestEntry_same.postponed)
    hflights hevents

theorem gate_of_subset (hsub : ∀ id r, (id, r) ∈ (s.state h).sent.entries →
    (id, r) ∈ (s'.state h').sent.entries) (hdelete : postponeHistoryRequest (s.state h) = true) :
    postponeHistoryRequest (s'.state h') = true := by
  obtain ⟨id, r, hr, htype⟩ := postponeHistoryRequest_iff.mp hdelete
  exact postponeHistoryRequest_iff.mpr ⟨id, r, hsub id r hr, htype⟩

theorem Gated.sendRequest (hl : Linked s) (hg : Gated s) {type : RequestType} {generator : Query}
    (hplain : type = .history → generator = .plain) :
    Gated (s.sendRequest h type generator) ∧ Calm s (s.sendRequest h type generator) := by
  obtain ⟨hsent, hpostponed⟩ := hl.next_unused (h := h)
  have hreturned : ∀ h' id', Event.returned h' id' ∈ (s.returnNext h).events ↔
      Event.returned h' id' ∈ s.events ∨ (h' = h ∧ id' = s.requestAutoincrement + 1) := by
    intro h' id'
    refine List.mem_append.trans (or_congr_right ?_)
    rw [List.mem_singleton, Event.returned.injEq]
  have hevents : ∀ e ∈ s.events, e ∈ (s.returnNext h).events := fun e he =>
    List.mem_append_left _ he
  have hcount : ∀ h' id', (s.returnNext h).events.count (.invoked h' id') =
      s.events.count (.invoked h' id') := by
    intro h' id'
    refine List.count_append.trans (Nat.add_eq_left.mpr (List.count_eq_zero.mpr ?_))
    rw [List.mem_singleton]
    rintro ⟨⟩
  have hold : ∀ h' id', Event.finished h' id' ∈ s.events ∨ Event.cancelled h' id' ∈ s.events →
      Event.finished h' id' ∈ (s.returnNext h).events ∨
        Event.cancelled h' id' ∈ (s.returnNext h).events := fun h' id' =>
    Or.imp (hevents _) (hevents _)
  have hlinked := hl.returnNext.sendNow hsent hpostponed le_rfl hplain
  rw [sendRequest_eq]
  by_cases hgate : type = .history ∧ postponeHistoryRequest (s.state h) = true
  · rw [if_pos hgate]
    obtain ⟨-, hdelete⟩ := hgate
    have hsame : ∀ h', (((s.returnNext h).put h { s.state h with
        postponed := (s.state h).postponed.emplace (s.requestAutoincrement + 1)
          generator }).state h').sent = (s.state h').sent := fun h' => sent_put_requests _
    have hgates : ∀ h', postponeHistoryRequest (((s.returnNext h).put h { s.state h with
        postponed := (s.state h).postponed.emplace (s.requestAutoincrement + 1)
          generator }).state h') = postponeHistoryRequest (s.state h') := by
      intro h'
      rw [postponeHistoryRequest, postponeHistoryRequest, hsame]
    have hmore : ∀ h' id' q, (id', q) ∈ (s.state h').postponed.entries → (id', q) ∈
        (((s.returnNext h).put h { s.state h with
          postponed := (s.state h).postponed.emplace (s.requestAutoincrement + 1)
            generator }).state h').postponed.entries := by
      intro h' id' q hq
      rw [state_put]
      split_ifs with hh
      · rw [hh] at hq
        exact (FlatMap.mem_emplace _ _ _ _).mpr (.inl hq)
      · exact hq
    refine ⟨⟨⟨fun h' id' r => ?_, fun h' id' r => ?_, fun h' id' hgiven => ?_⟩, fun h' => ?_⟩,
      fun h' hdelete' => ⟨(hgates h').trans hdelete', fun id' q hq => ⟨hmore h' id' q hq,
        hcount h' id'⟩⟩⟩
    · rw [hsame, hgates]
      exact hg.gate h' id' r
    · rw [hsame]
      exact hg.flying h' id' r
    · rw [hsame]
      rcases (hreturned h' id').mp hgiven with hgiven | ⟨rfl, rfl⟩
      · rcases hg.found h' id' hgiven with hdone | hdone | hin | hin
        · exact .inl (hevents _ hdone)
        · exact .inr (.inl (hevents _ hdone))
        · exact .inr (.inr (.inl hin))
        · obtain ⟨q, hq⟩ := get?_ne_none_iff.mp hin
          exact .inr (.inr (.inr (get?_ne_none_iff.mpr ⟨q, hmore h' id' q hq⟩)))
      · refine .inr (.inr (.inr ?_))
        rw [state_put, if_pos rfl, FlatMap.get?_emplace, if_pos rfl]
        exact Option.some_ne_none _
    · intro id' q hq
      rw [hgates]
      rw [state_put] at hq
      split_ifs at hq with hh
      · rw [hh]
        exact hdelete
      · exact hg.held h' id' q hq
  · rw [if_neg hgate]
    dsimp only
    have hmark := SamePlaces.markRequestEntry (h := h)
      (s := (s.returnNext h).sendNow h (s.requestAutoincrement + 1) type generator)
    have hmarked := hlinked.markRequestEntry (h := h)
    generalize ((s.returnNext h).sendNow h (s.requestAutoincrement + 1) type
      generator).markRequestEntry h = s₃ at *
    have hsent₃ : ∀ h' id' r, (id', r) ∈ (s₃.state h').sent.entries ↔
        (id', r) ∈ (s.state h').sent.entries ∨ (h' = h ∧ id' = s.requestAutoincrement + 1 ∧
          r = ⟨generator, s.mtpAutoincrement + 1, type⟩) := by
      intro h' id' r
      rw [hmark.sent]
      exact mem_sent_sendNow hsent
    have hpostponed₃ : ∀ h', (s₃.state h').postponed = (s.state h').postponed := by
      intro h'
      rw [hmark.postponed, postponed_sendNow]
      rfl
    have hflying₃ : ∀ h' id' r, (id', r) ∈ (s₃.state h').sent.entries →
        (r.id, Target.request h' id' r.generator) ∈ s₃.flights.entries := by
      intro h' id' r hr
      apply hmark.flights
      apply (flights_sendNow hl.returnNext).mpr
      rcases (hsent₃ h' id' r).mp hr with hr | ⟨rfl, rfl, rfl⟩
      · exact .inl (hg.flying h' id' r hr)
      · exact .inr rfl
    have hfound₃ : ∀ h' id', Event.returned h' id' ∈ s₃.events →
        Event.finished h' id' ∈ s₃.events ∨ Event.cancelled h' id' ∈ s₃.events ∨
          (s₃.state h').sent.get? id' ≠ none ∨ (s₃.state h').postponed.get? id' ≠ none := by
      intro h' id' hgiven
      have hkept : ∀ e ∈ s.events, (∀ tillId, e ≠ .readHistory h tillId) → e ∈ s₃.events :=
        fun e he hread => hmark.events e ((mem_events_sendNow hread).mpr (.inl (hevents e he)))
      have hgiven₂ := (mem_events_sendNow (e := .returned h' id') (by rintro _ ⟨⟩)).mp
        (hmark.returned h' id' hgiven)
      rcases (hreturned h' id').mp (hgiven₂.resolve_right (by rintro ⟨⟩)) with hgiven | ⟨rfl, rfl⟩
      · rw [hpostponed₃]
        rcases hg.found h' id' hgiven with hdone | hdone | hin | hin
        · exact .inl (hkept _ hdone (by rintro _ ⟨⟩))
        · exact .inr (.inl (hkept _ hdone (by rintro _ ⟨⟩)))
        · obtain ⟨r, hr⟩ := get?_ne_none_iff.mp hin
          exact .inr (.inr (.inl (get?_ne_none_iff.mpr ⟨r, (hsent₃ h' id' r).mpr (.inl hr)⟩)))
        · exact .inr (.inr (.inr hin))
      · exact .inr (.inr (.inl (get?_ne_none_iff.mpr
          ⟨_, (hsent₃ _ _ _).mpr (.inr ⟨rfl, rfl, rfl⟩)⟩)))
    have hcount₃ : ∀ h' id' q, (id', q) ∈ (s.state h').postponed.entries →
        s₃.events.count (.invoked h' id') = s.events.count (.invoked h' id') := by
      intro h' id' q hq
      have hle := hl.postponed_le h' id' q hq
      have hne : ¬ (h' = h ∧ id' = s.requestAutoincrement + 1) := fun heq => by omega
      rw [hmark.invoked, count_sendNow, if_neg hne, hcount]
      rfl
    have hgate₃ : ∀ h', h' ≠ h → ∀ id' r, (id', r) ∈ (s₃.state h').sent.entries →
        r.type = .history → postponeHistoryRequest (s₃.state h') = false := by
      intro h' hh id' r hr htype
      have hsame : (s₃.state h').sent = (s.state h').sent := by
        apply FlatMap.eq_of_mem_iff
        rintro ⟨id'', r''⟩
        exact (hsent₃ h' id'' r'').trans (or_iff_left fun heq => hh heq.1)
      rw [hsame] at hr
      rw [postponeHistoryRequest, hsame]
      exact hg.gate h' id' r hr htype
    have hdeletes : ∀ h', postponeHistoryRequest (s.state h') = true →
        postponeHistoryRequest (s₃.state h') = true := fun h' =>
      gate_of_subset fun id' r hr => (hsent₃ h' id' r).mpr (.inl hr)
    split_ifs with hresend
    · have hplaced := Placed.resendHistoryRequests hmarked hflying₃ hgate₃ hfound₃
      obtain ⟨hsent₄, hpostponed₄, hother₄⟩ := mem_resendHistoryRequests (h := h) hmarked
      have hdelete₄ : ∀ h', postponeHistoryRequest (s₃.state h') = true →
          postponeHistoryRequest ((s₃.resendHistoryRequests h).state h') = true := by
        intro h' hdelete
        by_cases hh : h' = h
        · subst hh
          obtain ⟨id', r, hr, htype⟩ := postponeHistoryRequest_iff.mp hdelete
          refine postponeHistoryRequest_iff.mpr ⟨id', r, (hsent₄ id' r).mpr ⟨hr, ?_⟩, htype⟩
          rw [htype]
          rintro ⟨⟩
        · rwa [hother₄ h' hh]
      refine ⟨⟨hplaced, fun h' id' q hq => hdelete₄ h' ?_⟩, fun h' hdelete =>
        ⟨hdelete₄ h' (hdeletes h' hdelete), fun id' q hq => ⟨?_, ?_⟩⟩⟩
      · by_cases hh : h' = h
        · rw [hh]
          exact hresend
        · rw [hother₄ h' hh, hpostponed₃] at hq
          exact hdeletes h' (hg.held h' id' q hq)
      · rw [← hpostponed₃] at hq
        by_cases hh : h' = h
        · subst hh
          exact (hpostponed₄ id' q).mpr (.inl hq)
        · rwa [hother₄ h' hh]
      · rw [events_resendHistoryRequests]
        exact hcount₃ h' id' q hq
    · refine ⟨⟨⟨fun h' id' r hr htype => ?_, hflying₃, hfound₃⟩, fun h' id' q hq => ?_⟩,
        fun h' hdelete => ⟨hdeletes h' hdelete, fun id' q hq => ⟨?_, hcount₃ h' id' q hq⟩⟩⟩
      · by_cases hh : h' = h
        · rw [hh]
          exact Bool.eq_false_of_not_eq_true hresend
        · exact hgate₃ h' hh id' r hr htype
      · rw [hpostponed₃] at hq
        exact hdeletes h' (hg.held h' id' q hq)
      · rwa [hpostponed₃]

/-- Every generator that was postponed is called, once and in order. -/
theorem sendAll_facts {entries : List (ℕ × Query)} (hplain : ∀ entry ∈ entries, entry.2 = .plain)
    (s : Histories H) :
    (entries.foldl (fun s entry => s.sendNow h entry.1 .history entry.2) s).events =
        s.events ++ entries.map (fun entry => .invoked h entry.1) ∧
      (∀ h', ((entries.foldl (fun s entry => s.sendNow h entry.1 .history entry.2) s).state
        h').postponed = (s.state h').postponed) ∧
      ∀ h' id, (s.state h').sent.get? id ≠ none ∨ (h' = h ∧ ∃ q, (id, q) ∈ entries) →
        ((entries.foldl (fun s entry => s.sendNow h entry.1 .history entry.2) s).state
          h').sent.get? id ≠ none := by
  induction entries generalizing s with
  | nil =>
    refine ⟨(List.append_nil _).symm, fun _ => rfl, ?_⟩
    rintro h' id (hin | ⟨-, q, hq⟩)
    · exact hin
    · exact nomatch hq
  | cons entry entries ih =>
    obtain ⟨hevents, hpostponed, hsent⟩ := ih
      (fun other hother => hplain other (List.mem_cons_of_mem _ hother))
      (s.sendNow h entry.1 .history entry.2)
    have hplain₁ := hplain entry List.mem_cons_self
    refine ⟨hevents.trans ?_, fun h' => (hpostponed h').trans postponed_sendNow, ?_⟩
    · rw [hplain₁]
      exact List.append_assoc _ _ _
    · intro h' id hin
      apply hsent
      rw [state_sendNow]
      by_cases hh : h' = h
      · subst hh
        rw [if_pos rfl, FlatMap.get?_emplace]
        split_ifs with hid
        · exact .inl (Option.some_ne_none _)
        · refine hin.imp (fun hin => hin) fun hin => ⟨rfl, ?_⟩
          obtain ⟨-, q, hq⟩ := hin
          refine ⟨q, (List.mem_cons.mp hq).resolve_left fun heq => hid ?_⟩
          exact congrArg Prod.fst heq
      · rw [if_neg hh]
        exact hin.imp (fun hin => hin) fun hin => absurd hin.1 hh

theorem count_invoked {entries : List (ℕ × Query)}
    (hsorted : entries.Pairwise fun a b => a.1 < b.1) {q : Query} (hq : (id, q) ∈ entries) :
    (entries.map fun entry => Event.invoked h entry.1).count (.invoked h id) = 1 := by
  refine List.count_eq_one_of_mem ?_ (List.mem_map.mpr ⟨(id, q), hq, rfl⟩)
  refine List.pairwise_map.mpr (hsorted.imp fun hlt heq => hlt.ne ?_)
  exact (Event.invoked.inj heq).2

theorem count_invoked_other {entries : List (ℕ × Query)} (hh : h' ≠ h) :
    (entries.map fun entry => Event.invoked h entry.1).count (.invoked h' id) = 0 := by
  refine List.count_eq_zero.mpr fun hmem => ?_
  obtain ⟨entry, -, heq⟩ := List.mem_map.mp hmem
  exact hh (Event.invoked.inj heq).1.symm

theorem events_eraseSent : (s.eraseSent h id).events = s.events := by
  rw [Histories.eraseSent]
  split
  · rfl
  · rfl

/-- A finished request leaves the others where they are, and only those that a delete holds. -/
theorem Gated.eraseSent (hl : Linked s) (hg : Gated s)
    (hdone : Event.finished h id ∈ s.events ∨ Event.cancelled h id ∈ s.events) :
    Placed (s.eraseSent h id) ∧ ∀ h', h' ≠ h → Held (s.eraseSent h id) h' := by
  obtain ⟨hsent, hpostponed, hother, hflights⟩ := mem_eraseSent s h id
  have hsub : ∀ h' id' r, (id', r) ∈ ((s.eraseSent h id).state h').sent.entries →
      (id', r) ∈ (s.state h').sent.entries ∧ (h' = h → id' ≠ id) := by
    intro h' id' r hr
    by_cases hh : h' = h
    · subst hh
      exact ⟨((hsent id' r).mp hr).1, fun _ => ((hsent id' r).mp hr).2⟩
    · rw [hother h' hh] at hr
      exact ⟨hr, fun heq => absurd heq hh⟩
  refine ⟨⟨fun h' id' r hr htype => ?_, fun h' id' r hr => ?_, fun h' id' hgiven => ?_⟩,
    fun h' hh id' q hq => ?_⟩
  · have hnone := hg.gate h' id' r (hsub h' id' r hr).1 htype
    by_contra hdelete
    have hdelete' := gate_of_subset (fun id'' r'' hr'' => (hsub h' id'' r'' hr'').1)
      (Bool.eq_true_of_not_eq_false hdelete)
    exact Bool.false_ne_true (hnone.symm.trans hdelete')
  · obtain ⟨hold, hne⟩ := hsub h' id' r hr
    refine (hflights _).mpr ⟨hg.flying h' id' r hold, fun r' hr' heq => ?_⟩
    obtain ⟨hh, hid⟩ := hg.id_ne hl hold hr' heq
    exact hne hh hid
  · rw [events_eraseSent] at hgiven ⊢
    rw [hpostponed]
    by_cases heq : h' = h ∧ id' = id
    · obtain ⟨rfl, rfl⟩ := heq
      exact hdone.imp_right .inl
    · refine (hg.found h' id' hgiven).imp_right (Or.imp_right (Or.imp_left fun hin => ?_))
      obtain ⟨r, hr⟩ := get?_ne_none_iff.mp hin
      by_cases hh : h' = h
      · subst hh
        exact get?_ne_none_iff.mpr ⟨r, (hsent id' r).mpr ⟨hr, fun hid => heq ⟨rfl, hid⟩⟩⟩
      · rw [hother h' hh]
        exact hin
  · rw [hpostponed] at hq
    rw [postponeHistoryRequest, hother h' hh]
    exact hg.held h' id' q hq

/-- With the last delete gone, what it held and is not given up is called once. -/
def Freed (gone : ℕ → Prop) (s s' : Histories H) : Prop :=
  ∀ h id q, (id, q) ∈ (s.state h).postponed.entries → ¬ gone id →
    (postponeHistoryRequest (s'.state h) = true ∧ (id, q) ∈ (s'.state h).postponed.entries ∧
        s'.events.count (.invoked h id) = s.events.count (.invoked h id)) ∨
      (postponeHistoryRequest (s'.state h) = false ∧
        s'.events.count (.invoked h id) = s.events.count (.invoked h id) + 1)

theorem Placed.sendPostponed (hl : Linked s) (hp : Placed s) (hheld : ∀ h', h' ≠ h → Held s h')
    (gone : ℕ → Prop) : Gated (s.sendPostponed h) ∧ Freed gone s (s.sendPostponed h) := by
  by_cases hgo : (!(s.state h).postponed.isEmpty && !postponeHistoryRequest (s.state h)) = true
  · have hfree : postponeHistoryRequest (s.state h) = false := by
      rw [Bool.and_eq_true, Bool.not_eq_true', Bool.not_eq_true'] at hgo
      exact hgo.2
    have hrule := sendPostponed_rule (h := h) (P := fun t =>
      (∀ h', h' ≠ h → (t.state h').sent = (s.state h').sent) ∧
      (∀ h' id r, (id, r) ∈ (t.state h').sent.entries →
        (r.id, Target.request h' id r.generator) ∈ t.flights.entries) ∧
      postponeHistoryRequest (t.state h) = false) ?_ hl
      ⟨fun _ _ => rfl, hp.flying, hfree⟩ ?_
    · obtain ⟨-, hother, hflying, hnone⟩ := hrule
      obtain ⟨hevents, hpostponed, hsent⟩ := sendAll_facts (h := h)
        (fun entry => hl.plain_postponed h entry.1 entry.2)
        (s.put h { s.state h with postponed := ∅ })
      have hself : s.sendPostponed h = (s.state h).postponed.entries.foldl
          (fun s entry => s.sendNow h entry.1 .history entry.2)
          (s.put h { s.state h with postponed := ∅ }) := by
        rw [Histories.sendPostponed, if_pos hgo]
      rw [← hself] at hevents hpostponed hsent
      change _ = s.events ++ _ at hevents
      have hgate : ∀ h', h' ≠ h → postponeHistoryRequest ((s.sendPostponed h).state h') =
          postponeHistoryRequest (s.state h') := by
        intro h' hh
        rw [postponeHistoryRequest, postponeHistoryRequest, hother h' hh]
      have hkept : ∀ h', h' ≠ h →
          ((s.sendPostponed h).state h').postponed = (s.state h').postponed := by
        intro h' hh
        rw [hpostponed, state_put, if_neg hh]
      refine ⟨⟨⟨fun h' id r hr htype => ?_, hflying, fun h' id hgiven => ?_⟩, fun h' id q hq => ?_⟩,
        fun h' id q hq _ => ?_⟩
      · by_cases hh : h' = h
        · rw [hh]
          exact hnone
        · rw [hother h' hh] at hr
          exact (hgate h' hh).trans (hp.gate h' id r hr htype)
      · have hmore : ∀ e ∈ s.events, e ∈ (s.sendPostponed h).events := fun e he =>
          hevents ▸ List.mem_append_left _ he
        rw [hevents, List.mem_append] at hgiven
        have hold := hgiven.resolve_right fun hin => by
          obtain ⟨entry, -, heq⟩ := List.mem_map.mp hin
          cases heq
        rcases hp.found h' id hold with hdone | hdone | hin | hin
        · exact .inl (hmore _ hdone)
        · exact .inr (.inl (hmore _ hdone))
        · refine .inr (.inr (.inl (hsent h' id (.inl ?_))))
          rwa [sent_put_requests]
        · by_cases hh : h' = h
          · subst hh
            exact .inr (.inr (.inl (hsent h' id (.inr ⟨rfl, get?_ne_none_iff.mp hin⟩))))
          · rw [hkept h' hh]
            exact .inr (.inr (.inr hin))
      · by_cases hh : h' = h
        · rw [hpostponed, hh, state_put, if_pos rfl] at hq
          exact absurd hq List.not_mem_nil
        · rw [hkept h' hh] at hq
          exact (hgate h' hh).trans (hheld h' hh id q hq)
      · rw [hevents, List.count_append]
        by_cases hh : h' = h
        · subst hh
          exact .inr ⟨hnone, congrArg _ (count_invoked (s.state h').postponed.sorted hq)⟩
        · refine .inl ⟨(hgate h' hh).trans (hheld h' hh id q hq), ?_, ?_⟩
          · rwa [hkept h' hh]
          · rw [count_invoked_other hh, Nat.add_zero]
    · rintro t id hlinked ⟨hother, hflying, hnone⟩ hfresh
      refine ⟨fun h' hh => ?_, fun h' id' r hr => ?_, ?_⟩
      · rw [state_sendNow, if_neg hh]
        exact hother h' hh
      · apply (flights_sendNow hlinked).mpr
        rcases (mem_sent_sendNow hfresh).mp hr with hr | ⟨rfl, rfl, rfl⟩
        · exact .inl (hflying h' id' r hr)
        · exact .inr rfl
      · by_contra hdelete
        obtain ⟨id', r, hr, htype⟩ :=
          postponeHistoryRequest_iff.mp (Bool.eq_true_of_not_eq_false hdelete)
        rcases (mem_sent_sendNow hfresh).mp hr with hr | ⟨-, -, rfl⟩
        · have hold := postponeHistoryRequest_iff.mpr ⟨id', r, hr, htype⟩
          exact Bool.false_ne_true (hnone.symm.trans hold)
        · cases htype
    · refine ⟨fun h' _ => sent_put_requests _, fun h' id r hr => ?_, ?_⟩
      · rw [sent_put_requests] at hr
        exact hp.flying h' id r hr
      · rw [postponeHistoryRequest, sent_put_requests]
        exact hfree
  · have hself : s.sendPostponed h = s := by
      rw [Histories.sendPostponed, if_neg hgo]
    have hall : ∀ h', Held s h' := by
      intro h'
      by_cases hh : h' = h
      · subst hh
        intro id q hq
        by_contra hdelete
        apply hgo
        have hsome : (s.state h').postponed.isEmpty = false :=
          Bool.eq_false_of_not_eq_true fun hempty =>
            List.ne_nil_of_mem hq ((FlatMap.isEmpty_iff _).mp hempty)
        rw [hsome, Bool.eq_false_of_not_eq_true hdelete]
        rfl
      · exact hheld h' hh
    rw [hself]
    exact ⟨⟨hp, hall⟩, fun h' id q hq _ => .inl ⟨hall h' id q hq, hq, rfl⟩⟩

theorem SamePlaces.checkEmptyState : SamePlaces s (s.checkEmptyState h) := by
  have hevents : (s.checkEmptyState h).events = s.events := by
    rw [Histories.checkEmptyState]
    split
    · split_ifs
      · rfl
      · rfl
    · rfl
  exact .of_fields (fun _ => state_checkEmptyState.sent) (fun _ => state_checkEmptyState.postponed)
    checkEmptyState_counters.1 hevents

theorem SamePlaces.put_read {state : State} (hsent : state.sent = (s.state h).sent)
    (hpostponed : state.postponed = (s.state h).postponed) : SamePlaces s (s.put h state) := by
  have hsame : ∀ h', ((s.put h state).state h').sent = (s.state h').sent ∧
      ((s.put h state).state h').postponed = (s.state h').postponed := by
    intro h'
    rw [state_put]
    split_ifs with hh
    · rw [hh]
      exact ⟨hsent, hpostponed⟩
    · exact ⟨rfl, rfl⟩
  exact .of_fields (fun h' => (hsame h').1) (fun h' => (hsame h').2) rfl rfl

theorem SamePlaces.moveDialogRequest (hmove : s.moveDialogRequest h = some s') :
    SamePlaces s s' := by
  rcases moveDialogRequest_cases hmove with ⟨-, -, callbacks, -, rfl⟩ | ⟨-, rfl⟩
  · obtain ⟨-, -, -, -, hflights, hevents⟩ := postponeRequestDialogEntries_fields (s := { s with
        dialogRequestsPending := s.dialogRequestsPending.emplace h callbacks
        dialogRequests := s.dialogRequests.erase h }.put h
          { s.state h with postponedRequestEntry := false })
    have hput : SamePlaces s (s.put h { s.state h with postponedRequestEntry := false }) :=
      .put_read rfl rfl
    refine .of_fields (fun h' => ?_) (fun h' => ?_) hflights hevents
    · rw [state_postponeRequestDialogEntries]
      exact hput.sent h'
    · rw [state_postponeRequestDialogEntries]
      exact hput.postponed h'
  · exact .of_fields (fun _ => rfl) (fun _ => rfl) rfl rfl

theorem SamePlaces.emit {event : Event H} (hreturned : ∀ h id, event ≠ .returned h id)
    (hinvoked : ∀ h id, event ≠ .invoked h id) : SamePlaces s (s.emit event) := by
  refine ⟨fun _ => rfl, fun _ => rfl, fun _ _ _ _ hflight => hflight,
    fun _ he => List.mem_append_left _ he, fun h id hin => ?_, fun h id => ?_⟩
  · refine (List.mem_append.mp hin).resolve_right fun hlast => ?_
    exact hreturned h id (List.mem_singleton.mp hlast).symm
  · refine List.count_append.trans (Nat.add_eq_left.mpr (List.count_eq_zero.mpr fun hlast => ?_))
    exact hinvoked h id (List.mem_singleton.mp hlast).symm

theorem Freed.same {gone : ℕ → Prop} (hfreed : Freed gone s s') (hsame : SamePlaces s' s'') :
    Freed gone s s'' := by
  intro h id q hq hgone
  rw [hsame.gate, hsame.postponed, hsame.invoked]
  exact hfreed h id q hq hgone

theorem Gated.finishSentRequest (hl : Linked s) (hg : Gated s)
    (hdone : Event.finished h id ∈ s.events ∨ Event.cancelled h id ∈ s.events)
    (hfinish : s.finishSentRequest h id = some s') (gone : ℕ → Prop) :
    Gated s' ∧ Freed gone s s' := by
  obtain ⟨moved, hmoved, rfl⟩ := Option.map_eq_some_iff.mp hfinish
  obtain ⟨hplaced, hheld⟩ := hg.eraseSent hl hdone
  obtain ⟨hgated, hfreed⟩ := hplaced.sendPostponed hl.eraseSent hheld gone
  have hmove := SamePlaces.moveDialogRequest hmoved
  have hcheck := SamePlaces.checkEmptyState (s := moved) (h := h)
  have hfreed' := (hfreed.same hmove).same hcheck
  obtain ⟨-, hpostponed, -⟩ := mem_eraseSent s h id
  refine ⟨(hgated.same hmove).same hcheck, fun h' id' q hq hgone => ?_⟩
  rw [← hpostponed] at hq
  have hend := hfreed' h' id' q hq hgone
  rwa [events_eraseSent] at hend

theorem Gated.freed (hg : Gated s) (hsame : SamePlaces s s') (gone : ℕ → Prop) :
    Freed gone s s' := by
  intro h id q hq _
  rw [hsame.gate, hsame.postponed, hsame.invoked]
  exact .inl ⟨hg.held h id q hq, hq, rfl⟩

theorem Gated.checkPostponed (hl : Linked s) (hg : Gated s)
    (hfinish : s.checkPostponed h id = some s') (gone : ℕ → Prop) :
    Gated s' ∧ Freed gone s s' := by
  have hemit : SamePlaces s (s.emit (.finished h id)) := .emit nofun nofun
  rw [Histories.checkPostponed] at hfinish
  split at hfinish
  · obtain ⟨hgated, hfreed⟩ := (hg.same hemit).finishSentRequest (hl.emit _)
      (.inl (List.mem_append_right _ List.mem_cons_self)) hfinish gone
    refine ⟨hgated, fun h' id' q hq hgone => ?_⟩
    have hend := hfreed h' id' q hq hgone
    rwa [hemit.invoked] at hend
  · cases hfinish
    exact ⟨hg.same hemit, hg.freed hemit gone⟩

/-- A request that was given up need not be found any more. -/
theorem Gated.drop (hg : Gated s) (hdone : Event.cancelled h id ∈ s.events) :
    Gated (s.drop h id) ∧ ∀ h' id' q, (id', q) ∈ (s.state h').postponed.entries → id' ≠ id →
      (id', q) ∈ ((s.drop h id).state h').postponed.entries := by
  have hless : ∀ h' id' q, (id', q) ∈ ((s.drop h id).state h').postponed.entries ↔
      (id', q) ∈ (s.state h').postponed.entries ∧ ¬ (h' = h ∧ id' = id) := by
    intro h' id' q
    rw [Histories.drop, state_put]
    split_ifs with hh
    · rw [hh]
      exact (FlatMap.mem_erase _ _ _).trans (and_congr_right' (by rw [and_iff_right rfl]))
    · exact (and_iff_left fun heq => hh heq.1).symm
  have hsent : ∀ h', ((s.drop h id).state h').sent = (s.state h').sent :=
    fun h' => sent_put_requests _
  refine ⟨⟨⟨fun h' id' r => ?_, fun h' id' r => ?_, fun h' id' hgiven => ?_⟩,
      fun h' id' q hq => ?_⟩,
    fun h' id' q hq hne => (hless h' id' q).mpr ⟨hq, fun heq => hne heq.2⟩⟩
  · rw [postponeHistoryRequest, hsent]
    exact hg.gate h' id' r
  · rw [hsent]
    exact hg.flying h' id' r
  · rw [hsent]
    by_cases heq : h' = h ∧ id' = id
    · obtain ⟨rfl, rfl⟩ := heq
      exact .inr (.inl hdone)
    · refine (hg.found h' id' hgiven).imp_right (Or.imp_right (Or.imp_right fun hin => ?_))
      obtain ⟨q, hq⟩ := get?_ne_none_iff.mp hin
      exact get?_ne_none_iff.mpr ⟨q, (hless h' id' q).mpr ⟨hq, heq⟩⟩
  · rw [postponeHistoryRequest, hsent]
    exact hg.held h' id' q ((hless h' id' q).mp hq).1

theorem SamePlaces.giveUp (h : H) (id : ℕ) : SamePlaces s (s.giveUp h id) := by
  have hcounter : SamePlaces s { s with historyByRequest := s.historyByRequest.erase id } :=
    .of_fields (fun _ => rfl) (fun _ => rfl) rfl rfl
  exact hcounter.trans (.emit nofun nofun)

theorem Gated.cancelRequest (hl : Linked s) (hg : Gated s)
    (hcancel : s.cancelRequest id = some s') : Gated s' ∧ Freed (· = id) s s' := by
  have hgiveUp : ∀ h, SamePlaces s (s.giveUp h id) := fun h => .giveUp h id
  refine cancelRequest_rule (P := fun s' => Gated s' ∧ Freed (· = id) s s') hcancel ?_ ?_ ?_
  · exact ⟨hg, hg.freed (.of_fields (fun _ => rfl) (fun _ => rfl) rfl rfl) _⟩
  · exact fun h => ⟨hg.same (hgiveUp h), hg.freed (hgiveUp h) _⟩
  · intro h hfinish
    have hdone : Event.cancelled h id ∈ (s.giveUp h id).events :=
      List.mem_append_right _ List.mem_cons_self
    obtain ⟨hdrop, hkept⟩ := (hg.same (hgiveUp h)).drop hdone
    obtain ⟨hend, hfreed⟩ := hdrop.finishSentRequest ((hl.giveUp h id).drop h id) (.inr hdone)
      hfinish (· = id)
    refine ⟨hend, fun h' id' q hq hgone => ?_⟩
    rw [← (hgiveUp h).postponed] at hq
    have hcalled := hfreed h' id' q (hkept h' id' q hq hgone) hgone
    rw [← (hgiveUp h).invoked]
    exact hcalled

theorem SamePlaces.requestDialogEntry (callback : Option Callback) :
    SamePlaces s (s.requestDialogEntry h callback) := by
  have hasked := requestDialogEntry_asked (s := s) (h := h) callback
  obtain ⟨hevents, -⟩ := requestDialogEntry_events (s := s) (h := h) callback
  exact .of_fields (fun h' => by rw [hasked.state]) (fun h' => by rw [hasked.state])
    hasked.flights hevents

/-- A new request of another kind takes nothing away. -/
theorem SamePlaces.of_more {target : Target H} (hsent : ∀ h, (s'.state h).sent = (s.state h).sent)
    (hpostponed : ∀ h, (s'.state h).postponed = (s.state h).postponed)
    (hflights : s'.flights = s.flights.emplace (s.mtpAutoincrement + 1) target)
    (hevents : s'.events = s.events) : SamePlaces s s' := by
  refine ⟨hsent, hpostponed, fun m h id q hflight => ?_, ?_, ?_, ?_⟩
  · rw [hflights]
    exact (FlatMap.mem_emplace _ _ _ _).mpr (.inl hflight)
  · rw [hevents]
    exact fun _ he => he
  · rw [hevents]
    exact fun _ _ hin => hin
  · rw [hevents]
    exact fun _ _ => rfl

theorem SamePlaces.requested (hr : Requested s s') : SamePlaces s s' := by
  obtain ⟨histories, hflights, -⟩ := hr.flights
  have hsame : ∀ h, (s'.state h).sent = (s.state h).sent ∧
      (s'.state h).postponed = (s.state h).postponed := by
    intro h
    rw [hr.state]
    split_ifs
    · exact ⟨rfl, rfl⟩
    · exact ⟨rfl, rfl⟩
  exact .of_more (fun h => (hsame h).1) (fun h => (hsame h).2) hflights hr.rest.1

theorem Move.gated (hmove : Move s s') (hs : Sound s) (hg : Gated s) : Gated s' ∧ Calm s s' := by
  obtain ⟨hl, hd, -⟩ := hs
  have hsame : SamePlaces s s' → Gated s' ∧ Calm s s' := fun hsame => ⟨hg.same hsame, hsame.calm⟩
  cases hmove with
  | send h type generator hplain hread => exact hg.sendRequest hl hplain
  | read h hwill =>
    have hput : Linked (s.put h (s.state h).readSent) := hl.put_read _ rfl rfl
    have hplaces : SamePlaces s (s.put h (s.state h).readSent) := .put_read rfl rfl
    have hsend : RequestType.readInbox = .history →
        Query.readHistory (s.state h).willReadTill = .plain := fun heq => nomatch heq
    obtain ⟨hgated, hcalm⟩ := (hg.same hplaces).sendRequest (h := h) hput hsend
    exact ⟨hgated, hplaces.calm.trans hcalm⟩
  | entry h => exact hsame (.requestDialogEntry none)
  | register h =>
    have hcounter : SamePlaces s { s with
        callbackAutoincrement := s.callbackAutoincrement + 1 } :=
      .of_fields (fun _ => rfl) (fun _ => rfl) rfl rfl
    have hcounted : SamePlaces { s with callbackAutoincrement := s.callbackAutoincrement + 1 }
        ({ s with callbackAutoincrement := s.callbackAutoincrement + 1 }.emit
          (.registered h s.callbackAutoincrement)) := .emit nofun nofun
    exact hsame ((hcounter.trans hcounted).trans (.requestDialogEntry _))
  | call =>
    rcases call_cases hd with ⟨hself, -⟩ | hrequested
    · rw [hself] at hsame ⊢
      exact hsame (.of_fields (fun _ => rfl) (fun _ => rfl) rfl rfl)
    · exact hsame (.requested hrequested)
  | inbox h upTo => exact hsame (.of_fields (fun _ => rfl) (fun _ => rfl) rfl rfl)
  | will h tillId when hsent hknown => exact hsame (.put_read rfl rfl)
  | readDone h => exact hsame (.put_read rfl rfl)
  | readApplied h hknown => exact hsame (.put_read rfl rfl)
  | addUser h args => exact hsame (.of_more (fun _ => rfl) (fun _ => rfl) rfl rfl)

theorem Moves.gated (hmoves : Moves s s') (hs : Sound s) (hg : Gated s) :
    Gated s' ∧ Calm s s' := by
  induction hmoves with
  | refl =>
    exact ⟨hg, SamePlaces.calm (.of_fields (fun _ => rfl) (fun _ => rfl) rfl rfl)⟩
  | tail hmoves hmove ih =>
    obtain ⟨hgated, hcalm⟩ := ih
    obtain ⟨hgated', hcalm'⟩ := hmove.gated (Moves.sound hmoves hs) hgated
    exact ⟨hgated', hcalm.trans hcalm'⟩

theorem Gated.cancel (hg : Gated s) {m : ℕ}
    (hgone : ∀ h id r, (id, r) ∈ (s.state h).sent.entries → r.id ≠ m) : Gated (s.cancel m) :=
  ⟨⟨hg.gate, fun h id r hr =>
      (FlatMap.mem_erase _ _ _).mpr ⟨hg.flying h id r hr, hgone h id r hr⟩, hg.found⟩, hg.held⟩

theorem SamePlaces.callAll (request : ℕ) : SamePlaces s (s.callAll h request) := by
  refine ⟨fun _ => rfl, fun _ => rfl, fun _ _ _ _ hflight => hflight,
    fun _ he => List.mem_append_left _ he, fun h' id hin => ?_, fun h' id => ?_⟩
  · refine (List.mem_append.mp hin).resolve_right fun hlast => ?_
    obtain ⟨n, -, heq⟩ := List.mem_map.mp hlast
    exact nomatch heq
  · refine List.count_append.trans (Nat.add_eq_left.mpr (List.count_eq_zero.mpr fun hlast => ?_))
    obtain ⟨n, -, heq⟩ := List.mem_map.mp hlast
    exact nomatch heq

theorem SamePlaces.applyRead : SamePlaces s (s.applyRead h) := by
  rw [Histories.applyRead]
  split_ifs
  · have hset : SamePlaces s (s.setInboxReadTill h (s.state h).sentReadTill) :=
      .of_fields (fun _ => rfl) (fun _ => rfl) rfl rfl
    have hput : SamePlaces (s.setInboxReadTill h (s.state h).sentReadTill)
        ((s.setInboxReadTill h (s.state h).sentReadTill).put h
          { s.state h with sentReadTill := 0 }) := .put_read rfl rfl
    exact (hset.trans hput).trans .checkEmptyState
  · exact .of_fields (fun _ => rfl) (fun _ => rfl) rfl rfl

theorem SamePlaces.dialogEntryApplied (request : ℕ) :
    SamePlaces s (s.dialogEntryApplied h request) := by
  rw [dialogEntryApplied_eq]
  split_ifs
  · exact .of_fields (fun _ => rfl) (fun _ => rfl) rfl rfl
  · exact (SamePlaces.callAll request).trans .applyRead

theorem SamePlaces.finalize (histories : List H) (request : ℕ) :
    SamePlaces s (s.finalize histories request) := by
  induction histories generalizing s with
  | nil => exact .of_fields (fun _ => rfl) (fun _ => rfl) rfl rfl
  | cons first histories ih => exact (SamePlaces.dialogEntryApplied request).trans ih

/-- What takes an answer is not a sent request, unless the answer is for it. -/
theorem Linked.ne_of_other (hl : Linked s) {m : ℕ} {target : Target H}
    (hget : s.flights.get? m = some target) (htarget : ∀ h id q, target ≠ .request h id q)
    {r : SentRequest} (hr : (id, r) ∈ (s.state h).sent.entries) : r.id ≠ m := by
  rintro rfl
  exact htarget h id r.generator
    ((hl.own h id r hr).2 _ ((FlatMap.get?_eq_some_iff _ _ _).mp hget))

/-- Everything but the answer of a deleted channel finishes its request. -/
theorem Outcome.gated {action : Action H} (houtcome : Outcome s action s') (hs : Sound s)
    (hg : Gated s) (hfinishes : ∀ m answer h id, action = .answer m answer →
      s.flights.get? m ≠ some (.request h id .deleteChannel)) :
    Gated s' ∧ Freed (fun id => action = .cancelRequest id) s s' := by
  have hcalm : ∀ {t : Histories H}, Calm s t →
      Freed (fun id => action = .cancelRequest id) s t := by
    intro t hcalm h id q hq _
    obtain ⟨hdelete, hkept⟩ := hcalm h (hg.held h id q hq)
    exact .inl ⟨hdelete, hkept id q hq⟩
  cases houtcome with
  | moves _ hmoves =>
    obtain ⟨hgated, hcalms⟩ := hmoves.gated hs hg
    exact ⟨hgated, hcalm hcalms⟩
  | cancelled id _ haction hcancel =>
    subst haction
    obtain ⟨hgated, hfreed⟩ := hg.cancelRequest hs.linked hcancel
    refine ⟨hgated, fun h' id' q hq hgone => hfreed h' id' q hq fun heq => hgone ?_⟩
    rw [heq]
  | finished m h id q s₁ s₂ hget hmoves hfinish =>
    obtain ⟨hgated₁, hcalms⟩ := hmoves.gated hs hg
    have hlinked := (hmoves.sound hs).linked
    obtain ⟨hgated₂, hfreed⟩ := hgated₁.checkPostponed hlinked hfinish
      fun id => action = .cancelRequest id
    have hflight := (FlatMap.get?_eq_some_iff _ _ _).mp hget
    have hle := hs.linked.flight_le m _ hflight
    have hlater := hmoves.later hs
    refine ⟨hgated₂.cancel fun h' id' r hr hm => ?_, fun h' id' q' hq hgone => ?_⟩
    · have hold := (hlater.trans (.checkPostponed hlinked hfinish)).sent h' id' r
        (hm.trans_le hle) hr
      obtain ⟨rfl, rfl⟩ := hs.linked.only hflight hold hm
      exact checkPostponed_gone hlinked hfinish ((hm.trans_le hle).trans hlater.mtp_le) hr
    · obtain ⟨hq₁, hcount⟩ := (hcalms h' (hg.held h' id' q' hq)).2 id' q' hq
      have hend := hfreed h' id' q' hq₁ hgone
      rwa [hcount] at hend
  | joined m h args s₁ hget hmoves =>
    obtain ⟨hgated₁, hcalms⟩ := hmoves.gated hs hg
    have hle := hs.linked.flight_le m _ ((FlatMap.get?_eq_some_iff _ _ _).mp hget)
    refine ⟨hgated₁.cancel fun h' id' r hr hm => ?_, hcalm hcalms⟩
    have hold := (hmoves.later hs).sent h' id' r (hm.trans_le hle) hr
    exact hs.linked.ne_of_other hget nofun hold hm
  | applied h haction =>
    have hsame : SamePlaces s (s.dialogEntryApplied h 0) := .dialogEntryApplied 0
    exact ⟨hg.same hsame, hg.freed hsame _⟩
  | entries m answer histories haction hget =>
    have hsame : SamePlaces s (s.finalize histories m) := .finalize histories m
    refine ⟨(hg.same hsame).cancel fun h' id' r hr => ?_, hg.freed hsame _⟩
    rw [hsame.sent] at hr
    exact hs.linked.ne_of_other hget nofun hr
  | unfinished m answer h id haction hget => exact absurd hget (hfinishes m answer h id haction)

/-- What deletes promise about the requests of a history. -/
structure DeletesGate (s : Histories H) : Prop where
  gate : ∀ h id r, (id, r) ∈ (s.state h).sent.entries → r.type = .history →
    ∀ id' r', (id', r') ∈ (s.state h).sent.entries → r'.type ≠ .delete
  placed : ∀ h id, Event.returned h id ∈ s.events → Event.finished h id ∉ s.events →
    Event.cancelled h id ∉ s.events →
      Xor ((s.state h).sent.get? id ≠ none) ((s.state h).postponed.get? id ≠ none)
  held : ∀ h, (s.state h).postponed.entries ≠ [] → ∃ id r, (id, r) ∈ (s.state h).sent.entries ∧
    r.type = .delete ∧ (r.id, Target.request h id r.generator) ∈ s.flights.entries
  waits : ∀ h id r, (id, r) ∈ (s.state h).sent.entries →
    (r.id, Target.request h id r.generator) ∈ s.flights.entries

theorem Gated.deletesGate (hl : Linked s) (hg : Gated s) : DeletesGate s := by
  refine ⟨fun h id r hr htype id' r' hr' hdelete => ?_, fun h id hgiven hfinished hcancelled => ?_,
    fun h hne => ?_, hg.flying⟩
  · have hnone := hg.gate h id r hr htype
    exact Bool.false_ne_true
      (hnone.symm.trans (postponeHistoryRequest_iff.mpr ⟨id', r', hr', hdelete⟩))
  · have hapart : ¬ ((s.state h).sent.get? id ≠ none ∧ (s.state h).postponed.get? id ≠ none) := by
      rintro ⟨hsent, hpostponed⟩
      obtain ⟨r, hr⟩ := get?_ne_none_iff.mp hsent
      obtain ⟨q, hq⟩ := get?_ne_none_iff.mp hpostponed
      exact hl.apart h id r q hr hq
    have hplace := ((hg.found h id hgiven).resolve_left hfinished).resolve_left hcancelled
    exact (xor_iff_or_and_not_and _ _).mpr ⟨hplace, hapart⟩
  · obtain ⟨⟨id, q⟩, hq⟩ := List.exists_mem_of_ne_nil _ hne
    obtain ⟨id', r, hr, htype⟩ := postponeHistoryRequest_iff.mp (hg.held h id q hq)
    exact ⟨id', r, hr, htype, hg.flying h id' r hr⟩

/-- No request to delete a channel is answered in the run. -/
def NoChannelDeleted (s : Histories H) (actions : List (Action H)) : Prop :=
  ∀ before m answer after s', actions = before ++ .answer m answer :: after →
    s.run before = some s' → ∀ h id, s'.flights.get? m ≠ some (.request h id .deleteChannel)

theorem run_gated (hs : Sound s) (hg : Gated s) {actions : List (Action H)}
    (hvalid : ∀ action ∈ actions, action.Valid) (hnone : NoChannelDeleted s actions) :
    ∃ s', s.run actions = some s' ∧ Sound s' ∧ Gated s' := by
  induction actions generalizing s with
  | nil => exact ⟨s, rfl, hs, hg⟩
  | cons action actions ih =>
    obtain ⟨s₁, hs₁, houtcome⟩ := step_outcome hs (hvalid action List.mem_cons_self)
    obtain ⟨hgated, -⟩ := houtcome.gated hs hg fun m answer h id heq =>
      hnone [] m answer actions s (by rw [heq]; rfl) rfl h id
    rw [run_cons, hs₁]
    apply ih (houtcome.sound hs) hgated
    exact fun other hother => hvalid other (List.mem_cons_of_mem _ hother)
    intro before m answer after s' hactions hrun
    apply hnone (action :: before) m answer after s'
    · rw [hactions]
      rfl
    · rw [run_cons, hs₁]
      exact hrun

/-- The promises hold after every step, and a delete that goes frees what it held. -/
def GatedRun (actions : List (Action H)) : Prop :=
  (∀ before after, actions = before ++ after →
    ∃ s, ({} : Histories H).run before = some s ∧ DeletesGate s) ∧
  ∀ before action after s s', actions = before ++ action :: after →
    ({} : Histories H).run before = some s → s.step action = some s' →
      Freed (fun id => action = .cancelRequest id) s s'

/-- Deletes gate the requests of the histories exactly as long as no channel is deleted. -/
theorem gatedRun_iff (actions : List (Action H)) (hvalid : ∀ action ∈ actions, action.Valid) :
    GatedRun actions ↔ NoChannelDeleted {} actions := by
  constructor
  · rintro ⟨hgates, -⟩ before m answer after s hactions hrun h id hget
    have hbefore : ∀ other ∈ before, other.Valid := fun other hother =>
      hvalid other (hactions ▸ List.mem_append_left _ hother)
    obtain ⟨s₁, hs₁, hsound⟩ := run_total Sound.start hbefore
    rw [hrun] at hs₁
    cases hs₁
    obtain ⟨s', hs', hgate⟩ := hgates (before ++ [.answer m answer]) after (by
      rw [hactions, List.append_assoc]
      rfl)
    have hstep : s.step (.answer m answer) = some (s.cancel m) := by
      rw [step, takeAnswer, hget]
      rfl
    have hself : ({} : Histories H).run (before ++ [.answer m answer]) = some (s.cancel m) := by
      rw [run_append, hrun, Option.bind_some, run_cons, hstep]
      rfl
    rw [hself] at hs'
    cases hs'
    -- The request is still sent, and its answer will not come again.
    obtain ⟨r, hr, hid, -⟩ := hsound.linked.answerable m h id _
      ((FlatMap.get?_eq_some_iff _ _ _).mp hget)
    have hflight := hgate.waits h id r hr
    exact ((FlatMap.mem_erase _ _ _).mp hflight).2 hid
  · intro hnone
    have hprefix : ∀ before after, actions = before ++ after →
        ∃ s, ({} : Histories H).run before = some s ∧ Sound s ∧ Gated s := by
      intro before after hactions
      apply run_gated Sound.start Gated.start fun other hother =>
        hvalid other (hactions ▸ List.mem_append_left _ hother)
      intro earlier m answer later s' hbefore hrun
      apply hnone earlier m answer (later ++ after) s' ?_ hrun
      rw [hactions, hbefore, List.append_assoc]
      rfl
    refine ⟨fun before after hactions => ?_, fun before action after s s' hactions hrun hstep => ?_⟩
    · obtain ⟨s, hs, hsound, hgated⟩ := hprefix before after hactions
      exact ⟨s, hs, hgated.deletesGate hsound.linked⟩
    · obtain ⟨s₁, hs₁, hsound, hgated⟩ := hprefix before (action :: after) hactions
      rw [hrun] at hs₁
      cases hs₁
      obtain ⟨s₂, hs₂, houtcome⟩ := step_outcome hsound
        (hvalid action (hactions ▸ List.mem_append_right _ List.mem_cons_self))
      rw [hstep] at hs₂
      cases hs₂
      refine (houtcome.gated hsound hgated fun m answer h id heq => ?_).2
      exact hnone before m answer after s (by rw [hactions, heq]) hrun h id

/-- A history request waits while messages are deleted. -/
theorem gatedRun_iff_messages :
    GatedRun [.deleteMessages 0, .sendRequest 0 .history, .answer 1 { done := true }] ↔
      NoChannelDeleted ({} : Histories ℕ)
        [.deleteMessages 0, .sendRequest 0 .history, .answer 1 { done := true }] :=
  gatedRun_iff _ (by
    intro action haction
    fin_cases haction <;> exact trivial)

/-- After a channel was deleted its history requests are postponed for good. -/
theorem deleted_channel_blocks : ¬ ∀ actions : List (Action ℕ),
    (∀ action ∈ actions, action.Valid) → GatedRun actions := by
  intro hall
  obtain ⟨hgates, -⟩ := hall [.deleteAllMessages 0 ⟨false, true⟩ (.channel true),
    .answer 1 { done := true }, .sendRequest 0 .history] (by
      intro action haction
      fin_cases haction <;> exact trivial)
  obtain ⟨s, hs, hgate⟩ := hgates _ [] (List.append_nil _).symm
  have hend : (({} : Histories ℕ).run [.deleteAllMessages 0 ⟨false, true⟩ (.channel true),
      .answer 1 { done := true }, .sendRequest 0 .history]).map (fun s =>
        ((s.state 0).postponed.entries, s.flights.entries)) = some ([(2, .plain)], []) := by decide
  rw [hs] at hend
  obtain ⟨hpostponed, hflights⟩ := Prod.mk.inj (Option.some.inj hend)
  obtain ⟨id, r, -, -, hflight⟩ := hgate.held 0 (by
    rw [hpostponed]
    exact List.cons_ne_nil _ _)
  rw [hflights] at hflight
  exact nomatch hflight

end TelegramDesktop.Data.Histories
