import TelegramDesktop.Data.HistoriesMoves

namespace TelegramDesktop.Data.Histories
open Base

variable {H : Type} [LinearOrder H] {s s' s'' : Histories H} {h h' : H} {id : ℕ}

theorem mem_registered_emit {event : Event H} {n : Callback} (hn : n ∈ s.registered h) :
    n ∈ (s.emit event).registered h := by
  rw [registered, Histories.emit, List.filterMap_append]
  exact List.mem_append_left _ hn

/-- Nobody is called, and whoever is held up or pending stays one of them. -/
structure Keeps (s s' : Histories H) : Prop where
  flag : ∀ h, (s.state h).postponedRequestEntry = true →
    (s'.state h).postponedRequestEntry = true ∨ s'.dialogRequestsPending.get? h ≠ none
  pending : ∀ h, s.dialogRequestsPending.get? h ≠ none →
    s'.dialogRequestsPending.get? h ≠ none ∨ (s'.state h).postponedRequestEntry = true
  ran : ∀ h, s'.ran h = s.ran h
  registered : ∀ h n, n ∈ s.registered h → n ∈ s'.registered h

theorem Keeps.frame (hframe : DialogFrame s s') : Keeps s s' := by
  refine ⟨fun h hflag => .inl ((hframe.flag h).trans hflag), fun h hpending => .inl ?_, hframe.ran,
    fun h n => (congrArg (n ∈ ·) (hframe.registered h)).mpr⟩
  rwa [hframe.dialogRequestsPending]

theorem Keeps.trans (h₁ : Keeps s s') (h₂ : Keeps s' s'') : Keeps s s'' := by
  refine ⟨fun h hflag => ?_, fun h hpending => ?_, fun h => (h₂.ran h).trans (h₁.ran h),
    fun h n hn => h₂.registered h n (h₁.registered h n hn)⟩
  · rcases h₁.flag h hflag with hflag | hpending
    · exact h₂.flag h hflag
    · exact (h₂.pending h hpending).symm
  · rcases h₁.pending h hpending with hpending | hflag
    · exact h₂.pending h hpending
    · exact (h₂.flag h hflag).symm

theorem Keeps.markRequestEntry : Keeps s (s.markRequestEntry h) := by
  obtain ⟨-, hpending, -, -, -, -, hevents⟩ := markRequestEntry_fields (s := s) (h := h)
  refine ⟨fun h' hflag => .inl (flag_markRequestEntry.mpr (.inl hflag)), fun h' hin => .inl ?_,
    fun h' => ?_, fun h' n hn => ?_⟩
  · rwa [hpending]
  · rw [Histories.ran, hevents]
    rfl
  · rw [Histories.registered, hevents]
    exact hn

theorem Keeps.sendRequest (hl : Linked s) {type : RequestType} {generator : Query}
    (hplain : type = .history → generator = .plain) :
    Keeps s (s.sendRequest h type generator) := by
  obtain ⟨hsent, hpostponed⟩ := hl.next_unused (h := h)
  have hnext : DialogFrame s (s.returnNext h) := Frame.returnNext.toDialogFrame
  have hlinked := hl.returnNext.sendNow hsent hpostponed le_rfl hplain
  have hsendNow : DialogFrame (s.returnNext h) ((s.returnNext h).sendNow h
      (s.requestAutoincrement + 1) type generator) := DialogFrame.sendNow hl.returnNext
  have hsend := (Keeps.frame (hnext.trans hsendNow)).trans (Keeps.markRequestEntry (h := h))
  rw [sendRequest_eq]
  dsimp only
  split_ifs
  · exact .frame (hnext.trans (Frame.put_requests _ _).toDialogFrame)
  · exact hsend.trans
      (.frame (Frame.resendHistoryRequests hlinked.markRequestEntry).toDialogFrame)
  · exact hsend

theorem Keeps.moveDialogRequest (hmove : s.moveDialogRequest h = some s') : Keeps s s' := by
  rcases moveDialogRequest_cases hmove with ⟨-, -, callbacks, -, rfl⟩ | ⟨-, rfl⟩
  · obtain ⟨-, hpending, -, -, -, hevents⟩ := postponeRequestDialogEntries_fields (s := { s with
        dialogRequestsPending := s.dialogRequestsPending.emplace h callbacks
        dialogRequests := s.dialogRequests.erase h }.put h
          { s.state h with postponedRequestEntry := false })
    refine ⟨fun h' hflag => ?_, fun h' hin => .inl ?_, fun h' => ?_, fun h' n hn => ?_⟩
    · rw [hpending, state_postponeRequestDialogEntries, state_put]
      change _ ∨ (s.dialogRequestsPending.emplace h callbacks).get? h' ≠ none
      rw [FlatMap.get?_emplace]
      split_ifs with hh
      · exact .inr (Option.some_ne_none _)
      · exact .inl hflag
    · rw [hpending]
      change (s.dialogRequestsPending.emplace h callbacks).get? h' ≠ none
      rw [FlatMap.get?_emplace]
      split_ifs with hh
      · exact Option.some_ne_none _
      · exact hin
    · rw [Histories.ran, hevents]
      rfl
    · rw [Histories.registered, hevents]
      exact hn
  · exact .frame (.refl _)

theorem Keeps.finishSentRequest (hl : Linked s) (hfinish : s.finishSentRequest h id = some s') :
    Keeps s s' := by
  obtain ⟨moved, hmoved, rfl⟩ := Option.map_eq_some_iff.mp hfinish
  exact ((Keeps.frame (Frame.finished hl h id).toDialogFrame).trans
    (.moveDialogRequest hmoved)).trans
    (.frame Frame.checkEmptyState.toDialogFrame)

theorem Keeps.checkPostponed (hl : Linked s) (hfinish : s.checkPostponed h id = some s') :
    Keeps s s' := by
  have hemit : Keeps s (s.emit (.finished h id)) := .frame (Frame.emit rfl).toDialogFrame
  rw [Histories.checkPostponed] at hfinish
  split at hfinish
  · exact hemit.trans (.finishSentRequest (hl.emit _) hfinish)
  · cases hfinish
    exact hemit

theorem Keeps.cancelRequest (hl : Linked s) (hcancel : s.cancelRequest id = some s') :
    Keeps s s' :=
  cancelRequest_rule hcancel (.frame (.refl s)) (fun h => .frame (Frame.giveUp h id).toDialogFrame)
    fun h hfinish =>
      (Keeps.frame ((Frame.giveUp h id).trans (Frame.drop h id)).toDialogFrame).trans
        (.finishSentRequest ((hl.giveUp h id).drop h id) hfinish)

theorem Keeps.requestDialogEntry (callback : Option Callback) :
    Keeps s (s.requestDialogEntry h callback) := by
  have hasked := requestDialogEntry_asked (s := s) (h := h) callback
  obtain ⟨hevents, -⟩ := requestDialogEntry_events (s := s) (h := h) callback
  refine ⟨fun h' hflag => .inl ?_, fun h' hin => .inl (hasked.pending_mono h' hin), fun h' => ?_,
    fun h' n hn => ?_⟩
  · rwa [hasked.state]
  · rw [Histories.ran, hevents]
    rfl
  · rw [Histories.registered, hevents]
    exact hn

theorem Keeps.put {state : State}
    (hflag : state.postponedRequestEntry = (s.state h).postponedRequestEntry)
    (hsent : state.sent = (s.state h).sent) : Keeps s (s.put h state) :=
  .frame (read_frame hflag hsent).1

/-- A callback that was given is called, held up, pending or asked for after the request `m`. -/
def Asking (s : Histories H) (h : H) (n : Callback) (m : ℕ) : Prop :=
  (∃ request, (n, request) ∈ s.ran h) ∨ (s.state h).postponedRequestEntry = true ∨
    s.dialogRequestsPending.get? h ≠ none ∨
      ∃ m' histories, m < m' ∧ (m', Target.peerDialogs histories) ∈ s.flights.entries ∧
        h ∈ histories

variable {n : Callback} {m : ℕ}

theorem Asking.keeps (hasking : Asking s h n m) (hkeeps : Keeps s s') (hlater : Later s s') :
    Asking s' h n m := by
  rcases hasking with ⟨request, hran⟩ | hflag | hpending | ⟨m', histories, hlt, hflight, hmem⟩
  · rw [← hkeeps.ran h] at hran
    exact .inl ⟨request, hran⟩
  · exact .inr ((hkeeps.flag h hflag).imp_right .inl)
  · exact .inr ((hkeeps.pending h hpending).symm.imp_right .inl)
  · exact .inr (.inr (.inr ⟨m', histories, hlt, hlater.kept m' histories hflight, hmem⟩))

/-- A pending callback is in the next request, or is held up. -/
theorem Asking.requested (hl : Linked s) (hasking : Asking s h n m) (hle : m ≤ s.mtpAutoincrement)
    (hr : Requested s s') : Asking s' h n m := by
  have hlater := Later.requested hr
  obtain ⟨histories, hflights, hall⟩ := hr.flights
  obtain ⟨hevents, -⟩ := hr.rest
  rcases hasking with ⟨request, hran⟩ | hflag | hpending | ⟨m', histories, hlt, hflight, hmem⟩
  · refine .inl ⟨request, ?_⟩
    rw [Histories.ran, hevents]
    exact hran
  · refine .inr (.inl ?_)
    rw [hr.state]
    split_ifs
    · rfl
    · exact hflag
  · cases hentry : postponeEntryRequest (s.state h) with
    | true =>
      refine .inr (.inl ?_)
      rw [hr.state, if_pos ⟨hpending, hentry⟩]
    | false =>
      have hfresh : s.flights.get? (s.mtpAutoincrement + 1) = none := by
        rw [FlatMap.get?_eq_none_iff]
        intro target htarget
        exact absurd (hl.flight_le _ target htarget) (Nat.not_succ_le_self _)
      refine .inr (.inr (.inr ⟨_, histories, Nat.lt_succ_of_le hle, ?_, hall h hpending hentry⟩))
      rw [hflights]
      exact (FlatMap.mem_emplace _ _ _ _).mpr (.inr ⟨rfl, hfresh⟩)
  · exact .inr (.inr (.inr ⟨m', histories, hlt, hlater.kept m' histories hflight, hmem⟩))

theorem Move.keeps (hmove : Move s s') (hs : Sound s) :
    Keeps s s' ∨ Requested s s' := by
  obtain ⟨hl, hd, hr⟩ := hs
  cases hmove with
  | send h type generator hplain hread => exact .inl (.sendRequest hl hplain)
  | read h hwill =>
    have hput : Linked (s.put h (s.state h).readSent) := hl.put_read _ rfl rfl
    have hkeeps : Keeps s (s.put h (s.state h).readSent) := .put rfl rfl
    exact .inl (hkeeps.trans (Keeps.sendRequest hput nofun))
  | entry h => exact .inl (.requestDialogEntry none)
  | register h =>
    have hcounted : Keeps s ({ s with
        callbackAutoincrement := s.callbackAutoincrement + 1 }.emit
          (.registered h s.callbackAutoincrement)) :=
      ⟨fun _ hflag => .inl hflag, fun _ hin => .inl hin, fun _ => ran_emit nofun,
        fun _ _ hn => mem_registered_emit hn⟩
    exact .inl (hcounted.trans (.requestDialogEntry _))
  | call =>
    rcases call_cases hd with ⟨hself, -⟩ | hrequested
    · rw [hself]
      exact .inl ⟨fun _ hflag => .inl hflag, fun _ hin => .inl hin, fun _ => rfl, fun _ _ hn => hn⟩
    · exact .inr hrequested
  | inbox h upTo =>
    exact .inl ⟨fun _ hflag => .inl hflag, fun _ hin => .inl hin, fun _ => rfl, fun _ _ hn => hn⟩
  | will h tillId when hsent hknown => exact .inl (.put rfl rfl)
  | readDone h => exact .inl (.put rfl rfl)
  | readApplied h hknown => exact .inl (.put rfl rfl)
  | addUser h args =>
    have hframe : Frame s (s.request (.addChatUser h args)) := Frame.request hl nofun nofun
    exact .inl (.frame hframe.toDialogFrame)

theorem Moves.ran (hmoves : Moves s s') (hs : Sound s) :
    s'.ran h = s.ran h ∧ ∀ n ∈ s.registered h, n ∈ s'.registered h := by
  induction hmoves with
  | refl => exact ⟨rfl, fun _ hn => hn⟩
  | tail hmoves hmove ih =>
    obtain ⟨hran, hregistered⟩ := ih
    rw [← hran]
    rcases hmove.keeps (Moves.sound hmoves hs) with hkeeps | hrequested
    · exact ⟨hkeeps.ran h, fun n hn => hkeeps.registered h n (hregistered n hn)⟩
    · refine ⟨?_, fun n hn => ?_⟩
      · rw [Histories.ran, hrequested.rest.1]
        rfl
      · rw [Histories.registered, hrequested.rest.1]
        exact hregistered n hn

theorem Asking.moves (hasking : Asking s h n m) (hle : m ≤ s.mtpAutoincrement)
    (hmoves : Moves s s') (hs : Sound s) : Asking s' h n m := by
  induction hmoves with
  | refl => exact hasking
  | tail hmoves hmove ih =>
    have hsound := Moves.sound hmoves hs
    have hle' := hle.trans (Moves.later hmoves hs).mtp_le
    rcases hmove.keeps hsound with hkeeps | hrequested
    · exact ih.keeps hkeeps (hmove.later hsound)
    · exact ih.requested hsound.linked hle' hrequested

theorem ran_dialogEntryApplied (request : ℕ) : (s.dialogEntryApplied h request).ran h' =
    s.ran h' ++ if h' = h ∧ (s.state h).postponedRequestEntry = false then
      (s.waiting h).map fun callback => (callback, request) else [] := by
  rw [dialogEntryApplied_eq]
  cases hflag : (s.state h).postponedRequestEntry with
  | true =>
    have hstay : ¬ (h' = h ∧ true = false) := fun hh => nomatch hh.2
    rw [if_pos rfl, if_neg hstay, List.append_nil]
  | false =>
    rw [if_neg Bool.false_ne_true, applyRead_frame.1.ran, ran_callAll]
    simp only [and_true]

theorem registered_dialogEntryApplied (request : ℕ) :
    (s.dialogEntryApplied h request).registered h' = s.registered h' := by
  rw [dialogEntryApplied_eq]
  split_ifs
  · rfl
  · rw [applyRead_frame.1.registered, registered_callAll]

theorem mem_waiting_dialogEntryApplied {request : ℕ}
    (hn : n ∈ (s.dialogEntryApplied h request).waiting h') : n ∈ s.waiting h' := by
  obtain ⟨hsent, hpending⟩ := get?_dialogEntryApplied s h h' request
  rw [waiting, hsent, hpending] at hn
  split_ifs at hn
  · exact absurd hn List.not_mem_nil
  · exact hn

theorem registered_finalize (histories : List H) (request : ℕ) :
    (s.finalize histories request).registered h = s.registered h := by
  induction histories generalizing s with
  | nil => rfl
  | cons first histories ih =>
    exact (ih (s := s.dialogEntryApplied first request)).trans (registered_dialogEntryApplied _)

/-- The histories that are not in the answer wait on. -/
theorem finalize_of_notMem {histories : List H} (hmem : h ∉ histories) (request : ℕ) :
    (s.finalize histories request).ran h = s.ran h ∧
      (s.finalize histories request).dialogRequestsPending.get? h =
        s.dialogRequestsPending.get? h ∧
      ((s.finalize histories request).state h).postponedRequestEntry =
        (s.state h).postponedRequestEntry := by
  induction histories generalizing s with
  | nil => exact ⟨rfl, rfl, rfl⟩
  | cons first histories ih =>
    rw [List.mem_cons, not_or] at hmem
    obtain ⟨hfirst, hrest⟩ := hmem
    obtain ⟨hran, hpending, hflag⟩ := ih (s := s.dialogEntryApplied first request) hrest
    have hother : ¬ (h = first ∧ (s.state first).postponedRequestEntry = false) :=
      fun hh => hfirst hh.1
    refine ⟨hran.trans ?_, hpending.trans ?_, hflag.trans (flag_dialogEntryApplied request)⟩
    · rw [ran_dialogEntryApplied, if_neg hother, List.append_nil]
    · rw [(get?_dialogEntryApplied _ _ _ request).2, if_neg hother]

/-- Only those who waited and were not held up are called. -/
theorem ran_finalize {histories : List H} {request request' : ℕ}
    (hran : (n, request') ∈ (s.finalize histories request).ran h) :
    (n, request') ∈ s.ran h ∨ (request' = request ∧ h ∈ histories ∧
      (s.state h).postponedRequestEntry = false ∧ n ∈ s.waiting h) := by
  induction histories generalizing s with
  | nil => exact .inl hran
  | cons first histories ih =>
    rcases ih hran with hran | ⟨hrequest, hmem, hflag, hwaits⟩
    · rw [ran_dialogEntryApplied, List.mem_append] at hran
      refine hran.imp_right fun hran => ?_
      split_ifs at hran with hfirst
      · obtain ⟨n', hn', heq⟩ := List.mem_map.mp hran
        cases heq
        obtain ⟨rfl, hflag⟩ := hfirst
        exact ⟨rfl, List.mem_cons_self, hflag, hn'⟩
      · exact nomatch hran
    · rw [flag_dialogEntryApplied] at hflag
      exact .inr ⟨hrequest, List.mem_cons_of_mem _ hmem, hflag,
        mem_waiting_dialogEntryApplied hwaits⟩

theorem Asking.entries (hasking : Asking s h n m) (hs : Sound s) (hn : n ∈ s.registered h)
    {m₁ : ℕ} {histories : List H} (hget : s.flights.get? m₁ = some (.peerDialogs histories)) :
    Asking ((s.finalize histories m₁).cancel m₁) h n m := by
  by_cases hmem : h ∈ histories
  · rcases settled_finalize (s := s) m₁ hmem with hflag | ⟨hsent, hpending⟩
    · exact .inr (.inl hflag)
    · have hcounted := (hs.dialogs.finalize histories m₁).counted h
      have hnone : (s.finalize histories m₁).waiting h = [] := by
        rw [waiting, hsent, hpending]
        rfl
      rw [hnone, List.nil_append, registered_finalize] at hcounted
      obtain ⟨⟨n', request⟩, hran, rfl⟩ := List.mem_map.mp (hcounted.mem_iff.mpr hn)
      exact .inl ⟨request, hran⟩
  · obtain ⟨hran, hpending, hflag⟩ := finalize_of_notMem (s := s) hmem m₁
    rcases hasking with hcalled | hheld | hwaits | ⟨m', histories', hlt, hflight, hmem'⟩
    · rw [← hran] at hcalled
      exact .inl hcalled
    · exact .inr (.inl (hflag.trans hheld))
    · rw [← hpending] at hwaits
      exact .inr (.inr (.inl hwaits))
    · refine .inr (.inr (.inr ⟨m', histories', hlt, (FlatMap.mem_erase _ _ _).mpr ⟨?_, ?_⟩, hmem'⟩))
      · rwa [(flights_finalize histories m₁).1]
      · rintro rfl
        rw [← FlatMap.get?_eq_some_iff, hget] at hflight
        cases hflight
        exact hmem hmem'

/-- Entries are applied only by the answers to the requests that were sent for them. -/
def Action.Asked : Action H → Prop
  | .dialogEntryApplied _ => False
  | _ => True

/-- Nothing but the answers for entries calls anybody. -/
structure Steady (s s' : Histories H) : Prop where
  asking : ∀ h n m, Asking s h n m → m ≤ s.mtpAutoincrement → Asking s' h n m
  ran : ∀ h, s'.ran h = s.ran h
  registered : ∀ h n, n ∈ s.registered h → n ∈ s'.registered h
  mtp_le : s.mtpAutoincrement ≤ s'.mtpAutoincrement

theorem Steady.trans (h₁ : Steady s s') (h₂ : Steady s' s'') : Steady s s'' :=
  ⟨fun h n m hasking hle =>
      h₂.asking h n m (h₁.asking h n m hasking hle) (hle.trans h₁.mtp_le),
    fun h => (h₂.ran h).trans (h₁.ran h),
    fun h n hn => h₂.registered h n (h₁.registered h n hn), h₁.mtp_le.trans h₂.mtp_le⟩

theorem Keeps.steady (hkeeps : Keeps s s') (hlater : Later s s') : Steady s s' :=
  ⟨fun _ _ _ hasking _ => hasking.keeps hkeeps hlater, hkeeps.ran, hkeeps.registered,
    hlater.mtp_le⟩

theorem Moves.steady (hmoves : Moves s s') (hs : Sound s) : Steady s s' :=
  ⟨fun _ _ _ hasking hle => hasking.moves hle hmoves hs, fun _ => (Moves.ran hmoves hs).1,
    fun _ => (Moves.ran hmoves hs).2, (Moves.later hmoves hs).mtp_le⟩

theorem Steady.cancel
    (hpeers : ∀ histories, (m, Target.peerDialogs histories) ∉ s.flights.entries) :
    Steady s (s.cancel m) := by
  refine ⟨fun h n m' hasking _ => ?_, fun _ => rfl, fun _ _ hn => hn, le_rfl⟩
  refine hasking.imp_right (Or.imp_right (Or.imp_right ?_))
  rintro ⟨m', histories, hlt, hflight, hmem⟩
  refine ⟨m', histories, hlt, (FlatMap.mem_erase _ _ _).mpr ⟨hflight, ?_⟩, hmem⟩
  rintro rfl
  exact hpeers histories hflight

/-- A step is steady unless it takes an answer for entries. -/
theorem Outcome.steady {action : Action H} (houtcome : Outcome s action s') (hs : Sound s)
    (hasked : action.Asked) : Steady s s' ∨ ∃ m answer histories, action = .answer m answer ∧
      s.flights.get? m = some (.peerDialogs histories) ∧
        s' = (s.finalize histories m).cancel m := by
  cases houtcome with
  | moves _ hmoves => exact .inl (hmoves.steady hs)
  | cancelled id _ haction hcancel =>
    exact .inl ((Keeps.cancelRequest hs.linked hcancel).steady (.cancelRequest hs.linked hcancel))
  | finished m h id q s₁ s₂ hget hmoves hfinish =>
    have hlinked := (hmoves.sound hs).linked
    have hlater := (hmoves.later hs).trans (.checkPostponed hlinked hfinish)
    have hdone := (Keeps.checkPostponed hlinked hfinish).steady (.checkPostponed hlinked hfinish)
    exact .inl (((hmoves.steady hs).trans hdone).trans
      (.cancel (notMem_peers hs hget nofun hlater)))
  | joined m h args s₁ hget hmoves =>
    exact .inl ((hmoves.steady hs).trans (.cancel (notMem_peers hs hget nofun (hmoves.later hs))))
  | applied h haction =>
    subst haction
    exact nomatch hasked
  | entries m answer histories haction hget =>
    exact .inr ⟨m, answer, histories, haction, hget, rfl⟩
  | unfinished m answer h id haction hget =>
    exact .inl (.cancel (notMem_peers hs hget nofun (.refl s)))

/-- What is known of a callback that waits is kept by a step. -/
theorem Outcome.asking {action : Action H} (houtcome : Outcome s action s') (hs : Sound s)
    (hasked : action.Asked) (hasking : Asking s h n m) (hn : n ∈ s.registered h)
    (hle : m ≤ s.mtpAutoincrement) :
    Asking s' h n m ∧ n ∈ s'.registered h ∧ m ≤ s'.mtpAutoincrement := by
  rcases houtcome.steady hs hasked with hsteady | ⟨m₁, answer, histories, -, hget, rfl⟩
  · exact ⟨hsteady.asking h n m hasking hle, hsteady.registered h n hn, hle.trans hsteady.mtp_le⟩
  · refine ⟨hasking.entries hs hn hget, ?_, hle.trans (flights_finalize histories m₁).2.ge⟩
    change n ∈ (s.finalize histories m₁).registered h
    rwa [registered_finalize]

theorem run_asking (hs : Sound s) {actions : List (Action H)}
    (hvalid : ∀ action ∈ actions, action.Valid) (hasked : ∀ action ∈ actions, action.Asked)
    (hrun : s.run actions = some s') (hasking : Asking s h n m) (hn : n ∈ s.registered h)
    (hle : m ≤ s.mtpAutoincrement) : Asking s' h n m := by
  induction actions generalizing s with
  | nil =>
    cases hrun
    exact hasking
  | cons action actions ih =>
    obtain ⟨s₁, hs₁, houtcome⟩ := step_outcome hs (hvalid action List.mem_cons_self)
    rw [run, List.foldlM_cons, hs₁] at hrun
    obtain ⟨hasking₁, hn₁, hle₁⟩ :=
      houtcome.asking hs (hasked action List.mem_cons_self) hasking hn hle
    exact ih (houtcome.sound hs) (fun other hother => hvalid other (List.mem_cons_of_mem _ hother))
      (fun other hother => hasked other (List.mem_cons_of_mem _ hother)) hrun hasking₁ hn₁ hle₁

/-- Whoever waits while a request of another kind is sent is held up or pending. -/
theorem asking_of_entry (hd : Dialogs s) (hn : n ∈ s.waiting h)
    (hentry : postponeEntryRequest (s.state h) = true) : Asking s h n m := by
  rcases List.mem_append.mp hn with hpending | hsent
  · refine .inr (.inr (.inl fun hnone => ?_))
    rw [hnone] at hpending
    exact nomatch hpending
  · refine .inr (.inl (hd.entry_flag h hentry fun hnone => ?_))
    rw [hnone] at hsent
    exact nomatch hsent

/-- No answer comes for those who wait while they are asked for again. -/
def Prompt (s : Histories H) : Action H → Prop
  | .answer m _ => ∀ histories, s.flights.get? m = some (.peerDialogs histories) →
    ∀ h ∈ histories, (s.state h).postponedRequestEntry = false → s.waiting h ≠ [] →
      s.dialogRequestsPending.get? h = none ∧
        ∀ m' histories', (m', Target.peerDialogs histories') ∈ s.flights.entries →
          h ∈ histories' → m' ≤ m
  | _ => True

/-- Whoever is called by a step is called by an answer that was asked for after everything
that overlapped the waiting was finished. -/
def FreshStep (before : List (Action H)) (action : Action H) : Prop :=
  ∀ s s', ({} : Histories H).run before = some s → s.step action = some s' →
    ∀ h n m, (n, m) ∉ s.ran h → (n, m) ∈ s'.ran h →
      (∃ answer histories, action = .answer m answer ∧
        s.flights.get? m = some (.peerDialogs histories) ∧ h ∈ histories) ∧
      ∀ earlier later s₀ histories, before = earlier ++ later →
        ({} : Histories H).run earlier = some s₀ →
        (m, Target.peerDialogs histories) ∈ s₀.flights.entries → n ∈ s₀.waiting h →
          postponeEntryRequest (s₀.state h) = false

/-- Every callback that was given waits once for something, or was called once. -/
structure EntriesOnce (s : Histories H) : Prop where
  once : ∀ h, (s.registered h).Nodup ∧
    (s.waiting h ++ (s.ran h).map Prod.fst).Perm (s.registered h)
  asked : ∀ h, s.waiting h ≠ [] → 0 < s.postponedCalls ∨ postponeEntryRequest (s.state h) = true ∨
    ∃ m histories, (m, Target.peerDialogs histories) ∈ s.flights.entries ∧ h ∈ histories

theorem Dialogs.entriesOnce (hd : Dialogs s) : EntriesOnce s := by
  refine ⟨fun h => ⟨(hd.numbered h).1, hd.counted h⟩, fun h hne => ?_⟩
  obtain ⟨n, hn⟩ := List.exists_mem_of_ne_nil _ hne
  rcases List.mem_append.mp hn with hpending | hsent
  · cases hget : s.dialogRequestsPending.get? h with
    | none =>
      rw [hget] at hpending
      exact nomatch hpending
    | some callbacks => exact .inl (hd.called (mem_pending_of_get? hget))
  · have hin : s.dialogRequests.get? h ≠ none := by
      intro hnone
      rw [hnone] at hsent
      exact nomatch hsent
    rcases hd.asked h hin with hflag | hflight
    · exact .inr (.inl (hd.flag_entry h hflag))
    · exact .inr (.inr hflight)

/-- With the answers in time, the callbacks of entries are called by fresh data only. -/
theorem entries_fresh (actions : List (Action H)) (hvalid : ∀ action ∈ actions, action.Valid)
    (hasked : ∀ action ∈ actions, action.Asked)
    (hprompt : ∀ before action after s, actions = before ++ action :: after →
      ({} : Histories H).run before = some s → Prompt s action) :
    (∃ s, ({} : Histories H).run actions = some s ∧ EntriesOnce s) ∧
      ∀ before action after, actions = before ++ action :: after → FreshStep before action := by
  obtain ⟨s, hs, hsound⟩ := run_total Sound.start hvalid
  refine ⟨⟨s, hs, hsound.dialogs.entriesOnce⟩, ?_⟩
  intro before action after hactions s s' hrun hstep h n m hnew hcalled
  have hbefore : ∀ other ∈ before, other ∈ actions := fun other hother =>
    hactions ▸ List.mem_append_left _ hother
  have haction : action ∈ actions :=
    hactions ▸ List.mem_append_right _ List.mem_cons_self
  obtain ⟨s₁, hs₁, hsound₁⟩ := run_total Sound.start fun other hother =>
    hvalid other (hbefore other hother)
  rw [hrun] at hs₁
  cases hs₁
  obtain ⟨s₂, hs₂, houtcome⟩ := step_outcome hsound₁ (hvalid action haction)
  rw [hstep] at hs₂
  cases hs₂
  have hprompt₁ := hprompt before action after s hactions hrun
  rcases houtcome.steady hsound₁ (hasked action haction) with
    hsteady | ⟨m₁, answer, histories, rfl, hget, rfl⟩
  · rw [hsteady.ran] at hcalled
    exact absurd hcalled hnew
  · rcases ran_finalize hcalled with hold | ⟨rfl, hmem, hflag, hwaits⟩
    · exact absurd hold hnew
    · refine ⟨⟨answer, histories, rfl, hget, hmem⟩, ?_⟩
      intro earlier later s₀ histories₀ hsplit hrun₀ hflight hn
      by_contra hentry
      -- From `earlier` on the callback is known to be asked for again.
      obtain ⟨s₁, hs₁, hsound₀⟩ := run_total Sound.start fun other hother =>
        hvalid other (hbefore other (hsplit ▸ List.mem_append_left _ hother))
      rw [hrun₀] at hs₁
      cases hs₁
      rw [hsplit, run_append, hrun₀, Option.bind_some] at hrun
      have hregistered : n ∈ s₀.registered h :=
        (hsound₀.dialogs.counted h).subset (List.mem_append_left _ hn)
      have hasking := run_asking hsound₀
        (fun other hother => hvalid other (hbefore other (hsplit ▸ List.mem_append_right _ hother)))
        (fun other hother => hasked other (hbefore other (hsplit ▸ List.mem_append_right _ hother)))
        hrun (asking_of_entry hsound₀.dialogs hn (Bool.eq_true_of_not_eq_false hentry)) hregistered
        (hsound₀.linked.flight_le _ _ hflight)
      obtain ⟨hpending, hlast⟩ := hprompt₁ histories hget h hmem hflag (List.ne_nil_of_mem hwaits)
      rcases hasking with ⟨request, hran⟩ | hheld | hwaiting | ⟨m', histories', hlt, hin, hmem'⟩
      · have hnodup := (hsound₁.dialogs.counted h).nodup_iff.mpr (hsound₁.dialogs.numbered h).1
        exact List.disjoint_of_nodup_append hnodup hwaits (List.mem_map_of_mem hran)
      · exact Bool.false_ne_true (hflag.symm.trans hheld)
      · exact hwaiting hpending
      · exact absurd (hlast m' histories' hin hmem') hlt.not_ge

/-- An entry is asked for, held up by a message that is sent, and asked for again. -/
def heldUp : List (Action ℕ) := [.requestDialogEntry 0, .postponedCall, .sendRequest 0 .send]

/-- The answer to the first request comes after the message was sent, and is used. -/
theorem late_answer_used : ¬ ∀ actions : List (Action ℕ),
    (∀ action ∈ actions, action.Valid) → (∀ action ∈ actions, action.Asked) →
      ∀ before action after, actions = before ++ action :: after → FreshStep before action := by
  intro hfresh
  have hvalid : ∀ action ∈ heldUp ++ [.answer 2 { done := true }, .answer 1 { done := true }],
      action.Valid ∧ action.Asked := by
    intro action haction
    fin_cases haction <;> exact ⟨trivial, trivial⟩
  have hstep := hfresh (heldUp ++ [.answer 2 { done := true }, .answer 1 { done := true }])
    (fun action haction => (hvalid action haction).1)
    (fun action haction => (hvalid action haction).2)
    (heldUp ++ [.answer 2 { done := true }]) (.answer 1 { done := true }) [] rfl
  have hearlier : (({} : Histories ℕ).run heldUp).map (fun s =>
      (s.flights.get? 1, s.waiting 0, postponeEntryRequest (s.state 0))) =
      some (some (.peerDialogs [0]), [0], true) := by decide
  have hbefore : (({} : Histories ℕ).run (heldUp ++ [.answer 2 { done := true }])).map
      (fun s => (s.ran 0, (s.step (.answer 1 { done := true })).map fun s => s.ran 0)) =
      some ([], some [(0, 1)]) := by decide
  obtain ⟨s₀, hs₀, heq₀⟩ := Option.map_eq_some_iff.mp hearlier
  obtain ⟨s, hs, heq⟩ := Option.map_eq_some_iff.mp hbefore
  obtain ⟨hget, hrest⟩ := Prod.mk.inj heq₀
  obtain ⟨hwaiting, hentry⟩ := Prod.mk.inj hrest
  obtain ⟨hold, hnext⟩ := Prod.mk.inj heq
  obtain ⟨s', hs', hnew⟩ := Option.map_eq_some_iff.mp hnext
  obtain ⟨-, hnone⟩ := hstep s s' hs hs' 0 0 1 (by rw [hold]; exact List.not_mem_nil)
    (by rw [hnew]; exact List.mem_cons_self)
  have hfinished := hnone heldUp [.answer 2 { done := true }] s₀ [0] rfl hs₀
    ((FlatMap.get?_eq_some_iff _ _ _).mp hget) (by rw [hwaiting]; exact List.mem_cons_self)
  exact Bool.false_ne_true (hfinished.symm.trans hentry)

/-- An entry is asked for, held up by a message that is sent, answered too early and asked for again
when the message was sent. -/
def askedAgain : List (Action ℕ) :=
  heldUp ++ [.answer 1 { done := true }, .answer 2 { done := true }, .postponedCall,
    .answer 3 { done := true }]

/-- The second answer is the one that is used. -/
theorem entries_fresh_again :
    (({} : Histories ℕ).run askedAgain).map (fun s => s.ran 0) = some [(0, 3)] ∧
    (∃ s, ({} : Histories ℕ).run askedAgain = some s ∧ EntriesOnce s) ∧
      ∀ before action after, askedAgain = before ++ action :: after → FreshStep before action := by
  refine ⟨by decide, entries_fresh askedAgain ?_ ?_ ?_⟩
  · intro action haction
    fin_cases haction <;> exact trivial
  · intro action haction
    fin_cases haction <;> exact trivial
  · intro before action after s hsplit hrun
    rcases before with _ | ⟨a, _ | ⟨b, _ | ⟨c, _ | ⟨d, _ | ⟨e, _ | ⟨f, _ | ⟨g, before⟩⟩⟩⟩⟩⟩⟩
    · cases hsplit
      trivial
    · cases hsplit
      trivial
    · cases hsplit
      trivial
    · -- the entry is held up
      cases hsplit
      have hheld : (({} : Histories ℕ).run heldUp).map (fun s =>
          (s.flights.get? 1, (s.state 0).postponedRequestEntry)) =
          some (some (.peerDialogs [0]), true) := by decide
      have hrun' : ({} : Histories ℕ).run heldUp = some s := hrun
      rw [hrun'] at hheld
      obtain ⟨hflight, hentry⟩ := Prod.mk.inj (Option.some.inj hheld)
      intro histories hget h hmem hflag _
      rw [hflight] at hget
      cases hget
      rw [List.mem_singleton.mp hmem] at hflag
      exact absurd (hflag.symm.trans hentry) Bool.false_ne_true
    · -- the message is answered
      cases hsplit
      have hsent : (({} : Histories ℕ).run (heldUp ++ [.answer 1 { done := true }])).map (fun s =>
          (s.flights.get? 2).map fun target => match target with
            | .peerDialogs _ => true
            | _ => false) = some (some false) := by decide
      have hrun' : ({} : Histories ℕ).run (heldUp ++ [.answer 1 { done := true }]) = some s := hrun
      rw [hrun', Option.map_some] at hsent
      intro histories hget
      rw [hget] at hsent
      exact absurd (Option.some.inj (Option.some.inj hsent)) (Bool.false_ne_true ∘ Eq.symm)
    · cases hsplit
      trivial
    · cases hsplit
      have hcalled : (({} : Histories ℕ).run (heldUp ++ [.answer 1 { done := true },
          .answer 2 { done := true }, .postponedCall])).map (fun s =>
            (s.flights.entries, s.dialogRequestsPending.entries)) =
          some ([(3, .peerDialogs [0])], []) := by decide
      have hrun' : ({} : Histories ℕ).run (heldUp ++ [.answer 1 { done := true },
        .answer 2 { done := true }, .postponedCall]) = some s := hrun
      rw [hrun'] at hcalled
      obtain ⟨hflights, hpending⟩ := Prod.mk.inj (Option.some.inj hcalled)
      intro histories _ h _ _ _
      refine ⟨(FlatMap.get?_eq_none_iff _ _).mpr fun v hv => ?_, fun m' histories' hin _ => ?_⟩
      · rw [hpending] at hv
        exact absurd hv List.not_mem_nil
      · rw [hflights] at hin
        exact (Prod.mk.inj (List.mem_singleton.mp hin)).1.le
    · simp [askedAgain, heldUp] at hsplit

end TelegramDesktop.Data.Histories
