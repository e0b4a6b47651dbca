import TelegramDesktop.Data.HistoriesFrame

namespace TelegramDesktop.Data.Histories
open Base

variable {H : Type} [LinearOrder H] {s s' s'' : Histories H} {h h' : H} {id : ℕ}

theorem postponeEntryRequest_iff {state : State} : postponeEntryRequest state = true ↔
    ∃ id r, (id, r) ∈ state.sent.entries ∧ r.type ≠ .history := by
  simp only [postponeEntryRequest, List.any_eq_true, FlatMap.mem_values, bne_iff_ne]
  constructor
  · rintro ⟨r, ⟨id, hr⟩, htype⟩
    exact ⟨id, r, hr, htype⟩
  · rintro ⟨id, r, hr, htype⟩
    exact ⟨r, ⟨id, hr⟩, htype⟩

theorem postponeHistoryRequest_iff {state : State} : postponeHistoryRequest state = true ↔
    ∃ id r, (id, r) ∈ state.sent.entries ∧ r.type = .delete := by
  simp only [postponeHistoryRequest, List.any_eq_true, FlatMap.mem_values, beq_iff_eq]
  constructor
  · rintro ⟨r, ⟨id, hr⟩, htype⟩
    exact ⟨id, r, hr, htype⟩
  · rintro ⟨id, r, hr, htype⟩
    exact ⟨r, ⟨id, hr⟩, htype⟩

/-- A request of the history itself does not count. -/
theorem entry_sendNow {type : RequestType} {generator : Query}
    (hsent : ∀ r, (id, r) ∉ (s.state h).sent.entries) :
    postponeEntryRequest ((s.sendNow h id type generator).state h') = true ↔
      postponeEntryRequest (s.state h') = true ∨ (h' = h ∧ type ≠ .history) := by
  simp only [postponeEntryRequest_iff, mem_sent_sendNow hsent]
  constructor
  · rintro ⟨id', r, hr | ⟨rfl, rfl, rfl⟩, htype⟩
    · exact .inl ⟨id', r, hr, htype⟩
    · exact .inr ⟨rfl, htype⟩
  · rintro (⟨id', r, hr, htype⟩ | ⟨rfl, htype⟩)
    · exact ⟨id', r, .inl hr, htype⟩
    · exact ⟨id, _, .inr ⟨rfl, rfl, rfl⟩, htype⟩

theorem entry_resendHistoryRequests (hs : Linked s) :
    postponeEntryRequest ((s.resendHistoryRequests h).state h') =
      postponeEntryRequest (s.state h') := by
  obtain ⟨hsent, -, hother⟩ := mem_resendHistoryRequests (h := h) hs
  by_cases hh : h' = h
  · subst hh
    rw [Bool.eq_iff_iff, postponeEntryRequest_iff, postponeEntryRequest_iff]
    simp only [hsent]
    constructor
    · rintro ⟨id, r, ⟨hr, -⟩, htype⟩
      exact ⟨id, r, hr, htype⟩
    · rintro ⟨id, r, hr, htype⟩
      exact ⟨id, r, ⟨hr, htype⟩, htype⟩
  · rw [hother h' hh]

theorem entry_sendPostponed (hs : Linked s) :
    postponeEntryRequest ((s.sendPostponed h).state h') = postponeEntryRequest (s.state h') := by
  refine (sendPostponed_rule (P := fun s' => postponeEntryRequest (s'.state h') =
    postponeEntryRequest (s.state h')) ?_ hs rfl ?_).2
  · intro s' id _ hP hsent
    rw [← hP, Bool.eq_iff_iff, entry_sendNow hsent]
    exact or_iff_left fun h => h.2 rfl
  · rw [state_put]
    split_ifs with hh
    · rw [hh]
      rfl
    · rfl

theorem entry_eraseSent (hentry : postponeEntryRequest ((s.eraseSent h id).state h') = true) :
    postponeEntryRequest (s.state h') = true := by
  obtain ⟨hsent, -, hother, -⟩ := mem_eraseSent s h id
  rw [postponeEntryRequest_iff] at hentry ⊢
  obtain ⟨id', r, hr, htype⟩ := hentry
  refine ⟨id', r, ?_, htype⟩
  by_cases hh : h' = h
  · subst hh
    exact ((hsent id' r).mp hr).1
  · rwa [hother h' hh] at hr

/-- Who waits is counted, is told apart and waits for something. -/
structure Dialogs (s : Histories H) : Prop where
  flag_sent : ∀ h, (s.state h).postponedRequestEntry = true → s.dialogRequests.get? h ≠ none
  flag_entry : ∀ h, (s.state h).postponedRequestEntry = true →
    postponeEntryRequest (s.state h) = true
  entry_flag : ∀ h, postponeEntryRequest (s.state h) = true → s.dialogRequests.get? h ≠ none →
    (s.state h).postponedRequestEntry = true
  once : ∀ h, s.dialogRequests.get? h ≠ none → s.dialogRequestsPending.get? h = none
  counted : ∀ h, (s.waiting h ++ (s.ran h).map Prod.fst).Perm (s.registered h)
  numbered : ∀ h, (s.registered h).Nodup ∧ ∀ n ∈ s.registered h, n < s.callbackAutoincrement
  called : s.dialogRequestsPending.entries ≠ [] → 0 < s.postponedCalls
  asked : ∀ h, s.dialogRequests.get? h ≠ none → (s.state h).postponedRequestEntry = true ∨
    ∃ m hs, (m, Target.peerDialogs hs) ∈ s.flights.entries ∧ h ∈ hs

theorem Dialogs.start : Dialogs ({} : Histories H) := by
  refine ⟨nofun, nofun, nofun, fun _ _ => rfl, fun _ => .nil, fun _ => ⟨.nil, nofun⟩, ?_, ?_⟩
  · exact fun h => absurd rfl h
  · exact fun _ h => absurd rfl h

/-- The flags and the requests behind them are all that a frame leaves open. -/
theorem Dialogs.frame (hd : Dialogs s) (hframe : DialogFrame s s')
    (hentry : ∀ h, postponeEntryRequest (s'.state h) = postponeEntryRequest (s.state h)) :
    Dialogs s' := by
  have hwaiting : ∀ h, s'.waiting h = s.waiting h := by
    intro h
    rw [Histories.waiting, hframe.dialogRequests, hframe.dialogRequestsPending]
    rfl
  constructor
  · intro h
    rw [hframe.flag, hframe.dialogRequests]
    exact hd.flag_sent h
  · intro h
    rw [hframe.flag, hentry]
    exact hd.flag_entry h
  · intro h
    rw [hframe.flag, hentry, hframe.dialogRequests]
    exact hd.entry_flag h
  · intro h
    rw [hframe.dialogRequests, hframe.dialogRequestsPending]
    exact hd.once h
  · intro h
    rw [hwaiting, hframe.ran, hframe.registered]
    exact hd.counted h
  · intro h
    rw [hframe.registered, hframe.callbackAutoincrement]
    exact hd.numbered h
  · rw [hframe.dialogRequestsPending, hframe.postponedCalls]
    exact hd.called
  · intro h
    rw [hframe.flag, hframe.dialogRequests]
    refine fun hsent => (hd.asked h hsent).imp_right ?_
    rintro ⟨m, hs, hflight, hmem⟩
    exact ⟨m, hs, (hframe.flights m hs).mpr hflight, hmem⟩

theorem flag_markRequestEntry : ((s.markRequestEntry h).state h').postponedRequestEntry = true ↔
    (s.state h').postponedRequestEntry = true ∨
      (h' = h ∧ postponeEntryRequest (s.state h) = true ∧ s.dialogRequests.get? h ≠ none) := by
  rw [markRequestEntry]
  have hcontains : s.dialogRequests.contains h = true ↔ s.dialogRequests.get? h ≠ none :=
    Option.isSome_iff_ne_none
  split_ifs with hmark
  · simp only [Bool.and_eq_true, hcontains] at hmark
    rw [state_put]
    split_ifs with hh
    · exact iff_of_true rfl (.inr ⟨hh, hmark.1.2, hmark.2⟩)
    · exact (or_iff_left fun h => hh h.1).symm
  · refine (or_iff_left_of_imp ?_).symm
    rintro ⟨rfl, hentry, hsent⟩
    by_contra hflag
    apply hmark
    rw [Bool.eq_false_of_not_eq_true hflag, hentry, hcontains.mpr hsent]
    rfl

theorem markRequestEntry_same : SameRequests
    { (s.markRequestEntry h).state h' with
      postponedRequestEntry := (s.state h').postponedRequestEntry } (s.state h') := by
  rw [markRequestEntry]
  split_ifs
  · rw [state_put]
    split_ifs with hh
    · rw [hh]
      exact ⟨rfl, rfl, rfl, rfl, rfl⟩
    · exact .refl _
  · exact .refl _

theorem markRequestEntry_fields :
    (s.markRequestEntry h).dialogRequests = s.dialogRequests ∧
      (s.markRequestEntry h).dialogRequestsPending = s.dialogRequestsPending ∧
      (s.markRequestEntry h).inboxReadBefore = s.inboxReadBefore ∧
      (s.markRequestEntry h).postponedCalls = s.postponedCalls ∧
      (s.markRequestEntry h).callbackAutoincrement = s.callbackAutoincrement ∧
      (s.markRequestEntry h).flights = s.flights ∧ (s.markRequestEntry h).events = s.events := by
  rw [markRequestEntry]
  split_ifs
  · exact ⟨rfl, rfl, rfl, rfl, rfl, rfl, rfl⟩
  · exact ⟨rfl, rfl, rfl, rfl, rfl, rfl, rfl⟩

theorem entry_markRequestEntry : postponeEntryRequest ((s.markRequestEntry h).state h') =
    postponeEntryRequest (s.state h') := by
  have hsent : ((s.markRequestEntry h).state h').sent = (s.state h').sent :=
    markRequestEntry_same.sent
  rw [postponeEntryRequest, postponeEntryRequest, hsent]

/-- After a request was sent only its history may have to be marked. -/
theorem Dialogs.markRequestEntry (hd : Dialogs s) (hframe : DialogFrame s s')
    (hmore : ∀ h', postponeEntryRequest (s.state h') = true →
      postponeEntryRequest (s'.state h') = true)
    (hother : ∀ h', h' ≠ h → postponeEntryRequest (s'.state h') = true →
      postponeEntryRequest (s.state h') = true) : Dialogs (s'.markRequestEntry h) := by
  obtain ⟨hsent, hpending, -, hcalls, hcallbacks, hflights, hevents⟩ :=
    markRequestEntry_fields (s := s') (h := h)
  have hwaiting : ∀ h', (s'.markRequestEntry h).waiting h' = s.waiting h' := by
    intro h'
    rw [Histories.waiting, hsent, hpending, hframe.dialogRequests, hframe.dialogRequestsPending]
    rfl
  have hran : ∀ h', (s'.markRequestEntry h).ran h' = s.ran h' := by
    intro h'
    rw [← hframe.ran, Histories.ran, hevents]
    rfl
  have hregistered : ∀ h', (s'.markRequestEntry h).registered h' = s.registered h' := by
    intro h'
    rw [← hframe.registered, Histories.registered, hevents]
    rfl
  constructor
  · intro h' hflag
    rw [hsent, hframe.dialogRequests]
    rcases flag_markRequestEntry.mp hflag with hflag | ⟨rfl, -, hin⟩
    · rw [hframe.flag] at hflag
      exact hd.flag_sent h' hflag
    · rwa [hframe.dialogRequests] at hin
  · intro h' hflag
    rw [entry_markRequestEntry]
    rcases flag_markRequestEntry.mp hflag with hflag | ⟨rfl, hentry, -⟩
    · rw [hframe.flag] at hflag
      exact hmore h' (hd.flag_entry h' hflag)
    · exact hentry
  · intro h' hentry hin
    rw [entry_markRequestEntry] at hentry
    rw [hsent] at hin
    apply flag_markRequestEntry.mpr
    by_cases hh : h' = h
    · exact .inr ⟨hh, hh ▸ hentry, hh ▸ hin⟩
    · rw [hframe.dialogRequests] at hin
      rw [hframe.flag]
      exact .inl (hd.entry_flag h' (hother h' hh hentry) hin)
  · intro h'
    rw [hsent, hpending, hframe.dialogRequests, hframe.dialogRequestsPending]
    exact hd.once h'
  · intro h'
    rw [hwaiting, hran, hregistered]
    exact hd.counted h'
  · intro h'
    rw [hregistered, hcallbacks, hframe.callbackAutoincrement]
    exact hd.numbered h'
  · rw [hpending, hcalls, hframe.dialogRequestsPending, hframe.postponedCalls]
    exact hd.called
  · intro h' hin
    rw [hsent, hframe.dialogRequests] at hin
    rcases hd.asked h' hin with hflag | ⟨m, hs, hflight, hmem⟩
    · rw [← hframe.flag] at hflag
      exact .inl (flag_markRequestEntry.mpr (.inl hflag))
    · refine .inr ⟨m, hs, ?_, hmem⟩
      rw [hflights]
      exact (hframe.flights m hs).mpr hflight

theorem Dialogs.sendRequest (hl : Linked s) (hd : Dialogs s) {type : RequestType}
    {generator : Query} (hplain : type = .history → generator = .plain) :
    Dialogs (s.sendRequest h type generator) := by
  obtain ⟨hsent, hpostponed⟩ := hl.next_unused (h := h)
  have hnext : Frame s (s.returnNext h) := Frame.returnNext
  rw [sendRequest_eq]
  split_ifs with hgate
  · refine hd.frame (hnext.trans (Frame.put_requests _ _)).toDialogFrame fun h' => ?_
    rw [state_put]
    split_ifs with hh
    · rw [hh]
      rfl
    · rfl
  · have hsendEntry : ∀ h', postponeEntryRequest (((s.returnNext h).sendNow h
        (s.requestAutoincrement + 1) type generator).state h') = true ↔
        postponeEntryRequest (s.state h') = true ∨ (h' = h ∧ type ≠ .history) :=
      fun h' => entry_sendNow hsent
    have hlinked := hl.returnNext.sendNow hsent hpostponed le_rfl hplain
    have hmark := hd.markRequestEntry (h := h)
      (hnext.toDialogFrame.trans (DialogFrame.sendNow hl.returnNext))
      (fun h' hentry => (hsendEntry h').mpr (.inl hentry)) fun h' hh hentry =>
        ((hsendEntry h').mp hentry).elim (fun hentry => hentry) fun heq => absurd heq.1 hh
    dsimp only
    split_ifs
    · exact hmark.frame (Frame.resendHistoryRequests hlinked.markRequestEntry).toDialogFrame
        fun _ => entry_resendHistoryRequests hlinked.markRequestEntry
    · exact hmark

theorem state_postponeRequestDialogEntries :
    s.postponeRequestDialogEntries.state h = s.state h := by
  rw [postponeRequestDialogEntries]
  split_ifs
  · rfl
  · rfl

theorem mem_pending_of_get? {callbacks : List Callback}
    (hget : s.dialogRequestsPending.get? h = some callbacks) :
    s.dialogRequestsPending.entries ≠ [] :=
  List.ne_nil_of_mem ((FlatMap.get?_eq_some_iff _ _ _).mp hget)

/-- With a call on its way, everything that is pending is called. -/
theorem called_postponeRequestDialogEntries
    (hcalled : 1 < s.dialogRequestsPending.size → 0 < s.postponedCalls) :
    0 < s.postponeRequestDialogEntries.postponedCalls := by
  rw [postponeRequestDialogEntries]
  split_ifs with hmany
  · exact hcalled hmany
  · exact Nat.succ_pos _

theorem postponeRequestDialogEntries_fields :
    s.postponeRequestDialogEntries.dialogRequests = s.dialogRequests ∧
      s.postponeRequestDialogEntries.dialogRequestsPending = s.dialogRequestsPending ∧
      s.postponeRequestDialogEntries.inboxReadBefore = s.inboxReadBefore ∧
      s.postponeRequestDialogEntries.callbackAutoincrement = s.callbackAutoincrement ∧
      s.postponeRequestDialogEntries.flights = s.flights ∧
      s.postponeRequestDialogEntries.events = s.events := by
  rw [postponeRequestDialogEntries]
  split_ifs
  · exact ⟨rfl, rfl, rfl, rfl, rfl, rfl⟩
  · exact ⟨rfl, rfl, rfl, rfl, rfl, rfl⟩

theorem DialogFrame.waiting (hframe : DialogFrame s s') : s'.waiting h = s.waiting h := by
  rw [Histories.waiting, hframe.dialogRequests, hframe.dialogRequestsPending]
  rfl

/-- The move of those who wait, once the flag may be taken down. -/
theorem Dialogs.move (hd : Dialogs s) (hframe : DialogFrame s s') {callbacks : List Callback}
    (hother : ∀ h', h' ≠ h → postponeEntryRequest (s'.state h') =
      postponeEntryRequest (s.state h'))
    (hcallbacks : s'.dialogRequests.get? h = some callbacks) :
    Dialogs ({ s' with
      dialogRequestsPending := s'.dialogRequestsPending.emplace h callbacks
      dialogRequests := s'.dialogRequests.erase h }.put h
        { s'.state h with postponedRequestEntry := false }).postponeRequestDialogEntries := by
  have hpending : s'.dialogRequestsPending.get? h = none := by
    rw [hframe.dialogRequestsPending]
    apply hd.once h
    rw [← hframe.dialogRequests, hcallbacks]
    exact Option.some_ne_none _
  have hcalls : 1 < (s'.dialogRequestsPending.emplace h callbacks).size →
      0 < s'.postponedCalls := by
    intro hmany
    rw [FlatMap.size_emplace callbacks hpending] at hmany
    rw [hframe.postponedCalls]
    apply hd.called
    rw [← hframe.dialogRequestsPending]
    exact List.ne_nil_of_length_pos (Nat.lt_of_succ_lt_succ hmany)
  obtain ⟨hsent₂, hpending₂, -, hcallbacks₂, hflights₂, hevents₂⟩ :=
    postponeRequestDialogEntries_fields (s := { s' with
      dialogRequestsPending := s'.dialogRequestsPending.emplace h callbacks
      dialogRequests := s'.dialogRequests.erase h }.put h
        { s'.state h with postponedRequestEntry := false })
  have hstate₂ : ∀ h', ({ s' with
      dialogRequestsPending := s'.dialogRequestsPending.emplace h callbacks
      dialogRequests := s'.dialogRequests.erase h }.put h
        { s'.state h with postponedRequestEntry := false }).postponeRequestDialogEntries.state h' =
      if h' = h then { s'.state h with postponedRequestEntry := false } else s'.state h' := by
    intro h'
    rw [state_postponeRequestDialogEntries, state_put]
    rfl
  have hcalled₂ := called_postponeRequestDialogEntries (s := { s' with
      dialogRequestsPending := s'.dialogRequestsPending.emplace h callbacks
      dialogRequests := s'.dialogRequests.erase h }.put h
        { s'.state h with postponedRequestEntry := false }) hcalls
  generalize ({ s' with
      dialogRequestsPending := s'.dialogRequestsPending.emplace h callbacks
      dialogRequests := s'.dialogRequests.erase h }.put h
        { s'.state h with postponedRequestEntry := false }).postponeRequestDialogEntries = s₂ at *
  change s₂.dialogRequests = s'.dialogRequests.erase h at hsent₂
  change s₂.dialogRequestsPending = s'.dialogRequestsPending.emplace h callbacks at hpending₂
  change s₂.callbackAutoincrement = s'.callbackAutoincrement at hcallbacks₂
  change s₂.flights = s'.flights at hflights₂
  change s₂.events = s'.events at hevents₂
  have hin : ∀ h', s₂.dialogRequests.get? h' ≠ none → h' ≠ h ∧ s.dialogRequests.get? h' ≠ none := by
    intro h' hget
    rw [hsent₂, FlatMap.get?_erase] at hget
    split_ifs at hget with hh
    · exact absurd rfl hget
    · rw [hframe.dialogRequests] at hget
      exact ⟨hh, hget⟩
  have hran : ∀ h', s₂.ran h' = s.ran h' := by
    intro h'
    rw [← hframe.ran, Histories.ran, hevents₂]
    rfl
  have hregistered : ∀ h', s₂.registered h' = s.registered h' := by
    intro h'
    rw [← hframe.registered, Histories.registered, hevents₂]
    rfl
  constructor
  · intro h' hflag
    rw [hstate₂] at hflag
    split_ifs at hflag with hh
    rw [hframe.flag] at hflag
    rw [hsent₂, FlatMap.get?_erase, if_neg hh, hframe.dialogRequests]
    exact hd.flag_sent h' hflag
  · intro h' hflag
    rw [hstate₂] at hflag ⊢
    split_ifs at hflag ⊢ with hh
    rw [hframe.flag] at hflag
    rw [hother h' hh]
    exact hd.flag_entry h' hflag
  · intro h' hentry' hget
    obtain ⟨hh, hget⟩ := hin h' hget
    rw [hstate₂, if_neg hh] at hentry' ⊢
    rw [hframe.flag]
    rw [hother h' hh] at hentry'
    exact hd.entry_flag h' hentry' hget
  · intro h' hget
    obtain ⟨hh, hget⟩ := hin h' hget
    rw [hpending₂, FlatMap.get?_emplace, if_neg hh, hframe.dialogRequestsPending]
    exact hd.once h' hget
  · intro h'
    have hwaiting : s₂.waiting h' = s.waiting h' := by
      rw [← hframe.waiting, Histories.waiting, Histories.waiting, hsent₂, hpending₂,
        FlatMap.get?_erase, FlatMap.get?_emplace]
      split_ifs with hh
      · rw [hh, hpending, hcallbacks]
        exact List.append_nil _
      · rfl
    rw [hwaiting, hran, hregistered]
    exact hd.counted h'
  · intro h'
    rw [hregistered, hcallbacks₂, hframe.callbackAutoincrement]
    exact hd.numbered h'
  · exact fun _ => hcalled₂
  · intro h' hget
    obtain ⟨hh, hget⟩ := hin h' hget
    rw [hstate₂, if_neg hh, hframe.flag, hflights₂]
    refine (hd.asked h' hget).imp_right ?_
    rintro ⟨m, hs, hflight, hmem⟩
    exact ⟨m, hs, (hframe.flights m hs).mpr hflight, hmem⟩

/-- A finished request leaves the flag alone, and the move then takes it down without fail. -/
theorem moveDialogRequest_total (hd : Dialogs s) (hframe : DialogFrame s s')
    (hentry : ∀ h', postponeEntryRequest (s'.state h') = true →
      postponeEntryRequest (s.state h') = true)
    (hother : ∀ h', h' ≠ h → postponeEntryRequest (s'.state h') =
      postponeEntryRequest (s.state h')) :
    ∃ s₂, s'.moveDialogRequest h = some s₂ ∧ Dialogs s₂ := by
  by_cases hmove : (s'.state h).postponedRequestEntry = true ∧
      postponeEntryRequest (s'.state h) = false
  · obtain ⟨hflag, hdown⟩ := hmove
    have hin : s'.dialogRequests.get? h ≠ none := by
      rw [hframe.flag] at hflag
      rw [hframe.dialogRequests]
      exact hd.flag_sent h hflag
    obtain ⟨callbacks, hcallbacks⟩ := Option.ne_none_iff_exists'.mp hin
    have hpending : ¬ s'.dialogRequestsPending.contains h = true := by
      rw [FlatMap.contains, hframe.dialogRequestsPending,
        hd.once h (hframe.dialogRequests ▸ hin)]
      exact Bool.false_ne_true
    have hgo : ((s'.state h).postponedRequestEntry &&
        !postponeEntryRequest (s'.state h)) = true := by
      rw [hflag, hdown]
      rfl
    refine ⟨_, ?_, hd.move hframe hother hcallbacks⟩
    rw [Histories.moveDialogRequest, if_pos hgo, hcallbacks, Option.bind_some, if_neg hpending]
  · have hstay : ¬ ((s'.state h).postponedRequestEntry &&
        !postponeEntryRequest (s'.state h)) = true := by
      rwa [Bool.and_eq_true, Bool.not_eq_true']
    refine ⟨s', by rw [Histories.moveDialogRequest, if_neg hstay], ?_⟩
    have hflagEntry : ∀ h', (s'.state h').postponedRequestEntry = true →
        postponeEntryRequest (s'.state h') = true := by
      intro h' hflag
      by_cases hh : h' = h
      · subst hh
        by_contra hnot
        exact hmove ⟨hflag, Bool.eq_false_of_not_eq_true hnot⟩
      · rw [hframe.flag] at hflag
        rw [hother h' hh]
        exact hd.flag_entry h' hflag
    constructor
    · intro h' hflag
      rw [hframe.flag] at hflag
      rw [hframe.dialogRequests]
      exact hd.flag_sent h' hflag
    · exact hflagEntry
    · intro h' hentry' hget
      rw [hframe.dialogRequests] at hget
      rw [hframe.flag]
      exact hd.entry_flag h' (hentry h' hentry') hget
    · intro h'
      rw [hframe.dialogRequests, hframe.dialogRequestsPending]
      exact hd.once h'
    · intro h'
      rw [hframe.waiting, hframe.ran, hframe.registered]
      exact hd.counted h'
    · intro h'
      rw [hframe.registered, hframe.callbackAutoincrement]
      exact hd.numbered h'
    · rw [hframe.dialogRequestsPending, hframe.postponedCalls]
      exact hd.called
    · intro h' hget
      rw [hframe.dialogRequests] at hget
      rw [hframe.flag]
      refine (hd.asked h' hget).imp_right ?_
      rintro ⟨m, hs, hflight, hmem⟩
      exact ⟨m, hs, (hframe.flights m hs).mpr hflight, hmem⟩

theorem Dialogs.checkEmptyState (hd : Dialogs s) : Dialogs (s.checkEmptyState h) := by
  refine hd.frame Frame.checkEmptyState.toDialogFrame fun h' => ?_
  have hsent : ((s.checkEmptyState h).state h').sent = (s.state h').sent :=
    state_checkEmptyState.sent
  rw [postponeEntryRequest, postponeEntryRequest, hsent]

theorem finishSentRequest_total (hl : Linked s) (hd : Dialogs s) :
    ∃ s', s.finishSentRequest h id = some s' ∧ Dialogs s' := by
  have herase : Linked (s.eraseSent h id) := hl.eraseSent
  have hframe : Frame s ((s.eraseSent h id).sendPostponed h) :=
    (Frame.eraseSent hl).trans (Frame.sendPostponed herase)
  obtain ⟨-, -, hsame, -⟩ := mem_eraseSent s h id
  obtain ⟨moved, hmoved, hdialogs⟩ := moveDialogRequest_total (h := h) hd hframe.toDialogFrame
    (fun h' hentry => entry_eraseSent (by rwa [entry_sendPostponed herase] at hentry))
    fun h' hh => by
      rw [entry_sendPostponed herase, postponeEntryRequest, postponeEntryRequest, hsame h' hh]
  refine ⟨_, ?_, hdialogs.checkEmptyState (h := h)⟩
  rw [finishSentRequest, hmoved, Option.map_some]

theorem Dialogs.emit (hd : Dialogs s) {event : Event H} (hevent : event.quiet = true) :
    Dialogs (s.emit event) := hd.frame (Frame.emit hevent).toDialogFrame fun _ => rfl

theorem checkPostponed_total (hl : Linked s) (hd : Dialogs s) :
    ∃ s', s.checkPostponed h id = some s' ∧ Dialogs s' := by
  have hemit : Dialogs (s.emit (.finished h id)) := hd.emit rfl
  rw [checkPostponed]
  split
  · exact finishSentRequest_total (hl.emit _) hemit
  · exact ⟨_, rfl, hemit⟩

theorem cancelRequest_total (hl : Linked s) (hd : Dialogs s) :
    ∃ s', s.cancelRequest id = some s' ∧ Dialogs s' := by
  have hgiveUp : ∀ h, Dialogs (s.giveUp h id) := fun h =>
    hd.frame (Frame.giveUp h id).toDialogFrame fun _ => rfl
  rcases cancelRequest_eq s id with heq | ⟨h, heq | heq⟩
  · exact ⟨s, heq, hd⟩
  · exact ⟨_, heq, hgiveUp h⟩
  · rw [heq]
    apply finishSentRequest_total ((hl.giveUp h id).drop h id)
    refine (hgiveUp h).frame (Frame.drop h id).toDialogFrame fun h' => ?_
    rw [drop, state_put]
    split_ifs with hh
    · rw [hh]
      rfl
    · rfl

end TelegramDesktop.Data.Histories
