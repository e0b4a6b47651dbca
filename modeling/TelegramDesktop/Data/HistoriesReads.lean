import TelegramDesktop.Data.HistoriesEntries

namespace TelegramDesktop.Data.Histories
open Base

variable {H : Type} [LinearOrder H] {s s' s'' : Histories H} {h h' : H} {id : ℕ}

theorem ReadFrame.of_fields (hwill : ∀ h, (s'.state h).willReadTill = (s.state h).willReadTill)
    (hsent : ∀ h, (s'.state h).sentReadTill = (s.state h).sentReadTill)
    (hinbox : s'.inboxReadBefore = s.inboxReadBefore) (htills : ∀ h, s'.tills h = s.tills h)
    (hflights : ∀ a, a ∈ s'.flights.entries →
      a ∈ s.flights.entries ∨ ∃ m histories, a = (m, .peerDialogs histories)) :
    ReadFrame s s' := by
  refine ⟨hinbox, hwill, hsent, htills, fun m h id tillId hflight => ?_⟩
  rcases hflights _ hflight with hflight | ⟨m', histories, heq⟩
  · exact hflight
  · exact nomatch (Prod.mk.inj heq).2

theorem ReadFrame.cancel (m : ℕ) : ReadFrame s (s.cancel m) :=
  .of_fields (fun _ => rfl) (fun _ => rfl) rfl (fun _ => rfl)
    fun _ hflight => .inl ((FlatMap.mem_erase _ _ _).mp hflight).1

theorem ReadFrame.markRequestEntry : ReadFrame s (s.markRequestEntry h) := by
  obtain ⟨-, -, hinbox, -, -, hflights, hevents⟩ := markRequestEntry_fields (s := s) (h := h)
  refine .of_fields (fun _ => markRequestEntry_same.willReadTill)
    (fun _ => markRequestEntry_same.sentReadTill) hinbox (fun h' => ?_) ?_
  · rw [Histories.tills, hevents]
    rfl
  · rw [hflights]
    exact fun _ hflight => .inl hflight

theorem ReadFrame.sendRequest (hl : Linked s) {type : RequestType} {generator : Query}
    (hplain : type = .history → generator = .plain)
    (hread : ∀ tillId, generator ≠ .readHistory tillId) :
    ReadFrame s (s.sendRequest h type generator) := by
  obtain ⟨hsent, hpostponed⟩ := hl.next_unused (h := h)
  have hnext : Frame s (s.returnNext h) := Frame.returnNext
  have hlinked := hl.returnNext.sendNow hsent hpostponed le_rfl hplain
  have hsendNow : Frame (s.returnNext h) ((s.returnNext h).sendNow h (s.requestAutoincrement + 1)
      type generator) := Frame.sendNow hl.returnNext hread
  have hsend := (hnext.trans hsendNow).toReadFrame.trans (ReadFrame.markRequestEntry (h := h))
  rw [sendRequest_eq]
  dsimp only
  split_ifs
  · exact (hnext.trans (Frame.put_requests _ _)).toReadFrame
  · exact hsend.trans (Frame.resendHistoryRequests hlinked.markRequestEntry).toReadFrame
  · exact hsend

theorem ReadFrame.moveDialogRequest (hmove : s.moveDialogRequest h = some s') :
    ReadFrame s s' := by
  rcases moveDialogRequest_cases hmove with ⟨-, -, callbacks, -, rfl⟩ | ⟨-, rfl⟩
  · obtain ⟨-, -, hinbox, -, hflights, hevents⟩ := postponeRequestDialogEntries_fields
      (s := { s with
        dialogRequestsPending := s.dialogRequestsPending.emplace h callbacks
        dialogRequests := s.dialogRequests.erase h }.put h
          { s.state h with postponedRequestEntry := false })
    have hput : ∀ h', (({ s with
        dialogRequestsPending := s.dialogRequestsPending.emplace h callbacks
        dialogRequests := s.dialogRequests.erase h }.put h
          { s.state h with
            postponedRequestEntry := false }).postponeRequestDialogEntries.state h') =
        { s.state h' with postponedRequestEntry :=
          if h' = h then false else (s.state h').postponedRequestEntry } := by
      intro h'
      rw [state_postponeRequestDialogEntries, state_put]
      split_ifs with hh
      · rw [hh]
      · rfl
    refine .of_fields (fun h' => by rw [hput]) (fun h' => by rw [hput]) hinbox (fun h' => ?_) ?_
    · rw [Histories.tills, hevents]
      rfl
    · rw [hflights]
      exact fun _ hflight => .inl hflight
  · exact .refl _

theorem ReadFrame.finishSentRequest (hl : Linked s) (hfinish : s.finishSentRequest h id = some s') :
    ReadFrame s s' := by
  obtain ⟨moved, hmoved, rfl⟩ := Option.map_eq_some_iff.mp hfinish
  exact ((Frame.finished hl h id).toReadFrame.trans (.moveDialogRequest hmoved)).trans
    Frame.checkEmptyState.toReadFrame

theorem ReadFrame.checkPostponed (hl : Linked s) (hfinish : s.checkPostponed h id = some s') :
    ReadFrame s s' := by
  have hemit : ReadFrame s (s.emit (.finished h id)) := (Frame.emit rfl).toReadFrame
  rw [Histories.checkPostponed] at hfinish
  split at hfinish
  · exact hemit.trans (.finishSentRequest (hl.emit _) hfinish)
  · cases hfinish
    exact hemit

theorem ReadFrame.cancelRequest (hl : Linked s) (hcancel : s.cancelRequest id = some s') :
    ReadFrame s s' :=
  cancelRequest_rule hcancel (.refl s) (fun h => (Frame.giveUp h id).toReadFrame)
    fun h hfinish => ((Frame.giveUp h id).trans (Frame.drop h id)).toReadFrame.trans
      (.finishSentRequest ((hl.giveUp h id).drop h id) hfinish)

theorem ReadFrame.requestDialogEntry (callback : Option Callback) :
    ReadFrame s (s.requestDialogEntry h callback) := by
  have hasked := requestDialogEntry_asked (s := s) (h := h) callback
  obtain ⟨hevents, -⟩ := requestDialogEntry_events (s := s) (h := h) callback
  refine .of_fields (fun h' => by rw [hasked.state]) (fun h' => by rw [hasked.state])
    hasked.inboxReadBefore (fun h' => ?_) ?_
  · rw [Histories.tills, hevents]
    rfl
  · rw [hasked.flights]
    exact fun _ hflight => .inl hflight

theorem ReadFrame.registerDialogEntry : ReadFrame s (s.registerDialogEntry h) := by
  have hcounted : ReadFrame s ({ s with
      callbackAutoincrement := s.callbackAutoincrement + 1 }.emit
        (.registered h s.callbackAutoincrement)) :=
    .of_fields (fun _ => rfl) (fun _ => rfl) rfl (fun _ => tills_emit nofun)
      fun _ hflight => .inl hflight
  exact hcounted.trans (.requestDialogEntry _)

theorem ReadFrame.requested (hr : Requested s s') : ReadFrame s s' := by
  obtain ⟨histories, hflights, -⟩ := hr.flights
  obtain ⟨hevents, -, -, -, hinbox, -⟩ := hr.rest
  have hsame : ∀ h, (s'.state h).willReadTill = (s.state h).willReadTill ∧
      (s'.state h).sentReadTill = (s.state h).sentReadTill := by
    intro h
    rw [hr.state]
    split_ifs
    · exact ⟨rfl, rfl⟩
    · exact ⟨rfl, rfl⟩
  refine .of_fields (fun h => (hsame h).1) (fun h => (hsame h).2) hinbox (fun h => ?_) ?_
  · rw [Histories.tills, hevents]
    rfl
  · rw [hflights]
    rintro a hflight
    exact ((FlatMap.mem_emplace _ _ _ _).mp hflight).imp_right fun heq => ⟨_, _, heq.1⟩

theorem ReadFrame.callAll (request : ℕ) : ReadFrame s (s.callAll h request) := by
  refine .of_fields (fun _ => rfl) (fun _ => rfl) rfl (fun h' => ?_) fun _ hflight => .inl hflight
  rw [Histories.tills, Histories.callAll, List.filterMap_append, List.filterMap_map]
  refine (congrArg (s.tills h' ++ ·) ?_).trans (List.append_nil _)
  exact List.filterMap_eq_nil_iff.mpr fun _ _ => rfl

/-- Whatever was asked to be read is below all that will be. -/
structure Reads (s : Histories H) : Prop where
  increasing : ∀ h, (s.tills h).Pairwise (· < ·)
  reached : ∀ h, ∀ t ∈ s.tills h, t ≤ (s.state h).sentReadTill ∨
    ((s.state h).sentReadTill = 0 ∧ ∃ before, s.inboxReadBefore h = some before ∧ t < before)
  above : ∀ h, (s.state h).willReadTill ≠ 0 →
    (s.state h).sentReadTill < (s.state h).willReadTill ∧
      ∀ t ∈ s.tills h, t < (s.state h).willReadTill
  nonneg : ∀ h, 0 ≤ (s.state h).sentReadTill
  answerable : ∀ m h id t, (m, Target.request h id (.readHistory t)) ∈ s.flights.entries →
    t ∈ s.tills h

theorem Reads.start : Reads ({} : Histories H) :=
  ⟨fun _ => .nil, nofun, fun _ hne => absurd rfl hne, fun _ => le_rfl, nofun⟩

theorem Reads.frame (hr : Reads s) (hframe : ReadFrame s s') : Reads s' := by
  constructor
  · intro h
    rw [hframe.tills]
    exact hr.increasing h
  · intro h t ht
    rw [hframe.tills] at ht
    rw [hframe.sentReadTill, hframe.inboxReadBefore]
    exact hr.reached h t ht
  · intro h
    rw [hframe.willReadTill, hframe.sentReadTill, hframe.tills]
    exact hr.above h
  · intro h
    rw [hframe.sentReadTill]
    exact hr.nonneg h
  · intro m h id t hflight
    rw [hframe.tills]
    exact hr.answerable m h id t (hframe.reads m h id t hflight)

/-- The known border does not go back. -/
theorem inboxReadBefore_setInboxReadTill (upTo : MsgId) :
    (s.setInboxReadTill h upTo).inboxReadBefore h' = if h' = h then
      some (max ((s.inboxReadBefore h).getD (upTo + 1)) (upTo + 1)) else s.inboxReadBefore h' := by
  refine (Function.update_apply _ _ _ _).trans ?_
  split_ifs
  · cases s.inboxReadBefore h with
    | none => rw [Option.getD_none, max_self]
    | some before => rfl
  · rfl

theorem Reads.setInboxReadTill (hr : Reads s) (upTo : MsgId) :
    Reads (s.setInboxReadTill h upTo) := by
  refine ⟨hr.increasing, fun h' t ht => ?_, hr.above, hr.nonneg, hr.answerable⟩
  refine (hr.reached h' t ht).imp_right ?_
  rintro ⟨hzero, before, hbefore, hless⟩
  refine ⟨hzero, ?_⟩
  rw [inboxReadBefore_setInboxReadTill]
  split_ifs with hh
  · subst hh
    rw [hbefore]
    exact ⟨_, rfl, lt_max_of_lt_left hless⟩
  · exact ⟨before, hbefore, hless⟩

/-- One state changes; what it says must fit what was sent. -/
theorem Reads.put (hr : Reads s) {state : State}
    (hreached : ∀ t ∈ s.tills h, t ≤ state.sentReadTill ∨
      (state.sentReadTill = 0 ∧ ∃ before, s.inboxReadBefore h = some before ∧ t < before))
    (habove : state.willReadTill ≠ 0 →
      state.sentReadTill < state.willReadTill ∧ ∀ t ∈ s.tills h, t < state.willReadTill)
    (hnonneg : 0 ≤ state.sentReadTill) : Reads (s.put h state) := by
  refine ⟨hr.increasing, fun h' => ?_, fun h' => ?_, fun h' => ?_, hr.answerable⟩
  · rw [state_put]
    split_ifs with hh
    · subst hh
      exact hreached
    · exact hr.reached h'
  · rw [state_put]
    split_ifs with hh
    · subst hh
      exact habove
    · exact hr.above h'
  · rw [state_put]
    split_ifs with hh
    · exact hnonneg
    · exact hr.nonneg h'

/-- A read that was acknowledged is covered by what the history knows. -/
theorem Reads.put_done (hr : Reads s) {state : State} (hwill : state.willReadTill =
      (s.state h).willReadTill) (hzero : state.sentReadTill = 0)
    (hknown : ∃ before, s.inboxReadBefore h = some before ∧ (s.state h).sentReadTill < before) :
    Reads (s.put h state) := by
  obtain ⟨before, hbefore, hless⟩ := hknown
  apply hr.put
  · intro t ht
    refine .inr ⟨hzero, before, hbefore, ?_⟩
    rcases hr.reached h t ht with hle | ⟨-, before', hbefore', hlt⟩
    · exact hle.trans_lt hless
    · rw [hbefore] at hbefore'
      cases hbefore'
      exact hlt
  · rw [hwill, hzero]
    intro hne
    obtain ⟨hlt, hall⟩ := hr.above h hne
    exact ⟨(hr.nonneg h).trans_lt hlt, hall⟩
  · exact hzero.ge

theorem Reads.applyRead (hr : Reads s) : Reads (s.applyRead h) := by
  rw [Histories.applyRead]
  split_ifs with hread
  · refine Reads.frame ?_ Frame.checkEmptyState.toReadFrame
    have hset := hr.setInboxReadTill (h := h) (s.state h).sentReadTill
    refine Reads.put_done (h := h) hset rfl rfl ?_
    rw [inboxReadBefore_setInboxReadTill, if_pos rfl]
    exact ⟨_, rfl, lt_max_of_lt_right (Int.lt_succ _)⟩
  · exact hr

theorem Reads.dialogEntryApplied (hr : Reads s) (request : ℕ) :
    Reads (s.dialogEntryApplied h request) := by
  rw [dialogEntryApplied_eq]
  split_ifs
  · exact hr
  · exact (hr.frame (.callAll request)).applyRead

theorem Reads.finalize (hr : Reads s) (histories : List H) (request : ℕ) :
    Reads (s.finalize histories request) := by
  induction histories generalizing s with
  | nil => exact hr
  | cons first histories ih => exact ih (hr.dialogEntryApplied request)

theorem tills_sendNow {type : RequestType} (tillId : MsgId) :
    (s.sendNow h id type (.readHistory tillId)).tills h' =
      s.tills h' ++ if h' = h then [tillId] else [] := by
  have hinvoked :
      ((s.request (.request h id (.readHistory tillId))).emit (.invoked h id)).tills h' =
        s.tills h' := tills_emit nofun
  rw [← hinvoked]
  refine (List.filterMap_append ..).trans (congrArg (_ ++ ·) ?_)
  by_cases hh : h = h'
  · rw [if_pos hh.symm]
    exact List.filterMap_cons_some (if_pos hh)
  · rw [if_neg (Ne.symm hh)]
    exact List.filterMap_cons_none (if_neg hh)

/-- A request is sent for what was just marked as sent. -/
theorem Reads.sendNow (hr : Reads s) {type : RequestType}
    (hbelow : ∀ t ∈ s.tills h, t < (s.state h).sentReadTill) :
    Reads (s.sendNow h id type (.readHistory (s.state h).sentReadTill)) := by
  have hstate : ∀ h', ((s.sendNow h id type (.readHistory (s.state h).sentReadTill)).state
        h').willReadTill = (s.state h').willReadTill ∧
      ((s.sendNow h id type (.readHistory (s.state h).sentReadTill)).state h').sentReadTill =
        (s.state h').sentReadTill := by
    intro h'
    rw [state_sendNow]
    split_ifs with hh
    · rw [hh]
      exact ⟨rfl, rfl⟩
    · exact ⟨rfl, rfl⟩
  have htills : ∀ h' t, t ∈ (s.sendNow h id type (.readHistory (s.state h).sentReadTill)).tills h' ↔
      t ∈ s.tills h' ∨ (h' = h ∧ t = (s.state h).sentReadTill) := by
    intro h' t
    rw [tills_sendNow, List.mem_append]
    refine or_congr_right ?_
    split_ifs with hh
    · rw [List.mem_singleton, and_iff_right hh]
    · exact iff_of_false List.not_mem_nil fun heq => hh heq.1
  constructor
  · intro h'
    rw [tills_sendNow]
    split_ifs with hh
    · subst hh
      refine List.pairwise_append.mpr ⟨hr.increasing h', List.pairwise_singleton _ _, ?_⟩
      intro t ht t' ht'
      rw [List.mem_singleton.mp ht']
      exact hbelow t ht
    · rw [List.append_nil]
      exact hr.increasing h'
  · intro h' t ht
    rw [(hstate h').2]
    rcases (htills h' t).mp ht with ht | ⟨rfl, rfl⟩
    · exact hr.reached h' t ht
    · exact .inl le_rfl
  · intro h' hne
    rw [(hstate h').1] at hne ⊢
    rw [(hstate h').2]
    obtain ⟨hlt, hall⟩ := hr.above h' hne
    refine ⟨hlt, fun t ht => ?_⟩
    rcases (htills h' t).mp ht with ht | ⟨rfl, rfl⟩
    · exact hall t ht
    · exact hlt
  · intro h'
    rw [(hstate h').2]
    exact hr.nonneg h'
  · intro m h' id' t hflight
    rw [htills]
    change _ ∈ (s.generate h id _).flights.entries at hflight
    rw [flights_generate] at hflight
    rcases (FlatMap.mem_emplace _ _ _ _).mp hflight with hflight | ⟨heq, -⟩
    · exact .inl (hr.answerable m h' id' t hflight)
    · obtain ⟨rfl, -, hq⟩ := Target.request.inj (Prod.mk.inj heq).2
      exact .inr ⟨rfl, Query.readHistory.inj hq⟩

theorem Reads.sendRequest (hl : Linked s) (hr : Reads s)
    (hbelow : ∀ t ∈ s.tills h, t < (s.state h).sentReadTill) :
    Reads (s.sendRequest h .readInbox (.readHistory (s.state h).sentReadTill)) := by
  obtain ⟨hsent, hpostponed⟩ := hl.next_unused (h := h)
  have hnext : Frame s (s.returnNext h) := Frame.returnNext
  have hlinked : Linked ((s.returnNext h).sendNow h (s.requestAutoincrement + 1) .readInbox
      (.readHistory (s.state h).sentReadTill)) :=
    hl.returnNext.sendNow hsent hpostponed le_rfl nofun
  have hsend : Reads ((s.returnNext h).sendNow h (s.requestAutoincrement + 1) .readInbox
      (.readHistory ((s.returnNext h).state h).sentReadTill)) :=
    (hr.frame hnext.toReadFrame).sendNow fun t ht =>
      hbelow t (by rwa [← hnext.tills])
  have hmark := hsend.frame (ReadFrame.markRequestEntry (h := h))
  rw [sendRequest_eq, if_neg fun heq => nomatch heq.1]
  dsimp only
  split_ifs
  · exact hmark.frame (Frame.resendHistoryRequests hlinked.markRequestEntry).toReadFrame
  · exact hmark

end TelegramDesktop.Data.Histories
