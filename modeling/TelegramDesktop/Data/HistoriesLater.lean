import TelegramDesktop.Data.HistoriesReads

namespace TelegramDesktop.Data.Histories
open Base

variable {H : Type} [LinearOrder H] {s s' s'' : Histories H} {h h' : H} {id : ℕ}

/-- Every request with an old number was there before, and entries are still asked for. -/
structure Later (s s' : Histories H) : Prop where
  mtp_le : s.mtpAutoincrement ≤ s'.mtpAutoincrement
  kept : ∀ m hs, (m, Target.peerDialogs hs) ∈ s.flights.entries →
    (m, Target.peerDialogs hs) ∈ s'.flights.entries
  known : ∀ m hs, m ≤ s.mtpAutoincrement → (m, Target.peerDialogs hs) ∈ s'.flights.entries →
    (m, Target.peerDialogs hs) ∈ s.flights.entries
  sent : ∀ h id r, r.id ≤ s.mtpAutoincrement → (id, r) ∈ (s'.state h).sent.entries →
    (id, r) ∈ (s.state h).sent.entries

theorem Later.refl (s : Histories H) : Later s s :=
  ⟨le_rfl, fun _ _ h => h, fun _ _ _ h => h, fun _ _ _ _ hr => hr⟩

theorem Later.trans (h₁ : Later s s') (h₂ : Later s' s'') : Later s s'' := by
  refine ⟨h₁.mtp_le.trans h₂.mtp_le, fun m hs hflight => h₂.kept m hs (h₁.kept m hs hflight),
    fun m hs hle hflight => ?_, fun h id r hle hr => ?_⟩
  · exact h₁.known m hs hle (h₂.known m hs (hle.trans h₁.mtp_le) hflight)
  · exact h₁.sent h id r hle (h₂.sent h id r (hle.trans h₁.mtp_le) hr)

theorem Later.frame (hframe : DialogFrame s s')
    (hmtp : s.mtpAutoincrement ≤ s'.mtpAutoincrement)
    (hsent : ∀ h id r, r.id ≤ s.mtpAutoincrement → (id, r) ∈ (s'.state h).sent.entries →
      (id, r) ∈ (s.state h).sent.entries) : Later s s' :=
  ⟨hmtp, fun m hs => (hframe.flights m hs).mpr, fun m hs _ => (hframe.flights m hs).mp, hsent⟩

/-- Nothing is sent and nothing is answered. -/
theorem Later.of_same (hsent : ∀ h, (s'.state h).sent = (s.state h).sent)
    (hflights : s'.flights = s.flights) (hmtp : s'.mtpAutoincrement = s.mtpAutoincrement) :
    Later s s' := by
  refine ⟨hmtp.ge, fun m hs => ?_, fun m hs _ => ?_, fun h id r _ => ?_⟩
  · rw [hflights]
    exact fun hflight => hflight
  · rw [hflights]
    exact fun hflight => hflight
  · rw [hsent]
    exact fun hr => hr

theorem sent_put_requests (postponed : FlatMap ℕ Query) :
    ((s.put h { s.state h with postponed := postponed }).state h').sent = (s.state h').sent := by
  rw [state_put]
  split_ifs with hh
  · rw [hh]
  · rfl

theorem Later.sendNow (hl : Linked s) {type : RequestType} {generator : Query}
    (hsent : ∀ r, (id, r) ∉ (s.state h).sent.entries) :
    Later s (s.sendNow h id type generator) := by
  have hmtp : (s.sendNow h id type generator).mtpAutoincrement = s.mtpAutoincrement + 1 :=
    mtpAutoincrement_generate generator
  refine .frame (DialogFrame.sendNow hl) (hmtp ▸ Nat.le_succ _) fun h' id' r hle hr => ?_
  rcases (mem_sent_sendNow hsent).mp hr with hr | ⟨-, -, rfl⟩
  · exact hr
  · exact absurd hle (Nat.not_succ_le_self _)

theorem Later.markRequestEntry : Later s (s.markRequestEntry h) := by
  obtain ⟨-, -, -, -, -, hflights, -⟩ := markRequestEntry_fields (s := s) (h := h)
  have hmtp : (s.markRequestEntry h).mtpAutoincrement = s.mtpAutoincrement := by
    rw [Histories.markRequestEntry]
    split_ifs
    · rfl
    · rfl
  exact .of_same (fun _ => markRequestEntry_same.sent) hflights hmtp

theorem Later.resendHistoryRequests (hl : Linked s) : Later s (s.resendHistoryRequests h) := by
  obtain ⟨hsent, -, hother⟩ := mem_resendHistoryRequests (h := h) hl
  have hmtp : (s.resendHistoryRequests h).mtpAutoincrement = s.mtpAutoincrement := by
    rw [Histories.resendHistoryRequests, cancelAll_eq]
    rfl
  refine .frame (Frame.resendHistoryRequests hl).toDialogFrame hmtp.ge fun h' id' r _ hr => ?_
  by_cases hh : h' = h
  · subst hh
    exact ((hsent id' r).mp hr).1
  · rwa [hother h' hh] at hr

theorem Later.sendRequest (hl : Linked s) {type : RequestType} {generator : Query}
    (hplain : type = .history → generator = .plain) :
    Later s (s.sendRequest h type generator) := by
  obtain ⟨hsent, hpostponed⟩ := hl.next_unused (h := h)
  have hnext : Later s (s.returnNext h) := .of_same (fun _ => rfl) rfl rfl
  have hlinked := hl.returnNext.sendNow hsent hpostponed le_rfl hplain
  have hsendNow : Later (s.returnNext h) ((s.returnNext h).sendNow h (s.requestAutoincrement + 1)
      type generator) := Later.sendNow hl.returnNext hsent
  have hsend := (hnext.trans hsendNow).trans (Later.markRequestEntry (h := h))
  rw [sendRequest_eq]
  dsimp only
  split_ifs
  · exact hnext.trans (.of_same (fun _ => sent_put_requests _) rfl rfl)
  · exact hsend.trans (Later.resendHistoryRequests hlinked.markRequestEntry)
  · exact hsend

theorem Later.eraseSent (hl : Linked s) : Later s (s.eraseSent h id) := by
  obtain ⟨hsent, -, hother, -⟩ := mem_eraseSent s h id
  refine .frame (Frame.eraseSent hl).toDialogFrame eraseSent_fields.1.ge fun h' id' r _ hr => ?_
  by_cases hh : h' = h
  · subst hh
    exact ((hsent id' r).mp hr).1
  · rwa [hother h' hh] at hr

theorem Later.sendPostponed (hl : Linked s) : Later s (s.sendPostponed h) :=
  (sendPostponed_rule (P := Later s)
    (fun _ _ hlinked hlater hsent => hlater.trans (Later.sendNow hlinked hsent)) hl (.refl s)
    (.of_same (fun _ => sent_put_requests _) rfl rfl)).2

theorem Later.moveDialogRequest (hmove : s.moveDialogRequest h = some s') : Later s s' := by
  rcases moveDialogRequest_cases hmove with ⟨-, -, callbacks, -, rfl⟩ | ⟨-, rfl⟩
  · have hmtp : ({ s with
        dialogRequestsPending := s.dialogRequestsPending.emplace h callbacks
        dialogRequests := s.dialogRequests.erase h }.put h
          { s.state h with
            postponedRequestEntry := false }).postponeRequestDialogEntries.mtpAutoincrement =
        s.mtpAutoincrement := by
      rw [postponeRequestDialogEntries]
      split_ifs
      · rfl
      · rfl
    refine .of_same (fun h' => ?_) ?_ hmtp
    · rw [state_postponeRequestDialogEntries, state_put]
      split_ifs with hh
      · rw [hh]
      · rfl
    · exact postponeRequestDialogEntries_fields.2.2.2.2.1
  · exact .refl _

theorem Later.finishSentRequest (hl : Linked s) (hfinish : s.finishSentRequest h id = some s') :
    Later s s' := by
  obtain ⟨moved, hmoved, rfl⟩ := Option.map_eq_some_iff.mp hfinish
  have hpostponed : Later s ((s.eraseSent h id).sendPostponed h) :=
    (Later.eraseSent hl).trans (Later.sendPostponed hl.eraseSent)
  exact (hpostponed.trans (.moveDialogRequest hmoved)).trans
    (.of_same (fun _ => state_checkEmptyState.sent) checkEmptyState_counters.1
      checkEmptyState_counters.2.1)

theorem Later.checkPostponed (hl : Linked s) (hfinish : s.checkPostponed h id = some s') :
    Later s s' := by
  have hemit : Later s (s.emit (.finished h id)) := .of_same (fun _ => rfl) rfl rfl
  rw [Histories.checkPostponed] at hfinish
  split at hfinish
  · exact hemit.trans (.finishSentRequest (hl.emit _) hfinish)
  · cases hfinish
    exact hemit

theorem Later.cancelRequest (hl : Linked s) (hcancel : s.cancelRequest id = some s') :
    Later s s' := by
  have hgiveUp : ∀ h, Later s (s.giveUp h id) := fun h => .of_same (fun _ => rfl) rfl rfl
  apply cancelRequest_rule hcancel (.refl s) hgiveUp
  intro h hfinish
  have hdrop : Later (s.giveUp h id) ((s.giveUp h id).drop h id) :=
    .of_same (fun _ => sent_put_requests _) rfl rfl
  exact ((hgiveUp h).trans hdrop).trans (.finishSentRequest ((hl.giveUp h id).drop h id) hfinish)

theorem Later.requestDialogEntry (callback : Option Callback) :
    Later s (s.requestDialogEntry h callback) := by
  have hasked := requestDialogEntry_asked (s := s) (h := h) callback
  obtain ⟨-, -, hmtp, -⟩ := requestDialogEntry_events (s := s) (h := h) callback
  exact .of_same (fun h' => by rw [hasked.state]) hasked.flights hmtp

theorem Later.requested (hr : Requested s s') : Later s s' := by
  obtain ⟨histories, hflights, -⟩ := hr.flights
  obtain ⟨-, -, hmtp, -⟩ := hr.rest
  refine ⟨hmtp ▸ Nat.le_succ _, fun m hs hflight => ?_, fun m hs hle hflight => ?_,
    fun h id r _ hr' => ?_⟩
  · rw [hflights]
    exact (FlatMap.mem_emplace _ _ _ _).mpr (.inl hflight)
  · rw [hflights] at hflight
    rcases (FlatMap.mem_emplace _ _ _ _).mp hflight with hflight | ⟨heq, -⟩
    · exact hflight
    · rw [(Prod.mk.inj heq).1] at hle
      exact absurd hle (Nat.not_succ_le_self _)
  · rw [hr.state] at hr'
    split_ifs at hr'
    · exact hr'
    · exact hr'

theorem Later.request (hl : Linked s) {target : Target H}
    (hdialogs : ∀ hs, target ≠ .peerDialogs hs)
    (hread : ∀ h id tillId, target ≠ .request h id (.readHistory tillId)) :
    Later s (s.request target) :=
  .frame (Frame.request hl hdialogs hread).toDialogFrame (Nat.le_succ _)
    fun _ _ _ _ hr => hr

/-- A finished request does not come back with its number. -/
theorem checkPostponed_gone (hl : Linked s) (hfinish : s.checkPostponed h id = some s')
    {r : SentRequest} (hle : r.id ≤ s.mtpAutoincrement) : (id, r) ∉ (s'.state h).sent.entries := by
  intro hr
  have hlinked := hl.emit (.finished h id)
  rw [Histories.checkPostponed] at hfinish
  split at hfinish
  · obtain ⟨moved, hmoved, rfl⟩ := Option.map_eq_some_iff.mp hfinish
    have hlater : Later ((s.emit (.finished h id)).eraseSent h id) (moved.checkEmptyState h) :=
      ((Later.sendPostponed hlinked.eraseSent).trans (.moveDialogRequest hmoved)).trans
        (.of_same (fun _ => state_checkEmptyState.sent) checkEmptyState_counters.1
          checkEmptyState_counters.2.1)
    obtain ⟨hsent, -⟩ := mem_eraseSent (s.emit (.finished h id)) h id
    have hmtp : ((s.emit (.finished h id)).eraseSent h id).mtpAutoincrement =
        s.mtpAutoincrement := eraseSent_fields.1
    have hold := hlater.sent h id r (hle.trans hmtp.ge) hr
    exact ((hsent id r).mp hold).2 rfl
  · rename_i hlookup
    cases hfinish
    rw [Histories.state, hlookup] at hr
    exact List.not_mem_nil hr

end TelegramDesktop.Data.Histories
