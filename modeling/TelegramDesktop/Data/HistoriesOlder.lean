import TelegramDesktop.Data.HistoriesGate

namespace TelegramDesktop.Data.Histories
open Base

variable {H : Type} [LinearOrder H] {s s' s'' : Histories H} {h h' : H} {id : ℕ}

/-- A request waits for its turn, or, with one of some types, for its answer. -/
def PresentAs (p : RequestType → Prop) (s : Histories H) (h : H) (id : ℕ) : Prop :=
  (∃ r, (id, r) ∈ (s.state h).sent.entries ∧ p r.type) ∨
    ∃ q, (id, q) ∈ (s.state h).postponed.entries

def PresentAt (s : Histories H) (h : H) (id : ℕ) : Prop := PresentAs (fun _ => True) s h id

/-- Whoever is present is found by its number, and no number is given before its time. -/
structure Owned (s : Histories H) : Prop where
  owner : ∀ h id, PresentAt s h id → s.historyByRequest.get? id = some h
  fresh : ∀ id, s.requestAutoincrement < id → s.historyByRequest.get? id = none

theorem Owned.start : Owned ({} : Histories H) where
  owner _ _ hin := hin.elim (fun ⟨_, hr, _⟩ => nomatch hr) fun ⟨_, hq⟩ => nomatch hq
  fresh _ _ := rfl

/-- Every request with an old number was there before, and only history requests are put off. -/
structure Older (s s' : Histories H) : Prop where
  le : s.requestAutoincrement ≤ s'.requestAutoincrement
  presentAs : ∀ p : RequestType → Prop, p .history → ∀ h id, id ≤ s.requestAutoincrement →
    PresentAs p s' h id → PresentAs p s h id
  owned : Owned s → Owned s'

theorem Older.present (holder : Older s s') (hle : id ≤ s.requestAutoincrement)
    (hin : PresentAt s' h id) : PresentAt s h id :=
  holder.presentAs _ trivial h id hle hin

theorem Older.refl (s : Histories H) : Older s s :=
  ⟨le_rfl, fun _ _ _ _ _ hin => hin, fun ho => ho⟩

theorem Older.trans (h₁ : Older s s') (h₂ : Older s' s'') : Older s s'' := by
  refine ⟨h₁.le.trans h₂.le, fun p hp h id hle hin => ?_, fun ho => h₂.owned (h₁.owned ho)⟩
  exact h₁.presentAs p hp h id hle (h₂.presentAs p hp h id (hle.trans h₁.le) hin)

/-- Nothing is given a number, and whoever is present was. -/
theorem Older.of_less (hpresent : ∀ p : RequestType → Prop, p .history → ∀ h id,
      PresentAs p s' h id → PresentAs p s h id)
    (hcount : s'.requestAutoincrement = s.requestAutoincrement)
    (hnumbers : s'.historyByRequest = s.historyByRequest) : Older s s' := by
  refine ⟨hcount.ge, fun p hp h id _ => hpresent p hp h id, fun ho => ⟨fun h id hin => ?_,
    fun id hlt => ?_⟩⟩
  · rw [hnumbers]
    exact ho.owner h id (hpresent _ trivial h id hin)
  · rw [hnumbers]
    exact ho.fresh id (hcount ▸ hlt)

theorem SamePlaces.present {p : RequestType → Prop} (hsame : SamePlaces s s')
    (hin : PresentAs p s' h id) : PresentAs p s h id := by
  rwa [PresentAs, hsame.sent, hsame.postponed] at hin

theorem SamePlaces.older (hsame : SamePlaces s s')
    (hcount : s'.requestAutoincrement = s.requestAutoincrement)
    (hnumbers : s'.historyByRequest = s.historyByRequest) : Older s s' :=
  .of_less (fun _ _ _ _ => hsame.present) hcount hnumbers

theorem Older.of_fields (hstate : ∀ h, s'.state h = s.state h)
    (hcount : s'.requestAutoincrement = s.requestAutoincrement)
    (hnumbers : s'.historyByRequest = s.historyByRequest) : Older s s' := by
  refine .of_less (fun p _ h id hin => ?_) hcount hnumbers
  rwa [PresentAs, hstate] at hin

theorem Older.put_read {state : State} (hsent : state.sent = (s.state h).sent)
    (hpostponed : state.postponed = (s.state h).postponed) : Older s (s.put h state) :=
  (SamePlaces.put_read hsent hpostponed).older rfl rfl

/-- A new request is the only one that may be present since. -/
theorem Older.place (hl : Linked s)
    (hpresent : ∀ p : RequestType → Prop, p .history → ∀ h' id, PresentAs p s' h' id →
      PresentAs p s h' id ∨ (h' = h ∧ id = s.requestAutoincrement + 1))
    (hcount : s'.requestAutoincrement = s.requestAutoincrement + 1)
    (hnumbers : s'.historyByRequest =
      s.historyByRequest.emplace (s.requestAutoincrement + 1) h) : Older s s' := by
  have hknown : ∀ h' id, PresentAt s h' id → id ≤ s.requestAutoincrement := by
    rintro h' id (⟨r, hr, -⟩ | ⟨q, hq⟩)
    · exact hl.sent_le h' id r hr
    · exact hl.postponed_le h' id q hq
  refine ⟨hcount ▸ Nat.le_succ _, fun p hp h' id hle hin => ?_, fun ho => ⟨fun h' id hin => ?_,
    fun id hlt => ?_⟩⟩
  · refine (hpresent p hp h' id hin).resolve_right fun hnew => ?_
    have heq := hnew.2
    omega
  · rw [hnumbers, FlatMap.get?_emplace]
    rcases hpresent _ trivial h' id hin with hold | ⟨rfl, rfl⟩
    · have hle := hknown h' id hold
      rw [if_neg (by omega)]
      exact ho.owner h' id hold
    · rw [if_pos rfl, ho.fresh _ (Nat.lt_succ_self _), Option.getD_none]
  · rw [hcount] at hlt
    rw [hnumbers, FlatMap.get?_emplace, if_neg (by omega)]
    exact ho.fresh id (by omega)

theorem present_sendNow {p : RequestType → Prop} {type : RequestType} {generator : Query}
    (hin : PresentAs p (s.sendNow h id type generator) h' id') :
    PresentAs p s h' id' ∨ (h' = h ∧ id' = id) := by
  rw [PresentAs, postponed_sendNow, state_sendNow] at hin
  rcases hin with ⟨r, hr, htype⟩ | hq
  · split_ifs at hr with hh
    · rcases (FlatMap.mem_emplace _ _ _ _).mp hr with hr | ⟨heq, -⟩
      · exact .inl (.inl ⟨r, hh ▸ hr, htype⟩)
      · exact .inr ⟨hh, congrArg Prod.fst heq⟩
    · exact .inl (.inl ⟨r, hr, htype⟩)
  · exact .inl (.inr hq)

theorem numbers_sendNow (s : Histories H) (h : H) (id : ℕ) (type : RequestType)
    (generator : Query) :
    (s.sendNow h id type generator).requestAutoincrement = s.requestAutoincrement ∧
      (s.sendNow h id type generator).historyByRequest = s.historyByRequest := by
  cases generator <;> exact ⟨rfl, rfl⟩

theorem numbers_markRequestEntry :
    (s.markRequestEntry h).requestAutoincrement = s.requestAutoincrement ∧
      (s.markRequestEntry h).historyByRequest = s.historyByRequest := by
  rw [markRequestEntry]
  split_ifs
  · exact ⟨rfl, rfl⟩
  · exact ⟨rfl, rfl⟩

theorem numbers_resendHistoryRequests :
    (s.resendHistoryRequests h).requestAutoincrement = s.requestAutoincrement ∧
      (s.resendHistoryRequests h).historyByRequest = s.historyByRequest := by
  rw [resendHistoryRequests, cancelAll_eq]
  exact ⟨rfl, rfl⟩

theorem present_resendHistoryRequests {p : RequestType → Prop} (hp : p .history) (hl : Linked s)
    (hin : PresentAs p (s.resendHistoryRequests h) h' id) : PresentAs p s h' id := by
  obtain ⟨hsent, hpostponed, hother⟩ := mem_resendHistoryRequests (h := h) hl
  by_cases hh : h' = h
  · subst hh
    rcases hin with ⟨r, hr, htype⟩ | ⟨q, hq⟩
    · exact .inl ⟨r, ((hsent id r).mp hr).1, htype⟩
    · rcases (hpostponed id q).mp hq with hq | ⟨r, hr, htype, -⟩
      · exact .inr ⟨q, hq⟩
      · exact .inl ⟨r, hr, htype ▸ hp⟩
  · rwa [PresentAs, hother h' hh] at hin

theorem requestAutoincrement_sendRequest (type : RequestType) (generator : Query) :
    (s.sendRequest h type generator).requestAutoincrement = s.requestAutoincrement + 1 := by
  rw [sendRequest_eq]
  dsimp only
  split_ifs
  · rfl
  · exact numbers_resendHistoryRequests.1.trans
      (numbers_markRequestEntry.1.trans (numbers_sendNow ..).1)
  · exact numbers_markRequestEntry.1.trans (numbers_sendNow ..).1

theorem Older.sendRequest (hl : Linked s) {type : RequestType} {generator : Query}
    (hplain : type = .history → generator = .plain) :
    Older s (s.sendRequest h type generator) := by
  obtain ⟨hsent, hpostponed⟩ := hl.next_unused (h := h)
  have hlinked := hl.returnNext.sendNow hsent hpostponed le_rfl hplain
  obtain ⟨hcount, hnumbers⟩ := numbers_sendNow (s.returnNext h) h (s.requestAutoincrement + 1)
    type generator
  obtain ⟨hcount', hnumbers'⟩ := numbers_markRequestEntry (h := h)
    (s := (s.returnNext h).sendNow h (s.requestAutoincrement + 1) type generator)
  have hpresent : ∀ p : RequestType → Prop, ∀ h' id, PresentAs p (((s.returnNext h).sendNow h
      (s.requestAutoincrement + 1) type generator).markRequestEntry h) h' id →
        PresentAs p s h' id ∨ (h' = h ∧ id = s.requestAutoincrement + 1) := by
    intro p h' id hin
    exact present_sendNow (s := s.returnNext h) (SamePlaces.markRequestEntry.present hin)
  rw [sendRequest_eq]
  dsimp only
  split_ifs with hgate hdelete
  · refine .place (h := h) hl (fun p _ h' id hin => ?_) rfl rfl
    rw [PresentAs, state_put] at hin
    split_ifs at hin with hh
    · rcases hin with hr | ⟨q, hq⟩
      · exact .inl (.inl (hh ▸ hr))
      · rcases (FlatMap.mem_emplace _ _ _ _).mp hq with hq | ⟨heq, -⟩
        · exact .inl (.inr ⟨q, hh ▸ hq⟩)
        · exact .inr ⟨hh, congrArg Prod.fst heq⟩
    · exact .inl hin
  · obtain ⟨hcount'', hnumbers''⟩ := numbers_resendHistoryRequests (h := h)
      (s := ((s.returnNext h).sendNow h (s.requestAutoincrement + 1) type
        generator).markRequestEntry h)
    refine .place (h := h) hl (fun p hp h' id hin => ?_) ?_ ?_
    · exact hpresent p h' id (present_resendHistoryRequests hp hlinked.markRequestEntry hin)
    · exact hcount''.trans (hcount'.trans hcount)
    · exact hnumbers''.trans (hnumbers'.trans hnumbers)
  · exact .place (h := h) hl (fun p _ => hpresent p) (hcount'.trans hcount)
      (hnumbers'.trans hnumbers)

theorem Move.older (hmove : Move s s') (hs : Sound s) : Older s s' := by
  obtain ⟨hl, hd, -⟩ := hs
  cases hmove with
  | send h type generator hplain hread => exact .sendRequest hl hplain
  | read h hwill =>
    have hput : Linked (s.put h (s.state h).readSent) := hl.put_read _ rfl rfl
    have holder : Older s (s.put h (s.state h).readSent) := .put_read rfl rfl
    exact holder.trans (Older.sendRequest hput nofun)
  | entry h =>
    obtain ⟨-, -, -, hcount, hnumbers⟩ := requestDialogEntry_events (s := s) (h := h) none
    exact (SamePlaces.requestDialogEntry none).older hcount hnumbers
  | register h =>
    have hcounted : Older s ({ s with
        callbackAutoincrement := s.callbackAutoincrement + 1 }.emit
          (.registered h s.callbackAutoincrement)) := .of_fields (fun _ => rfl) rfl rfl
    obtain ⟨-, -, -, hcount, hnumbers⟩ := requestDialogEntry_events (h := h)
      (s := { s with callbackAutoincrement := s.callbackAutoincrement + 1 }.emit
        (.registered h s.callbackAutoincrement)) (some s.callbackAutoincrement)
    exact hcounted.trans ((SamePlaces.requestDialogEntry _).older hcount hnumbers)
  | call =>
    rcases call_cases hd with ⟨hself, -⟩ | hrequested
    · rw [hself]
      exact .of_fields (fun _ => rfl) rfl rfl
    · obtain ⟨-, -, -, hcount, -, hnumbers⟩ := hrequested.rest
      exact (SamePlaces.requested hrequested).older hcount hnumbers
  | inbox h upTo => exact .of_fields (fun _ => rfl) rfl rfl
  | will h tillId when hsent hknown => exact .put_read rfl rfl
  | readDone h => exact .put_read rfl rfl
  | readApplied h hknown => exact .put_read rfl rfl
  | addUser h args => exact .of_fields (fun _ => rfl) rfl rfl

theorem Moves.older (hmoves : Moves s s') (hs : Sound s) : Older s s' := by
  induction hmoves with
  | refl => exact .refl s
  | tail hmoves hmove ih => exact ih.trans (hmove.older (Moves.sound hmoves hs))

theorem sendAll_present (entries : List (ℕ × Query)) (s : Histories H) :
    (∀ (p : RequestType → Prop) (h' : H) (id : ℕ),
      PresentAs p (entries.foldl (fun s entry => s.sendNow h entry.1 .history entry.2) s) h' id →
        PresentAs p s h' id ∨ (h' = h ∧ ∃ q, (id, q) ∈ entries)) ∧
      (entries.foldl (fun s entry => s.sendNow h entry.1 .history entry.2)
        s).requestAutoincrement = s.requestAutoincrement ∧
      (entries.foldl (fun s entry => s.sendNow h entry.1 .history entry.2)
        s).historyByRequest = s.historyByRequest := by
  induction entries generalizing s with
  | nil => exact ⟨fun _ _ _ hin => .inl hin, rfl, rfl⟩
  | cons entry entries ih =>
    obtain ⟨hpresent, hcount, hnumbers⟩ := ih (s.sendNow h entry.1 .history entry.2)
    obtain ⟨hcount', hnumbers'⟩ := numbers_sendNow s h entry.1 .history entry.2
    refine ⟨fun p h' id hin => ?_, hcount.trans hcount', hnumbers.trans hnumbers'⟩
    rcases hpresent p h' id hin with hin | ⟨hh, q, hq⟩
    · rcases present_sendNow hin with hin | ⟨hh, hid⟩
      · exact .inl hin
      · exact .inr ⟨hh, entry.2, hid ▸ List.mem_cons_self⟩
    · exact .inr ⟨hh, q, List.mem_cons_of_mem _ hq⟩

theorem Older.sendPostponed : Older s (s.sendPostponed h) := by
  rw [Histories.sendPostponed]
  split_ifs
  · obtain ⟨hpresent, hcount, hnumbers⟩ := sendAll_present (h := h)
      (s.state h).postponed.entries (s.put h { s.state h with postponed := ∅ })
    refine .of_less (fun p _ h' id hin => ?_) hcount hnumbers
    rcases hpresent p h' id hin with hin | ⟨rfl, hq⟩
    · rw [PresentAs, state_put] at hin
      split_ifs at hin with hh
      · subst hh
        refine .inl (hin.resolve_right ?_)
        rintro ⟨q, hq⟩
        exact List.not_mem_nil hq
      · exact hin
    · exact .inr hq
  · exact .refl s

theorem Older.moveDialogRequest (hmove : s.moveDialogRequest h = some s') : Older s s' := by
  have hnumbers : s'.requestAutoincrement = s.requestAutoincrement ∧
      s'.historyByRequest = s.historyByRequest := by
    rcases moveDialogRequest_cases hmove with ⟨-, -, callbacks, -, rfl⟩ | ⟨-, rfl⟩
    · rw [postponeRequestDialogEntries]
      split_ifs
      · exact ⟨rfl, rfl⟩
      · exact ⟨rfl, rfl⟩
    · exact ⟨rfl, rfl⟩
  exact (SamePlaces.moveDialogRequest hmove).older hnumbers.1 hnumbers.2

theorem numbers_checkEmptyState : (s.checkEmptyState h).historyByRequest = s.historyByRequest := by
  rw [checkEmptyState]
  split
  · split_ifs
    · rfl
    · rfl
  · rfl

theorem Older.checkEmptyState : Older s (s.checkEmptyState h) :=
  SamePlaces.checkEmptyState.older checkEmptyState_counters.2.2 numbers_checkEmptyState

/-- A request that is erased from the sent ones, and is not elsewhere, is not present. -/
theorem present_eraseSent (hpostponed : ∀ q, (id, q) ∉ (s.state h).postponed.entries)
    (hothers : ∀ h', h' ≠ h → ¬PresentAt s h' id) :
    (∀ (p : RequestType → Prop) h' id', PresentAs p (s.eraseSent h id) h' id' →
        PresentAs p s h' id') ∧
      ∀ h', ¬PresentAt (s.eraseSent h id) h' id := by
  obtain ⟨hsent, hsame, hother, -⟩ := mem_eraseSent s h id
  have hless : ∀ (p : RequestType → Prop) h' id', PresentAs p (s.eraseSent h id) h' id' →
      PresentAs p s h' id' := by
    rintro p h' id' (⟨r, hr, htype⟩ | ⟨q, hq⟩)
    · by_cases hh : h' = h
      · subst hh
        exact .inl ⟨r, ((hsent id' r).mp hr).1, htype⟩
      · rw [hother h' hh] at hr
        exact .inl ⟨r, hr, htype⟩
    · rw [hsame] at hq
      exact .inr ⟨q, hq⟩
  refine ⟨hless, fun h' hin => ?_⟩
  by_cases hh : h' = h
  · subst hh
    rcases hin with ⟨r, hr, -⟩ | ⟨q, hq⟩
    · exact ((hsent id r).mp hr).2 rfl
    · rw [hsame] at hq
      exact hpostponed q hq
  · exact hothers h' hh (hless _ h' id hin)

theorem numbers_eraseSent :
    (s.eraseSent h id).historyByRequest = s.historyByRequest.erase id := by
  rw [eraseSent]
  split
  · rfl
  · rfl

theorem Older.eraseSent (hpostponed : ∀ q, (id, q) ∉ (s.state h).postponed.entries)
    (hothers : ∀ h', h' ≠ h → ¬PresentAt s h' id) :
    Older s (s.eraseSent h id) ∧ ∀ h', ¬PresentAt (s.eraseSent h id) h' id := by
  obtain ⟨hless, hgone⟩ := present_eraseSent hpostponed hothers
  have hcount : (s.eraseSent h id).requestAutoincrement = s.requestAutoincrement :=
    eraseSent_fields.2
  refine ⟨⟨hcount.ge, fun p _ h' id' _ => hless p h' id', fun ho => ⟨fun h' id' hin => ?_,
    fun id' hlt => ?_⟩⟩, hgone⟩
  · have hne : id' ≠ id := by
      rintro rfl
      exact hgone h' hin
    rw [numbers_eraseSent, FlatMap.get?_erase, if_neg hne]
    exact ho.owner h' id' (hless _ h' id' hin)
  · rw [numbers_eraseSent, FlatMap.get?_erase]
    split_ifs
    · rfl
    · exact ho.fresh id' (hcount ▸ hlt)

/-- What is finished is gone. -/
theorem Older.finishSentRequest (hle : id ≤ s.requestAutoincrement)
    (hpostponed : ∀ q, (id, q) ∉ (s.state h).postponed.entries)
    (hothers : ∀ h', h' ≠ h → ¬PresentAt s h' id) (hfinish : s.finishSentRequest h id = some s') :
    Older s s' ∧ ∀ h', ¬PresentAt s' h' id := by
  obtain ⟨herase, hgone⟩ := Older.eraseSent hpostponed hothers
  obtain ⟨moved, hmoved, rfl⟩ := Option.map_eq_some_iff.mp hfinish
  have hrest : Older (s.eraseSent h id) (moved.checkEmptyState h) :=
    (Older.sendPostponed.trans (.moveDialogRequest hmoved)).trans .checkEmptyState
  exact ⟨herase.trans hrest, fun h' hin => hgone h' (hrest.present (hle.trans herase.le) hin)⟩

theorem Older.emit {event : Event H} : Older s (s.emit event) := .of_fields (fun _ => rfl) rfl rfl

theorem not_present_of_lookup (hlookup : s.lookup h = none) : ¬PresentAt s h id := by
  have hstate : s.state h = {} := by
    rw [Histories.state, hlookup]
    rfl
  rw [PresentAt, PresentAs, hstate]
  rintro (⟨r, hr, -⟩ | ⟨q, hq⟩)
  · exact List.not_mem_nil hr
  · exact List.not_mem_nil hq

theorem Older.checkPostponed (hle : id ≤ s.requestAutoincrement)
    (hpostponed : ∀ q, (id, q) ∉ (s.state h).postponed.entries)
    (hothers : ∀ h', h' ≠ h → ¬PresentAt s h' id) (hfinish : s.checkPostponed h id = some s') :
    Older s s' ∧ ∀ h', ¬PresentAt s' h' id := by
  have hemit : Older s (s.emit (.finished h id)) := .emit
  rw [Histories.checkPostponed] at hfinish
  split at hfinish
  · obtain ⟨holder, hgone⟩ := Older.finishSentRequest (s := s.emit (.finished h id)) hle hpostponed
      hothers hfinish
    exact ⟨hemit.trans holder, hgone⟩
  · rename_i hlookup
    cases hfinish
    refine ⟨hemit, fun h' hin => ?_⟩
    by_cases hh : h' = h
    · subst hh
      exact not_present_of_lookup hlookup hin
    · exact hothers h' hh hin

/-- The end of `eraseSent`. -/
def eraseKnown (s : Histories H) (h : H) (id : ℕ) : Histories H :=
  match (s.state h).sent.get? id with
  | some request =>
    (s.cancel request.id).put h { s.state h with sent := (s.state h).sent.erase id }
  | none => s

/-- Its number is given up twice, which is as good as once. -/
theorem giveUp_eraseSent (h : H) (id : ℕ) :
    ((s.giveUp h id).drop h id).eraseSent h id =
      ((s.emit (.cancelled h id)).drop h id).eraseSent h id := by
  have herase : (s.historyByRequest.erase id).erase id = s.historyByRequest.erase id := by
    apply FlatMap.ext
    simp [FlatMap.erase]
  have hknown : ∀ t : Histories H, t.eraseSent h id =
      eraseKnown { t with historyByRequest := t.historyByRequest.erase id } h id := fun _ => rfl
  have hsame : { (s.giveUp h id).drop h id with
        historyByRequest := ((s.giveUp h id).drop h id).historyByRequest.erase id } =
      { (s.emit (.cancelled h id)).drop h id with
        historyByRequest := ((s.emit (.cancelled h id)).drop h id).historyByRequest.erase id } := by
    show { (s.emit (.cancelled h id)).drop h id with
      historyByRequest := (s.historyByRequest.erase id).erase id } = _
    rw [herase]
    rfl
  rw [hknown, hknown, hsame]

theorem present_drop {p : RequestType → Prop} (hin : PresentAs p (s.drop h id) h' id') :
    PresentAs p s h' id' := by
  rw [PresentAs, drop, state_put] at hin
  split_ifs at hin with hh
  · subst hh
    rcases hin with hin | ⟨q, hq⟩
    · exact .inl hin
    · exact .inr ⟨q, ((FlatMap.mem_erase _ _ _).mp hq).1⟩
  · exact hin

theorem Older.cancelRequest (ho : Owned s) (hcancel : s.cancelRequest id = some s') :
    Older s s' ∧ ∀ h, ¬PresentAt s' h id := by
  rw [Histories.cancelRequest] at hcancel
  cases hget : s.historyByRequest.get? id with
  | none =>
    rw [hget] at hcancel
    cases hcancel
    refine ⟨.refl s, fun h hin => ?_⟩
    have howner := ho.owner h id hin
    rw [hget] at howner
    cases howner
  | some h =>
    rw [hget] at hcancel
    have hle : id ≤ s.requestAutoincrement := by
      by_contra hlt
      rw [ho.fresh id (not_le.mp hlt)] at hget
      cases hget
    have hothers : ∀ h', h' ≠ h → ¬PresentAt s h' id := by
      intro h' hh hin
      have howner := ho.owner h' id hin
      rw [hget] at howner
      exact hh (Option.some.inj howner).symm
    have hgive : s.giveUp h id = Histories.emit { s with
        historyByRequest := s.historyByRequest.erase id } (.cancelled h id) := rfl
    dsimp only at hcancel
    rw [← hgive] at hcancel
    cases hlookup : (s.giveUp h id).lookup h with
    | none =>
      rw [hlookup] at hcancel
      cases hcancel
      have hgone : ∀ h', ¬PresentAt s h' id := by
        intro h' hin
        by_cases hh : h' = h
        · subst hh
          exact not_present_of_lookup hlookup hin
        · exact hothers h' hh hin
      refine ⟨⟨le_rfl, fun _ _ _ _ _ hin => hin, fun _ => ⟨fun h' id' hin => ?_,
        fun id' hlt => ?_⟩⟩, hgone⟩
      · have hne : id' ≠ id := by
          rintro rfl
          exact hgone h' hin
        exact (FlatMap.get?_erase _ _ _).trans ((if_neg hne).trans (ho.owner h' id' hin))
      · refine (FlatMap.get?_erase _ _ _).trans ?_
        split_ifs
        · rfl
        · exact ho.fresh id' hlt
    | some state =>
      rw [hlookup] at hcancel
      obtain rfl := state_of_lookup hlookup
      have hfinish : ((s.emit (.cancelled h id)).drop h id).finishSentRequest h id = some s' := by
        rw [Histories.finishSentRequest, ← giveUp_eraseSent]
        exact hcancel
      have hdrop : Older s ((s.emit (.cancelled h id)).drop h id) :=
        .of_less (fun _ _ _ _ hin => present_drop (s := s.emit (.cancelled h id)) hin) rfl rfl
      have hpostponed : ∀ q, (id, q) ∉
          (((s.emit (.cancelled h id)).drop h id).state h).postponed.entries := by
        intro q hq
        rw [drop, state_put, if_pos rfl] at hq
        exact ((FlatMap.mem_erase _ _ _).mp hq).2 rfl
      obtain ⟨holder, hgone⟩ := Older.finishSentRequest (hle.trans hdrop.le) hpostponed
        (fun h' hh hin => hothers h' hh (present_drop (s := s.emit (.cancelled h id)) hin)) hfinish
      exact ⟨hdrop.trans holder, hgone⟩

/-- An answer finishes its own request, as long as that was not put off. -/
theorem Older.answered (hs : Sound s) (ho : Owned s) (holder : Older s s')
    {r : SentRequest} (hr : (id, r) ∈ (s.state h).sent.entries)
    (hput : r.type = .history → s' = s) (hfinish : s'.checkPostponed h id = some s'') :
    Older s s'' ∧ ∀ h', ¬PresentAt s'' h' id := by
  have hle := hs.linked.sent_le h id r hr
  have howner := ho.owner h id (.inl ⟨r, hr, trivial⟩)
  have hpostponed : ∀ q, (id, q) ∉ (s'.state h).postponed.entries := by
    intro q hq
    by_cases htype : r.type = .history
    · rw [hput htype] at hq
      exact hs.linked.apart h id r q hr hq
    · rcases holder.presentAs (· = .history) rfl h id hle (.inr ⟨q, hq⟩) with
        ⟨r', hr', htype'⟩ | ⟨q', hq'⟩
      · have hget := ((s.state h).sent.get?_eq_some_iff id r).mpr hr
        rw [((s.state h).sent.get?_eq_some_iff id r').mpr hr'] at hget
        exact htype (Option.some.inj hget ▸ htype')
      · exact hs.linked.apart h id r q' hr hq'
  have hothers : ∀ h', h' ≠ h → ¬PresentAt s' h' id := by
    intro h' hh hin
    have howner' := ho.owner h' id (holder.present hle hin)
    rw [howner] at howner'
    exact hh (Option.some.inj howner').symm
  obtain ⟨hfinished, hgone⟩ := Older.checkPostponed (hle.trans holder.le) hpostponed hothers hfinish
  exact ⟨holder.trans hfinished, hgone⟩

theorem Older.cancel (m : ℕ) : Older s (s.cancel m) := .of_fields (fun _ => rfl) rfl rfl

theorem numbers_dialogEntryApplied (request : ℕ) :
    (s.dialogEntryApplied h request).requestAutoincrement = s.requestAutoincrement ∧
      (s.dialogEntryApplied h request).historyByRequest = s.historyByRequest := by
  rw [dialogEntryApplied_eq]
  split_ifs
  · exact ⟨rfl, rfl⟩
  · rw [applyRead]
    split_ifs
    · exact ⟨checkEmptyState_counters.2.2, numbers_checkEmptyState⟩
    · exact ⟨rfl, rfl⟩

theorem Older.dialogEntryApplied (request : ℕ) : Older s (s.dialogEntryApplied h request) :=
  (SamePlaces.dialogEntryApplied request).older (numbers_dialogEntryApplied request).1
    (numbers_dialogEntryApplied request).2

theorem Older.finalize (histories : List H) (request : ℕ) :
    Older s (s.finalize histories request) := by
  rw [Histories.finalize]
  induction histories generalizing s with
  | nil => exact .refl s
  | cons first histories ih => exact (Older.dialogEntryApplied request).trans ih

/-- Whatever answer comes, its request is gone if it was one of a history. -/
theorem Older.takeAnswer (hs : Sound s) (ho : Owned s) {m : ℕ} {answer : Answer}
    (htake : s.takeAnswer m answer = some s') :
    Older s s' ∧ ∀ h id q, s.flights.get? m = some (.request h id q) → q ≠ .deleteChannel →
      ∀ h', ¬PresentAt s' h' id := by
  rw [Histories.takeAnswer] at htake
  cases hget : s.flights.get? m with
  | none =>
    rw [hget] at htake
    cases htake
    refine ⟨.refl s, ?_⟩
    rintro _ _ _ ⟨⟩
  | some target =>
    rw [hget] at htake
    have hflight := (FlatMap.get?_eq_some_iff _ _ _).mp hget
    cases target with
    | request h id q =>
      obtain ⟨r, hr, -, hgenerator⟩ := hs.linked.answerable m h id q hflight
      dsimp only at htake
      obtain ⟨s₂, hs₂, rfl⟩ := Option.map_eq_some_iff.mp htake
      by_cases hq : q = .deleteChannel
      · subst hq
        cases hs₂
        refine ⟨.cancel m, fun h' id' q' heq hne => ?_⟩
        obtain ⟨-, -, rfl⟩ := Target.request.inj (Option.some.inj heq)
        exact absurd rfl hne
      · obtain ⟨s₁, s₃, hs₃, hmoves, hfinish⟩ := requestAnswer_moves hs hflight hq answer
        rw [hs₂] at hs₃
        cases hs₃
        have hfinished : Older s s₂ ∧ ∀ h', ¬PresentAt s₂ h' id := by
          by_cases htype : r.type = .history
          · have hplain : q = .plain := hgenerator ▸ hs.linked.plain_sent h id r hr htype
            subst hplain
            exact Older.answered hs ho (.refl s) hr (fun _ => rfl) hs₂
          · exact Older.answered hs ho (hmoves.older hs) hr (fun h => absurd h htype) hfinish
        refine ⟨hfinished.1.trans (.cancel m), fun h' id' q' heq _ h'' hin => ?_⟩
        obtain ⟨-, rfl, -⟩ := Target.request.inj (Option.some.inj heq)
        exact hfinished.2 h'' hin
    | addChatUser h args =>
      cases htake
      refine ⟨?_, by rintro _ _ _ ⟨⟩⟩
      split_ifs
      · have hmove := deleteAllMessages_move s h args answer.peer
        exact (hmove.older hs).trans (.cancel m)
      · exact .cancel m
    | peerDialogs histories =>
      cases htake
      exact ⟨(Older.finalize histories m).trans (.cancel m), by rintro _ _ _ ⟨⟩⟩

/-- Every step keeps what is known of the numbers. -/
theorem Older.step (hs : Sound s) (ho : Owned s) {action : Action H} (hvalid : action.Valid)
    (hstep : s.step action = some s') : Older s s' := by
  have hmoved : ∀ {s₁ : Histories H} {result : Option (Histories H)}, result = some s₁ →
      Moves s s₁ → result = some s' → Older s s' := by
    intro s₁ result heq hmoves hresult
    rw [heq] at hresult
    cases hresult
    exact hmoves.older hs
  cases action with
  | sendRequest h type =>
    exact hmoved rfl (.single (.send s h type .plain (fun _ => rfl) nofun)) hstep
  | deleteMessages h =>
    exact hmoved rfl (.single (.send s h .delete .deleteMessages nofun nofun)) hstep
  | deleteAllMessages h args peer =>
    exact hmoved rfl (.single (deleteAllMessages_move s h args peer)) hstep
  | deleteMessagesByDates h =>
    exact hmoved rfl (.single (.send s h .delete .deleteByDates nofun nofun)) hstep
  | cancelRequest id => exact (Older.cancelRequest ho hstep).1
  | requestDialogEntry h => exact hmoved rfl (.single (.register s h)) hstep
  | postponedCall =>
    rw [Histories.step] at hstep
    split_ifs at hstep
    · exact hmoved rfl .refl hstep
    · exact hmoved rfl (.single (.call s)) hstep
  | readInboxTill h tillId force info =>
    obtain ⟨s₁, hs₁, hmoves⟩ := readInboxTill_moves (h := h) hs hvalid info
    exact hmoved hs₁ hmoves hstep
  | sendPendingReadInbox h now =>
    obtain ⟨s₁, hs₁, hmoves⟩ := sendPendingReadInbox_moves (h := h) hs now
    exact hmoved hs₁ hmoves hstep
  | readRequestsTimer now =>
    obtain ⟨s₁, hs₁, hmoves⟩ := sendReadRequests_moves hs now
    exact hmoved hs₁ hmoves hstep
  | setInboxReadTill h upTo => exact hmoved rfl (.single (.inbox s h upTo)) hstep
  | dialogEntryApplied h =>
    cases hstep
    exact .dialogEntryApplied 0
  | answer m answer => exact (Older.takeAnswer hs ho hstep).1

end TelegramDesktop.Data.Histories
