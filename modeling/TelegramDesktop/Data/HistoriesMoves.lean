import Mathlib.Logic.Relation
import TelegramDesktop.Data.HistoriesLater

namespace TelegramDesktop.Data.Histories
open Base

variable {H : Type} [LinearOrder H] {s s' s'' : Histories H} {h h' : H} {id : ℕ}

/-- Everything that is kept in every run. -/
structure Sound (s : Histories H) : Prop where
  linked : Linked s
  dialogs : Dialogs s
  reads : Reads s

theorem Sound.start : Sound ({} : Histories H) := ⟨.start, .start, .start⟩

/-- The state of a history when its read request is sent. -/
def State.readSent (state : State) : State :=
  { state with
    sentReadTill := state.willReadTill
    willReadTill := 0
    willReadWhen := 0
    sentReadDone := false }

/-- The pieces that the steps are made of, as long as no request is finished. -/
inductive Move : Histories H → Histories H → Prop
  | send (s : Histories H) (h : H) (type : RequestType) (generator : Query)
      (hplain : type = .history → generator = .plain)
      (hread : ∀ tillId, generator ≠ .readHistory tillId) :
      Move s (s.sendRequest h type generator)
  | read (s : Histories H) (h : H) (hwill : (s.state h).willReadTill ≠ 0) :
      Move s ((s.put h (s.state h).readSent).sendRequest h .readInbox
        (.readHistory (s.state h).willReadTill))
  | entry (s : Histories H) (h : H) : Move s (s.requestDialogEntry h none)
  | register (s : Histories H) (h : H) : Move s (s.registerDialogEntry h)
  | call (s : Histories H) :
      Move s ({ s with postponedCalls := s.postponedCalls - 1 }.sendDialogRequests)
  | inbox (s : Histories H) (h : H) (upTo : MsgId) : Move s (s.setInboxReadTill h upTo)
  | will (s : Histories H) (h : H) (tillId : MsgId) (when : Time)
      (hsent : (s.state h).sentReadTill < tillId)
      (hknown : ((s.state h).willReadTill ≠ 0 ∧ (s.state h).willReadTill ≤ tillId) ∨
        (s.inboxReadBefore h).getD 1 ≤ tillId) :
      Move s (s.put h { s.state h with willReadTill := tillId, willReadWhen := when })
  | readDone (s : Histories H) (h : H) :
      Move s (s.put h { s.state h with sentReadDone := true })
  | readApplied (s : Histories H) (h : H)
      (hknown : ∃ before, s.inboxReadBefore h = some before ∧
        (s.state h).sentReadTill < before) :
      Move s (s.put h { s.state h with sentReadDone := true, sentReadTill := 0 })
  | addUser (s : Histories H) (h : H) (args : DeleteAll) :
      Move s (s.request (.addChatUser h args))

abbrev Moves : Histories H → Histories H → Prop := Relation.ReflTransGen Move

/-- Only what is read changes in the state of one history. -/
theorem read_frame {state : State}
    (hflag : state.postponedRequestEntry = (s.state h).postponedRequestEntry)
    (hsent : state.sent = (s.state h).sent) :
    DialogFrame s (s.put h state) ∧ ∀ h', ((s.put h state).state h').sent = (s.state h').sent := by
  have hsame : ∀ h', ((s.put h state).state h').postponedRequestEntry =
      (s.state h').postponedRequestEntry ∧
      ((s.put h state).state h').sent = (s.state h').sent := by
    intro h'
    rw [state_put]
    split_ifs with hh
    · rw [hh]
      exact ⟨hflag, hsent⟩
    · exact ⟨rfl, rfl⟩
  exact ⟨⟨rfl, rfl, rfl, rfl, fun h' => (hsame h').1, fun _ _ => Iff.rfl, fun _ => rfl,
    fun _ => rfl⟩, fun h' => (hsame h').2⟩

theorem Dialogs.put_read (hd : Dialogs s) {state : State}
    (hflag : state.postponedRequestEntry = (s.state h).postponedRequestEntry)
    (hsent : state.sent = (s.state h).sent) : Dialogs (s.put h state) := by
  obtain ⟨hframe, hsame⟩ := read_frame hflag hsent
  refine hd.frame hframe fun h' => ?_
  rw [postponeEntryRequest, postponeEntryRequest, hsame]

theorem Later.put_read {state : State} (hsent : state.sent = (s.state h).sent) :
    Later s (s.put h state) := by
  refine .of_same (fun h' => ?_) rfl rfl
  rw [state_put]
  split_ifs with hh
  · rw [hh, hsent]
  · rfl

theorem sendDialogRequests_of_nil (hnone : s.dialogRequestsPending.entries = []) :
    s.sendDialogRequests = s := by
  rw [sendDialogRequests, if_pos ((FlatMap.isEmpty_iff _).mpr hnone)]

/-- A call may send a request, and is no longer to come. -/
theorem call_cases (hd : Dialogs s) :
    ({ s with postponedCalls := s.postponedCalls - 1 }.sendDialogRequests =
        { s with postponedCalls := s.postponedCalls - 1 } ∧
      s.dialogRequestsPending.entries = []) ∨
    Requested s ({ s with postponedCalls := s.postponedCalls - 1 }.sendDialogRequests) := by
  by_cases hnone : s.dialogRequestsPending.entries = []
  · exact .inl ⟨sendDialogRequests_of_nil hnone, hnone⟩
  · obtain ⟨hstate, hsent, hpending, hflights, hrest⟩ := sendDialogRequests_requested
      (s := { s with postponedCalls := s.postponedCalls - 1 }) hd.once hnone
    exact .inr ⟨hstate, hsent, hpending, hflights, hrest⟩

theorem Move.sound (hmove : Move s s') (hs : Sound s) : Sound s' := by
  obtain ⟨hl, hd, hr⟩ := hs
  cases hmove with
  | send h type generator hplain hread =>
    exact ⟨hl.sendRequest hplain, hd.sendRequest hl hplain,
      hr.frame (ReadFrame.sendRequest hl hplain hread)⟩
  | read h hwill =>
    have hput : Linked (s.put h (s.state h).readSent) := hl.put_read _ rfl rfl
    obtain ⟨hlt, hall⟩ := hr.above h hwill
    have hreads : Reads (s.put h (s.state h).readSent) :=
      hr.put (fun t ht => .inl (hall t ht).le) (fun hne => absurd rfl hne)
        ((hr.nonneg h).trans hlt.le)
    have hsent : ((s.put h (s.state h).readSent).state h).sentReadTill =
        (s.state h).willReadTill := by
      rw [state_put, if_pos rfl]
      rfl
    have hdialogs : Dialogs (s.put h (s.state h).readSent) := hd.put_read rfl rfl
    refine ⟨hput.sendRequest nofun, hdialogs.sendRequest hput nofun, ?_⟩
    have hsend := hreads.sendRequest hput (h := h) (by rwa [hsent])
    rwa [hsent] at hsend
  | entry h =>
    exact ⟨hl.requestDialogEntry none, hd.requestDialogEntry, hr.frame (.requestDialogEntry none)⟩
  | register h =>
    exact ⟨hl.registerDialogEntry, hd.registerDialogEntry, hr.frame .registerDialogEntry⟩
  | call =>
    rcases call_cases hd with ⟨hself, hnone⟩ | hrequested
    · rw [hself]
      obtain ⟨h₁, h₂, h₃, h₄, h₅, h₆, h₇, h₈⟩ := hd
      refine ⟨hl.congr (fun _ => rfl) (fun _ => rfl) rfl rfl rfl,
        ⟨h₁, h₂, h₃, h₄, h₅, h₆, fun hne => absurd hnone hne, h₈⟩, hr.frame ?_⟩
      exact .of_fields (fun _ => rfl) (fun _ => rfl) rfl (fun _ => rfl)
        fun _ hflight => .inl hflight
    · exact ⟨hl.requested hrequested, hd.requested hl hrequested, hr.frame (.requested hrequested)⟩
  | inbox h upTo =>
    refine ⟨hl.congr (fun _ => rfl) (fun _ => rfl) rfl rfl rfl, hd.frame ?_ fun _ => rfl,
      hr.setInboxReadTill upTo⟩
    exact ⟨rfl, rfl, rfl, rfl, fun _ => rfl, fun _ _ => Iff.rfl, fun _ => rfl, fun _ => rfl⟩
  | will h tillId when hsent hknown =>
    refine ⟨hl.put_read _ rfl rfl, hd.put_read rfl rfl,
      hr.put (fun t ht => hr.reached h t ht) (fun _ => ⟨hsent, fun t ht => ?_⟩) (hr.nonneg h)⟩
    rcases hknown with ⟨hwill, hle⟩ | hle
    · exact ((hr.above h hwill).2 t ht).trans_le hle
    · rcases hr.reached h t ht with hreached | ⟨-, before, hbefore, hlt⟩
      · exact hreached.trans_lt hsent
      · rw [hbefore] at hle
        exact hlt.trans_le hle
  | readDone h =>
    exact ⟨hl.put_read _ rfl rfl, hd.put_read rfl rfl,
      hr.put (fun t ht => hr.reached h t ht) (fun hwill => hr.above h hwill) (hr.nonneg h)⟩
  | readApplied h hknown =>
    exact ⟨hl.put_read _ rfl rfl, hd.put_read rfl rfl, hr.put_done rfl rfl hknown⟩
  | addUser h args =>
    have hframe : Frame s (s.request (.addChatUser h args)) := Frame.request hl nofun nofun
    exact ⟨hl.request nofun, hd.frame hframe.toDialogFrame fun _ => rfl,
      hr.frame hframe.toReadFrame⟩

theorem Moves.sound (hmoves : Moves s s') (hs : Sound s) : Sound s' := by
  induction hmoves with
  | refl => exact hs
  | tail _ hmove ih => exact hmove.sound ih

theorem Move.later (hmove : Move s s') (hs : Sound s) : Later s s' := by
  obtain ⟨hl, hd, hr⟩ := hs
  cases hmove with
  | send h type generator hplain hread => exact .sendRequest hl hplain
  | read h hwill =>
    have hput : Linked (s.put h (s.state h).readSent) := hl.put_read _ rfl rfl
    have hlater : Later s (s.put h (s.state h).readSent) := .put_read rfl
    exact hlater.trans (Later.sendRequest hput nofun)
  | entry h => exact .requestDialogEntry none
  | register h =>
    have hcounted : Later s ({ s with
        callbackAutoincrement := s.callbackAutoincrement + 1 }.emit
          (.registered h s.callbackAutoincrement)) := .of_same (fun _ => rfl) rfl rfl
    exact hcounted.trans (.requestDialogEntry _)
  | call =>
    rcases call_cases hd with ⟨hself, -⟩ | hrequested
    · rw [hself]
      exact .of_same (fun _ => rfl) rfl rfl
    · exact .requested hrequested
  | inbox h upTo => exact .of_same (fun _ => rfl) rfl rfl
  | will h tillId when hsent hknown => exact .put_read rfl
  | readDone h => exact .put_read rfl
  | readApplied h hknown => exact .put_read rfl
  | addUser h args => exact .request hl nofun nofun

theorem Moves.later (hmoves : Moves s s') (hs : Sound s) : Later s s' := by
  induction hmoves with
  | refl => exact .refl s
  | tail hmoves hmove ih => exact ih.trans (hmove.later (Moves.sound hmoves hs))

/-- What `readInboxTill` expects of its callers. -/
def Action.Valid : Action H → Prop
  | .readInboxTill _ tillId force _ => isServerMsgId tillId = true ∨ (tillId = 0 ∧ force = false)
  | _ => True

theorem sendReadRequestAt_moves (hs : Sound s) (now : Time) :
    ∃ s', s.sendReadRequestAt now h = some s' ∧ Moves s s' := by
  rw [sendReadRequestAt]
  cases hlookup : s.lookup h with
  | none => exact ⟨s, rfl, .refl⟩
  | some state =>
    obtain rfl := state_of_lookup hlookup
    dsimp only
    split_ifs with hdue
    · rw [sendReadRequest, if_pos (hs.reads.above h hdue.1).1]
      exact ⟨_, rfl, .single (.read s h hdue.1)⟩
    · exact ⟨s, rfl, .refl⟩

theorem sendReadRequests_moves (hs : Sound s) (now : Time) :
    ∃ s', s.sendReadRequests now = some s' ∧ Moves s s' := by
  rw [sendReadRequests]
  generalize s.states.keys = histories
  induction histories generalizing s with
  | nil => exact ⟨s, rfl, .refl⟩
  | cons h histories ih =>
    obtain ⟨s₁, hs₁, hmoves⟩ := sendReadRequestAt_moves (h := h) hs now
    obtain ⟨s₂, hs₂, hmoves'⟩ := ih (hmoves.sound hs)
    refine ⟨s₂, ?_, hmoves.trans hmoves'⟩
    rw [List.foldlM_cons, hs₁]
    exact hs₂

theorem sendPendingReadInbox_moves (hs : Sound s) (now : Time) :
    ∃ s', s.sendPendingReadInbox h now = some s' ∧ Moves s s' := by
  rw [sendPendingReadInbox]
  cases hlookup : s.lookup h with
  | none => exact ⟨s, rfl, .refl⟩
  | some state =>
    obtain rfl := state_of_lookup hlookup
    dsimp only
    split_ifs with hwill
    · have hnow : Move s (s.put h { s.state h with willReadWhen := 0 }) :=
        .will s h (s.state h).willReadTill 0 (hs.reads.above h hwill.1).1
          (.inl ⟨hwill.1, le_rfl⟩)
      obtain ⟨s', hs', hmoves⟩ := sendReadRequests_moves (hnow.sound hs) now
      exact ⟨s', hs', .head hnow hmoves⟩
    · exact ⟨s, rfl, .refl⟩

theorem willRead_moves (hs : Sound s) {tillId : MsgId} (force : Bool) (info : ReadInfo)
    (hsent : (s.state h).sentReadTill < tillId)
    (hknown : ((s.state h).willReadTill ≠ 0 ∧ (s.state h).willReadTill ≤ tillId) ∨
      (s.inboxReadBefore h).getD 1 ≤ tillId) :
    ∃ s', s.willRead h tillId force info = some s' ∧ Moves s s' := by
  have hwill : ∀ when, Move s
      (s.put h { s.state h with willReadTill := tillId, willReadWhen := when }) :=
    fun when => .will s h tillId when hsent hknown
  rw [willRead]
  dsimp only
  by_cases hforce : (force || info.countStillUnreadLocal.getD 0 == 0) = true
  · obtain ⟨s', hs', hmoves⟩ := sendReadRequests_moves ((hwill 0).sound hs) info.now
    have hmoves' := Relation.ReflTransGen.head (hwill 0) hmoves
    rw [if_pos hforce]
    refine ⟨if info.countStillUnreadLocal.isSome then s'.setInboxReadTill h tillId else s',
      congrArg (Option.map _) hs', ?_⟩
    split_ifs
    · exact hmoves'.tail (.inbox s' h tillId)
    · exact hmoves'
  · rw [if_neg hforce]
    by_cases hfirst : (s.state h).willReadWhen = 0
    · rw [if_pos hfirst]
      exact ⟨_, rfl, .head (hwill _) (.single (.inbox _ h tillId))⟩
    · rw [if_neg hfirst]
      exact ⟨_, rfl, .head (hwill _) (.single (.inbox _ h tillId))⟩

theorem readInboxTill_moves (hs : Sound s) {tillId : MsgId} {force : Bool}
    (hvalid : isServerMsgId tillId = true ∨ (tillId = 0 ∧ force = false)) (info : ReadInfo) :
    ∃ s', s.readInboxTill h tillId force info = some s' ∧ Moves s s' := by
  have hexpects : ¬ (!(isServerMsgId tillId || (tillId == 0 && !force))) = true := by
    rcases hvalid with hserver | ⟨rfl, rfl⟩
    · rw [hserver]
      exact Bool.false_ne_true
    · exact Bool.false_ne_true
  rw [readInboxTill, if_neg hexpects]
  dsimp only
  split_ifs with hneeds hsent hwill hforce hnothing hlocal
  · exact ⟨s, rfl, .refl⟩
  · exact ⟨s, rfl, .refl⟩
  · exact sendPendingReadInbox_moves hs info.now
  · exact ⟨s, rfl, .refl⟩
  · exact ⟨s, rfl, .refl⟩
  · exact ⟨_, rfl, .single (.inbox s h tillId)⟩
  · rw [Bool.not_eq_true, Bool.and_eq_false_iff, Bool.not_eq_false'] at hnothing
    have hborder : s.readInboxTillNeedsRequest h tillId = true →
        0 < tillId ∧ (s.inboxReadBefore h).getD 1 ≤ tillId := by
      intro hneeds
      simp only [readInboxTillNeedsRequest, isServerMsgId, Bool.and_eq_true,
        decide_eq_true_eq] at hneeds
      exact ⟨hneeds.1.1, hneeds.2⟩
    cases hlookup : s.lookup h with
    | none =>
      have hstate : s.state h = {} := by
        rw [Histories.state, hlookup]
        rfl
      rw [hlookup] at hnothing
      obtain ⟨hpositive, hknown⟩ := hborder (hnothing.resolve_right (by rintro ⟨⟩))
      exact willRead_moves hs force info (hstate ▸ hpositive) (.inr hknown)
    | some state =>
      obtain rfl := state_of_lookup hlookup
      rw [hlookup] at hsent hwill hnothing
      simp only [Option.any_some, decide_eq_true_eq, not_le] at hsent hwill
      refine willRead_moves hs force info hsent ?_
      rcases hnothing with hneeds | hwaits
      · exact .inr (hborder hneeds).2
      · exact .inl ⟨by simpa using hwaits, hwill.le⟩

/-- A request of a history that waits for an answer is the only one with its number. -/
theorem Linked.only (hl : Linked s) {m : ℕ} {q : Query}
    (hflight : (m, Target.request h id q) ∈ s.flights.entries) {id' : ℕ} {r : SentRequest}
    (hr : (id', r) ∈ (s.state h').sent.entries) (hm : r.id = m) : h' = h ∧ id' = id := by
  subst hm
  obtain ⟨rfl, rfl, -⟩ := Target.request.inj ((hl.own h' id' r hr).2 _ hflight)
  exact ⟨rfl, rfl⟩

theorem deleteAllQuery_ne_readHistory (args : DeleteAll) (peer : Peer) (tillId : MsgId) :
    deleteAllQuery args peer ≠ .readHistory tillId := by
  cases peer with
  | user => exact nofun
  | chat amCreator =>
    rw [deleteAllQuery]
    split_ifs
    · exact nofun
    · exact nofun
  | channel canDelete =>
    rw [deleteAllQuery]
    split_ifs
    · exact nofun
    · exact nofun

theorem deleteAllMessages_move (s : Histories H) (h : H) (args : DeleteAll) (peer : Peer) :
    Move s (s.deleteAllMessages h args peer) :=
  .send s h .delete _ nofun (deleteAllQuery_ne_readHistory args peer)

/-- A read that was answered is remembered, or its entry is asked for. -/
def readAnswered (s : Histories H) (h : H) (tillId : MsgId) (unreadCountKnown : Bool) :
    Histories H :=
  if (s.state h).sentReadTill = tillId then
    let s := s.put h { s.state h with sentReadDone := true }
    if s.unreadCountRefreshNeeded h unreadCountKnown tillId then s.requestDialogEntry h none
    else s.put h { s.state h with sentReadDone := true, sentReadTill := 0 }
  else s

theorem readAnswered_moves (hs : Sound s) {tillId : MsgId} (unreadCountKnown : Bool) :
    Moves s (s.readAnswered h tillId unreadCountKnown) := by
  rw [readAnswered]
  dsimp only
  split_ifs with hlast hrefresh
  · exact .tail (.single (.readDone s h)) (.entry _ h)
  · refine .tail (.single (.readDone s h)) (.readApplied _ h ?_)
    have hsent : ((s.put h { s.state h with sentReadDone := true }).state h).sentReadTill =
        tillId := by
      rw [state_put, if_pos rfl]
      exact hlast
    have hknown : tillId + 1 ≤ (s.inboxReadBefore h).getD 0 := by
      simp only [unreadCountRefreshNeeded, Bool.or_eq_true, Bool.not_eq_true', decide_eq_true_eq,
        not_or, not_lt] at hrefresh
      exact hrefresh.2
    rw [hsent]
    change ∃ before, s.inboxReadBefore h = some before ∧ tillId < before
    cases hbefore : s.inboxReadBefore h with
    | none =>
      have hnonneg := hs.reads.nonneg h
      rw [hbefore, Option.getD_none] at hknown
      rw [hlast] at hnonneg
      exact absurd (hnonneg.trans_lt (Int.lt_of_add_one_le hknown)) (lt_irrefl 0)
    | some before =>
      rw [hbefore] at hknown
      exact ⟨before, rfl, Int.lt_of_add_one_le hknown⟩
  · exact .refl

/-- Neither `Assert` fails. -/
theorem readFinished_eq (hs : Sound s) {m : ℕ} {tillId : MsgId}
    (hflight : (m, Target.request h id (.readHistory tillId)) ∈ s.flights.entries)
    (answer : Answer) : s.readFinished h id tillId answer =
      ((s.readAnswered h tillId answer.unreadCountKnown).sendReadRequests answer.now).bind
        fun s => s.checkPostponed h id := by
  obtain ⟨r, hr, -, -⟩ := hs.linked.answerable m h id _ hflight
  have htill := hs.reads.answerable m h id tillId hflight
  rw [readFinished]
  cases hlookup : s.lookup h with
  | none =>
    rw [Histories.state, hlookup] at hr
    exact absurd hr List.not_mem_nil
  | some state =>
    obtain rfl := state_of_lookup hlookup
    rw [Option.bind_some, readAnswered]
    by_cases hlast : (s.state h).sentReadTill = tillId
    · rw [if_pos hlast, if_pos hlast]
      dsimp only
      have hput : (s.put h { s.state h with sentReadDone := true }).state h =
          { s.state h with sentReadDone := true } := by
        rw [state_put, if_pos rfl]
      rw [hput]
      split_ifs
      · rfl
      · rfl
    · have hpassed : (s.state h).sentReadTill = 0 ∨ tillId < (s.state h).sentReadTill := by
        rcases hs.reads.reached h tillId htill with hle | ⟨hzero, -⟩
        · exact .inr (lt_of_le_of_ne hle (Ne.symm hlast))
        · exact .inl hzero
      rw [if_neg hlast, if_neg hlast, if_pos hpassed, Option.bind_some]

/-- Before a request is finished its answer may send more. -/
theorem requestAnswer_moves (hs : Sound s) {m : ℕ} {q : Query}
    (hflight : (m, Target.request h id q) ∈ s.flights.entries) (hq : q ≠ .deleteChannel)
    (answer : Answer) : ∃ s₁ s', s.requestAnswer h id answer q = some s' ∧ Moves s s₁ ∧
      s₁.checkPostponed h id = some s' := by
  have hfinish : ∀ s₁, Moves s s₁ → ∃ s', s₁.checkPostponed h id = some s' := by
    intro s₁ hmoves
    have hsound := hmoves.sound hs
    obtain ⟨s', hs', -⟩ : ∃ s', s₁.checkPostponed h id = some s' ∧ Dialogs s' :=
      checkPostponed_total hsound.linked hsound.dialogs
    exact ⟨s', hs'⟩
  have hafter : ∀ s₁, Moves s s₁ → s.requestAnswer h id answer q = s₁.checkPostponed h id →
      ∃ s₁ s', s.requestAnswer h id answer q = some s' ∧ Moves s s₁ ∧
        s₁.checkPostponed h id = some s' := by
    intro s₁ hmoves heq
    obtain ⟨s', hs'⟩ := hfinish s₁ hmoves
    exact ⟨s₁, s', heq.trans hs', hmoves, hs'⟩
  cases q with
  | plain => exact hafter s .refl rfl
  | deleteMessages => exact hafter s .refl rfl
  | deleteChannelHistory => exact hafter s .refl rfl
  | deleteChannel => exact absurd rfl hq
  | readHistory tillId =>
    have hanswered : Moves s (s.readAnswered h tillId answer.unreadCountKnown) :=
      readAnswered_moves hs answer.unreadCountKnown
    obtain ⟨s₁, hs₁, hmoves⟩ := sendReadRequests_moves (hanswered.sound hs) answer.now
    refine hafter s₁ (hanswered.trans hmoves) ?_
    rw [requestAnswer, readFinished_eq hs hflight, hs₁, Option.bind_some]
  | deleteChat args =>
    by_cases hinvalid : (!answer.done && answer.peerIdInvalid) = true
    · exact hafter _ (.single (.addUser s h args)) (if_pos hinvalid)
    · exact hafter s .refl (if_neg hinvalid)
  | deleteHistory args =>
    by_cases hmore : (answer.done && 0 < answer.offset) = true
    · exact hafter _ (.single (deleteAllMessages_move s h args answer.peer)) (if_pos hmore)
    · exact hafter s .refl (if_neg hmore)
  | deleteByDates =>
    by_cases hmore : (answer.done && 0 < answer.offset) = true
    · exact hafter _ (.single (.send s h .delete .deleteByDates nofun nofun)) (if_pos hmore)
    · exact hafter s .refl (if_neg hmore)

/-- What a step comes to. -/
inductive Outcome (s : Histories H) (action : Action H) : Histories H → Prop
  | moves (s' : Histories H) (hmoves : Moves s s') : Outcome s action s'
  | cancelled (id : ℕ) (s' : Histories H) (haction : action = .cancelRequest id)
      (hcancel : s.cancelRequest id = some s') : Outcome s action s'
  | finished (m : ℕ) (h : H) (id : ℕ) (q : Query) (s₁ s₂ : Histories H)
      (hget : s.flights.get? m = some (.request h id q)) (hmoves : Moves s s₁)
      (hfinish : s₁.checkPostponed h id = some s₂) : Outcome s action (s₂.cancel m)
  | joined (m : ℕ) (h : H) (args : DeleteAll) (s₁ : Histories H)
      (hget : s.flights.get? m = some (.addChatUser h args)) (hmoves : Moves s s₁) :
      Outcome s action (s₁.cancel m)
  | applied (h : H) (haction : action = .dialogEntryApplied h) :
      Outcome s action (s.dialogEntryApplied h 0)
  | entries (m : ℕ) (answer : Answer) (histories : List H) (haction : action = .answer m answer)
      (hget : s.flights.get? m = some (.peerDialogs histories)) :
      Outcome s action ((s.finalize histories m).cancel m)
  | unfinished (m : ℕ) (answer : Answer) (h : H) (id : ℕ) (haction : action = .answer m answer)
      (hget : s.flights.get? m = some (.request h id .deleteChannel)) :
      Outcome s action (s.cancel m)

theorem takeAnswer_outcome (hs : Sound s) (m : ℕ) (answer : Answer) :
    ∃ s', s.takeAnswer m answer = some s' ∧ Outcome s (.answer m answer) s' := by
  rw [takeAnswer]
  cases hget : s.flights.get? m with
  | none => exact ⟨s, rfl, .moves s .refl⟩
  | some target =>
    have hflight := (FlatMap.get?_eq_some_iff _ _ _).mp hget
    cases target with
    | request h id q =>
      by_cases hq : q = .deleteChannel
      · subst hq
        exact ⟨_, rfl, .unfinished m answer h id rfl hget⟩
      · obtain ⟨s₁, s', hs', hmoves, hfinish⟩ := requestAnswer_moves hs hflight hq answer
        refine ⟨s'.cancel m, ?_, .finished m h id q s₁ s' hget hmoves hfinish⟩
        dsimp only
        rw [hs', Option.map_some]
    | addChatUser h args =>
      dsimp only
      by_cases hdone : answer.done = true
      · rw [if_pos hdone]
        exact ⟨_, rfl,
          .joined m h args _ hget (.single (deleteAllMessages_move s h args answer.peer))⟩
      · rw [if_neg hdone]
        exact ⟨_, rfl, .joined m h args s hget .refl⟩
    | peerDialogs histories => exact ⟨_, rfl, .entries m answer histories rfl hget⟩

/-- No `Assert` and no other `Expects` fails. -/
theorem step_outcome (hs : Sound s) {action : Action H} (hvalid : action.Valid) :
    ∃ s', s.step action = some s' ∧ Outcome s action s' := by
  cases action with
  | sendRequest h type =>
    exact ⟨_, rfl, .moves _ (.single (.send s h type .plain (fun _ => rfl) nofun))⟩
  | deleteMessages h =>
    exact ⟨_, rfl, .moves _ (.single (.send s h .delete .deleteMessages nofun nofun))⟩
  | deleteAllMessages h args peer =>
    exact ⟨_, rfl, .moves _ (.single (deleteAllMessages_move s h args peer))⟩
  | deleteMessagesByDates h =>
    exact ⟨_, rfl, .moves _ (.single (.send s h .delete .deleteByDates nofun nofun))⟩
  | cancelRequest id =>
    obtain ⟨s', hs', -⟩ : ∃ s', s.cancelRequest id = some s' ∧ Dialogs s' :=
      cancelRequest_total hs.linked hs.dialogs
    exact ⟨s', hs', .cancelled id s' rfl hs'⟩
  | requestDialogEntry h => exact ⟨_, rfl, .moves _ (.single (.register s h))⟩
  | postponedCall =>
    rw [step]
    split_ifs
    · exact ⟨s, rfl, .moves s .refl⟩
    · exact ⟨_, rfl, .moves _ (.single (.call s))⟩
  | readInboxTill h tillId force info =>
    obtain ⟨s', hs', hmoves⟩ := readInboxTill_moves (h := h) hs hvalid info
    exact ⟨s', hs', .moves s' hmoves⟩
  | sendPendingReadInbox h now =>
    obtain ⟨s', hs', hmoves⟩ := sendPendingReadInbox_moves (h := h) hs now
    exact ⟨s', hs', .moves s' hmoves⟩
  | readRequestsTimer now =>
    obtain ⟨s', hs', hmoves⟩ := sendReadRequests_moves hs now
    exact ⟨s', hs', .moves s' hmoves⟩
  | setInboxReadTill h upTo => exact ⟨_, rfl, .moves _ (.single (.inbox s h upTo))⟩
  | dialogEntryApplied h => exact ⟨_, rfl, .applied h rfl⟩
  | answer m answer => exact takeAnswer_outcome hs m answer

theorem Sound.checkPostponed (hs : Sound s) (hfinish : s.checkPostponed h id = some s') :
    Sound s' := by
  obtain ⟨s₁, hs₁, hdialogs⟩ : ∃ s₁, s.checkPostponed h id = some s₁ ∧ Dialogs s₁ :=
    checkPostponed_total hs.linked hs.dialogs
  rw [hfinish] at hs₁
  cases hs₁
  exact ⟨hs.linked.checkPostponed hfinish, hdialogs,
    hs.reads.frame (.checkPostponed hs.linked hfinish)⟩

theorem Sound.cancelRequest (hs : Sound s) (hcancel : s.cancelRequest id = some s') :
    Sound s' := by
  obtain ⟨s₁, hs₁, hdialogs⟩ : ∃ s₁, s.cancelRequest id = some s₁ ∧ Dialogs s₁ :=
    cancelRequest_total hs.linked hs.dialogs
  rw [hcancel] at hs₁
  cases hs₁
  exact ⟨hs.linked.cancelRequest hcancel, hdialogs,
    hs.reads.frame (.cancelRequest hs.linked hcancel)⟩

/-- An answer that is not for entries takes its own request off, whatever was sent since. -/
theorem notMem_peers {m : ℕ} {target : Target H} (hs : Sound s)
    (hget : s.flights.get? m = some target) (htarget : ∀ histories, target ≠ .peerDialogs histories)
    (hlater : Later s s') (histories : List H) :
    (m, Target.peerDialogs histories) ∉ s'.flights.entries := by
  intro hin
  have hle := hs.linked.flight_le m _ ((FlatMap.get?_eq_some_iff _ _ _).mp hget)
  have hold := hlater.known m histories hle hin
  rw [← FlatMap.get?_eq_some_iff, hget] at hold
  exact htarget histories (Option.some.inj hold)

theorem Sound.cancel (hs : Sound s) {m : ℕ}
    (hpeers : ∀ histories, (m, Target.peerDialogs histories) ∉ s.flights.entries) :
    Sound (s.cancel m) :=
  ⟨hs.linked.cancel m, hs.dialogs.cancel fun histories hflight => absurd hflight (hpeers histories),
    hs.reads.frame (.cancel m)⟩

theorem Outcome.sound {action : Action H} (houtcome : Outcome s action s') (hs : Sound s) :
    Sound s' := by
  cases houtcome with
  | moves _ hmoves => exact hmoves.sound hs
  | cancelled id _ haction hcancel => exact hs.cancelRequest hcancel
  | finished m h id q s₁ s₂ hget hmoves hfinish =>
    have hsound := hmoves.sound hs
    have hlater := (hmoves.later hs).trans (.checkPostponed hsound.linked hfinish)
    exact (hsound.checkPostponed hfinish).cancel (notMem_peers hs hget nofun hlater)
  | joined m h args s₁ hget hmoves =>
    exact (hmoves.sound hs).cancel (notMem_peers hs hget nofun (hmoves.later hs))
  | applied h haction =>
    exact ⟨hs.linked.dialogEntryApplied 0, hs.dialogs.dialogEntryApplied 0,
      hs.reads.dialogEntryApplied 0⟩
  | entries m answer histories haction hget =>
    exact ⟨(hs.linked.finalize histories m).cancel m, hs.dialogs.answered hget,
      (hs.reads.finalize histories m).frame (.cancel m)⟩
  | unfinished m answer h id haction hget =>
    exact hs.cancel (notMem_peers hs hget nofun (.refl s))

theorem run_append (before after : List (Action H)) :
    s.run (before ++ after) = (s.run before).bind fun s => s.run after :=
  List.foldlM_append

theorem run_cons (action : Action H) (actions : List (Action H)) :
    s.run (action :: actions) = (s.step action).bind fun s => s.run actions :=
  List.foldlM_cons

theorem run_total (hs : Sound s) {actions : List (Action H)}
    (hvalid : ∀ action ∈ actions, action.Valid) :
    ∃ s', s.run actions = some s' ∧ Sound s' := by
  induction actions generalizing s with
  | nil => exact ⟨s, rfl, hs⟩
  | cons action actions ih =>
    obtain ⟨s₁, hs₁, houtcome⟩ := step_outcome hs (hvalid action List.mem_cons_self)
    obtain ⟨s', hs', hsound⟩ :=
      ih (houtcome.sound hs) fun other hother => hvalid other (List.mem_cons_of_mem _ hother)
    refine ⟨s', ?_, hsound⟩
    rw [run_cons, hs₁]
    exact hs'

/-- Read acknowledgements only move forward, and no check on the way fails. -/
theorem reads_increase (actions : List (Action H)) (hvalid : ∀ action ∈ actions, action.Valid) :
    ∃ s, ({} : Histories H).run actions = some s ∧ ∀ h, (s.tills h).Pairwise (· < ·) := by
  obtain ⟨s, hs, hsound⟩ := run_total Sound.start hvalid
  exact ⟨s, hs, hsound.reads.increasing⟩

/-- A history is read till 5, then till 9 before the first answer, and both are answered. -/
theorem reads_increase_twice : ∃ s, ({} : Histories ℕ).run
    [.readInboxTill 0 5 true ⟨0, true, none, none⟩, .readInboxTill 0 9 true ⟨0, true, none, none⟩,
      .answer 2 { done := true }, .answer 1 { done := true }] = some s ∧
      ∀ h, (s.tills h).Pairwise (· < ·) :=
  reads_increase _ (by
    intro action haction
    fin_cases haction
    · exact .inl (by decide)
    · exact .inl (by decide)
    · trivial
    · trivial)

end TelegramDesktop.Data.Histories
