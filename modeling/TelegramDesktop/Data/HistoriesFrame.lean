import TelegramDesktop.Data.HistoriesLinked

namespace TelegramDesktop.Data.Histories
open Base

variable {H : Type} [LinearOrder H] {s s' s'' : Histories H} {h h' : H} {id : ℕ}

/-- Those who wait, in both maps. -/
def waiting (s : Histories H) (h : H) : List Callback :=
  (s.dialogRequestsPending.get? h).getD [] ++ (s.dialogRequests.get? h).getD []

/-- The callbacks that were given. -/
def registered (s : Histories H) (h : H) : List Callback :=
  s.events.filterMap fun
    | .registered h' callback => if h' = h then some callback else none
    | _ => none

/-- The callbacks that were called, with the requests whose answers called them. -/
def ran (s : Histories H) (h : H) : List (Callback × ℕ) :=
  s.events.filterMap fun
    | .ran h' callback request => if h' = h then some (callback, request) else none
    | _ => none

/-- How far the read requests of a history reach, in the order they were sent. -/
def tills (s : Histories H) (h : H) : List MsgId :=
  s.events.filterMap fun
    | .readHistory h' tillId => if h' = h then some tillId else none
    | _ => none

/-- The events that are about requests of a history only. -/
def Event.quiet : Event H → Bool
  | .readHistory .. | .registered .. | .ran .. => false
  | _ => true

theorem registered_emit {event : Event H} (hevent : ∀ h' n, event ≠ .registered h' n) :
    (s.emit event).registered h = s.registered h := by
  rw [registered, Histories.emit, List.filterMap_append]
  refine (congrArg (s.registered h ++ ·) ?_).trans (List.append_nil _)
  cases event with
  | registered h' n => exact absurd rfl (hevent h' n)
  | _ => rfl

theorem ran_emit {event : Event H} (hevent : ∀ h' n m, event ≠ .ran h' n m) :
    (s.emit event).ran h = s.ran h := by
  rw [ran, Histories.emit, List.filterMap_append]
  refine (congrArg (s.ran h ++ ·) ?_).trans (List.append_nil _)
  cases event with
  | ran h' n m => exact absurd rfl (hevent h' n m)
  | _ => rfl

theorem tills_emit {event : Event H} (hevent : ∀ h' n, event ≠ .readHistory h' n) :
    (s.emit event).tills h = s.tills h := by
  rw [tills, Histories.emit, List.filterMap_append]
  refine (congrArg (s.tills h ++ ·) ?_).trans (List.append_nil _)
  cases event with
  | readHistory h' n => exact absurd rfl (hevent h' n)
  | _ => rfl

/-- Who waits for a dialog entry stays as it is. -/
structure DialogFrame (s s' : Histories H) : Prop where
  dialogRequests : s'.dialogRequests = s.dialogRequests
  dialogRequestsPending : s'.dialogRequestsPending = s.dialogRequestsPending
  postponedCalls : s'.postponedCalls = s.postponedCalls
  callbackAutoincrement : s'.callbackAutoincrement = s.callbackAutoincrement
  flag : ∀ h, (s'.state h).postponedRequestEntry = (s.state h).postponedRequestEntry
  flights : ∀ m hs, (m, Target.peerDialogs hs) ∈ s'.flights.entries ↔
    (m, Target.peerDialogs hs) ∈ s.flights.entries
  registered : ∀ h, s'.registered h = s.registered h
  ran : ∀ h, s'.ran h = s.ran h

/-- What is read stays as it is, and no read request is sent. -/
structure ReadFrame (s s' : Histories H) : Prop where
  inboxReadBefore : s'.inboxReadBefore = s.inboxReadBefore
  willReadTill : ∀ h, (s'.state h).willReadTill = (s.state h).willReadTill
  sentReadTill : ∀ h, (s'.state h).sentReadTill = (s.state h).sentReadTill
  tills : ∀ h, s'.tills h = s.tills h
  reads : ∀ m h id tillId,
    (m, Target.request h id (.readHistory tillId)) ∈ s'.flights.entries →
      (m, Target.request h id (.readHistory tillId)) ∈ s.flights.entries

structure Frame (s s' : Histories H) : Prop extends DialogFrame s s', ReadFrame s s'

theorem DialogFrame.refl (s : Histories H) : DialogFrame s s :=
  ⟨rfl, rfl, rfl, rfl, fun _ => rfl, fun _ _ => Iff.rfl, fun _ => rfl, fun _ => rfl⟩

theorem DialogFrame.trans (h₁ : DialogFrame s s') (h₂ : DialogFrame s' s'') : DialogFrame s s'' :=
  ⟨h₂.dialogRequests.trans h₁.dialogRequests,
    h₂.dialogRequestsPending.trans h₁.dialogRequestsPending,
    h₂.postponedCalls.trans h₁.postponedCalls,
    h₂.callbackAutoincrement.trans h₁.callbackAutoincrement,
    fun h => (h₂.flag h).trans (h₁.flag h),
    fun m hs => (h₂.flights m hs).trans (h₁.flights m hs),
    fun h => (h₂.registered h).trans (h₁.registered h), fun h => (h₂.ran h).trans (h₁.ran h)⟩

theorem ReadFrame.refl (s : Histories H) : ReadFrame s s :=
  ⟨rfl, fun _ => rfl, fun _ => rfl, fun _ => rfl, fun _ _ _ _ hflight => hflight⟩

theorem ReadFrame.trans (h₁ : ReadFrame s s') (h₂ : ReadFrame s' s'') : ReadFrame s s'' :=
  ⟨h₂.inboxReadBefore.trans h₁.inboxReadBefore,
    fun h => (h₂.willReadTill h).trans (h₁.willReadTill h),
    fun h => (h₂.sentReadTill h).trans (h₁.sentReadTill h),
    fun h => (h₂.tills h).trans (h₁.tills h),
    fun m h id tillId hflight => h₁.reads m h id tillId (h₂.reads m h id tillId hflight)⟩

theorem Frame.refl (s : Histories H) : Frame s s := ⟨.refl s, .refl s⟩

theorem Frame.trans (h₁ : Frame s s') (h₂ : Frame s' s'') : Frame s s'' :=
  ⟨h₁.toDialogFrame.trans h₂.toDialogFrame, h₁.toReadFrame.trans h₂.toReadFrame⟩

/-- Only the numbers of the requests and the requests themselves change. -/
theorem Frame.of_fields (hstate : ∀ h, s'.state h = s.state h)
    (h₁ : s'.dialogRequests = s.dialogRequests)
    (h₂ : s'.dialogRequestsPending = s.dialogRequestsPending)
    (h₃ : s'.postponedCalls = s.postponedCalls)
    (h₄ : s'.callbackAutoincrement = s.callbackAutoincrement)
    (h₅ : s'.inboxReadBefore = s.inboxReadBefore) (hevents : s'.events = s.events)
    (hflights : ∀ m hs, (m, Target.peerDialogs hs) ∈ s'.flights.entries ↔
      (m, Target.peerDialogs hs) ∈ s.flights.entries)
    (hreads : ∀ m h id tillId,
      (m, Target.request h id (.readHistory tillId)) ∈ s'.flights.entries →
        (m, Target.request h id (.readHistory tillId)) ∈ s.flights.entries) : Frame s s' :=
  ⟨⟨h₁, h₂, h₃, h₄, fun h => by rw [hstate], hflights, fun h => by rw [registered, hevents]; rfl,
      fun h => by rw [ran, hevents]; rfl⟩,
    ⟨h₅, fun h => by rw [hstate], fun h => by rw [hstate], fun h => by rw [tills, hevents]; rfl,
      hreads⟩⟩

theorem Frame.emit {event : Event H} (hevent : event.quiet = true) : Frame s (s.emit event) := by
  refine ⟨⟨rfl, rfl, rfl, rfl, fun _ => rfl, fun _ _ => Iff.rfl, fun h => registered_emit ?_,
    fun h => ran_emit ?_⟩, ⟨rfl, fun _ => rfl, fun _ => rfl, fun h => tills_emit ?_,
    fun _ _ _ _ hflight => hflight⟩⟩
  · rintro h' n rfl
    exact nomatch hevent
  · rintro h' n m rfl
    exact nomatch hevent
  · rintro h' n rfl
    exact nomatch hevent

/-- Only the lists of requests of one history change. -/
theorem Frame.put_requests (postponed : FlatMap ℕ Query) (sent : FlatMap ℕ SentRequest) :
    Frame s (s.put h { s.state h with postponed := postponed, sent := sent }) := by
  have hsame : ∀ h', ((s.put h { s.state h with postponed := postponed, sent := sent }).state
        h').postponedRequestEntry = (s.state h').postponedRequestEntry ∧
      ((s.put h { s.state h with postponed := postponed, sent := sent }).state h').willReadTill =
        (s.state h').willReadTill ∧
      ((s.put h { s.state h with postponed := postponed, sent := sent }).state h').sentReadTill =
        (s.state h').sentReadTill := by
    intro h'
    rw [state_put]
    split_ifs with hh
    · rw [hh]
      exact ⟨rfl, rfl, rfl⟩
    · exact ⟨rfl, rfl, rfl⟩
  exact ⟨⟨rfl, rfl, rfl, rfl, fun h' => (hsame h').1, fun _ _ => Iff.rfl, fun _ => rfl,
      fun _ => rfl⟩,
    ⟨rfl, fun h' => (hsame h').2.1, fun h' => (hsame h').2.2, fun _ => rfl,
      fun _ _ _ _ hflight => hflight⟩⟩

theorem Frame.returnNext : Frame s (s.returnNext h) := by
  have hcounters : Frame s { s with
      requestAutoincrement := s.requestAutoincrement + 1
      historyByRequest := s.historyByRequest.emplace (s.requestAutoincrement + 1) h } :=
    .of_fields (fun _ => rfl) rfl rfl rfl rfl rfl rfl (fun _ _ => Iff.rfl)
      fun _ _ _ _ hflight => hflight
  exact hcounters.trans (Frame.emit rfl)

/-- A new request of another kind. -/
theorem flights_request {target : Target H} (hs : Linked s) {a : ℕ × Target H} :
    a ∈ (s.request target).flights.entries ↔
      a ∈ s.flights.entries ∨ a = (s.mtpAutoincrement + 1, target) := by
  have hfresh : s.flights.get? (s.mtpAutoincrement + 1) = none := by
    rw [FlatMap.get?_eq_none_iff]
    intro t ht
    have hle := hs.flight_le _ t ht
    omega
  exact (FlatMap.mem_emplace ..).trans (or_congr_right (and_iff_left hfresh))

theorem Frame.request (hs : Linked s) {target : Target H}
    (hdialogs : ∀ hs', target ≠ .peerDialogs hs')
    (hread : ∀ h id tillId, target ≠ .request h id (.readHistory tillId)) :
    Frame s (s.request target) := by
  refine .of_fields (fun _ => rfl) rfl rfl rfl rfl rfl rfl (fun m hs' => ?_)
    fun m h id tillId hflight => ?_
  · rw [flights_request hs]
    exact or_iff_left fun heq => hdialogs hs' (Prod.mk.inj heq).2.symm
  · rcases (flights_request hs).mp hflight with hflight | heq
    · exact hflight
    · exact absurd (Prod.mk.inj heq).2.symm (hread h id tillId)

theorem Frame.generate (hs : Linked s) {generator : Query}
    (hread : ∀ tillId, generator ≠ .readHistory tillId) : Frame s (s.generate h id generator) := by
  have hself : s.generate h id generator =
      (s.request (.request h id generator)).emit (.invoked h id) := by
    cases generator with
    | readHistory tillId => exact absurd rfl (hread tillId)
    | _ => rfl
  rw [hself]
  have hrequest : Frame s (s.request (.request h id generator)) := by
    apply Frame.request hs
    · exact nofun
    · intro h' id' tillId heq
      exact hread tillId (Target.request.inj heq).2.2
  exact hrequest.trans (Frame.emit rfl)

theorem Frame.sendNow (hs : Linked s) {type : RequestType} {generator : Query}
    (hread : ∀ tillId, generator ≠ .readHistory tillId) :
    Frame s (s.sendNow h id type generator) :=
  (Frame.generate hs hread).trans (Frame.put_requests _ _)

/-- A read request too leaves those who wait alone. -/
theorem DialogFrame.sendNow (hs : Linked s) {type : RequestType} {generator : Query} :
    DialogFrame s (s.sendNow h id type generator) := by
  have hrequest : DialogFrame s (s.request (.request h id generator)) := by
    refine ⟨rfl, rfl, rfl, rfl, fun _ => rfl, fun m hs' => ?_, fun _ => rfl, fun _ => rfl⟩
    rw [flights_request hs]
    exact or_iff_left fun heq => nomatch (Prod.mk.inj heq).2
  have hinvoked : DialogFrame s ((s.request (.request h id generator)).emit (.invoked h id)) :=
    hrequest.trans (Frame.emit rfl).toDialogFrame
  suffices hgenerate : DialogFrame s (s.generate h id generator) from
    hgenerate.trans (Frame.put_requests _ _).toDialogFrame
  cases generator with
  | readHistory tillId =>
    exact hinvoked.trans ⟨rfl, rfl, rfl, rfl, fun _ => rfl, fun _ _ => Iff.rfl,
      fun _ => registered_emit nofun, fun _ => ran_emit nofun⟩
  | _ => exact hinvoked

/-- The flights of other targets stay when the requests of a history are cancelled. -/
theorem Frame.cancel (hs : Linked s) {r : SentRequest} (hr : (id, r) ∈ (s.state h).sent.entries) :
    Frame s (s.cancel r.id) := by
  refine .of_fields (fun _ => rfl) rfl rfl rfl rfl rfl rfl (fun m hs' => ?_)
    fun _ _ _ _ hflight => ((FlatMap.mem_erase _ _ _).mp hflight).1
  change _ ∈ (s.flights.erase r.id).entries ↔ _
  rw [FlatMap.mem_erase]
  refine and_iff_left_of_imp fun hflight heq => ?_
  subst heq
  exact nomatch (hs.own h id r hr).2 _ hflight

theorem Frame.cancelAll (hs : Linked s) (entries : List (ℕ × SentRequest))
    (hentries : ∀ entry ∈ entries, entry ∈ (s.state h).sent.entries) :
    Frame s (entries.foldl (fun s entry => s.cancel entry.2.id) s) := by
  induction entries generalizing s with
  | nil => exact .refl s
  | cons entry entries ih =>
    have hentry := hentries entry List.mem_cons_self
    rw [List.foldl_cons]
    refine (Frame.cancel hs hentry).trans (ih (hs.cancel _) ?_)
    exact fun other hother => hentries other (List.mem_cons_of_mem _ hother)

theorem Frame.resendHistoryRequests (hs : Linked s) : Frame s (s.resendHistoryRequests h) := by
  have hcancelled := Frame.cancelAll hs
    ((s.state h).sent.entries.filter fun entry => entry.2.type == .history)
    fun entry hentry => List.mem_of_mem_filter hentry
  rw [Histories.resendHistoryRequests]
  refine hcancelled.trans ?_
  have hstate : (((s.state h).sent.entries.filter fun entry => entry.2.type == .history).foldl
      (fun s entry => s.cancel entry.2.id) s).state h = s.state h := by
    rw [cancelAll_eq]
    rfl
  have hput := Frame.put_requests (h := h) (s := ((s.state h).sent.entries.filter fun entry =>
      entry.2.type == .history).foldl (fun s entry => s.cancel entry.2.id) s)
    (emplaceAll (((s.state h).sent.entries.filter fun entry => entry.2.type == .history).map
      fun entry => (entry.1, entry.2.generator)) (s.state h).postponed)
    ((s.state h).sent.filter fun request => request.type != .history)
  rw [hstate] at hput
  exact hput

theorem Frame.eraseSent (hs : Linked s) : Frame s (s.eraseSent h id) := by
  have hcounter : Frame s { s with historyByRequest := s.historyByRequest.erase id } :=
    .of_fields (fun _ => rfl) rfl rfl rfl rfl rfl rfl (fun _ _ => Iff.rfl)
      fun _ _ _ _ hflight => hflight
  have hlinked : Linked { s with historyByRequest := s.historyByRequest.erase id } :=
    hs.congr (fun _ => rfl) (fun _ => rfl) rfl rfl rfl
  rw [Histories.eraseSent]
  split
  · rename_i request hget
    have hrequest := (FlatMap.get?_eq_some_iff _ _ _).mp hget
    refine (hcounter.trans (Frame.cancel hlinked hrequest)).trans ?_
    exact Frame.put_requests _ _
  · exact hcounter

theorem Frame.sendPostponed (hs : Linked s) : Frame s (s.sendPostponed h) :=
  (sendPostponed_rule (P := Frame s)
    (fun _ _ hlinked hframe _ => hframe.trans (Frame.sendNow hlinked nofun)) hs (.refl s)
    (Frame.put_requests _ _)).2

/-- What finishing a request does before the flag of its history is looked at. -/
theorem Frame.finished (hs : Linked s) (h : H) (id : ℕ) :
    Frame s ((s.eraseSent h id).sendPostponed h) :=
  (Frame.eraseSent hs).trans (Frame.sendPostponed hs.eraseSent)

theorem Frame.giveUp (h : H) (id : ℕ) : Frame s (s.giveUp h id) := by
  have hcounter : Frame s { s with historyByRequest := s.historyByRequest.erase id } :=
    .of_fields (fun _ => rfl) rfl rfl rfl rfl rfl rfl (fun _ _ => Iff.rfl)
      fun _ _ _ _ hflight => hflight
  exact hcounter.trans (Frame.emit rfl)

theorem Frame.drop (h : H) (id : ℕ) : Frame s (s.drop h id) := Frame.put_requests _ _

theorem Frame.checkEmptyState : Frame s (s.checkEmptyState h) := by
  have hfields : (s.checkEmptyState h).dialogRequests = s.dialogRequests ∧
      (s.checkEmptyState h).dialogRequestsPending = s.dialogRequestsPending ∧
      (s.checkEmptyState h).inboxReadBefore = s.inboxReadBefore ∧
      (s.checkEmptyState h).postponedCalls = s.postponedCalls ∧
      (s.checkEmptyState h).callbackAutoincrement = s.callbackAutoincrement ∧
      (s.checkEmptyState h).flights = s.flights ∧ (s.checkEmptyState h).events = s.events := by
    rw [Histories.checkEmptyState]
    split
    · split_ifs
      · exact ⟨rfl, rfl, rfl, rfl, rfl, rfl, rfl⟩
      · exact ⟨rfl, rfl, rfl, rfl, rfl, rfl, rfl⟩
    · exact ⟨rfl, rfl, rfl, rfl, rfl, rfl, rfl⟩
  obtain ⟨h₁, h₂, h₃, h₄, h₅, h₆, h₇⟩ := hfields
  refine ⟨⟨h₁, h₂, h₄, h₅, fun _ => state_checkEmptyState.postponedRequestEntry,
      fun _ _ => by rw [h₆], fun h' => ?_, fun h' => ?_⟩,
    ⟨h₃, fun _ => state_checkEmptyState.willReadTill, fun _ => state_checkEmptyState.sentReadTill,
      fun h' => ?_, fun _ _ _ _ => by rw [h₆]; exact fun hflight => hflight⟩⟩
  · rw [Histories.registered, h₇]
    rfl
  · rw [Histories.ran, h₇]
    rfl
  · rw [Histories.tills, h₇]
    rfl

end TelegramDesktop.Data.Histories
