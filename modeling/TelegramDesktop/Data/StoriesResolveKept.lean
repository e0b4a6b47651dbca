import TelegramDesktop.Data.StoriesResolve

namespace TelegramDesktop.Data.StoriesResolve
open Base

def waitingList (id : FullStoryId) (list : List Callback) : Multiset Given :=
  (list.map fun callback => (⟨callback.tag, id⟩ : Given) : List Given)

def waitingIds (peerId : PeerId) (ids : Ids) : Multiset Given :=
  ids.total fun id list => waitingList ⟨peerId, id⟩ list

def waiting (resolving : Resolving) : Multiset Given := resolving.total waitingIds

def asked (resolving : Resolving) : Multiset Request :=
  resolving.total fun peerId ids => {⟨peerId, ids.keys⟩}

def askedCount (resolving : Resolving) : ℕ := resolving.total fun _ ids => ids.size

def Stories.Resolved (s : Stories) (id : FullStoryId) : Prop := id ∈ s.stories ∨ id ∈ s.deleted

def How.Justifies (id : FullStoryId) : How → Prop
  | .already found => isAlready found = true
  | .answer request => request.peer = id.peer ∧ id.story ∈ request.ids

/-- The callbacks of `running` were taken out of the maps to be run. -/
structure Kept (s : Stories) (running : Multiset Given) : Prop where
  accounted : (s.given : Multiset Given) =
    (s.called.map Called.given : List Given) + running + waiting s.resolvePending +
      waiting s.resolveSent
  resolved : ∀ called ∈ s.called, s.Resolved called.given.id
  justified : ∀ called ∈ s.called, called.how.Justifies called.given.id
  sent : (s.requests : Multiset Request) = asked s.resolveSent
  inFlight : askedCount s.resolveSent ≤ kMaxResolveTogether

structure Later (s s' : Stories) : Prop where
  resolved : ∀ id, s.Resolved id → s'.Resolved id
  called : s.called ⊆ s'.called

theorem Later.refl (s : Stories) : Later s s := ⟨fun _ h => h, fun _ h => h⟩

theorem Later.trans {s s' s'' : Stories} (h : Later s s') (h' : Later s' s'') : Later s s'' :=
  ⟨fun id hid => h'.resolved id (h.resolved id hid), fun _ hc => h'.called (h.called hc)⟩

/-- A request in flight, or a call on its way, for what is to be asked. -/
def Pumped (s : Stories) : Prop :=
  s.resolvePending ≠ ∅ → s.requests ≠ [] ∨ 0 < s.posted

variable {s s' : Stories} {running : Multiset Given} {id : FullStoryId} {request : Request}

theorem waitingIds_pushBack (peerId : PeerId) (ids : Ids) (id : StoryId)
    (done : Option Callback) :
    waitingIds peerId (pushBack ids id done) =
      waitingIds peerId ids + waitingList ⟨peerId, id⟩ done.toList := by
  apply FlatMap.total_upsert
  cases ids.get? id with
  | none => exact (zero_add _).symm
  | some list =>
    unfold waitingList
    simp only [Option.getD_some, Option.elim_some, List.map_append, Multiset.coe_add]

theorem waiting_pushResolving (resolving : Resolving) (id : FullStoryId)
    (done : Option Callback) :
    waiting (pushResolving resolving id done) =
      waiting resolving + waitingList id done.toList := by
  apply FlatMap.total_upsert
  rw [waitingIds_pushBack]
  cases resolving.get? id.peer with
  | none => rfl
  | some ids => rfl

theorem keys_pushBack {ids : Ids} {id : StoryId} (h : (ids.get? id).isSome)
    (done : Option Callback) : (pushBack ids id done).keys = ids.keys := by
  obtain ⟨list, hlist⟩ := Option.isSome_iff_exists.mp h
  exact FlatMap.keys_upsert hlist _

section Sent

variable {resolving : Resolving}

theorem exists_sent (h : ((resolving.get? id.peer).bind (·.get? id.story)).isSome) :
    ∃ ids, resolving.get? id.peer = some ids ∧ (ids.get? id.story).isSome := by
  cases hget : resolving.get? id.peer with
  | none =>
    rw [hget] at h
    exact absurd h Bool.false_ne_true
  | some ids =>
    rw [hget] at h
    exact ⟨ids, rfl, h⟩

theorem asked_pushResolving (h : ((resolving.get? id.peer).bind (·.get? id.story)).isSome)
    (done : Option Callback) : asked (pushResolving resolving id done) = asked resolving := by
  obtain ⟨ids, hids, hid⟩ := exists_sent h
  refine (FlatMap.total_upsert ?_).trans (add_zero _)
  rw [hids, Option.getD_some, keys_pushBack hid]
  rfl

theorem askedCount_pushResolving
    (h : ((resolving.get? id.peer).bind (·.get? id.story)).isSome) (done : Option Callback) :
    askedCount (pushResolving resolving id done) = askedCount resolving := by
  obtain ⟨ids, hids, hid⟩ := exists_sent h
  refine (FlatMap.total_upsert ?_).trans (add_zero _)
  rw [hids, Option.getD_some, FlatMap.size_eq_keys, keys_pushBack hid, ← FlatMap.size_eq_keys]
  rfl

end Sent

theorem Kept.requested {done : Option Callback}
    (h : Kept s (running + waitingList id done.toList)) : Kept (s.request id done) running := by
  have haccounted := h.accounted
  unfold Stories.request
  split_ifs with hsent
  · refine ⟨?_, h.resolved, h.justified, ?_, ?_⟩
    · rw [waiting_pushResolving, haccounted]
      abel
    · exact h.sent.trans (asked_pushResolving hsent done).symm
    · exact (askedCount_pushResolving hsent done).trans_le h.inFlight
  all_goals
    refine ⟨?_, h.resolved, h.justified, h.sent, h.inFlight⟩
    rw [waiting_pushResolving, haccounted]
    abel

theorem later_request (s : Stories) (id : FullStoryId) (done : Option Callback) :
    Later s (s.request id done) := by
  unfold Stories.request
  split_ifs
  all_goals exact ⟨fun _ h => h, fun _ h => h⟩

theorem Kept.give (h : Kept s running) (given : Given) :
    Kept (s.give given) (running + {given}) := by
  refine ⟨?_, h.resolved, h.justified, h.sent, h.inFlight⟩
  have hgiven : ((s.give given).given : Multiset Given) = (s.given : Multiset Given) + {given} :=
    (Multiset.coe_add _ _).symm
  rw [hgiven, h.accounted]
  change _ = _ + (running + {given}) + waiting s.resolvePending + waiting s.resolveSent
  unfold Stories.give
  abel

theorem later_give (s : Stories) (given : Given) : Later s (s.give given) :=
  ⟨fun _ h => h, fun _ h => h⟩

theorem Kept.call {given : Given} (how : How) (h : Kept s (running + {given}))
    (hresolved : s.Resolved given.id) (hjustified : how.Justifies given.id) :
    Kept (s.call ⟨given, how⟩) running := by
  have hmem (called : Called) (hcalled : called ∈ (s.call ⟨given, how⟩).called) :
      called ∈ s.called ∨ called = ⟨given, how⟩ := by
    rcases List.mem_append.mp hcalled with hold | hnew
    · exact .inl hold
    · exact .inr (List.mem_singleton.mp hnew)
  refine ⟨?_, ?_, ?_, h.sent, h.inFlight⟩
  · have hcalled : (((s.call ⟨given, how⟩).called.map Called.given : List Given) :
        Multiset Given) = (s.called.map Called.given : List Given) + {given} := by
      unfold Stories.call
      rw [List.map_append]
      exact (Multiset.coe_add _ _).symm
    rw [hcalled]
    refine h.accounted.trans ?_
    unfold Stories.call
    abel
  · intro called hcalled
    rcases hmem called hcalled with hold | rfl
    · exact h.resolved called hold
    · exact hresolved
  · intro called hcalled
    rcases hmem called hcalled with hold | rfl
    · exact h.justified called hold
    · exact hjustified

theorem later_call (s : Stories) (called : Called) : Later s (s.call called) :=
  ⟨fun _ h => h, List.subset_append_left _ _⟩

theorem resolved_of_isAlready (h : isAlready (s.lookup id) = true) : s.Resolved id := by
  unfold Stories.lookup at h
  split_ifs at h with hstory hdeleted
  · exact .inl hstory
  · exact .inr hdeleted
  · exact absurd h Bool.false_ne_true

/-- One call after another, also those from inside the callbacks. -/
theorem Kept.resolve (calls : Calls) (h : Kept s running) :
    Kept (calls.resolve s) running ∧ Later s (calls.resolve s) := by
  induction calls generalizing s with
  | nil => exact ⟨h, .refl s⟩
  | plain id force rest ih =>
    unfold Calls.resolve
    split_ifs
    · exact ih h
    · have hrequest : Kept (s.request id none) running :=
        Kept.requested ((add_zero running).symm ▸ h)
      obtain ⟨hkept, hlater⟩ := ih hrequest
      exact ⟨hkept, (later_request s id none).trans hlater⟩
  | done id force tag inside rest ihInside ihRest =>
    have hgive := h.give ⟨tag, id⟩
    unfold Calls.resolve
    dsimp only
    split_ifs with halready
    · have hfound : isAlready (s.lookup id) = true := (Bool.and_eq_true_iff.mp halready).2
      have hcall := hgive.call (.already (s.lookup id))
        (resolved_of_isAlready hfound) hfound
      obtain ⟨hinside, hlaterInside⟩ := ihInside hcall
      obtain ⟨hrest, hlaterRest⟩ := ihRest hinside
      have hlaterCall := (later_give s ⟨tag, id⟩).trans (later_call (s.give ⟨tag, id⟩)
        ⟨⟨tag, id⟩, .already (s.lookup id)⟩)
      exact ⟨hrest, hlaterCall.trans (hlaterInside.trans hlaterRest)⟩
    · have hrequest : Kept ((s.give ⟨tag, id⟩).request id (some ⟨tag, inside⟩)) running :=
        Kept.requested hgive
      obtain ⟨hkept, hlater⟩ := ihRest hrequest
      have hlaterRequest := (later_give s ⟨tag, id⟩).trans (later_request (s.give ⟨tag, id⟩) id
        (some ⟨tag, inside⟩))
      exact ⟨hkept, hlaterRequest.trans hlater⟩

theorem pumped_request (h : Pumped s) (id : FullStoryId) (done : Option Callback) :
    Pumped (s.request id done) := by
  unfold Stories.request
  split_ifs with hsent hempty
  · exact h
  · exact fun _ => .inr s.posted.succ_pos
  · intro _
    apply h
    intro hpending
    rw [hpending] at hempty
    exact hempty rfl

theorem pumped_resolve (calls : Calls) (h : Pumped s) : Pumped (calls.resolve s) := by
  induction calls generalizing s with
  | nil => exact h
  | plain id force rest ih =>
    unfold Calls.resolve
    split_ifs
    · exact ih h
    · exact ih (pumped_request h id none)
  | done id force tag inside rest ihInside ihRest =>
    unfold Calls.resolve
    dsimp only
    split_ifs
    · exact ihRest (ihInside h)
    · exact ihRest (pumped_request (s := s.give ⟨tag, id⟩) h id _)

/-- Only the stories differ, and what was known or deleted still is. -/
structure Knows (s s' : Stories) : Prop where
  same : ∃ stories deleted, s' = { s with stories := stories, deleted := deleted }
  resolved : ∀ id, s.Resolved id → s'.Resolved id

theorem Knows.refl (s : Stories) : Knows s s := ⟨⟨s.stories, s.deleted, rfl⟩, fun _ h => h⟩

theorem Knows.trans {s s' s'' : Stories} (h : Knows s s') (h' : Knows s' s'') : Knows s s'' := by
  refine ⟨?_, fun id hid => h'.resolved id (h.resolved id hid)⟩
  obtain ⟨_, _, rfl⟩ := h.same
  obtain ⟨stories, deleted, rfl⟩ := h'.same
  exact ⟨stories, deleted, rfl⟩

theorem Kept.of_knows (h : Kept s running) (hknows : Knows s s') : Kept s' running := by
  have hresolved := hknows.resolved
  obtain ⟨stories, deleted, rfl⟩ := hknows.same
  exact ⟨h.accounted, fun called hcalled => hresolved _ (h.resolved called hcalled), h.justified,
    h.sent, h.inFlight⟩

theorem Knows.later (h : Knows s s') : Later s s' := by
  refine ⟨h.resolved, ?_⟩
  obtain ⟨_, _, rfl⟩ := h.same
  exact fun _ h => h

theorem knows_applyDeleted (s : Stories) (id : FullStoryId) : Knows s (s.applyDeleted id) := by
  refine ⟨⟨_, _, rfl⟩, ?_⟩
  rintro other (hother | hother)
  · by_cases hid : other = id
    · exact .inr (Finset.mem_insert.mpr (.inl hid))
    · exact .inl (Finset.mem_erase.mpr ⟨hid, hother⟩)
  · exact .inr (Finset.mem_insert_of_mem hother)

theorem knows_parseAndApply {media isPinned hasArchive : Bool} {expires now : ℤ}
    (h : s.parseAndApply id media expires isPinned now hasArchive = some s') : Knows s s' := by
  have hnew : Knows s { s with stories := insert id s.stories, deleted := s.deleted.erase id } := by
    refine ⟨⟨_, _, rfl⟩, ?_⟩
    rintro other (hother | hother)
    · exact .inl (Finset.mem_insert_of_mem hother)
    · by_cases hid : other = id
      · exact .inl (Finset.mem_insert.mpr (.inl hid))
      · exact .inr (Finset.mem_erase.mpr ⟨hid, hother⟩)
  unfold Stories.parseAndApply at h
  dsimp only at h
  split_ifs at h
  · cases h
    exact .refl s
  · cases h
    refine hnew.trans ?_
    unfold Stories.applyExpired
    split_ifs
    · exact knows_applyDeleted _ id
    · exact .refl _
  · cases h
    exact hnew

theorem knows_processResolved (s : Stories) (peer : PeerId) (answer : Answer)
    (item : StoryItem) : Knows s (s.processResolved peer answer item) := by
  cases item with
  | storyItem id media expires isPinned =>
    change Knows s (Option.getD _ _)
    cases hparsed : s.parseAndApply ⟨peer, id⟩ media expires isPinned answer.now
        answer.hasArchive with
    | none => exact knows_applyDeleted s _
    | some s' => exact knows_parseAndApply hparsed
  | storyItemSkipped id => exact .refl s
  | storyItemDeleted id => exact knows_applyDeleted s _

theorem knows_processed (s : Stories) (request : Request) (answer : Option Answer) :
    Knows s (s.processed request answer) := by
  cases answer with
  | none => exact .refl s
  | some answer =>
    have key (items : List StoryItem) (s : Stories) : Knows s
        (items.foldl (fun s item => s.processResolved request.peer answer item) s) := by
      induction items generalizing s with
      | nil => exact .refl s
      | cons item items ih =>
        exact (knows_processResolved s request.peer answer item).trans (ih _)
    exact key answer.items s

theorem knows_finalizeResolve (s : Stories) (id : FullStoryId) :
    Knows s (s.finalizeResolve id) ∧ (s.finalizeResolve id).Resolved id := by
  unfold Stories.finalizeResolve
  split
  · exact ⟨knows_applyDeleted s id, .inr (Finset.mem_insert_self ..)⟩
  · rename_i hknown
    refine ⟨.refl s, resolved_of_isAlready ?_⟩
    cases hfound : s.lookup id with
    | ok found => rfl
    | error error =>
      cases error with
      | Deleted => rfl
      | Unknown => exact absurd hfound hknown

theorem Kept.runCallbacks {list : List Callback} (h : Kept s (running + waitingList id list))
    (hresolved : s.Resolved id) (hjustified : (How.answer request).Justifies id) :
    Kept (runCallbacks request id list s) running ∧ Later s (runCallbacks request id list s) ∧
      ∀ given ∈ waitingList id list,
        ⟨given, .answer request⟩ ∈ (runCallbacks request id list s).called := by
  induction list generalizing s with
  | nil =>
    refine ⟨?_, .refl s, fun given hgiven => absurd hgiven (Multiset.notMem_zero given)⟩
    exact add_zero running ▸ h
  | cons callback list ih =>
    have hcons : waitingList id (callback :: list) =
        waitingList id list + {⟨callback.tag, id⟩} := add_comm {_} (waitingList id list)
    rw [hcons, ← add_assoc] at h
    rw [hcons]
    have hcall := h.call (.answer request) hresolved hjustified
    obtain ⟨hinside, hlaterInside⟩ := hcall.resolve callback.calls
    have hlaterFirst := (later_call s ⟨⟨callback.tag, id⟩, .answer request⟩).trans hlaterInside
    obtain ⟨hkept, hlater, hcalled⟩ := ih hinside (hlaterFirst.resolved id hresolved)
    refine ⟨hkept, hlaterFirst.trans hlater, ?_⟩
    intro given hgiven
    rcases Multiset.mem_add.mp hgiven with hrest | hfirst
    · exact hcalled given hrest
    · rw [Multiset.mem_singleton.mp hfirst]
      exact hlater.called (hlaterInside.called
        (List.mem_append_right _ (List.mem_singleton_self _)))

/-- The callbacks of the ids that were asked, in the order of the ids. -/
theorem Kept.finishIds {sent : List (StoryId × List Callback)}
    (h : Kept s (running + (sent.map fun e => waitingList ⟨request.peer, e.1⟩ e.2).sum))
    (hids : ∀ entry ∈ sent, entry.1 ∈ request.ids) :
    Kept (finishIds request sent s) running ∧ Later s (finishIds request sent s) ∧
      (∀ entry ∈ sent, (finishIds request sent s).Resolved ⟨request.peer, entry.1⟩) ∧
      ∀ given ∈ (sent.map fun e => waitingList ⟨request.peer, e.1⟩ e.2).sum,
        ⟨given, .answer request⟩ ∈ (finishIds request sent s).called := by
  induction sent generalizing s with
  | nil =>
    refine ⟨?_, .refl s, fun entry hentry => absurd hentry List.not_mem_nil,
      fun given hgiven => absurd hgiven (Multiset.notMem_zero given)⟩
    exact add_zero running ▸ h
  | cons entry sent ih =>
    obtain ⟨hknows, hresolved⟩ := knows_finalizeResolve s ⟨request.peer, entry.1⟩
    rw [List.map_cons, List.sum_cons, add_comm (waitingList _ _), ← add_assoc] at h
    obtain ⟨hrun, hlaterRun, hcalledRun⟩ := (h.of_knows hknows).runCallbacks hresolved
      ⟨rfl, hids entry List.mem_cons_self⟩
    obtain ⟨hkept, hlater, hresolvedAll, hcalledAll⟩ := ih hrun
      fun other hother => hids other (List.mem_cons_of_mem _ hother)
    refine ⟨hkept, hknows.later.trans (hlaterRun.trans hlater), ?_, ?_⟩
    · intro other hother
      rcases List.mem_cons.mp hother with rfl | hother
      · exact hlater.resolved _ (hlaterRun.resolved _ hresolved)
      · exact hresolvedAll other hother
    · intro given hgiven
      rw [List.map_cons, List.sum_cons] at hgiven
      rcases Multiset.mem_add.mp hgiven with hfirst | hrest
      · exact hlater.called (hcalledRun given hfirst)
      · exact hcalledAll given hrest

end TelegramDesktop.Data.StoriesResolve
