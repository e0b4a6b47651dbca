import TelegramDesktop.Data.StoriesResolveKept

namespace TelegramDesktop.Data.StoriesResolve
open Base

variable {s s' : Stories} {running : Multiset Given} {request : Request}

theorem asked_eq (resolving : Resolving) : asked resolving =
    (resolving.entries.map fun entry => (⟨entry.1, entry.2.keys⟩ : Request) : List Request) := by
  unfold asked FlatMap.total
  induction resolving.entries with
  | nil => rfl
  | cons entry rest ih =>
    rw [List.map_cons, List.sum_cons, ih]
    rfl

theorem take_add_drop (peerId : PeerId) (ids : Ids) (count : ℕ) :
    waitingIds peerId (takeIds ids count) + waitingIds peerId (dropIds ids count) =
      waitingIds peerId ids := by
  unfold waitingIds FlatMap.total takeIds dropIds
  rw [← List.sum_append, ← List.map_append, List.take_append_drop]

theorem waiting_takeToSend (leftToSend : ℕ) (entries : List (PeerId × Ids)) :
    ((takeToSend leftToSend entries).2.map fun e => waitingIds e.1 e.2).sum +
        ((takeToSend leftToSend entries).1.map fun e => waitingIds e.1 e.2).sum =
      (entries.map fun e => waitingIds e.1 e.2).sum := by
  induction entries generalizing leftToSend with
  | nil => rfl
  | cons entry rest ih =>
    unfold takeToSend
    split_ifs
    · simp only [List.map_cons, List.sum_cons, List.map_nil, List.sum_nil]
      abel
    · simp only [List.map_cons, List.sum_cons]
      rw [← ih (leftToSend - entry.2.size)]
      abel
    · simp only [List.map_cons, List.sum_cons, List.map_nil, List.sum_nil]
      rw [← take_add_drop entry.1 entry.2 leftToSend]
      abel

theorem count_takeToSend (leftToSend : ℕ) (entries : List (PeerId × Ids)) :
    ((takeToSend leftToSend entries).1.map fun e => e.2.size).sum ≤ leftToSend := by
  induction entries generalizing leftToSend with
  | nil => exact leftToSend.zero_le
  | cons entry rest ih =>
    unfold takeToSend
    split_ifs with hfits
    · exact hfits
    · have hrest := ih (leftToSend - entry.2.size)
      simp only [List.map_cons, List.sum_cons]
      omega
    · exact List.length_take_le _ _

theorem Kept.requests_ne (h : Kept s running) (hsent : s.resolveSent ≠ ∅) : s.requests ≠ [] := by
  intro hnone
  have hasked := h.sent.symm.trans (congrArg _ hnone)
  rw [asked_eq] at hasked
  exact hsent (FlatMap.ext (List.map_eq_nil_iff.mp ((Multiset.coe_eq_zero _).mp hasked)))

theorem Kept.send (h : Kept s running) : Kept s.sendResolveRequests running := by
  unfold Stories.sendResolveRequests
  split_ifs with hsent
  · exact h
  · have hempty : s.resolveSent = ∅ := FlatMap.eq_empty_of_isEmpty (by simpa using hsent)
    have hasked := h.sent
    rw [hempty] at hasked
    refine ⟨?_, h.resolved, h.justified, ?_, count_takeToSend kMaxResolveTogether _⟩
    · have haccounted := h.accounted
      rw [hempty] at haccounted
      have hwaiting : waiting (notToSend s.resolvePending) + waiting (toSend s.resolvePending) =
          waiting s.resolvePending := waiting_takeToSend kMaxResolveTogether _
      rw [add_assoc, hwaiting]
      exact haccounted.trans (add_zero _)
    · rw [asked_eq, ← Multiset.coe_add, hasked]
      exact zero_add _

theorem takeToSend_ne {leftToSend : ℕ} {entries : List (PeerId × Ids)}
    (h : (takeToSend leftToSend entries).1 = []) : (takeToSend leftToSend entries).2 = [] := by
  cases entries with
  | nil => rfl
  | cons entry rest =>
    unfold takeToSend at h
    split_ifs at h

theorem pumped_send (h : Kept s running) : Pumped s.sendResolveRequests := by
  unfold Stories.sendResolveRequests
  split_ifs with hsent
  · intro _
    refine .inl (h.requests_ne fun hempty => ?_)
    rw [hempty] at hsent
    exact absurd hsent Bool.false_ne_true
  · intro hpending
    refine .inl fun hnone => ?_
    have hnothing := List.map_eq_nil_iff.mp (List.append_eq_nil_iff.mp hnone).2
    exact hpending (FlatMap.ext (takeToSend_ne hnothing))

/-- The callbacks that wait for an answer to `request`. -/
def Stories.waitingFor (s : Stories) (request : Request) : Multiset Given :=
  (s.resolveSent.get? request.peer).elim 0 (waitingIds request.peer)

theorem Kept.sent_of_mem (h : Kept s running) (hrequest : request ∈ s.requests) :
    ∃ ids, s.resolveSent.get? request.peer = some ids ∧ request.ids = ids.keys := by
  have hmem := Multiset.mem_coe.mpr hrequest
  rw [h.sent, asked_eq] at hmem
  obtain ⟨entry, hentry, rfl⟩ := List.mem_map.mp hmem
  exact ⟨entry.2, FlatMap.get?_of_mem hentry, rfl⟩

/-- The answered ids are taken out of what was sent. -/
theorem Kept.take (h : Kept s 0) (hrequest : request ∈ s.requests) :
    Kept { s with
      requests := s.requests.erase request
      resolveSent := s.resolveSent.erase request.peer } (s.waitingFor request) := by
  obtain ⟨ids, hids, hkeys⟩ := h.sent_of_mem hrequest
  refine ⟨?_, h.resolved, h.justified, ?_, ?_⟩
  · have hwaiting : s.waitingFor request + waiting (s.resolveSent.erase request.peer) =
        waiting s.resolveSent := FlatMap.total_erase s.resolveSent request.peer waitingIds
    rw [h.accounted, ← hwaiting]
    abel
  · have hasked := FlatMap.total_erase s.resolveSent request.peer
      fun peerId ids => ({⟨peerId, ids.keys⟩} : Multiset Request)
    rw [hids, Option.elim_some, ← hkeys] at hasked
    have hrequests := h.sent.trans hasked.symm
    rw [← Multiset.coe_erase, hrequests]
    exact Multiset.erase_cons_head request _
  · have hcount := FlatMap.total_erase s.resolveSent request.peer fun _ ids => ids.size
    exact le_trans (le_of_add_le_right hcount.le) h.inFlight

/-- What an answer brings about. -/
structure Answered (s : Stories) (request : Request) (s' : Stories) : Prop where
  kept : Kept s' 0
  pumped : Pumped s'
  later : Later s s'
  resolved : ∀ id ∈ request.ids, s'.Resolved ⟨request.peer, id⟩
  called : ∀ given ∈ s.waitingFor request, ⟨given, .answer request⟩ ∈ s'.called

theorem Kept.postMore (h : Kept s running) : Kept s.postMore running := by
  unfold Stories.postMore
  split_ifs
  · exact ⟨h.accounted, h.resolved, h.justified, h.sent, h.inFlight⟩
  · exact h

theorem pumped_postMore (h : Kept s running) : Pumped s.postMore := by
  unfold Stories.postMore
  split_ifs with hmore
  · exact fun _ => .inr s.posted.succ_pos
  · intro hpending
    refine .inl (h.requests_ne fun hsent => hmore ?_)
    rw [Bool.and_eq_true_iff, hsent]
    refine ⟨rfl, ?_⟩
    cases hempty : s.resolvePending.isEmpty with
    | false => rfl
    | true => exact absurd (FlatMap.eq_empty_of_isEmpty hempty) hpending

theorem later_postMore (s : Stories) : Later s s.postMore := by
  unfold Stories.postMore
  split_ifs
  · exact ⟨fun _ h => h, fun _ h => h⟩
  · exact .refl s

/-- The assertion holds at every answer. -/
theorem Kept.answer (h : Kept s 0) (hrequest : request ∈ s.requests) (answer : Option Answer)
    (changed : Calls) :
    ∃ s', s.step (.answer request answer changed) = some s' ∧ Answered s request s' := by
  obtain ⟨ids, hids, hkeys⟩ := h.sent_of_mem hrequest
  have hknows := knows_processed { s with requests := s.requests.erase request } request answer
  obtain ⟨stories, deleted, hsame⟩ := hknows.same
  have hknown : Knows
      { s with
        requests := s.requests.erase request
        resolveSent := s.resolveSent.erase request.peer }
      { s with
        requests := s.requests.erase request
        resolveSent := s.resolveSent.erase request.peer
        stories := stories
        deleted := deleted } := by
    refine ⟨⟨stories, deleted, rfl⟩, ?_⟩
    have hresolved := hknows.resolved
    rw [hsame] at hresolved
    exact hresolved
  have htaken := (h.take hrequest).of_knows hknown
  have hwaiting : s.waitingFor request =
      0 + (ids.entries.map fun e => waitingList ⟨request.peer, e.1⟩ e.2).sum := by
    rw [zero_add, Stories.waitingFor, hids]
    rfl
  rw [hwaiting] at htaken
  obtain ⟨hkept, hlater, hresolved, hcalled⟩ := htaken.finishIds fun entry hentry =>
    hkeys ▸ List.mem_map_of_mem hentry
  obtain ⟨hkeptChanged, hlaterChanged⟩ := hkept.resolve changed
  have hlaterLast := hlaterChanged.trans (later_postMore _)
  refine ⟨_, ?_, hkeptChanged.postMore, pumped_postMore hkeptChanged, ?_, ?_, ?_⟩
  · unfold Stories.step
    dsimp only
    rw [hsame]
    unfold Stories.finish
    dsimp only
    rw [hids]
    rfl
  · have hlaterFirst : Later s _ := ⟨hknown.later.resolved, hknown.later.called⟩
    exact hlaterFirst.trans (hlater.trans hlaterLast)
  · intro id hid
    rw [hkeys] at hid
    obtain ⟨entry, hentry, rfl⟩ := List.mem_map.mp hid
    exact hlaterLast.resolved _ (hresolved entry hentry)
  · intro given hgiven
    rw [hwaiting, zero_add] at hgiven
    exact hlaterLast.called (hcalled given hgiven)

theorem kept_start (stories deleted : Finset FullStoryId) : Kept (.start stories deleted) 0 where
  accounted := rfl
  resolved := fun _ hcalled => absurd hcalled List.not_mem_nil
  justified := fun _ hcalled => absurd hcalled List.not_mem_nil
  sent := rfl
  inFlight := Nat.zero_le _

/-- What one step preserves. -/
theorem Kept.step {event : Event} (h : Kept s 0) (hpumped : Pumped s) (hadmits : s.Admits event)
    (hstep : s.step event = some s') : Kept s' 0 ∧ Pumped s' := by
  cases event with
  | resolve calls =>
    cases hstep
    exact ⟨(h.resolve calls).1, pumped_resolve calls hpumped⟩
  | sendResolveRequests =>
    cases hstep
    have hposted : Kept { s with posted := s.posted - 1 } 0 :=
      ⟨h.accounted, h.resolved, h.justified, h.sent, h.inFlight⟩
    exact ⟨hposted.send, pumped_send hposted⟩
  | answer request answer changed =>
    obtain ⟨next, hnext, hanswered⟩ := h.answer hadmits answer changed
    rw [hnext] at hstep
    cases hstep
    exact ⟨hanswered.kept, hanswered.pumped⟩

theorem kept_of_reachable (h : Reachable s) : Kept s 0 ∧ Pumped s := by
  induction h with
  | start stories deleted => exact ⟨kept_start stories deleted, fun h => absurd rfl h⟩
  | step _ admits after ih => exact ih.1.step ih.2 admits after

def Stories.inFlight (s : Stories) : List FullStoryId :=
  s.requests.flatMap fun request => request.ids.map fun id => ⟨request.peer, id⟩

theorem Kept.inFlight_perm (h : Kept s running) :
    s.inFlight.Perm (s.resolveSent.entries.flatMap fun entry =>
      entry.2.keys.map fun id => ⟨entry.1, id⟩) := by
  have hrequests := h.sent
  rw [asked_eq] at hrequests
  have hperm := (Multiset.coe_eq_coe.mp hrequests).flatMap_right fun request : Request =>
    request.ids.map fun id => (⟨request.peer, id⟩ : FullStoryId)
  rw [List.flatMap_map] at hperm
  exact hperm

theorem Kept.length_inFlight (h : Kept s running) :
    s.inFlight.length ≤ kMaxResolveTogether := by
  have hcount := h.inFlight
  rw [h.inFlight_perm.length_eq, List.length_flatMap]
  simp only [List.length_map, ← FlatMap.size_eq_keys]
  exact hcount

theorem Kept.nodup_inFlight (h : Kept s running) : s.inFlight.Nodup := by
  rw [h.inFlight_perm.nodup_iff, List.nodup_flatMap]
  constructor
  · intro entry _
    exact entry.2.keys_nodup.map fun a b hab => congrArg FullStoryId.story hab
  · refine s.resolveSent.sorted.imp fun {entry other} hless id hentry hother => ?_
    obtain ⟨_, _, rfl⟩ := List.mem_map.mp hentry
    obtain ⟨_, _, hid⟩ := List.mem_map.mp hother
    exact hless.ne' (congrArg FullStoryId.peer hid)

theorem given_request (s : Stories) (id : FullStoryId) (done : Option Callback) :
    (s.request id done).given = s.given := by
  unfold Stories.request
  split_ifs <;> rfl

/-- Each callback of the calls is handed over, in the order of the calls; those that are called
inside of another one come between. -/
theorem given_resolve (calls : Calls) (s : Stories) :
    (s.given ++ calls.dones).Sublist (calls.resolve s).given := by
  induction calls generalizing s with
  | nil =>
    rw [Calls.dones, List.append_nil]
    exact List.Sublist.refl _
  | plain id force rest ih =>
    rw [Calls.resolve, Calls.dones]
    split_ifs with halready
    · exact ih s
    · have hrest := ih (s.request id none)
      rw [given_request] at hrest
      exact hrest
  | done id force tag inside rest ihInside ih =>
    rw [Calls.resolve, Calls.dones, List.append_cons]
    split_ifs with halready
    · set called := (s.give ⟨tag, id⟩).call ⟨⟨tag, id⟩, .already (s.lookup id)⟩ with hcalled
      -- what the callback calls itself comes first
      have hinside : (s.given ++ [(⟨tag, id⟩ : Given)]).Sublist (inside.resolve called).given :=
        (List.sublist_append_left _ _).trans (ihInside called)
      exact (hinside.append_right rest.dones).trans (ih (inside.resolve called))
    · have hrest := ih ((s.give ⟨tag, id⟩).request id (some ⟨tag, inside⟩))
      rw [given_request] at hrest
      exact hrest

/-- All was run when nothing is in flight and nothing is posted. -/
theorem Kept.all_called (h : Kept s 0) (hpumped : Pumped s) (hrequests : s.requests = [])
    (hposted : s.posted = 0) : s.given.Perm (s.called.map Called.given) := by
  have hpending : s.resolvePending = ∅ := by
    by_contra hne
    rcases hpumped hne with hflight | hmore
    · exact hflight hrequests
    · exact hmore.ne' hposted
  have hsent : s.resolveSent = ∅ := by
    by_contra hne
    exact h.requests_ne hne hrequests
  have haccounted := h.accounted
  rw [hpending, hsent] at haccounted
  apply Multiset.coe_eq_coe.mp
  rw [haccounted]
  simp only [waiting, FlatMap.total_empty, add_zero]

theorem resolve_answered_once (h : Reachable s) :
    (∀ calls : Calls, (s.given ++ calls.dones).Sublist (calls.resolve s).given) ∧
    (s.given : Multiset Given) = (s.called.map Called.given : List Given) +
        waiting s.resolvePending + waiting s.resolveSent ∧
      (∀ called ∈ s.called, s.Resolved called.given.id ∧
        called.how.Justifies called.given.id) ∧
      (s.requests = [] → s.posted = 0 → s.given.Perm (s.called.map Called.given)) ∧
      s.inFlight.length ≤ kMaxResolveTogether ∧
      s.inFlight.Nodup ∧
      (s.resolvePending ≠ ∅ → s.requests ≠ [] ∨ 0 < s.posted) ∧
      ∀ request ∈ s.requests, ∀ answer changed,
        ∃ s', s.step (.answer request answer changed) = some s' ∧
          (∀ id ∈ request.ids, s'.Resolved ⟨request.peer, id⟩) ∧
          ∀ given ∈ s.waitingFor request, ⟨given, .answer request⟩ ∈ s'.called := by
  obtain ⟨hkept, hpumped⟩ := kept_of_reachable h
  refine ⟨fun calls => given_resolve calls s, ?_, ?_, hkept.all_called hpumped,
    hkept.length_inFlight, hkept.nodup_inFlight, hpumped, ?_⟩
  · have haccounted := hkept.accounted
    rw [add_zero] at haccounted
    exact haccounted
  · exact fun called hcalled => ⟨hkept.resolved called hcalled, hkept.justified called hcalled⟩
  · intro request hrequest answer changed
    obtain ⟨s', hs', hanswered⟩ := hkept.answer hrequest answer changed
    exact ⟨s', hs', hanswered.resolved, hanswered.called⟩

/-- A callback that resolves another story when it is run. -/
def twoCalls : Calls := .done ⟨1, 5⟩ false 0 (.done ⟨1, 6⟩ false 1 .nil .nil) .nil

def twoCallsSent : Stories :=
  { twoCalls.resolve (.start ∅ ∅) with posted := 0 }.sendResolveRequests

theorem reachable_twoCallsSent : Reachable twoCallsSent :=
  @Reachable.step _ _ .sendResolveRequests
    (@Reachable.step _ _ (.resolve twoCalls) (.start ∅ ∅) trivial rfl)
    (show 0 < (twoCalls.resolve (.start ∅ ∅)).posted by decide) rfl

theorem resolve_answered_once_twoCalls : twoCallsSent.requests = [⟨1, [5]⟩] ∧
    twoCallsSent.inFlight.length ≤ kMaxResolveTogether ∧ twoCallsSent.inFlight.Nodup ∧
    ∃ s', twoCallsSent.step (.answer ⟨1, [5]⟩ none .nil) = some s' ∧
      (∀ id ∈ [5], s'.Resolved ⟨1, id⟩) ∧
      ∀ given ∈ twoCallsSent.waitingFor ⟨1, [5]⟩,
        ⟨given, .answer ⟨1, [5]⟩⟩ ∈ s'.called := by
  obtain ⟨-, -, -, -, hlength, hnodup, -, hanswer⟩ := resolve_answered_once reachable_twoCallsSent
  have hrequests : twoCallsSent.requests = [⟨1, [5]⟩] := by decide
  refine ⟨hrequests, hlength, hnodup, hanswer ⟨1, [5]⟩ ?_ none .nil⟩
  rw [hrequests]
  exact List.mem_singleton_self _

end TelegramDesktop.Data.StoriesResolve
