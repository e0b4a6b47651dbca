import TelegramDesktop.Data.HistoriesDialogs

namespace TelegramDesktop.Data.Histories
open Base

variable {H : Type} [LinearOrder H] {s s' s'' : Histories H} {h h' : H} {id : ℕ}

/-- A request of an entry adds its callback to those of its history. -/
structure Asked (s s' : Histories H) (h : H) (callback : Option Callback) : Prop where
  sent : ∀ h', s'.dialogRequests.get? h' ≠ none ↔ s.dialogRequests.get? h' ≠ none
  pending : ∀ h', s'.dialogRequestsPending.get? h' ≠ none →
    s.dialogRequestsPending.get? h' ≠ none ∨ (h' = h ∧ s.dialogRequests.get? h = none)
  pending_mono : ∀ h', s.dialogRequestsPending.get? h' ≠ none →
    s'.dialogRequestsPending.get? h' ≠ none
  waiting : ∀ h', (s'.waiting h').Perm
    (s.waiting h' ++ if h' = h then callback.toList else [])
  called : (s.dialogRequestsPending.entries ≠ [] → 0 < s.postponedCalls) →
    s'.dialogRequestsPending.entries ≠ [] → 0 < s'.postponedCalls
  state : ∀ h', s'.state h' = s.state h'
  flights : s'.flights = s.flights
  inboxReadBefore : s'.inboxReadBefore = s.inboxReadBefore

theorem get?_upsert_ne_none {m : FlatMap H (List Callback)} {callbacks more : List Callback}
    (hget : m.get? h = some callbacks) :
    (m.upsert h fun _ => more).get? h' ≠ none ↔ m.get? h' ≠ none := by
  rw [FlatMap.get?_upsert]
  split_ifs with hh
  · rw [hh, hget]
    exact iff_of_true (Option.some_ne_none _) (Option.some_ne_none _)
  · rfl

theorem requestDialogEntry_asked (callback : Option Callback) :
    Asked s (s.requestDialogEntry h callback) h callback := by
  cases hsent : s.dialogRequests.get? h with
  | some callbacks =>
    have hself : s.requestDialogEntry h callback = { s with
        dialogRequests := s.dialogRequests.upsert h fun _ => callbacks ++ callback.toList } := by
      rw [requestDialogEntry, hsent]
    rw [hself]
    refine ⟨fun h' => get?_upsert_ne_none hsent, fun _ hin => .inl hin, fun _ hin => hin,
      fun h' => ?_, fun hcalled => hcalled, fun _ => rfl, rfl, rfl⟩
    rw [waiting, waiting]
    dsimp only
    rw [FlatMap.get?_upsert]
    split_ifs with hh
    · rw [hh, hsent, Option.getD_some, Option.getD_some, List.append_assoc]
    · rw [List.append_nil]
  | none =>
    cases hpending : s.dialogRequestsPending.get? h with
    | some callbacks =>
      have hself : s.requestDialogEntry h callback = { s with
          dialogRequestsPending :=
            s.dialogRequestsPending.upsert h fun _ => callbacks ++ callback.toList } := by
        rw [requestDialogEntry, hsent]
        dsimp only
        rw [hpending]
      rw [hself]
      refine ⟨fun _ => Iff.rfl, fun h' hin => .inl ((get?_upsert_ne_none hpending).mp hin),
        fun h' hin => (get?_upsert_ne_none hpending).mpr hin, fun h' => ?_,
        fun hcalled _ => hcalled (mem_pending_of_get? hpending), fun _ => rfl, rfl, rfl⟩
      rw [waiting, waiting]
      dsimp only
      rw [FlatMap.get?_upsert]
      split_ifs with hh
      · rw [hh, hpending, hsent, Option.getD_some, Option.getD_some, Option.getD_none,
          List.append_nil, List.append_nil]
      · rw [List.append_nil]
    | none =>
      have hself : s.requestDialogEntry h callback = { s with
          dialogRequestsPending := s.dialogRequestsPending.emplace h callback.toList
          }.postponeRequestDialogEntries := by
        rw [requestDialogEntry, hsent]
        dsimp only
        rw [hpending]
      obtain ⟨h₁, h₂, h₃, h₄, h₅, h₆⟩ := postponeRequestDialogEntries_fields (s := { s with
          dialogRequestsPending := s.dialogRequestsPending.emplace h callback.toList })
      have hget : ∀ h', (s.requestDialogEntry h callback).dialogRequestsPending.get? h' =
          if h' = h then some callback.toList else s.dialogRequestsPending.get? h' := by
        intro h'
        rw [hself, h₂]
        dsimp only
        rw [FlatMap.get?_emplace, hpending, Option.getD_none]
      rw [← hself] at h₁ h₂ h₃ h₄ h₅ h₆
      refine ⟨fun h' => by rw [h₁], fun h' hin => ?_, fun h' hin => ?_, fun h' => ?_,
        fun hcalled _ => ?_, fun h' => ?_, h₅, h₃⟩
      · rw [hget] at hin
        split_ifs at hin with hh
        · exact .inr ⟨hh, hsent⟩
        · exact .inl hin
      · rw [hget]
        split_ifs
        · exact Option.some_ne_none _
        · exact hin
      · rw [waiting, waiting, hget, h₁]
        dsimp only
        split_ifs with hh
        · rw [hh, hpending, hsent, Option.getD_some, Option.getD_none, List.append_nil,
            List.append_nil, List.nil_append]
        · rw [List.append_nil]
      · rw [hself]
        apply called_postponeRequestDialogEntries
        intro hmany
        apply hcalled
        dsimp only at hmany
        rw [FlatMap.size_emplace _ hpending] at hmany
        exact List.ne_nil_of_length_pos (Nat.lt_of_succ_lt_succ hmany)
      · rw [hself, state_postponeRequestDialogEntries]
        rfl

theorem requestDialogEntry_events (callback : Option Callback) :
    (s.requestDialogEntry h callback).events = s.events ∧
      (s.requestDialogEntry h callback).callbackAutoincrement = s.callbackAutoincrement ∧
      (s.requestDialogEntry h callback).mtpAutoincrement = s.mtpAutoincrement ∧
      (s.requestDialogEntry h callback).requestAutoincrement = s.requestAutoincrement ∧
      (s.requestDialogEntry h callback).historyByRequest = s.historyByRequest := by
  rw [requestDialogEntry]
  split
  · exact ⟨rfl, rfl, rfl, rfl, rfl⟩
  · split
    · exact ⟨rfl, rfl, rfl, rfl, rfl⟩
    · rw [postponeRequestDialogEntries]
      split_ifs
      · exact ⟨rfl, rfl, rfl, rfl, rfl⟩
      · exact ⟨rfl, rfl, rfl, rfl, rfl⟩

/-- The callback that waits now is the one that was registered. -/
theorem Dialogs.asking (hd : Dialogs s) {callback : Option Callback}
    (hasked : Asked s s' h callback) (hran : ∀ h', s'.ran h' = s.ran h')
    (hregistered : ∀ h', s'.registered h' =
      s.registered h' ++ if h' = h then callback.toList else [])
    (hnumbered : ∀ h', (s'.registered h').Nodup ∧
      ∀ n ∈ s'.registered h', n < s'.callbackAutoincrement) : Dialogs s' := by
  constructor
  · intro h' hflag
    rw [hasked.state] at hflag
    exact (hasked.sent h').mpr (hd.flag_sent h' hflag)
  · intro h' hflag
    rw [hasked.state] at hflag ⊢
    exact hd.flag_entry h' hflag
  · intro h' hentry hin
    rw [hasked.state] at hentry ⊢
    exact hd.entry_flag h' hentry ((hasked.sent h').mp hin)
  · intro h' hin
    have hin₀ := (hasked.sent h').mp hin
    by_contra hpending
    rcases hasked.pending h' hpending with hpending | ⟨rfl, hout⟩
    · exact hpending (hd.once h' hin₀)
    · exact hin₀ hout
  · intro h'
    rw [hran, hregistered]
    have hswap : ((s.waiting h' ++ if h' = h then callback.toList else []) ++
          (s.ran h').map Prod.fst).Perm
        ((s.waiting h' ++ (s.ran h').map Prod.fst) ++ if h' = h then callback.toList else []) := by
      rw [List.append_assoc, List.append_assoc]
      exact List.perm_append_comm.append_left _
    exact (((hasked.waiting h').append_right _).trans hswap).trans ((hd.counted h').append_right _)
  · exact hnumbered
  · exact hasked.called hd.called
  · intro h' hin
    rw [hasked.state, hasked.flights]
    exact hd.asked h' ((hasked.sent h').mp hin)

theorem Dialogs.requestDialogEntry (hd : Dialogs s) : Dialogs (s.requestDialogEntry h none) := by
  obtain ⟨hevents, hcallbacks, -⟩ := requestDialogEntry_events (s := s) (h := h) none
  have hregistered : ∀ h', (s.requestDialogEntry h none).registered h' = s.registered h' := by
    intro h'
    rw [Histories.registered, hevents]
    rfl
  apply hd.asking (requestDialogEntry_asked none)
  · intro h'
    rw [Histories.ran, hevents]
    rfl
  · intro h'
    rw [hregistered]
    split_ifs
    · exact (List.append_nil _).symm
    · exact (List.append_nil _).symm
  · intro h'
    rw [hregistered, hcallbacks]
    exact hd.numbered h'

theorem Dialogs.registerDialogEntry (hd : Dialogs s) : Dialogs (s.registerDialogEntry h) := by
  obtain ⟨hevents, hcallbacks, -⟩ := requestDialogEntry_events (h := h)
    (s := { s with callbackAutoincrement := s.callbackAutoincrement + 1 }.emit
      (.registered h s.callbackAutoincrement)) (some s.callbackAutoincrement)
  have hregistered : ∀ h', (s.registerDialogEntry h).registered h' =
      s.registered h' ++ if h' = h then [s.callbackAutoincrement] else [] := by
    intro h'
    rw [Histories.registered, Histories.registerDialogEntry, hevents, Histories.emit,
      List.filterMap_append]
    refine congrArg (s.registered h' ++ ·) ?_
    by_cases hh : h = h'
    · rw [if_pos hh.symm]
      exact List.filterMap_cons_some (if_pos hh)
    · rw [if_neg (Ne.symm hh)]
      exact List.filterMap_cons_none (if_neg hh)
  have hasked := requestDialogEntry_asked (h := h)
    (s := { s with callbackAutoincrement := s.callbackAutoincrement + 1 }.emit
      (.registered h s.callbackAutoincrement)) (some s.callbackAutoincrement)
  have hasked₀ : Asked s (s.registerDialogEntry h) h (some s.callbackAutoincrement) :=
    ⟨hasked.sent, hasked.pending, hasked.pending_mono, hasked.waiting, hasked.called, hasked.state,
      hasked.flights, hasked.inboxReadBefore⟩
  apply hd.asking hasked₀
  · intro h'
    rw [Histories.ran, Histories.registerDialogEntry, hevents]
    apply ran_emit
    rintro _ _ _ ⟨⟩
  · exact hregistered
  · intro h'
    obtain ⟨hnodup, hless⟩ := hd.numbered h'
    have hnext : (s.registerDialogEntry h).callbackAutoincrement = s.callbackAutoincrement + 1 :=
      hcallbacks
    rw [hregistered, hnext]
    split_ifs
    · refine ⟨hnodup.append (List.nodup_singleton _) ?_, fun n hn => ?_⟩
      · intro n hn hlast
        exact (hless n hn).ne (List.mem_singleton.mp hlast)
      · rcases List.mem_append.mp hn with hn | hn
        · exact Nat.lt_succ_of_lt (hless n hn)
        · exact Nat.lt_succ_of_le (List.mem_singleton.mp hn).le
    · rw [List.append_nil]
      exact ⟨hnodup, fun n hn => Nat.lt_succ_of_lt (hless n hn)⟩

/-- The flags that `sendDialogRequests` puts up. -/
def markAll (histories : List H) (s : Histories H) : Histories H :=
  histories.foldl (fun s h => s.put h { s.state h with postponedRequestEntry := true }) s

theorem markAll_spec (histories : List H) (s : Histories H) :
    (∃ states, s.markAll histories = { s with states := states }) ∧
      ∀ h, (s.markAll histories).state h =
        if h ∈ histories then { s.state h with postponedRequestEntry := true } else s.state h := by
  induction histories generalizing s with
  | nil => exact ⟨⟨s.states, rfl⟩, fun h => (if_neg List.not_mem_nil).symm⟩
  | cons first histories ih =>
    obtain ⟨⟨states, hself⟩, hstate⟩ :=
      ih (s.put first { s.state first with postponedRequestEntry := true })
    refine ⟨⟨states, hself⟩, fun h => ?_⟩
    refine (hstate h).trans ?_
    rw [state_put]
    by_cases hfirst : h = first
    · subst hfirst
      rw [if_pos rfl, if_pos List.mem_cons_self]
      split_ifs
      · rfl
      · rfl
    · rw [if_neg hfirst]
      simp only [List.mem_cons, hfirst, false_or]

theorem get?_emplaceAll {m result : FlatMap H (List Callback)}
    (hnew : ∀ h, m.get? h ≠ none → result.get? h = none) :
    (emplaceAll m.entries result).get? h = (m.get? h).or (result.get? h) := by
  have hout : ∀ entry ∈ m.entries, result.get? entry.1 = none := fun entry hentry =>
    hnew entry.1 (Option.ne_none_iff_exists'.mpr ⟨_, (FlatMap.get?_eq_some_iff _ _ _).mpr hentry⟩)
  have hmem := mem_emplaceAll m.sorted hout
  apply Option.ext
  intro callbacks
  rw [FlatMap.get?_eq_some_iff, hmem, ← FlatMap.get?_eq_some_iff, ← FlatMap.get?_eq_some_iff]
  cases hget : m.get? h with
  | none => exact or_iff_left nofun
  | some v =>
    rw [hnew h (hget ▸ Option.some_ne_none v)]
    exact or_iff_right nofun

/-- With something pending, every history that is not held up is in the request. -/
theorem sendDialogRequests_eq (hsome : s.dialogRequestsPending.entries ≠ []) :
    s.sendDialogRequests =
      { s.markAll (s.dialogRequestsPending.keys.filter fun h => postponeEntryRequest (s.state h))
        with
        dialogRequests := emplaceAll s.dialogRequestsPending.entries s.dialogRequests
        dialogRequestsPending := ∅ }.request (.peerDialogs
          (s.dialogRequestsPending.keys.filter fun h => !postponeEntryRequest (s.state h))) := by
  obtain ⟨⟨states, hself⟩, -⟩ := markAll_spec
    (s.dialogRequestsPending.keys.filter fun h => postponeEntryRequest (s.state h)) s
  have hempty : ¬ s.dialogRequestsPending.isEmpty = true := by
    rwa [FlatMap.isEmpty_iff]
  rw [sendDialogRequests, if_neg hempty]
  rw [hself]
  rw [markAll] at hself
  dsimp only
  rw [hself]

theorem mem_keys_iff {m : FlatMap H (List Callback)} : h ∈ m.keys ↔ m.get? h ≠ none := by
  rw [← Option.isSome_iff_ne_none]
  have hcontains := m.contains_iff h
  rw [FlatMap.contains] at hcontains
  rw [hcontains, FlatMap.keys, List.mem_map]
  constructor
  · rintro ⟨⟨h', v⟩, hmem, rfl⟩
    exact ⟨v, hmem⟩
  · rintro ⟨v, hmem⟩
    exact ⟨(h, v), hmem, rfl⟩

/-- What `sendDialogRequests` does to a history. -/
structure Requested (s s' : Histories H) : Prop where
  state : ∀ h, s'.state h =
    if s.dialogRequestsPending.get? h ≠ none ∧ postponeEntryRequest (s.state h) = true then
      { s.state h with postponedRequestEntry := true }
    else s.state h
  sent : ∀ h, s'.dialogRequests.get? h =
    (s.dialogRequestsPending.get? h).or (s.dialogRequests.get? h)
  pending : s'.dialogRequestsPending = ∅
  flights : ∃ histories, s'.flights =
    s.flights.emplace (s.mtpAutoincrement + 1) (.peerDialogs histories) ∧
    ∀ h, s.dialogRequestsPending.get? h ≠ none → postponeEntryRequest (s.state h) = false →
      h ∈ histories
  rest : s'.events = s.events ∧ s'.callbackAutoincrement = s.callbackAutoincrement ∧
    s'.mtpAutoincrement = s.mtpAutoincrement + 1 ∧
    s'.requestAutoincrement = s.requestAutoincrement ∧ s'.inboxReadBefore = s.inboxReadBefore ∧
    s'.historyByRequest = s.historyByRequest

theorem sendDialogRequests_requested
    (honce : ∀ h, s.dialogRequests.get? h ≠ none → s.dialogRequestsPending.get? h = none)
    (hsome : s.dialogRequestsPending.entries ≠ []) : Requested s s.sendDialogRequests := by
  have hnew : ∀ h, s.dialogRequestsPending.get? h ≠ none → s.dialogRequests.get? h = none := by
    intro h hpending
    by_contra hin
    exact hpending (honce h hin)
  obtain ⟨⟨states, hself⟩, hstate⟩ := markAll_spec
    (s.dialogRequestsPending.keys.filter fun h => postponeEntryRequest (s.state h)) s
  rw [sendDialogRequests_eq hsome]
  constructor
  · intro h
    refine (hstate h).trans ?_
    simp only [List.mem_filter, mem_keys_iff]
  · exact fun h => get?_emplaceAll hnew
  · rfl
  · refine ⟨s.dialogRequestsPending.keys.filter fun h => !postponeEntryRequest (s.state h), ?_, ?_⟩
    · rw [hself]
      rfl
    · intro h hpending hdown
      apply List.mem_filter.mpr
      rw [hdown]
      exact ⟨mem_keys_iff.mpr hpending, rfl⟩
  · rw [hself]
    exact ⟨rfl, rfl, rfl, rfl, rfl, rfl⟩

theorem Dialogs.requested (hl : Linked s) (hd : Dialogs s) (hr : Requested s s') : Dialogs s' := by
  obtain ⟨histories, hflights, hall⟩ := hr.flights
  obtain ⟨hevents, hcallbacks, -⟩ := hr.rest
  have hfresh : s.flights.get? (s.mtpAutoincrement + 1) = none := by
    rw [FlatMap.get?_eq_none_iff]
    intro t ht
    have hle := hl.flight_le _ t ht
    omega
  have hentry : ∀ h, postponeEntryRequest (s'.state h) = postponeEntryRequest (s.state h) := by
    intro h
    rw [hr.state]
    split_ifs
    · rfl
    · rfl
  have hin : ∀ h, s'.dialogRequests.get? h ≠ none ↔
      s.dialogRequestsPending.get? h ≠ none ∨ s.dialogRequests.get? h ≠ none := by
    intro h
    rw [hr.sent]
    cases s.dialogRequestsPending.get? h with
    | none => exact (or_iff_right fun hnone => hnone rfl).symm
    | some v => exact iff_of_true (Option.some_ne_none _) (.inl (Option.some_ne_none _))
  have hregistered : ∀ h, s'.registered h = s.registered h := by
    intro h
    rw [Histories.registered, hevents]
    rfl
  have hran : ∀ h, s'.ran h = s.ran h := by
    intro h
    rw [Histories.ran, hevents]
    rfl
  constructor
  · intro h hflag
    rw [hr.state] at hflag
    split_ifs at hflag with hmark
    · exact (hin h).mpr (.inl hmark.1)
    · exact (hin h).mpr (.inr (hd.flag_sent h hflag))
  · intro h hflag
    rw [hentry]
    rw [hr.state] at hflag
    split_ifs at hflag with hmark
    · exact hmark.2
    · exact hd.flag_entry h hflag
  · intro h hheld hget
    rw [hentry] at hheld
    rw [hr.state]
    split_ifs with hmark
    · rfl
    · rcases (hin h).mp hget with hpending | hsent
      · exact absurd ⟨hpending, hheld⟩ hmark
      · exact hd.entry_flag h hheld hsent
  · intro h _
    rw [hr.pending]
    rfl
  · intro h
    have hwaiting : s'.waiting h = s.waiting h := by
      rw [Histories.waiting, Histories.waiting, hr.pending, hr.sent, FlatMap.get?_empty,
        Option.getD_none, List.nil_append]
      cases hpending : s.dialogRequestsPending.get? h with
      | none => rfl
      | some v =>
        have hout : s.dialogRequests.get? h = none := by
          by_contra hsent
          exact Option.some_ne_none v (hpending ▸ hd.once h hsent)
        rw [hout]
        exact (List.append_nil v).symm
    rw [hwaiting, hran, hregistered]
    exact hd.counted h
  · intro h
    rw [hregistered, hcallbacks]
    exact hd.numbered h
  · rw [hr.pending]
    exact fun hne => absurd rfl hne
  · intro h hget
    rw [hr.state, hflights]
    simp only [FlatMap.mem_emplace, hfresh, and_true]
    split_ifs with hmark
    · exact .inl rfl
    · rcases (hin h).mp hget with hpending | hsent
      · have hdown : postponeEntryRequest (s.state h) = false := by
          by_contra hheld
          exact hmark ⟨hpending, Bool.eq_true_of_not_eq_false hheld⟩
        exact .inr ⟨_, histories, .inr rfl, hall h hpending hdown⟩
      · refine (hd.asked h hsent).imp_right ?_
        rintro ⟨m, hs, hflight, hmem⟩
        exact ⟨m, hs, .inl hflight, hmem⟩

theorem Linked.requested (hl : Linked s) (hr : Requested s s') : Linked s' := by
  obtain ⟨histories, hflights, -⟩ := hr.flights
  obtain ⟨-, -, hmtp, hrequest, -⟩ := hr.rest
  have hsame : ∀ h, (s'.state h).sent = (s.state h).sent ∧
      (s'.state h).postponed = (s.state h).postponed := by
    intro h
    rw [hr.state]
    split_ifs
    · exact ⟨rfl, rfl⟩
    · exact ⟨rfl, rfl⟩
  have hlinked : Linked (s.request (.peerDialogs histories)) := hl.request nofun
  exact hlinked.congr (fun h => (hsame h).1) (fun h => (hsame h).2) hflights hmtp hrequest

theorem Linked.requestDialogEntry (hl : Linked s) (callback : Option Callback) :
    Linked (s.requestDialogEntry h callback) := by
  have hasked := requestDialogEntry_asked (s := s) (h := h) callback
  obtain ⟨-, -, hmtp, hrequest, -⟩ := requestDialogEntry_events (s := s) (h := h) callback
  exact hl.congr (fun h' => by rw [hasked.state]) (fun h' => by rw [hasked.state]) hasked.flights
    hmtp hrequest

theorem Linked.registerDialogEntry (hl : Linked s) : Linked (s.registerDialogEntry h) := by
  have hcounted : Linked ({ s with
      callbackAutoincrement := s.callbackAutoincrement + 1 }.emit
        (.registered h s.callbackAutoincrement)) :=
    hl.congr (fun _ => rfl) (fun _ => rfl) rfl rfl rfl
  exact hcounted.requestDialogEntry _

/-- Those who wait are called, and wait no more. -/
def callAll (s : Histories H) (h : H) (request : ℕ) : Histories H :=
  { s with
    dialogRequestsPending := s.dialogRequestsPending.erase h
    dialogRequests := s.dialogRequests.erase h
    events := s.events ++ (s.waiting h).map fun callback => .ran h callback request }

/-- An acknowledged read is no longer waited for. -/
def applyRead (s : Histories H) (h : H) : Histories H :=
  if (s.state h).sentReadTill ≠ 0 ∧ (s.state h).sentReadDone then
    ((s.setInboxReadTill h (s.state h).sentReadTill).put h
      { s.state h with sentReadTill := 0 }).checkEmptyState h
  else s

theorem dialogEntryApplied_eq (s : Histories H) (h : H) (request : ℕ) :
    s.dialogEntryApplied h request =
      if (s.state h).postponedRequestEntry then s else (s.callAll h request).applyRead h := by
  have hevents : (s.callAll h request).events = (s.events ++
      ((s.dialogRequestsPending.get? h).getD []).map fun callback => .ran h callback request) ++
      ((s.dialogRequests.get? h).getD []).map fun callback => .ran h callback request := by
    rw [callAll, waiting, List.map_append, List.append_assoc]
  have hself : s.callAll h request = { s with
      dialogRequestsPending := s.dialogRequestsPending.erase h
      dialogRequests := s.dialogRequests.erase h
      events := (s.events ++ ((s.dialogRequestsPending.get? h).getD []).map fun callback =>
        .ran h callback request) ++ ((s.dialogRequests.get? h).getD []).map fun callback =>
          .ran h callback request } := by
    rw [← hevents]
    rfl
  rw [dialogEntryApplied, hself]
  rfl

theorem registered_callAll (request : ℕ) :
    (s.callAll h request).registered h' = s.registered h' := by
  rw [registered, callAll, List.filterMap_append, List.filterMap_map]
  refine (congrArg (s.registered h' ++ ·) ?_).trans (List.append_nil _)
  exact List.filterMap_eq_nil_iff.mpr fun _ _ => rfl

theorem ran_callAll (request : ℕ) : (s.callAll h request).ran h' =
    s.ran h' ++ if h' = h then (s.waiting h).map fun callback => (callback, request) else [] := by
  rw [ran, callAll, List.filterMap_append, List.filterMap_map]
  refine congrArg (s.ran h' ++ ·) ?_
  by_cases hh : h = h'
  · rw [if_pos hh.symm, ← List.filterMap_eq_map]
    exact List.filterMap_congr fun n _ => if_pos hh
  · rw [if_neg (Ne.symm hh)]
    exact List.filterMap_eq_nil_iff.mpr fun _ _ => if_neg hh

theorem Dialogs.callAll (hd : Dialogs s) (hflag : (s.state h).postponedRequestEntry = false)
    (request : ℕ) : Dialogs (s.callAll h request) := by
  have hin : ∀ h', (s.callAll h request).dialogRequests.get? h' ≠ none →
      h' ≠ h ∧ s.dialogRequests.get? h' ≠ none := by
    intro h' hget
    rw [Histories.callAll, FlatMap.get?_erase] at hget
    split_ifs at hget with hh
    · exact absurd rfl hget
    · exact ⟨hh, hget⟩
  constructor
  · intro h' hflag'
    have hh : h' ≠ h := by
      rintro rfl
      exact Bool.false_ne_true (hflag.symm.trans hflag')
    rw [Histories.callAll, FlatMap.get?_erase, if_neg hh]
    exact hd.flag_sent h' hflag'
  · exact hd.flag_entry
  · exact fun h' hentry hget => hd.entry_flag h' hentry (hin h' hget).2
  · intro h' hget
    obtain ⟨hh, hget⟩ := hin h' hget
    rw [Histories.callAll, FlatMap.get?_erase, if_neg hh]
    exact hd.once h' hget
  · intro h'
    rw [ran_callAll, registered_callAll]
    refine .trans ?_ (hd.counted h')
    split_ifs with hh
    · subst hh
      have hnone : (s.callAll h' request).waiting h' = [] := by
        rw [Histories.waiting, Histories.callAll, FlatMap.get?_erase, FlatMap.get?_erase,
          if_pos rfl, if_pos rfl]
        rfl
      have hcalled : ((s.waiting h').map fun callback => (callback, request)).map Prod.fst =
          s.waiting h' := by
        rw [List.map_map]
        exact List.map_id _
      rw [hnone, List.nil_append, List.map_append, hcalled]
      exact List.perm_append_comm
    · have hkept : (s.callAll h request).waiting h' = s.waiting h' := by
        rw [Histories.waiting, Histories.callAll, FlatMap.get?_erase, FlatMap.get?_erase,
          if_neg hh, if_neg hh]
        rfl
      rw [hkept, List.append_nil]
  · intro h'
    rw [registered_callAll]
    exact hd.numbered h'
  · intro hne
    obtain ⟨a, ha⟩ := List.exists_mem_of_ne_nil _ hne
    exact hd.called (List.ne_nil_of_mem ((FlatMap.mem_erase _ _ _).mp ha).1)
  · exact fun h' hget => hd.asked h' (hin h' hget).2

/-- Only what is read is different. -/
theorem applyRead_frame : DialogFrame s (s.applyRead h) ∧
    (∀ h', ((s.applyRead h).state h').sent = (s.state h').sent ∧
      ((s.applyRead h).state h').postponed = (s.state h').postponed) ∧
    (s.applyRead h).flights = s.flights ∧ (s.applyRead h).mtpAutoincrement = s.mtpAutoincrement ∧
    (s.applyRead h).requestAutoincrement = s.requestAutoincrement := by
  rw [applyRead]
  split_ifs
  · have hput : ∀ h', (((s.setInboxReadTill h (s.state h).sentReadTill).put h
        { s.state h with sentReadTill := 0 }).state h').postponedRequestEntry =
        (s.state h').postponedRequestEntry ∧
        (((s.setInboxReadTill h (s.state h).sentReadTill).put h
        { s.state h with sentReadTill := 0 }).state h').sent = (s.state h').sent ∧
        (((s.setInboxReadTill h (s.state h).sentReadTill).put h
        { s.state h with sentReadTill := 0 }).state h').postponed = (s.state h').postponed := by
      intro h'
      rw [state_put]
      split_ifs with hh
      · rw [hh]
        exact ⟨rfl, rfl, rfl⟩
      · exact ⟨rfl, rfl, rfl⟩
    have hframe : DialogFrame s ((s.setInboxReadTill h (s.state h).sentReadTill).put h
        { s.state h with sentReadTill := 0 }) :=
      ⟨rfl, rfl, rfl, rfl, fun h' => (hput h').1, fun _ _ => Iff.rfl, fun _ => rfl, fun _ => rfl⟩
    refine ⟨hframe.trans Frame.checkEmptyState.toDialogFrame, fun h' => ⟨?_, ?_⟩, ?_⟩
    · exact state_checkEmptyState.sent.trans (hput h').2.1
    · exact state_checkEmptyState.postponed.trans (hput h').2.2
    · exact checkEmptyState_counters
  · exact ⟨.refl s, fun _ => ⟨rfl, rfl⟩, rfl, rfl, rfl⟩

theorem Dialogs.dialogEntryApplied (hd : Dialogs s) (request : ℕ) :
    Dialogs (s.dialogEntryApplied h request) := by
  rw [dialogEntryApplied_eq]
  split_ifs with hflag
  · exact hd
  · obtain ⟨hframe, hsame, -⟩ := applyRead_frame (s := s.callAll h request) (h := h)
    refine (hd.callAll (Bool.eq_false_of_not_eq_true hflag) request).frame hframe fun h' => ?_
    rw [postponeEntryRequest, postponeEntryRequest, (hsame h').1]

theorem Linked.dialogEntryApplied (hl : Linked s) (request : ℕ) :
    Linked (s.dialogEntryApplied h request) := by
  rw [dialogEntryApplied_eq]
  split_ifs with hflag
  · exact hl
  · obtain ⟨-, hsame, hflights, hmtp, hrequest⟩ :=
      applyRead_frame (s := s.callAll h request) (h := h)
    exact hl.congr (fun h' => (hsame h').1) (fun h' => (hsame h').2) hflights hmtp hrequest

/-- A history whose entry came waits for nothing, unless it is held up. -/
def Settled (s : Histories H) (h : H) : Prop :=
  (s.state h).postponedRequestEntry = true ∨
    (s.dialogRequests.get? h = none ∧ s.dialogRequestsPending.get? h = none)

theorem flag_dialogEntryApplied (request : ℕ) :
    ((s.dialogEntryApplied h request).state h').postponedRequestEntry =
      (s.state h').postponedRequestEntry := by
  rw [dialogEntryApplied_eq]
  split_ifs
  · rfl
  · exact applyRead_frame.1.flag h'

/-- Those of other histories wait on. -/
theorem get?_dialogEntryApplied (s : Histories H) (h h' : H) (request : ℕ) :
    (s.dialogEntryApplied h request).dialogRequests.get? h' =
        (if h' = h ∧ (s.state h).postponedRequestEntry = false then none
        else s.dialogRequests.get? h') ∧
      (s.dialogEntryApplied h request).dialogRequestsPending.get? h' =
        if h' = h ∧ (s.state h).postponedRequestEntry = false then none
        else s.dialogRequestsPending.get? h' := by
  rw [dialogEntryApplied_eq]
  cases hflag : (s.state h).postponedRequestEntry with
  | true =>
    have hstay : ¬ (h' = h ∧ true = false) := fun hh => nomatch hh.2
    rw [if_pos rfl, if_neg hstay, if_neg hstay]
    exact ⟨rfl, rfl⟩
  | false =>
    rw [if_neg Bool.false_ne_true, applyRead_frame.1.dialogRequests,
      applyRead_frame.1.dialogRequestsPending]
    simp only [and_true]
    exact ⟨FlatMap.get?_erase _ _ _, FlatMap.get?_erase _ _ _⟩

theorem Settled.dialogEntryApplied (hsettled : Settled s h') (request : ℕ) :
    Settled (s.dialogEntryApplied h request) h' := by
  obtain ⟨hsent, hpending⟩ := get?_dialogEntryApplied s h h' request
  rw [Settled, flag_dialogEntryApplied, hsent, hpending]
  refine hsettled.imp_right ?_
  rintro ⟨hsent, hpending⟩
  rw [hsent, hpending, ite_self]
  exact ⟨rfl, rfl⟩

theorem settled_dialogEntryApplied (request : ℕ) : Settled (s.dialogEntryApplied h request) h := by
  obtain ⟨hsent, hpending⟩ := get?_dialogEntryApplied s h h request
  rw [Settled, flag_dialogEntryApplied, hsent, hpending]
  cases hflag : (s.state h).postponedRequestEntry with
  | true => exact .inl rfl
  | false => exact .inr ⟨if_pos ⟨rfl, rfl⟩, if_pos ⟨rfl, rfl⟩⟩

theorem Settled.finalize (hsettled : Settled s h') (histories : List H) (request : ℕ) :
    Settled (s.finalize histories request) h' := by
  induction histories generalizing s with
  | nil => exact hsettled
  | cons first histories ih => exact ih (hsettled.dialogEntryApplied request)

theorem settled_finalize {histories : List H} (request : ℕ) (hmem : h ∈ histories) :
    Settled (s.finalize histories request) h := by
  induction histories generalizing s with
  | nil => exact nomatch hmem
  | cons first histories ih =>
    rcases List.mem_cons.mp hmem with rfl | hmem
    · exact Settled.finalize (settled_dialogEntryApplied request) _ _
    · exact ih hmem

theorem flights_dialogEntryApplied (request : ℕ) :
    (s.dialogEntryApplied h request).flights = s.flights ∧
      (s.dialogEntryApplied h request).mtpAutoincrement = s.mtpAutoincrement := by
  rw [dialogEntryApplied_eq]
  split_ifs
  · exact ⟨rfl, rfl⟩
  · obtain ⟨-, -, hflights, hmtp, -⟩ := applyRead_frame (s := s.callAll h request) (h := h)
    exact ⟨hflights, hmtp⟩

theorem flights_finalize (histories : List H) (request : ℕ) :
    (s.finalize histories request).flights = s.flights ∧
      (s.finalize histories request).mtpAutoincrement = s.mtpAutoincrement := by
  induction histories generalizing s with
  | nil => exact ⟨rfl, rfl⟩
  | cons first histories ih =>
    obtain ⟨hflights, hmtp⟩ := ih (s := s.dialogEntryApplied first request)
    obtain ⟨hflights', hmtp'⟩ := flights_dialogEntryApplied (s := s) (h := first) request
    exact ⟨hflights.trans hflights', hmtp.trans hmtp'⟩

theorem Dialogs.finalize (hd : Dialogs s) (histories : List H) (request : ℕ) :
    Dialogs (s.finalize histories request) := by
  induction histories generalizing s with
  | nil => exact hd
  | cons first histories ih => exact ih (hd.dialogEntryApplied request)

theorem Linked.finalize (hl : Linked s) (histories : List H) (request : ℕ) :
    Linked (s.finalize histories request) := by
  induction histories generalizing s with
  | nil => exact hl
  | cons first histories ih => exact ih (hl.dialogEntryApplied request)

/-- A request that nobody waits for any more may be given up. -/
theorem Dialogs.cancel (hd : Dialogs s) {m : ℕ}
    (hsettled : ∀ hs, (m, Target.peerDialogs hs) ∈ s.flights.entries → ∀ h ∈ hs, Settled s h) :
    Dialogs (s.cancel m) := by
  obtain ⟨h₁, h₂, h₃, h₄, h₅, h₆, h₇, h₈⟩ := hd
  refine ⟨h₁, h₂, h₃, h₄, h₅, h₆, h₇, fun h hin => ?_⟩
  rcases h₈ h hin with hflag | ⟨m', hs, hflight, hmem⟩
  · exact .inl hflag
  · by_cases heq : m' = m
    · subst heq
      exact (hsettled hs hflight h hmem).imp (fun hflag => hflag) fun hnone => absurd hnone.1 hin
    · exact .inr ⟨m', hs, (FlatMap.mem_erase _ _ _).mpr ⟨hflight, heq⟩, hmem⟩

theorem Dialogs.answered (hd : Dialogs s) {m : ℕ} {histories : List H}
    (hget : s.flights.get? m = some (.peerDialogs histories)) :
    Dialogs ((s.finalize histories m).cancel m) := by
  apply (hd.finalize histories m).cancel
  intro hs hflight
  rw [(flights_finalize histories m).1, ← FlatMap.get?_eq_some_iff, hget] at hflight
  cases hflight
  exact fun h hmem => settled_finalize m hmem

end TelegramDesktop.Data.Histories
