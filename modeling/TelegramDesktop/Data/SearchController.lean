import TelegramDesktop.Base.Prefixes
import TelegramDesktop.Data.HistoriesOlder

/-! The pages that a search asks for. The slices that come in are left out. -/

namespace TelegramDesktop.Data
open Base

/-- `SearchController::Data`, with the histories that its requests go through. `asked` is what the
request of a number has captured, and `answered` and `cancelled` are for the reader of a run. -/
structure SearchData (H K : Type) [LinearOrder H] [LinearOrder K] where
  history : H
  histories : Histories H := {}
  requests : FlatMap K ℕ := ∅
  asked : ℕ → Option K := fun _ => none
  answered : List ℕ := []
  cancelled : List ℕ := []

variable {H K : Type} [LinearOrder H] [LinearOrder K]

namespace SearchData

open Histories (Action Answer Target PresentAt Older Owned Sound)

/-- `prepared` is whether there is something to ask for. -/
def requestMore (s : SearchData H K) (key : K) (prepared : Bool) : SearchData H K :=
  if s.requests.contains key || !prepared then s
  else
    let requestId := s.histories.requestAutoincrement + 1
    { s with
      histories := s.histories.sendRequest s.history .history .plain
      requests := s.requests.emplace key requestId
      asked := Function.update s.asked requestId (some key) }

/-- `requests.remove`; with the lifetime of a request the request is cancelled. -/
def remove (s : SearchData H K) (key : K) : Option (SearchData H K) :=
  match s.requests.get? key with
  | none => some s
  | some id =>
    (s.histories.cancelRequest id).map fun histories =>
      { s with
        histories := histories
        requests := s.requests.erase key
        cancelled := id :: s.cancelled }

/-- The lists of the data are replaced, and its requests go with them. -/
def restoreState (s : SearchData H K) : Option (SearchData H K) :=
  s.requests.keys.foldlM remove s

/-- The request `id` of a history is answered, with `done` or `fail` of `requestMore`. -/
def searchAnswered (s : SearchData H K) (mtpId : ℕ) (h : H) (id : ℕ) (key : K) (answer : Answer) :
    Option (SearchData H K) :=
  (if answer.done then s.remove key else some s).bind fun s =>
    (s.histories.checkPostponed h id).map fun histories =>
      { s with
        histories := histories.cancel mtpId
        answered := id :: s.answered }

/-- Somebody else uses the histories. -/
def useHistories (s : SearchData H K) (action : Action H) : Option (SearchData H K) :=
  (s.histories.step action).map fun histories => { s with histories := histories }

def takeAnswer (s : SearchData H K) (mtpId : ℕ) (answer : Answer) : Option (SearchData H K) :=
  match s.histories.flights.get? mtpId with
  | some (.request h id _) =>
    match s.asked id with
    | some key => s.searchAnswered mtpId h id key answer
    | none => s.useHistories (.answer mtpId answer)
  | _ => s.useHistories (.answer mtpId answer)

inductive Operation (H K : Type)
  | requestMore (key : K) (prepared : Bool)
  | cancel (key : K)
  | restoreState
  | action (action : Action H)

/-- A number that the search was given is not known to others. -/
def step (s : SearchData H K) : Operation H K → Option (SearchData H K)
  | .requestMore key prepared => some (s.requestMore key prepared)
  | .cancel key => s.remove key
  | .restoreState => s.restoreState
  | .action (.answer mtpId answer) => s.takeAnswer mtpId answer
  | .action (.cancelRequest id) =>
    if (s.asked id).isSome then some s else s.useHistories (.cancelRequest id)
  | .action action => s.useHistories action

def run (s : SearchData H K) (operations : List (Operation H K)) : Option (SearchData H K) :=
  operations.foldlM step s

/-- A request for the page has been issued and has neither been answered nor cancelled. -/
def Outstanding (s : SearchData H K) (key : K) : Prop :=
  ∃ id, s.asked id = some key ∧ id ∉ s.answered ∧ id ∉ s.cancelled

def Exact (s : SearchData H K) : Prop :=
  ∀ key, s.requests.contains key = true ↔ Outstanding s key

/-- A page that nobody waits for can be asked for. -/
def CanAsk (s : SearchData H K) : Prop :=
  ∀ key, ¬Outstanding s key → ∃ id, s.asked id = none ∧ (s.requestMore key true).asked id = some key

/-- A request for a page is answered with an error. -/
def FailsSearch (s : SearchData H K) (operation : Operation H K) : Prop :=
  ∃ mtpId answer h id q key, operation = .action (.answer mtpId answer) ∧ answer.done = false ∧
    s.histories.flights.get? mtpId = some (.request h id q) ∧ s.asked id = some key

/-- As long as no request fails, the map has the numbers of the requests that are outstanding, and
the others are not with the histories any more. -/
structure Matched (s : SearchData H K) : Prop where
  sound : Sound s.histories
  owned : Owned s.histories
  known : ∀ id key, s.asked id = some key → id ≤ s.histories.requestAutoincrement
  past : ∀ id, id ∈ s.answered ∨ id ∈ s.cancelled →
    id ≤ s.histories.requestAutoincrement ∧ ∀ h, ¬PresentAt s.histories h id
  requests : ∀ key id, s.requests.get? key = some id ↔
    s.asked id = some key ∧ id ∉ s.answered ∧ id ∉ s.cancelled

variable {s s' : SearchData H K}

theorem Matched.start (h : H) : Matched ({ history := h } : SearchData H K) where
  sound := .start
  owned := .start
  known _ _ hasked := nomatch hasked
  past _ hin := hin.elim (fun h => nomatch h) fun h => nomatch h
  requests _ _ := iff_of_false nofun fun h => nomatch h.1

theorem contains_iff (requests : FlatMap K ℕ) (key : K) :
    requests.contains key = true ↔ ∃ id, requests.get? key = some id := by
  rw [FlatMap.contains_iff]
  exact exists_congr fun id => (FlatMap.get?_eq_some_iff _ _ _).symm

theorem Matched.exact (hs : Matched s) : Exact s := by
  intro key
  rw [contains_iff]
  exact exists_congr fun id => hs.requests key id

theorem Matched.unasked (hs : Matched s) :
    s.asked (s.histories.requestAutoincrement + 1) = none := by
  cases hasked : s.asked (s.histories.requestAutoincrement + 1) with
  | none => rfl
  | some key => exact absurd (hs.known _ key hasked) (Nat.not_succ_le_self _)

theorem Matched.canAsk (hs : Matched s) : CanAsk s := by
  intro key hnone
  rw [← hs.exact key] at hnone
  refine ⟨_, hs.unasked, ?_⟩
  rw [requestMore, Bool.eq_false_of_not_eq_true hnone]
  exact Function.update_self ..

/-- Only the histories change. -/
theorem Matched.use (hs : Matched s) {histories : Histories H} (hsound : Sound histories)
    (holder : Older s.histories histories) : Matched { s with histories := histories } where
  sound := hsound
  owned := holder.owned hs.owned
  known id key hasked := (hs.known id key hasked).trans holder.le
  past id hin := by
    obtain ⟨hle, hgone⟩ := hs.past id hin
    exact ⟨hle.trans holder.le, fun h hpresent => hgone h (holder.present hle hpresent)⟩
  requests := hs.requests

theorem valid_of_step {histories histories' : Histories H} {action : Action H}
    (h : histories.step action = some histories') : action.Valid := by
  cases action with
  | readInboxTill history tillId force info =>
    rw [Histories.step, Histories.readInboxTill] at h
    by_cases hexpects : (!(Histories.isServerMsgId tillId || (tillId == 0 && !force))) = true
    · rw [if_pos hexpects] at h
      cases h
    · rw [Bool.not_eq_true', Bool.not_eq_false, Bool.or_eq_true, Bool.and_eq_true, beq_iff_eq,
        Bool.not_eq_true'] at hexpects
      exact hexpects
  | _ => trivial

theorem Matched.useHistories (hs : Matched s) {action : Action H}
    (h : s.useHistories action = some s') : Matched s' := by
  obtain ⟨histories, hstep, rfl⟩ := Option.map_eq_some_iff.mp h
  have hvalid := valid_of_step hstep
  obtain ⟨histories', hstep', houtcome⟩ := Histories.step_outcome hs.sound hvalid
  rw [hstep] at hstep'
  cases hstep'
  exact hs.use (houtcome.sound hs.sound) (.step hs.sound hs.owned hvalid hstep)

theorem Matched.requestMore (hs : Matched s) (key : K) (prepared : Bool) :
    Matched (s.requestMore key prepared) := by
  unfold SearchData.requestMore
  split_ifs with hreturn
  · exact hs
  have hsend : Histories.Move s.histories
      (s.histories.sendRequest s.history .history .plain) :=
    .send s.histories s.history .history .plain (fun _ => rfl) nofun
  have hused := hs.use (hsend.sound hs.sound) (hsend.older hs.sound)
  have hcount : (s.histories.sendRequest s.history .history .plain).requestAutoincrement =
      s.histories.requestAutoincrement + 1 := Histories.requestAutoincrement_sendRequest _ _
  have hfree : s.requests.get? key = none := by
    rw [Bool.or_eq_true, not_or, contains_iff, not_exists] at hreturn
    exact Option.eq_none_iff_forall_ne_some.mpr hreturn.1
  -- the number of the request is one that was not used before
  have hnew : ∀ id, id ∈ s.answered ∨ id ∈ s.cancelled →
      id ≠ s.histories.requestAutoincrement + 1 := by
    rintro id hin rfl
    exact absurd (hs.past _ hin).1 (Nat.not_succ_le_self _)
  refine ⟨hused.sound, hused.owned, fun id other hasked => ?_, hused.past, fun other id => ?_⟩
  · rcases eq_or_ne id (s.histories.requestAutoincrement + 1) with rfl | hne
    · exact hcount.ge
    · exact hused.known id other ((Function.update_of_ne hne ..).symm.trans hasked)
  · show (s.requests.emplace key _).get? other = some id ↔ Function.update _ _ _ id = _ ∧ _ ∧ _
    rw [FlatMap.get?_emplace, hfree, Option.getD_none]
    rcases eq_or_ne id (s.histories.requestAutoincrement + 1) with rfl | hne
    · rw [Function.update_self]
      have hfresh : s.histories.requestAutoincrement + 1 ∉ s.answered ∧
          s.histories.requestAutoincrement + 1 ∉ s.cancelled :=
        ⟨fun hin => hnew _ (.inl hin) rfl, fun hin => hnew _ (.inr hin) rfl⟩
      rw [and_iff_left hfresh]
      split_ifs with hother
      · simp [hother]
      · rw [hs.requests, hs.unasked]
        simp [Ne.symm hother]
    · rw [Function.update_of_ne hne, ← hs.requests]
      split_ifs with hother
      · rw [hother, hfree]
        simp [Ne.symm hne]
      · rfl

/-- A request that is cancelled is no longer outstanding, and is not with the histories. -/
theorem Matched.remove (hs : Matched s) {key : K} (h : s.remove key = some s') :
    Matched s' ∧ s'.requests.get? key = none ∧ Histories.Later s.histories s'.histories ∧
      ∀ id, s.requests.get? key = some id → id ∈ s'.cancelled := by
  unfold SearchData.remove at h
  cases hget : s.requests.get? key with
  | none =>
    rw [hget] at h
    cases h
    exact ⟨hs, hget, .refl _, nofun⟩
  | some id =>
    rw [hget] at h
    obtain ⟨histories, hcancel, rfl⟩ := Option.map_eq_some_iff.mp h
    obtain ⟨hasked, -, -⟩ := (hs.requests key id).mp hget
    obtain ⟨holder, hgone⟩ := Older.cancelRequest hs.owned hcancel
    have hused := hs.use (hs.sound.cancelRequest hcancel) holder
    have herased : ∀ other, (s.requests.erase key).get? other =
        if other = key then none else s.requests.get? other := FlatMap.get?_erase _ _
    refine ⟨⟨hused.sound, hused.owned, hused.known, fun id' hin => ?_, fun other id' => ?_⟩, ?_,
      .cancelRequest hs.sound.linked hcancel, ?_⟩
    · by_cases hid : id' = id
      · subst hid
        exact ⟨hused.known id' key hasked, hgone⟩
      · refine hused.past id' (hin.imp_right fun hin => ?_)
        exact (List.mem_cons.mp hin).resolve_left hid
    · show (s.requests.erase key).get? other = some id' ↔
        s.asked id' = some other ∧ id' ∉ s.answered ∧ id' ∉ id :: s.cancelled
      rw [herased, List.mem_cons, not_or]
      split_ifs with hother
      · subst hother
        refine iff_of_false nofun fun hout => ?_
        have hget' := (hs.requests other id').mpr ⟨hout.1, hout.2.1, hout.2.2.2⟩
        rw [hget] at hget'
        exact hout.2.2.1 (Option.some.inj hget').symm
      · rw [hs.requests]
        refine and_congr_right fun hasked' => and_congr_right fun _ => (and_iff_right ?_).symm
        rintro rfl
        rw [hasked] at hasked'
        exact hother (Option.some.inj hasked').symm
    · exact (herased key).trans (if_pos rfl)
    · intro id' heq
      obtain rfl := Option.some.inj heq
      exact List.mem_cons_self

theorem Matched.removeAll (hs : Matched s) {keys : List K}
    (h : keys.foldlM SearchData.remove s = some s') : Matched s' := by
  induction keys generalizing s with
  | nil =>
    cases h
    exact hs
  | cons key keys ih =>
    obtain ⟨next, hnext, hrest⟩ := Option.bind_eq_some_iff.mp h
    exact ih (hs.remove hnext).1 hrest

/-- A page with a request in flight is outstanding. -/
theorem Matched.outstanding (hs : Matched s) {mtpId id : ℕ} {h : H} {q : Histories.Query} {key : K}
    (hget : s.histories.flights.get? mtpId = some (.request h id q))
    (hasked : s.asked id = some key) : s.requests.get? key = some id := by
  have hflight := (FlatMap.get?_eq_some_iff _ _ _).mp hget
  obtain ⟨r, hr, -, -⟩ := hs.sound.linked.answerable mtpId h id q hflight
  have hpresent : PresentAt s.histories h id := .inl ⟨r, hr, trivial⟩
  refine (hs.requests key id).mpr ⟨hasked, fun hin => ?_, fun hin => ?_⟩
  · exact (hs.past id (.inl hin)).2 h hpresent
  · exact (hs.past id (.inr hin)).2 h hpresent

/-- An answer that is one gives its page back and finishes its request. -/
theorem Matched.searchAnswered (hs : Matched s) {mtpId id : ℕ} {h : H} {q : Histories.Query}
    {key : K} {answer : Answer}
    (hget : s.histories.flights.get? mtpId = some (.request h id q))
    (hasked : s.asked id = some key) (hdone : answer.done = true)
    (hanswered : s.searchAnswered mtpId h id key answer = some s') : Matched s' := by
  have houtstanding := hs.outstanding hget hasked
  unfold SearchData.searchAnswered at hanswered
  rw [if_pos hdone] at hanswered
  obtain ⟨removed, hremove, hrest⟩ := Option.bind_eq_some_iff.mp hanswered
  obtain ⟨histories, hfinish, rfl⟩ := Option.map_eq_some_iff.mp hrest
  obtain ⟨hremoved, -, hlater, hcancelled⟩ := hs.remove hremove
  have hin := hcancelled id houtstanding
  obtain ⟨hle, hgone⟩ := hremoved.past id (.inr hin)
  -- the request was cancelled with the lifetime, so there is nothing left to finish
  have hpostponed : ∀ q, (id, q) ∉ (removed.histories.state h).postponed.entries :=
    fun q hq => hgone h (.inr ⟨q, hq⟩)
  obtain ⟨holder, -⟩ := Older.checkPostponed hle hpostponed (fun h' _ => hgone h') hfinish
  have hlater' := hlater.trans (.checkPostponed hremoved.sound.linked hfinish)
  have hpeers := Histories.notMem_peers hs.sound hget nofun hlater'
  have hsound := (hremoved.sound.checkPostponed hfinish).cancel hpeers
  have hused := hremoved.use hsound (holder.trans (.cancel mtpId))
  refine ⟨hused.sound, hused.owned, hused.known, fun id' hin' => ?_, fun other id' => ?_⟩
  · rcases hin' with hin' | hin'
    · rcases List.mem_cons.mp hin' with rfl | hin'
      · exact hused.past id' (.inr hin)
      · exact hused.past id' (.inl hin')
    · exact hused.past id' (.inr hin')
  · rw [hused.requests]
    refine and_congr_right fun _ => ?_
    show id' ∉ removed.answered ∧ id' ∉ removed.cancelled ↔
      id' ∉ id :: removed.answered ∧ id' ∉ removed.cancelled
    refine and_congr_left fun hnot => ?_
    rw [List.mem_cons, not_or]
    refine (and_iff_right ?_).symm
    rintro rfl
    exact hnot hin

theorem Matched.step (hs : Matched s) {operation : Operation H K}
    (hfails : ¬FailsSearch s operation) (h : s.step operation = some s') : Matched s' := by
  cases operation with
  | requestMore key prepared =>
    cases h
    exact hs.requestMore key prepared
  | cancel key => exact (hs.remove h).1
  | restoreState => exact hs.removeAll h
  | action action =>
    cases action with
    | answer mtpId answer =>
      rw [SearchData.step, SearchData.takeAnswer] at h
      cases hget : s.histories.flights.get? mtpId with
      | none =>
        rw [hget] at h
        exact hs.useHistories h
      | some target =>
        rw [hget] at h
        cases target with
        | request history id q =>
          dsimp only at h
          cases hasked : s.asked id with
          | none =>
            rw [hasked] at h
            exact hs.useHistories h
          | some key =>
            rw [hasked] at h
            have hdone : answer.done = true := by
              by_contra hdone
              exact hfails ⟨mtpId, answer, history, id, q, key, rfl,
                Bool.eq_false_of_not_eq_true hdone, hget, hasked⟩
            exact hs.searchAnswered hget hasked hdone h
        | addChatUser history args => exact hs.useHistories h
        | peerDialogs histories => exact hs.useHistories h
    | cancelRequest id =>
      rw [SearchData.step] at h
      split_ifs at h
      · cases h
        exact hs
      · exact hs.useHistories h
    | _ => exact hs.useHistories h

/-- After an error the page stays in the map, and nobody waits for it. -/
theorem Matched.fails (hs : Matched s) {operation : Operation H K}
    (hfails : FailsSearch s operation) : ∃ s', s.step operation = some s' ∧ ¬Exact s' := by
  obtain ⟨mtpId, answer, h, id, q, key, rfl, hdone, hget, hasked⟩ := hfails
  have houtstanding := hs.outstanding hget hasked
  obtain ⟨histories, hfinish, -⟩ : ∃ histories,
      s.histories.checkPostponed h id = some histories ∧ Histories.Dialogs histories :=
    Histories.checkPostponed_total hs.sound.linked hs.sound.dialogs
  refine ⟨{ s with histories := histories.cancel mtpId, answered := id :: s.answered }, ?_, ?_⟩
  · rw [SearchData.step, SearchData.takeAnswer, hget]
    dsimp only
    rw [hasked]
    dsimp only
    rw [SearchData.searchAnswered, hdone, if_neg Bool.false_ne_true, Option.bind_some, hfinish,
      Option.map_some]
  · intro hexact
    have hcontains : s.requests.contains key = true := (contains_iff _ _).mpr ⟨id, houtstanding⟩
    obtain ⟨id', hasked', hanswered, hcancelled⟩ := (hexact key).mp hcontains
    obtain ⟨hne, hanswered'⟩ := not_or.mp (List.mem_cons.not.mp hanswered)
    have hget' := (hs.requests key id').mpr ⟨hasked', hanswered', hcancelled⟩
    rw [houtstanding] at hget'
    exact hne (Option.some.inj hget').symm

theorem Matched.run_iff (hs : Matched s) (operations : List (Operation H K)) :
    (∀ before, before <+: operations → ∀ s', s.run before = some s' → Exact s' ∧ CanAsk s') ↔
      ∀ before operation, before ++ [operation] <+: operations →
        ∀ s', s.run before = some s' → ¬FailsSearch s' operation := by
  apply foldlM_prefix_iff (I := Matched) (P := fun s => Exact s ∧ CanAsk s)
  · exact fun s hs => ⟨hs.exact, hs.canAsk⟩
  · exact fun s operation s' hs hmeets hstep => hs.step hmeets hstep
  -- a page that fails breaks the map at once
  · intro s operation hs hfails
    obtain ⟨s', hstep, hexact⟩ := hs.fails (not_not.mp hfails)
    exact ⟨s', hstep, fun h => hexact h.1⟩
  · exact hs

/-- The pages in the map are those that are waited for, and every other can be asked for, after
each operation of a run if and only if no request for a page is answered with an error. -/
theorem requests_outstanding_iff (history : H) (operations : List (Operation H K)) :
    (∀ before, before <+: operations → ∀ s : SearchData H K,
        run { history := history } before = some s → Exact s ∧ CanAsk s) ↔
      ∀ before operation, before ++ [operation] <+: operations → ∀ s : SearchData H K,
        run { history := history } before = some s → ¬FailsSearch s operation :=
  (Matched.start history).run_iff operations

/-- A page is asked for, and the answer is an error. -/
def failed : List (Operation ℕ ℕ) :=
  [.requestMore 5 true, .action (.answer 1 { done := false })]

/-- It stays in the map, and cannot be asked for again. -/
theorem failed_page_blocks : ¬∀ operations : List (Operation ℕ ℕ), ∀ s : SearchData ℕ ℕ,
    run { history := 0 } operations = some s → Exact s ∧ CanAsk s := by
  intro h
  have hexact := (h failed _ rfl).1
  obtain ⟨id, hasked, hanswered, -⟩ := (hexact 5).mp (by decide)
  rcases eq_or_ne id 1 with rfl | hne
  · exact hanswered (by decide)
  · change Function.update (fun _ => none) 1 (some 5) id = some 5 at hasked
    rw [Function.update_of_ne hne] at hasked
    exact nomatch hasked

end SearchData

end TelegramDesktop.Data
