import Mathlib
import TelegramDesktop.Storage.UploaderSaved

namespace TelegramDesktop.Storage

open Base

variable {ι : Type*} [DecidableEq ι]

theorem Acknowledged.saved {saved : List (ι × SavePart)} {entry : Entry ι}
    (h : Acknowledged saved entry) {itemId : ι} (hne : itemId ≠ entry.itemId) (part : SavePart) :
    Acknowledged (saved ++ [(itemId, part)]) entry := by
  refine ⟨h.none, ?_, h.content, h.md5Hash⟩
  have hnil : savedOf [(itemId, part)] entry.itemId = [] := by
    apply savedOf_eq_nil
    rw [List.map_singleton, List.mem_singleton]
    exact hne.symm
  rw [savedOf_append, hnil, List.append_nil]
  exact h.parts

namespace Uploader

variable {s t : Uploader ι} {answered : List (Request ι)}

omit [DecidableEq ι] in
/-- What an answered request leaves. -/
theorem finishRequest_frame {requestId : ℕ} {request : Request ι}
    (hfinish : s.finishRequest requestId = some (t, request)) :
    ((requestId, request) ∈ s.requests) ∧ t.queue = s.queue ∧ t.saved = s.saved ∧
      t.finished = s.finished ∧ t.pendingFromRemovedDcIndices = s.pendingFromRemovedDcIndices ∧
      t.latestDcIndexRemoved = s.latestDcIndexRemoved ∧
      t.sentPerDcIndex.length = s.sentPerDcIndex.length ∧
      t.requests = s.requests.filter fun other => other.1 != requestId := by
  rw [finishRequest] at hfinish
  cases hfind : s.requests.find? fun request => request.1 == requestId with
  | none =>
    rw [hfind] at hfinish
    cases hfinish
  | some found =>
    rw [hfind] at hfinish
    obtain ⟨rfl, rfl⟩ := Prod.mk.inj (Option.some.inj hfinish)
    obtain ⟨sent, hsubtract, hlength, -⟩ := s.subtractSent_spec [found]
    have hid : found.1 = requestId := by
      have hfound := List.find?_some hfind
      exact beq_iff_eq.mp hfound
    have hmem := List.mem_of_find?_eq_some hfind
    dsimp only
    rw [hsubtract]
    refine ⟨?_, rfl, rfl, rfl, rfl, rfl, hlength, rfl⟩
    rw [← hid]
    exact hmem

theorem Kept.finishRequest (h : Kept [] s) (hvalid : Valid [] s) {requestId : ℕ}
    {request : Request ι} (hfinish : s.finishRequest requestId = some (t, request)) :
    Kept [request] t := by
  obtain ⟨hmem, hqueue, hsaved, hfinished, hpending, -, -, hrequests⟩ := finishRequest_frame hfinish
  have hrecords : (t.records [request]).Perm (s.records []) := by
    have hperm := records_finished hvalid.ids hmem
    rw [records, hrequests, hpending]
    exact hperm
  constructor
  · rw [hqueue, hsaved, hpending]
    intro e he
    have hkept := h.entries e he
    refine ⟨hkept.reading, ?_, ?_, hkept.resent⟩
    · exact (List.Perm.append_left _ (askedOf_perm hrecords _)).trans hkept.parts
    · exact fun r hr => hkept.known r (hrecords.mem_iff.mp hr)
  · rw [hfinished, hsaved]
    exact h.finished
  · rw [hfinished, hqueue]
    exact h.left

/-- A part that is answered is saved. -/
theorem Kept.saved {request : Request ι} (h : Kept [request] s)
    (hqueued : request.itemId ∈ s.queue.map Entry.itemId) :
    Kept [] { s with saved := s.saved ++ [(request.itemId, request.asked)] } := by
  have hrecords : s.records [request] = request :: s.records [] := rfl
  constructor
  · intro e he
    have hkept := h.entries e he
    rw [hrecords] at hkept
    refine ⟨hkept.reading, ?_, ?_, hkept.resent⟩
    · have hparts := hkept.parts
      by_cases hid : request.itemId = e.itemId
      · rw [askedOf_cons_self hid] at hparts
        have hone : savedOf [(request.itemId, request.asked)] e.itemId = [request.asked] := by
          rw [savedOf, List.filter_cons, if_pos (decide_eq_true hid)]
          rfl
        change (savedOf (s.saved ++ _) e.itemId ++ _).Perm _
        rw [savedOf_append, hone, List.append_assoc, List.singleton_append]
        exact hparts
      · rw [askedOf_cons_ne hid] at hparts
        have hnil : savedOf [(request.itemId, request.asked)] e.itemId = [] := by
          rw [savedOf, List.filter_cons, if_neg (by simpa using hid)]
          rfl
        change (savedOf (s.saved ++ _) e.itemId ++ _).Perm _
        rw [savedOf_append, hnil, List.append_nil]
        exact hparts
    · exact fun r hr => hkept.known r (List.mem_cons_of_mem _ hr)
  · intro e he
    exact (h.finished e he).saved (fun heq => h.left e he (heq ▸ hqueued)) _
  · exact h.left

/-- The requests of the last session say the same when they are sent again. -/
theorem Kept.removeDcIndex (h : Kept answered s)
    (hmoved : ∀ request ∈ s.requests, request.2.dcIndex + 1 = s.sentPerDcIndex.length →
      request.2.docPart = true ∨ request.2.asked.part = 0)
    (hremove : s.removeDcIndex = some t) : Kept answered t := by
  rw [Uploader.removeDcIndex] at hremove
  by_cases hlength : s.sentPerDcIndex.length ≤ 1
  · rw [if_pos hlength] at hremove
    cases hremove
  rw [if_neg hlength] at hremove
  dsimp only at hremove
  obtain ⟨sent, hsubtract, -⟩ := s.subtractSent_spec (s.requests.filter fun request =>
    request.2.dcIndex == s.sentPerDcIndex.length - 1)
  rw [hsubtract] at hremove
  dsimp only at hremove
  have hrecords := records_removed answered s (s.sentPerDcIndex.length - 1)
  split_ifs at hremove
  obtain rfl := Option.some.inj hremove
  constructor
  · intro e he
    have hkept := h.entries e he
    refine ⟨hkept.reading, ?_, ?_, ?_⟩
    · exact (List.Perm.append_left _ (askedOf_perm hrecords _)).trans hkept.parts
    · exact fun r hr => hkept.known r (hrecords.mem_iff.mp hr)
    · intro r hr heq
      rcases List.mem_append.mp hr with hr | hr
      · exact hkept.resent r hr heq
      obtain ⟨moved, hmem, rfl⟩ := List.mem_map.mp hr
      obtain ⟨hmem, hlast⟩ := List.mem_filter.mp hmem
      have hsession : moved.2.dcIndex + 1 = s.sentPerDcIndex.length := by
        rw [beq_iff_eq] at hlast
        omega
      have hrecord : moved.2 ∈ s.records answered :=
        List.mem_append_left _ (List.mem_append_right _ (List.mem_map_of_mem hmem))
      have hknown := hkept.known moved.2 hrecord heq
      cases hdoc : moved.2.docPart with
      | true => exact hknown.document hdoc
      | false =>
        obtain ⟨hpart, hbig, part, hasked⟩ := hknown.sliced hdoc
        rcases hmoved moved hmem hsession with hmoved | hmoved
        · rw [hdoc] at hmoved
          cases hmoved
        · rw [hasked, SavePart.part] at hmoved
          rw [hasked, Entry.resent, hbig, hdoc, hpart, hmoved]
          rfl
  · exact h.finished
  · exact h.left

/-- An answer that takes so long that a session is removed. -/
def Removes (now : ℤ) (s : Uploader ι) (request : Request ι) : Prop :=
  kSlowRequestThreshold ≤ now - request.sent ∧
    kWaitForNormalizeTimeout ≤ now - s.latestDcIndexRemoved ∧ 1 < s.sentPerDcIndex.length

theorem Kept.noteDuration (h : Kept answered s) {now : ℤ} {request : Request ι}
    (hmoved : Removes now s request → ∀ other ∈ s.requests,
      other.2.dcIndex + 1 = s.sentPerDcIndex.length →
        other.2.docPart = true ∨ other.2.asked.part = 0)
    (hnote : s.noteDuration now request = some t) : Kept answered t := by
  rw [Uploader.noteDuration] at hnote
  dsimp only at hnote
  split_ifs at hnote with hslowish hslow
  · obtain ⟨u, hremove, rfl⟩ := Option.map_eq_some_iff.mp hnote
    have hkept : Kept answered { s with dcIndicesWithFastRequests := ∅ } :=
      h.of_eq rfl rfl rfl rfl rfl
    exact (hkept.removeDcIndex (hmoved hslow) hremove).of_eq rfl rfl rfl rfl rfl
  · obtain rfl := Option.some.inj hnote
    exact h.of_eq rfl rfl rfl rfl rfl
  · obtain rfl := Option.some.inj hnote
    exact h.of_eq rfl rfl rfl rfl rfl
  · obtain rfl := Option.some.inj hnote
    exact h

theorem kept_markLoaded {saved : List (ι × SavePart)} {requests pending : List (Request ι)}
    {entry : Entry ι} (h : entry.Kept saved requests pending) (request : Request ι) :
    (markLoaded entry request).Kept saved requests pending := by
  have hreading := h.reading
  rw [markLoaded]
  split_ifs
  · exact ⟨⟨hreading.none, hreading.file, hreading.docSize, hreading.docPartSize,
      hreading.docPartsCount, hreading.docFile, hreading.md5Hash⟩, h.parts,
      fun r hr heq => ⟨(h.known r hr heq).document, (h.known r hr heq).sliced⟩, h.resent⟩
  · exact ⟨⟨hreading.none, hreading.file, hreading.docSize, hreading.docPartSize,
      hreading.docPartsCount, hreading.docFile, hreading.md5Hash⟩, h.parts,
      fun r hr heq => ⟨(h.known r hr heq).document, (h.known r hr heq).sliced⟩, h.resent⟩

theorem Kept.partSaved {now : ℤ} {request : Request ι} (h : Kept [request] s)
    (hvalid : Valid [request] s) (hbusy : Busy s)
    (hmoved : Removes now s request → ∀ other ∈ s.requests,
      other.2.dcIndex + 1 = s.sentPerDcIndex.length →
        other.2.docPart = true ∨ other.2.asked.part = 0)
    (hsaved : s.partSaved now request = some t) : Kept [] t := by
  have hqueued := hvalid.queued request List.mem_cons_self
  obtain ⟨entry, hfind⟩ := find_isSome hqueued
  obtain ⟨hentry, hid⟩ := find_spec hfind
  rw [Uploader.partSaved, hfind] at hsaved
  dsimp only at hsaved
  have hkept := h.saved hqueued
  have hvalid : Valid [request]
      { s with saved := s.saved ++ [(request.itemId, request.asked)] } :=
    hvalid.of_eq rfl rfl rfl rfl rfl rfl
  obtain ⟨u, hnote, hvalid, hqueue⟩ := noteDuration_spec hvalid now request
  have hkept := hkept.noteDuration hmoved hnote
  rw [hnote, Option.bind_some] at hsaved
  have hentry : entry ∈ u.queue := hqueue ▸ hentry
  have hloaded := hvalid.loaded hentry hid.symm
  have hkept := hkept.setEntry (kept_markLoaded (hkept.entries entry hentry) request)
  by_cases hfront : ((u.setEntry (markLoaded entry request)).queue.head?.map Entry.itemId) =
      some request.itemId
  · rw [if_pos hfront] at hsaved
    exact (hkept.maybeFinishFront hloaded).maybeSend hloaded.maybeFinishFront
      (busy_maybeFinishFront _) hsaved
  · rw [if_neg hfront] at hsaved
    refine hkept.maybeSend hloaded (fun e he => ?_) hsaved
    rcases head_setEntry he with rfl | he'
    · rw [he, Option.map_some, markLoaded_itemId, hid] at hfront
      exact absurd rfl hfront
    · rw [hqueue] at he'
      exact hbusy e he'

theorem Kept.upload (h : Kept [] s) (hvalid : Valid [] s) (hbusy : Busy s) {now : ℤ} {itemId : ι}
    {file : FilePrepareResult} (hnew : itemId ∉ s.queue.map Entry.itemId)
    (hfile : Sendable itemId file) (hsaved : itemId ∉ s.saved.map Prod.fst)
    (hfinished : itemId ∉ s.finished.map Entry.itemId)
    (hunchanged : file.type.isDocument = true → file.Unchanged)
    (hupload : s.upload now itemId file = some t) : Kept [] t := by
  obtain ⟨docSize, docPartSize, docPartsCount, hcount, hmake⟩ := make_spec itemId file
  have hid : (Entry.make itemId file).itemId = itemId := by rw [hmake]
  have hnone : ∀ request ∈ s.records [], request.itemId ≠ itemId :=
    fun request hrequest heq => hnew (heq ▸ hvalid.queued request hrequest)
  have hparts : (Entry.make itemId file).sentParts = [] := by rw [hmake]; rfl
  have hkept : Kept [] { s with queue := s.queue ++ [Entry.make itemId file] } := by
    constructor
    · intro e he
      rcases List.mem_append.mp he with he | he
      · exact h.entries e he
      rw [List.mem_singleton.mp he]
      refine ⟨Entry.reading_make itemId hunchanged, ?_, ?_, ?_⟩
      · rw [hid, hparts]
        change (savedOf s.saved itemId ++ askedOf (s.records []) itemId).Perm []
        rw [savedOf_eq_nil hsaved, askedOf_eq_nil hnone]
        rfl
      · intro r hr heq
        exact absurd (heq.trans hid) (hnone r hr)
      · intro r hr heq
        exact absurd (heq.trans hid) (hnone r (List.mem_append_right _ hr))
    · exact h.finished
    · intro e he hmem
      change e.itemId ∈ (s.queue ++ [Entry.make itemId file]).map Entry.itemId at hmem
      rw [List.map_append, List.map_singleton, hid] at hmem
      rcases List.mem_append.mp hmem with hmem | hmem
      · exact h.left e he hmem
      · exact hfinished (List.mem_singleton.mp hmem ▸ List.mem_map_of_mem he)
  obtain ⟨hqueued, hbusy⟩ := queued_spec hvalid hbusy hnew hfile
  rw [Uploader.upload] at hupload
  dsimp only at hupload
  split_ifs at hupload
  · exact hkept.maybeSend hqueued hbusy hupload
  · obtain rfl := Option.some.inj hupload
    exact hkept

theorem Kept.failAll {fuel : ℕ} (h : Kept [] s) (hvalid : Valid [] s) :
    Kept [] (s.failAll fuel) := by
  induction fuel generalizing s with
  | zero => exact h
  | succ fuel ih =>
    rw [Uploader.failAll]
    cases s.queue with
    | nil => exact h
    | cons entry queue => exact ih (h.failed hvalid entry.itemId) (hvalid.failed entry.itemId)

theorem Kept.stopSessions (h : Kept answered s) : Kept answered s.stopSessions := by
  rw [Uploader.stopSessions]
  split_ifs
  · exact h.of_eq rfl rfl rfl rfl rfl
  · exact h.of_eq rfl rfl rfl rfl rfl

theorem Kept.clear (h : Kept [] s) : Kept [] s.clear := by
  have hcancelled : Kept [] { s with queue := [] }.cancelAllRequests := by
    constructor
    · exact fun entry hentry => nomatch hentry
    · exact h.finished
    · exact fun entry _ hentry => nomatch hentry
  exact hcancelled.stopSessions.of_eq rfl rfl rfl rfl rfl

/-- An item that was not uploaded before, and a file that is one. -/
def Fresh (s : Uploader ι) : Event ι → Prop
  | .upload itemId file => itemId ∉ s.saved.map Prod.fst ∧
    itemId ∉ s.finished.map Entry.itemId ∧ (file.type.isDocument = true → file.Unchanged)
  | _ => True

/-- An answer that removes a session finds no sliced part in it but a first one. -/
def SentOnce (now : ℤ) (s : Uploader ι) : Event ι → Prop
  | .partLoaded true requestId => ∀ request, (requestId, request) ∈ s.requests →
    Removes now s request → ∀ other ∈ s.requests, other.1 ≠ requestId →
      other.2.dcIndex + 1 = s.sentPerDcIndex.length →
        other.2.docPart = true ∨ other.2.asked.part = 0
  | _ => True

theorem Kept.step (h : Kept [] s) (hvalid : Valid [] s) (hbusy : Busy s) {now : ℤ}
    {event : Event ι} (hpossible : Possible s event) (hfresh : Fresh s event)
    (honce : SentOnce now s event) (hstep : s.step now event = some t) : Kept [] t := by
  cases event with
  | upload itemId file =>
    exact h.upload hvalid hbusy hpossible.1 hpossible.2 hfresh.1 hfresh.2.1 hfresh.2.2 hstep
  | nextTimer =>
    exact Kept.maybeSend (s := { s with nextTimer := false }) (h.of_eq rfl rfl rfl rfl rfl)
      (hvalid.of_eq rfl rfl rfl rfl rfl rfl) hbusy hstep
  | maybeSend => exact h.maybeSend hvalid hbusy hstep
  | partLoaded result requestId =>
    obtain ⟨u, request, hfinish, hanswered, hqueue⟩ := finishRequest_spec hvalid hpossible
    have hkept := h.finishRequest hvalid hfinish
    rw [Uploader.step, Uploader.partLoaded, hfinish, Option.bind_some] at hstep
    cases result with
    | false =>
      obtain rfl := Option.some.inj hstep
      have hfailed := hkept.failed hanswered request.itemId
      have hnil : ([request].filter fun r => decide (r.itemId ≠ request.itemId)) = [] := by simp
      rw [hnil] at hfailed
      exact hfailed
    | true =>
      obtain ⟨hmem, -, -, -, -, hremoved, hlength, hrequests⟩ := finishRequest_frame hfinish
      have hbusy : Busy u := by
        rw [Busy, hqueue]
        exact hbusy
      refine hkept.partSaved hanswered hbusy (fun hremoves other hother hsession => ?_) hstep
      rw [Removes, hremoved, hlength] at hremoves
      rw [hrequests, List.mem_filter, bne_iff_ne] at hother
      rw [hlength] at hsession
      exact honce request hmem hremoves other hother.1 hother.2 hsession
  | partFailed requestId =>
    obtain ⟨u, request, hfinish, hanswered, -⟩ := finishRequest_spec hvalid hpossible
    rw [Uploader.step, Uploader.partFailed, hfinish, Option.map_some] at hstep
    obtain rfl := Option.some.inj hstep
    have hfailed := (h.finishRequest hvalid hfinish).failed hanswered request.itemId
    have hnil : ([request].filter fun r => decide (r.itemId ≠ request.itemId)) = [] := by simp
    rw [hnil] at hfailed
    exact hfailed
  | cancel itemId =>
    obtain rfl := Option.some.inj hstep
    exact h.failed hvalid itemId
  | cancelAll =>
    obtain ⟨hall, hqueue⟩ := failAll_spec hvalid (le_refl s.queue.length)
    have hclear := hall.clear hqueue
    have hfailed : Kept [] (s.failAll s.queue.length) := h.failAll hvalid
    have hkept := hfailed.clear
    refine Kept.maybeSend (s := { (s.failAll s.queue.length).clear with pausedId := none })
      (hkept.of_eq rfl rfl rfl rfl rfl) (hclear.of_eq rfl rfl rfl rfl rfl rfl) ?_ hstep
    exact busy_stopSessions fun entry hentry => absurd hentry (Option.not_mem_none entry)
  | pause itemId =>
    obtain rfl := Option.some.inj hstep
    exact h.of_eq rfl rfl rfl rfl rfl
  | unpause =>
    exact Kept.maybeSend (s := { s with pausedId := none }) (h.of_eq rfl rfl rfl rfl rfl)
      (hvalid.of_eq rfl rfl rfl rfl rfl rfl) hbusy hstep
  | stopSessions =>
    obtain rfl := Option.some.inj hstep
    have hkept : Kept [] { s with stopSessionsTimer := false } := h.of_eq rfl rfl rfl rfl rfl
    exact hkept.stopSessions

/-- Runs in which each event meets a condition. -/
def RunOf (P : ℤ → Uploader ι → Event ι → Prop) : Uploader ι → List (ℤ × Event ι) → Prop
  | _, [] => True
  | s, event :: events =>
    P event.1 s event.2 ∧ ∀ t, s.step event.1 event.2 = some t → RunOf P t events

/-- What can happen to files that do not change, each of another item. -/
def Honest (_ : ℤ) (s : Uploader ι) (event : Event ι) : Prop := Possible s event ∧ Fresh s event

/-- No sliced part but a first one is sent again, too. -/
def HonestOnce (now : ℤ) (s : Uploader ι) (event : Event ι) : Prop :=
  Honest now s event ∧ SentOnce now s event

theorem run_kept {events : List (ℤ × Event ι)} (h : Kept [] s) (hvalid : Valid [] s)
    (hbusy : Busy s) (honce : RunOf HonestOnce s events) :
    ∃ t, s.run events = some t ∧ Kept [] t := by
  induction events generalizing s with
  | nil => exact ⟨s, rfl, h⟩
  | cons event events ih =>
    obtain ⟨⟨⟨hpossible, hfresh⟩, hsent⟩, hrest⟩ := honce
    obtain ⟨t, hstep, hvalid', hbusy'⟩ := step_spec event.1 hvalid hbusy hpossible
    rw [run, hstep, Option.bind_some]
    exact ih (h.step hvalid hbusy hpossible hfresh hsent hstep) hvalid' hbusy' (hrest t hstep)

/-- In runs in which no sliced part but a first one is sent again, the servers have saved each part
of every entry that is announced, once. -/
theorem run_acknowledged (events : List (ℤ × Event ι)) (honce : RunOf HonestOnce {} events) :
    ∃ s, run {} events = some s ∧ ∀ entry ∈ s.finished,
      Acknowledged s.saved entry ∧ ∀ md5, Announced md5 s.saved entry := by
  have hstart : Kept [] ({} : Uploader ι) :=
    { entries := fun _ hentry => nomatch hentry
      finished := fun _ hentry => nomatch hentry
      left := fun _ hentry => nomatch hentry }
  obtain ⟨s, hrun, hkept⟩ :=
    run_kept hstart valid_start (fun _ hentry => nomatch hentry) honce
  refine ⟨s, hrun, fun entry hentry => ?_⟩
  exact ⟨hkept.finished entry hentry, (hkept.finished entry hentry).announced⟩

local instance neZero_savedByte : NeZero 256 := ⟨by decide⟩

theorem size_none : (∅ : FlatSet ℕ).size = 0 := rfl

def videoFile (whole : Bytes) : FilePrepareResult :=
  { type := .file
    id := 5
    filesize := 1153433600
    disk := ⟨true, fun position size => (whole.drop position).take size⟩ }

def videoChunk (whole : Bytes) (part : ℕ) : Bytes := (whole.drop (part * 524288)).take 524288

def videoEntry (whole : Bytes) (docFile : Option ℕ)
    (docSentSize docPartsSent docPartsWaiting : ℕ) : Entry ℕ :=
  { itemId := 1
    file := videoFile whole
    docFile := docFile
    docSize := 1153433600
    docSentSize := docSentSize
    docPartSize := 524288
    docPartsSent := docPartsSent
    docPartsCount := 2200
    docPartsWaiting := docPartsWaiting }

def videoRequest (whole : Bytes) (part dcIndex : ℕ) (sent : ℤ) : Request ℕ :=
  { itemId := 1
    sent := sent
    bytes := videoChunk whole part
    part := part
    dcIndex := dcIndex
    docPart := true
    bigPart := true
    asked := .saveBigFilePart 5 part 2200 (videoChunk whole part) }

theorem length_videoChunk {whole : Bytes} (hwhole : whole.length = 1153433600) {part : ℕ}
    (hpart : part < 2200) : (videoChunk whole part).length = 524288 := by
  rw [videoChunk, List.length_take, List.length_drop]
  omega

theorem checked_video {whole : Bytes} (hwhole : whole.length = 1153433600)
    (docFile : Option ℕ) (docSentSize : ℕ) {docPartsSent : ℕ} (docPartsWaiting : ℕ)
    (hsent : docPartsSent < 2200) :
    (videoEntry whole docFile docSentSize docPartsSent docPartsWaiting).checked
        (videoChunk whole docPartsSent) =
      (videoEntry whole docFile docSentSize docPartsSent docPartsWaiting,
        videoChunk whole docPartsSent) := by
  have hlength := length_videoChunk hwhole hsent
  have hne : videoChunk whole docPartsSent ≠ [] := by
    apply List.ne_nil_of_length_pos
    omega
  have hbig : ¬ 1153433600 ≤ kUseBigFilesFrom := by decide
  simp [Entry.checked, videoEntry, hlength, hne, hbig]

theorem readDocPart_video {whole : Bytes} (hwhole : whole.length = 1153433600)
    {docFile : Option ℕ} (docSentSize : ℕ) {docPartsSent : ℕ} (docPartsWaiting : ℕ)
    (hsent : docPartsSent < 2200) (hdocFile : docFile.getD 0 = docPartsSent * 524288) :
    (videoEntry whole docFile docSentSize docPartsSent docPartsWaiting).readDocPart =
      (videoEntry whole (some ((docPartsSent + 1) * 524288)) docSentSize docPartsSent
        docPartsWaiting, videoChunk whole docPartsSent) := by
  have hlength := length_videoChunk hwhole hsent
  have hnext : docPartsSent * 524288 + (videoChunk whole docPartsSent).length =
      (docPartsSent + 1) * 524288 := by
    rw [hlength]
    omega
  have hcontent : ¬ (videoEntry whole docFile docSentSize docPartsSent
      docPartsWaiting).file.content ≠ [] := not_not_intro rfl
  rw [Entry.readDocPart, if_neg hcontent, ← hnext]
  cases docFile with
  | none =>
    rw [Option.getD_none] at hdocFile
    obtain rfl : docPartsSent = 0 := by omega
    rw [Nat.zero_mul, Nat.zero_add]
    exact checked_video hwhole _ _ _ hsent
  | some position =>
    rw [Option.getD_some] at hdocFile
    subst hdocFile
    exact checked_video hwhole _ _ _ hsent

theorem make_video (whole : Bytes) :
    Entry.make 1 (videoFile whole) = videoEntry whole none 0 0 0 := by
  simp [Entry.make, videoFile, SendMediaType.isDocument, Entry.setDocSize, Entry.setPartSize,
    kDocumentUploadPartSize0, kDocumentUploadPartSize1, kDocumentUploadPartSize2,
    kDocumentUploadPartSize3, kDocumentUploadPartSize4, kDocumentMaxPartsCountDefault, ushortEnd,
    videoEntry]

/-- A part of the video fills half of a session. -/
theorem sendPart_video {whole : Bytes} (hwhole : whole.length = 1153433600) {s : Uploader ℕ}
    {docFile : Option ℕ} (docSentSize : ℕ) {docPartsSent docPartsWaiting dcIndex : ℕ} (now : ℤ)
    (hsent : docPartsSent < 2200) (hdocFile : docFile.getD 0 = docPartsSent * 524288)
    (hwaiting : docPartsWaiting < 2200) (hpending : s.pendingFromRemovedDcIndices = [])
    (hqueue : s.queue = [videoEntry whole docFile docSentSize docPartsSent docPartsWaiting])
    (hempty : (s.sentPerDcIndex[dcIndex]?).getD 0 = 0) :
    s.sendPart now (videoEntry whole docFile docSentSize docPartsSent docPartsWaiting) dcIndex =
      some ({ s with
        queue := [videoEntry whole (some ((docPartsSent + 1) * 524288)) docSentSize
          (docPartsSent + 1) (docPartsWaiting + 1)]
        requests := s.requests ++
          [(s.nextRequestId, videoRequest whole docPartsSent dcIndex now)]
        sentPerDcIndex := s.sentPerDcIndex.modify dcIndex (· + 524288)
        nextRequestId := s.nextRequestId + 1
        inFlight := s.inFlight ++ [s.nextRequestId] }, .success) := by
  have hlength := length_videoChunk hwhole hsent
  have hne : videoChunk whole docPartsSent ≠ [] := by
    apply List.ne_nil_of_length_pos
    omega
  have hbig : kUseBigFilesFrom < 1153433600 := by decide
  have hsent' : (docPartsSent + 1) % ushortEnd = docPartsSent + 1 :=
    Nat.mod_eq_of_lt (by rw [ushortEnd]; omega)
  have hwaiting' : (docPartsWaiting + 1) % ushortEnd = docPartsWaiting + 1 :=
    Nat.mod_eq_of_lt (by rw [ushortEnd]; omega)
  have hread := readDocPart_video hwhole docSentSize docPartsWaiting hsent hdocFile
  have hsliced : ¬ (videoEntry whole docFile docSentSize docPartsSent docPartsWaiting).partsSent <
      (videoEntry whole docFile docSentSize docPartsSent docPartsWaiting).parts.length :=
    Nat.lt_irrefl 0
  rw [sendPart, if_neg (not_not_intro hpending), if_neg hsliced, sendDocPart, hempty, hread]
  simp [videoEntry, videoFile, videoRequest, hne, hbig, hsent, hsent', hwaiting', hqueue, hempty,
    hlength, kMaxUploadPerSession, sendPreparedRequest, setEntry, addSent]

theorem hasUnsent_video (whole : Bytes) (docFile : Option ℕ) (docSentSize : ℕ) {docPartsSent : ℕ}
    (docPartsWaiting : ℕ) (hsent : docPartsSent < 2200) :
    (videoEntry whole docFile docSentSize docPartsSent docPartsWaiting).hasUnsent = true := by
  simp [Entry.hasUnsent, videoEntry, hsent]

theorem unsent_video {s : Uploader ℕ} {whole : Bytes} {docFile : Option ℕ}
    {docSentSize docPartsSent docPartsWaiting : ℕ} (hpending : s.pendingFromRemovedDcIndices = [])
    (hqueue : s.queue = [videoEntry whole docFile docSentSize docPartsSent docPartsWaiting]) :
    s.unsent = 2200 - docPartsSent := by
  simp [unsent, hpending, hqueue, videoEntry, videoFile, Entry.parts]

theorem sendNext_video {whole : Bytes} (hwhole : whole.length = 1153433600) {s : Uploader ℕ}
    {docFile : Option ℕ} {docSentSize docPartsSent docPartsWaiting dcIndex fuel : ℕ} (now : ℤ)
    (hsent : docPartsSent < 2200) (hdocFile : docFile.getD 0 = docPartsSent * 524288)
    (hwaiting : docPartsWaiting < 2200) (hpending : s.pendingFromRemovedDcIndices = [])
    (hqueue : s.queue = [videoEntry whole docFile docSentSize docPartsSent docPartsWaiting])
    (hempty : (s.sentPerDcIndex[dcIndex]?).getD 0 = 0) :
    s.sendNext now dcIndex (fuel + 1) =
      some ({ s with
        queue := [videoEntry whole (some ((docPartsSent + 1) * 524288)) docSentSize
          (docPartsSent + 1) (docPartsWaiting + 1)]
        requests := s.requests ++
          [(s.nextRequestId, videoRequest whole docPartsSent dcIndex now)]
        sentPerDcIndex := s.sentPerDcIndex.modify dcIndex (· + 524288)
        nextRequestId := s.nextRequestId + 1
        inFlight := s.inFlight ++ [s.nextRequestId] }, true) := by
  have hunsent := hasUnsent_video whole docFile docSentSize docPartsWaiting hsent
  have hchoose : s.chooseEntryForNextRequest =
      some (some (videoEntry whole docFile docSentSize docPartsSent docPartsWaiting)) := by
    rw [chooseEntryForNextRequest, hpending, hqueue]
    exact congrArg some (List.find?_cons_of_pos hunsent)
  rw [sendNext, hchoose]
  dsimp only
  rw [sendPart_video hwhole docSentSize now hsent hdocFile hwaiting hpending hqueue hempty]

theorem partSaved_front {s u : Uploader ℕ} {now : ℤ} {request : Request ℕ}
    {entry entry' : Entry ℕ} (hqueue : s.queue = [entry]) (hid : entry.itemId = request.itemId)
    (hmark : markLoaded entry request = entry')
    (hnote : ({ s with saved := s.saved ++ [(request.itemId, request.asked)] } :
      Uploader ℕ).noteDuration now request = some u) (hu : u.queue = s.queue) :
    s.partSaved now request =
      ({ u with queue := [entry'] } : Uploader ℕ).maybeFinishFront.maybeSend now := by
  have hfind : s.find request.itemId = some entry := by
    rw [find, hqueue, List.find?_cons_of_pos (by simpa using hid)]
  have hid' : entry'.itemId = request.itemId := by rw [← hmark, markLoaded_itemId, hid]
  have hset : u.setEntry (markLoaded entry request) = { u with queue := [entry'] } := by
    rw [hmark, setEntry, hu, hqueue, List.map_singleton, if_pos (hid.trans hid'.symm)]
  rw [partSaved, hfind]
  dsimp only
  rw [hnote, Option.bind_some, hset]
  exact congrArg (Uploader.maybeSend now) (if_pos (congrArg some hid'))

theorem pred_mod {waiting : ℕ} (hlt : waiting < 65535) :
    (waiting + 1 + (ushortEnd - 1)) % ushortEnd = waiting := by
  change (waiting + 1 + 65535) % 65536 = waiting
  omega

theorem markLoaded_video {whole : Bytes} (hwhole : whole.length = 1153433600)
    (docFile : Option ℕ) (docSentSize docPartsSent : ℕ) {part : ℕ} (dcIndex : ℕ) (sent : ℤ)
    (hpart : part < 2200) {w : ℕ} (hlt : w < 65535) :
    markLoaded (videoEntry whole docFile docSentSize docPartsSent (w + 1))
        (videoRequest whole part dcIndex sent) =
      videoEntry whole docFile (docSentSize + 524288) docPartsSent w := by
  have hmod := pred_mod hlt
  simp [markLoaded, videoEntry, videoRequest, hmod, length_videoChunk hwhole hpart]

def late1 (whole : Bytes) : Uploader ℕ :=
  { queue := [videoEntry whole (some 524288) 0 1 1]
    requests := [(1, videoRequest whole 0 0 0)]
    sentPerDcIndex := [524288]
    nextTimer := true
    nextRequestId := 2
    inFlight := [1] }

theorem sendAll_more {s t u : Uploader ℕ} {now : ℤ} {fuel dcIndex : ℕ} {used : List ℕ}
    (hchoose : s.chooseDcIndexForNextRequest now used = (t, some dcIndex))
    (hsend : t.sendNext now dcIndex (t.queue.length + 1) = some (u, true))
    (hused : (kAcceptAsFastIfTotalAtLeast : ℤ) ≤ (u.sentPerDcIndex[dcIndex]?).getD 0) :
    sendAll now (fuel + 1) used s = sendAll now fuel (dcIndex :: used) u := by
  rw [sendAll, hchoose]
  dsimp only
  rw [hsend]
  exact congrArg (fun used => sendAll now fuel used u) (if_pos hused)

theorem sendAll_done {s t : Uploader ℕ} {now : ℤ} (fuel : ℕ) {used : List ℕ}
    (hchoose : s.chooseDcIndexForNextRequest now used = (t, none)) :
    sendAll now (fuel + 1) used s = some { t with nextTimer := !used.isEmpty } := by
  rw [sendAll, hchoose]

theorem sendAll_next {s t u : Uploader ℕ} {now : ℤ} {fuel dcIndex : ℕ} {used : List ℕ}
    (hchoose : s.chooseDcIndexForNextRequest now used = (t, some dcIndex))
    (hsend : t.sendNext now dcIndex (t.queue.length + 1) = some (u, true))
    (hused : ¬ (kAcceptAsFastIfTotalAtLeast : ℤ) ≤ (u.sentPerDcIndex[dcIndex]?).getD 0) :
    sendAll now (fuel + 1) used s = sendAll now fuel used u := by
  rw [sendAll, hchoose]
  dsimp only
  rw [hsend]
  exact congrArg (fun used => sendAll now fuel used u) (if_neg hused)

theorem sendAll_end {s t u : Uploader ℕ} {now : ℤ} {dcIndex : ℕ} (fuel : ℕ) {used : List ℕ}
    (hchoose : s.chooseDcIndexForNextRequest now used = (t, some dcIndex))
    (hsend : t.sendNext now dcIndex (t.queue.length + 1) = some (u, false)) :
    sendAll now (fuel + 1) used s = some u := by
  rw [sendAll, hchoose]
  dsimp only
  rw [hsend]

/-- The first part of the video fills the first session. -/
theorem step_late1 {whole : Bytes} (hwhole : whole.length = 1153433600) :
    ({} : Uploader ℕ).step 0 (.upload 1 (videoFile whole)) = some (late1 whole) := by
  let start : Uploader ℕ := { queue := [videoEntry whole none 0 0 0] }
  let opened : Uploader ℕ := { start with sentPerDcIndex := [0] }
  let sent : Uploader ℕ := { late1 whole with nextTimer := false }
  have hdocFile : (none : Option ℕ).getD 0 = 0 * 524288 := (Nat.zero_mul _).symm
  have hunsent : start.unsent = 2198 + 1 + 1 := by rw [unsent_video rfl rfl]
  have hopen : start.chooseDcIndexForNextRequest 0 [] = (opened, some 0) := rfl
  have hsend : opened.sendNext 0 0 (opened.queue.length + 1) = some (sent, true) :=
    sendNext_video hwhole 0 (by decide : 0 < 2200) hdocFile (by decide : 0 < 2200) rfl rfl rfl
  have hused : (kAcceptAsFastIfTotalAtLeast : ℤ) ≤ 524288 := by decide
  have hfull : sent.chooseDcIndexForNextRequest 0 [0] = (sent, none) := rfl
  rw [step, upload, make_video]
  change sendAll 0 (start.unsent + 1) [] start = _
  rw [hunsent, sendAll_more hopen hsend hused]
  exact sendAll_done _ hfull

def late2 (whole : Bytes) : Uploader ℕ :=
  { queue := [videoEntry whole (some 1048576) 524288 2 1]
    requests := [(2, videoRequest whole 1 0 1)]
    sentPerDcIndex := [524288]
    nextTimer := true
    nextRequestId := 3
    inFlight := [2]
    saved := [(1, .saveBigFilePart 5 0 2200 (videoChunk whole 0))] }

theorem finishRequest_one {s : Uploader ℕ} {requestId : ℕ} {request : Request ℕ}
    (hrequests : s.requests = [(requestId, request)]) (hinFlight : s.inFlight = [requestId])
    (hdcIndex : request.dcIndex = 0)
    (hsent : s.sentPerDcIndex = [(request.bytes.length : ℤ)]) :
    s.finishRequest requestId =
      some ({ s with requests := [], inFlight := [], sentPerDcIndex := [0] }, request) := by
  simp [finishRequest, subtractSent, addSent, hrequests, hinFlight, hdcIndex, hsent]

theorem step_late2 {whole : Bytes} (hwhole : whole.length = 1153433600) :
    (late1 whole).step 1 (.partLoaded true 1) = some (late2 whole) := by
  have hlength : (videoChunk whole 0).length = 524288 := length_videoChunk hwhole (by decide)
  let left : Uploader ℕ := { late1 whole with
    requests := []
    sentPerDcIndex := [0]
    inFlight := [] }
  let waiting : Uploader ℕ := { left with
    queue := [videoEntry whole (some 524288) 524288 1 0]
    saved := [(1, .saveBigFilePart 5 0 2200 (videoChunk whole 0))] }
  have hfinish : (late1 whole).finishRequest 1 = some (left, videoRequest whole 0 0 0) :=
    finishRequest_one rfl rfl rfl (by simp [late1, videoRequest, hlength])
  have hnote : ({ left with saved := waiting.saved } : Uploader ℕ).noteDuration 1
      (videoRequest whole 0 0 0) = some { left with saved := waiting.saved } := rfl
  have hunsent : waiting.unsent = 2197 + 1 + 1 := by rw [unsent_video rfl rfl]
  have hopen : waiting.chooseDcIndexForNextRequest 1 [] = (waiting, some 0) := rfl
  have hsend : waiting.sendNext 1 0 (waiting.queue.length + 1) = some (late2 whole, true) :=
    sendNext_video hwhole 1 (by decide : 1 < 2200) rfl (by decide : 0 < 2200) rfl rfl rfl
  have hused : (kAcceptAsFastIfTotalAtLeast : ℤ) ≤ 524288 := by decide
  have hfull : (late2 whole).chooseDcIndexForNextRequest 1 [0] = (late2 whole, none) := rfl
  have hsaved := partSaved_front (s := left) rfl rfl
    (markLoaded_video hwhole (some 524288) 0 1 0 0 (by decide) (by decide)) hnote rfl
  rw [step, partLoaded, hfinish, Option.bind_some]
  refine Eq.trans hsaved ?_
  change sendAll 1 (waiting.unsent + 1) [] waiting = _
  rw [hunsent, sendAll_more hopen hsend hused]
  exact sendAll_done _ hfull

def late3 (whole : Bytes) : Uploader ℕ :=
  { queue := [videoEntry whole (some 2097152) 1048576 4 2]
    requests := [(3, videoRequest whole 2 0 2), (4, videoRequest whole 3 1 2)]
    sentPerDcIndex := [524288, 524288]
    latestDcIndexAdded := 2
    nextTimer := true
    nextRequestId := 5
    inFlight := [3, 4]
    saved := [(1, .saveBigFilePart 5 0 2200 (videoChunk whole 0)),
      (1, .saveBigFilePart 5 1 2200 (videoChunk whole 1))] }

/-- The first session is fast, so that a second one is added. -/
theorem step_late3 {whole : Bytes} (hwhole : whole.length = 1153433600) :
    (late2 whole).step 2 (.partLoaded true 2) = some (late3 whole) := by
  have hlength : (videoChunk whole 1).length = 524288 := length_videoChunk hwhole (by decide)
  let left : Uploader ℕ := { late2 whole with
    requests := []
    sentPerDcIndex := [0]
    inFlight := [] }
  let noted : Uploader ℕ := { left with
    dcIndicesWithFastRequests := (∅ : FlatSet ℕ).insert 0
    saved := (late3 whole).saved }
  let waiting : Uploader ℕ := { noted with
    queue := [videoEntry whole (some 1048576) 1048576 2 0] }
  let sent : Uploader ℕ := { waiting with
    queue := [videoEntry whole (some 1572864) 1048576 3 1]
    requests := [(3, videoRequest whole 2 0 2)]
    sentPerDcIndex := [524288]
    nextRequestId := 4
    inFlight := [3] }
  let opened : Uploader ℕ := { sent with
    sentPerDcIndex := [524288, 0]
    dcIndicesWithFastRequests := ∅
    latestDcIndexAdded := 2 }
  have hfinish : (late2 whole).finishRequest 2 = some (left, videoRequest whole 1 0 1) :=
    finishRequest_one rfl rfl rfl (by simp [late2, videoRequest, hlength])
  have hnote : ({ left with saved := noted.saved } : Uploader ℕ).noteDuration 2
      (videoRequest whole 1 0 1) = some noted := by
    simp [noteDuration, kFastRequestThreshold, kAcceptAsFastIfTotalAtLeast, left, noted, late2,
      videoRequest, hlength]
  have hunsent : waiting.unsent = 2195 + 1 + 1 + 1 := by rw [unsent_video rfl rfl]
  have hempty : waiting.chooseDcIndexForNextRequest 2 [] = (waiting, some 0) := rfl
  have hsend : waiting.sendNext 2 0 (waiting.queue.length + 1) = some (sent, true) :=
    sendNext_video hwhole 2 (by decide : 2 < 2200) rfl (by decide : 0 < 2200) rfl rfl rfl
  have hopen : sent.chooseDcIndexForNextRequest 2 [0] = (opened, some 1) := rfl
  have hsend' : opened.sendNext 2 1 (opened.queue.length + 1) = some (late3 whole, true) :=
    sendNext_video hwhole 2 (by decide : 3 < 2200) rfl (by decide : 1 < 2200) rfl rfl rfl
  have hused : (kAcceptAsFastIfTotalAtLeast : ℤ) ≤ 524288 := by decide
  have hfull : (late3 whole).chooseDcIndexForNextRequest 2 [1, 0] = (late3 whole, none) := rfl
  have hsaved := partSaved_front (s := left) rfl rfl
    (markLoaded_video hwhole (some 1048576) 524288 2 0 1 (by decide) (by decide)) hnote rfl
  rw [step, partLoaded, hfinish, Option.bind_some]
  refine Eq.trans hsaved ?_
  change sendAll 2 (waiting.unsent + 1) [] waiting = _
  rw [hunsent, sendAll_more hempty hsend hused, sendAll_more hopen hsend' hused]
  exact sendAll_done _ hfull

def late4 (whole : Bytes) : Uploader ℕ :=
  { sentPerDcIndex := [0, 0]
    latestDcIndexAdded := 2
    nextTimer := true
    nextRequestId := 5
    saved := (late3 whole).saved }

theorem step_late4 {whole : Bytes} (hwhole : whole.length = 1153433600) :
    (late3 whole).step 3 (.cancel 1) = some (late4 whole) := by
  have hlength2 : (videoChunk whole 2).length = 524288 := length_videoChunk hwhole (by decide)
  have hlength3 : (videoChunk whole 3).length = 524288 := length_videoChunk hwhole (by decide)
  simp [step, failed, cancelRequests, subtractSent, addSent, maybeFinishFront, finishFronts, late3,
    late4, videoRequest, videoEntry, hlength2, hlength3]

def late5 (whole : Bytes) : Uploader ℕ := { late4 whole with stopSessionsTimer := true }

theorem step_late5 (whole : Bytes) : (late4 whole).step 3 .maybeSend = some (late5 whole) := rfl

theorem data_video {whole : Bytes} (hwhole : whole.length = 1153433600) :
    (videoFile whole).data = whole := by
  change (whole.drop 0).take 1153433600 = whole
  rw [List.drop_zero, ← hwhole, List.take_length]

theorem unchanged_video {whole : Bytes} (hwhole : whole.length = 1153433600) :
    (videoFile whole).Unchanged :=
  { length := by rw [data_video hwhole, hwhole]; rfl
    read := fun _ position size => by rw [data_video hwhole]; rfl
    limit := (by decide : 1153433600 ≤ 8000 * kDocumentUploadPartSize4) }

theorem sendable_video (whole : Bytes) : Sendable 1 (videoFile whole) := by
  constructor
  · intro part hpart
    rw [make_video] at hpart
    exact absurd hpart List.not_mem_nil
  · rw [make_video]
    exact Nat.succ_pos _
  · right
    rw [make_video]
    exact Nat.succ_pos _

def startEvents (whole : Bytes) : List (ℤ × Event ℕ) :=
  [(0, .upload 1 (videoFile whole)), (1, .partLoaded true 1), (2, .partLoaded true 2),
    (3, .cancel 1), (3, .maybeSend)]

/-- A video that is cancelled leaves two sessions. -/
theorem run_start {whole : Bytes} (hwhole : whole.length = 1153433600)
    (events : List (ℤ × Event ℕ)) :
    run {} (startEvents whole ++ events) = run (late5 whole) events := by
  change run {} ((0, .upload 1 (videoFile whole)) :: (1, .partLoaded true 1) ::
    (2, .partLoaded true 2) :: (3, .cancel 1) :: (3, .maybeSend) :: events) = _
  rw [run, step_late1 hwhole, Option.bind_some, run, step_late2 hwhole, Option.bind_some, run,
    step_late3 hwhole, Option.bind_some, run, step_late4 hwhole, Option.bind_some, run,
    step_late5, Option.bind_some]

theorem sentOnce_documents {s : Uploader ℕ} {requestId : ℕ} (now : ℤ)
    (h : ∀ other ∈ s.requests, other.1 ≠ requestId → other.2.docPart = true) :
    SentOnce now s (.partLoaded true requestId) :=
  fun _ _ _ other hother hne _ => Or.inl (h other hother hne)

theorem runOf_start {P : ℤ → Uploader ℕ → Event ℕ → Prop} {whole : Bytes}
    (hwhole : whole.length = 1153433600) {events : List (ℤ × Event ℕ)}
    (hP : ∀ now s event, HonestOnce now s event → P now s event)
    (h : RunOf P (late5 whole) events) : RunOf P {} (startEvents whole ++ events) := by
  refine ⟨hP _ _ _ ⟨⟨⟨List.not_mem_nil, sendable_video whole⟩, List.not_mem_nil,
    List.not_mem_nil, fun _ => unchanged_video hwhole⟩, trivial⟩, fun t ht => ?_⟩
  obtain rfl := Option.some.inj ((step_late1 hwhole).symm.trans ht)
  refine ⟨hP _ _ _ ⟨⟨List.mem_cons_self, trivial⟩, sentOnce_documents 1 (by simp [late1])⟩,
    fun t ht => ?_⟩
  obtain rfl := Option.some.inj ((step_late2 hwhole).symm.trans ht)
  refine ⟨hP _ _ _ ⟨⟨List.mem_cons_self, trivial⟩, sentOnce_documents 2 (by simp [late2])⟩,
    fun t ht => ?_⟩
  obtain rfl := Option.some.inj ((step_late3 hwhole).symm.trans ht)
  refine ⟨hP _ _ _ ⟨⟨trivial, trivial⟩, trivial⟩, fun t ht => ?_⟩
  obtain rfl := Option.some.inj ((step_late4 hwhole).symm.trans ht)
  refine ⟨hP _ _ _ ⟨⟨trivial, trivial⟩, trivial⟩, fun t ht => ?_⟩
  obtain rfl := Option.some.inj ((step_late5 whole).symm.trans ht)
  exact h

theorem not_saved_start (whole : Bytes) : 2 ∉ (late5 whole).saved.map Prod.fst := by
  change 2 ∉ [1, 1]
  decide

/-- A document of two parts and a small thumbnail. -/
def noteFile (first : Bytes) : FilePrepareResult :=
  { type := .file
    id := 7
    thumbId := 8
    filesize := 32769
    content := first ++ [2]
    thumbparts := [[1]] }

def noteEntry (first md5Hash : Bytes)
    (sentSize partsSent partsWaiting docSentSize docPartsSent docPartsWaiting : ℕ) : Entry ℕ :=
  { itemId := 2
    file := noteFile first
    sentSize := sentSize
    partsSent := partsSent
    partsWaiting := partsWaiting
    md5Hash := md5Hash
    docSize := 32769
    docSentSize := docSentSize
    docPartSize := 32768
    docPartsSent := docPartsSent
    docPartsCount := 2
    docPartsWaiting := docPartsWaiting }

def thumbRequest : Request ℕ :=
  { itemId := 2
    sent := 252
    bytes := [1]
    dcIndex := 0
    asked := .saveFilePart 8 0 [1] }

def noteRequest (bytes : Bytes) (part dcIndex : ℕ) (sent queued : ℤ) : Request ℕ :=
  { itemId := 2
    sent := sent
    bytes := bytes
    queued := queued
    part := part
    dcIndex := dcIndex
    docPart := true
    asked := .saveFilePart 7 part bytes }

theorem make_note (first : Bytes) :
    Entry.make 2 (noteFile first) = noteEntry first [] 0 0 0 0 0 0 := by
  simp [Entry.make, noteFile, SendMediaType.isDocument, Entry.setDocSize, Entry.setPartSize,
    kDocumentUploadPartSize0, kDocumentMaxPartsCountDefault, ushortEnd, noteEntry]

theorem readDocPart_first {first : Bytes} (hfirst : first.length = 32768)
    (partsSent partsWaiting docPartsWaiting : ℕ) :
    (noteEntry first [] 0 partsSent partsWaiting 0 0 docPartsWaiting).readDocPart =
      (noteEntry first first 0 partsSent partsWaiting 0 0 docPartsWaiting, first) := by
  have hne : first ≠ [] := by
    apply List.ne_nil_of_length_pos
    omega
  have hmid : Entry.mid (first ++ [2]) 0 32768 = first := by
    rw [Entry.mid, if_neg (lt_irrefl 0), Int.toNat_zero, List.drop_zero, List.take_left' hfirst]
  have hoffset :
      (noteEntry first [] 0 partsSent partsWaiting 0 0 docPartsWaiting).docOffset = 0 := by
    change Int.bmod (((0 : ℕ) : ℤ) * ((32768 : ℕ) : ℤ)) intEnd = 0
    decide
  rw [Entry.readDocPart, hoffset]
  simp [noteEntry, noteFile, hmid, Entry.checked, SendMediaType.isDocument, kUseBigFilesFrom, hne,
    hfirst]

theorem readDocPart_last {first : Bytes} (hfirst : first.length = 32768)
    (partsSent partsWaiting docPartsWaiting : ℕ) :
    (noteEntry first first 0 partsSent partsWaiting 0 1 docPartsWaiting).readDocPart =
      (noteEntry first (first ++ [2]) 0 partsSent partsWaiting 0 1 docPartsWaiting, [2]) := by
  have hmid : Entry.mid (first ++ [2]) 32768 32768 = [2] := by
    simp [Entry.mid, List.drop_left' hfirst]
  have hoffset :
      (noteEntry first first 0 partsSent partsWaiting 0 1 docPartsWaiting).docOffset = 32768 := by
    change Int.bmod (((1 : ℕ) : ℤ) * ((32768 : ℕ) : ℤ)) intEnd = 32768
    decide
  rw [Entry.readDocPart, hoffset]
  simp [noteEntry, noteFile, hmid, Entry.checked, SendMediaType.isDocument, kUseBigFilesFrom]

def again6 (whole first : Bytes) : Uploader ℕ :=
  { late5 whole with queue := [noteEntry first [] 0 0 0 0 0 0] }

theorem step_again6 (whole first : Bytes) :
    (late5 whole).step 4 (.upload 2 (noteFile first)) = some (again6 whole first) := by
  rw [step, upload, make_note]
  rfl

def again7 (whole first : Bytes) : Uploader ℕ :=
  { late4 whole with
    queue := [noteEntry first (first ++ [2]) 0 1 1 0 2 2]
    requests := [(5, thumbRequest), (6, noteRequest first 0 1 252 0),
      (7, noteRequest [2] 1 0 252 1)]
    sentPerDcIndex := [2, 32768]
    nextTimer := false
    nextRequestId := 8
    inFlight := [5, 6, 7] }

/-- A part of the document goes to a session with room for it. -/
theorem sendNext_note {s t : Uploader ℕ} {now : ℤ} {dcIndex fuel : ℕ} {entry : Entry ℕ}
    (hchoose : s.chooseEntryForNextRequest = some (some entry))
    (hpending : s.pendingFromRemovedDcIndices = [])
    (hparts : ¬ entry.partsSent < entry.parts.length)
    (hsend : s.sendDocPart now entry dcIndex = some (t, .success)) :
    s.sendNext now dcIndex (fuel + 1) = some (t, true) := by
  rw [sendNext, hchoose]
  dsimp only
  rw [sendPart, if_neg (not_not_intro hpending), if_neg hparts, hsend]

/-- The thumbnail goes to the first session, a part of the document to the second one and the last
part to the one that is less full. -/
theorem step_again7 (whole : Bytes) {first : Bytes} (hfirst : first.length = 32768) :
    (again6 whole first).step 252 .nextTimer = some (again7 whole first) := by
  have hne : first ≠ [] := by
    apply List.ne_nil_of_length_pos
    omega
  let start : Uploader ℕ :=
    { again6 whole first with nextTimer := false, stopSessionsTimer := false }
  let thumb : Uploader ℕ := { start with
    queue := [noteEntry first [] 0 1 1 0 0 0]
    requests := [(5, thumbRequest)]
    sentPerDcIndex := [1, 0]
    nextRequestId := 6
    inFlight := [5] }
  let part : Uploader ℕ := { thumb with
    queue := [noteEntry first first 0 1 1 0 1 1]
    requests := [(5, thumbRequest), (6, noteRequest first 0 1 252 0)]
    sentPerDcIndex := [1, 32768]
    nextRequestId := 7
    inFlight := [5, 6] }
  have hthumb : start.sendNext 252 0 2 = some (thumb, true) := rfl
  have hpart : thumb.sendDocPart 252 (noteEntry first [] 0 1 1 0 0 0) 1 =
      some (part, .success) := by
    rw [sendDocPart, readDocPart_first hfirst]
    simp [thumb, part, start, noteEntry, hne, hfirst, kMaxUploadPerSession, kUseBigFilesFrom,
      sendPreparedRequest, setEntry, addSent, ushortEnd, noteRequest, noteFile]
  have hlast : part.sendDocPart 252 (noteEntry first first 0 1 1 0 1 1) 0 =
      some (again7 whole first, .success) := by
    rw [sendDocPart, readDocPart_last hfirst]
    simp [thumb, part, start, noteEntry, kMaxUploadPerSession, kUseBigFilesFrom, again7, again6,
      sendPreparedRequest, setEntry, addSent, ushortEnd, noteRequest, noteFile, late5, late4]
  have hslow1 : ¬ (kAcceptAsFastIfTotalAtLeast : ℤ) ≤ 1 := by decide
  have hslow2 : ¬ (kAcceptAsFastIfTotalAtLeast : ℤ) ≤ 2 := by decide
  have hslow : ¬ (kAcceptAsFastIfTotalAtLeast : ℤ) ≤ 32768 := by decide
  have hchoose : start.chooseDcIndexForNextRequest 252 [] = (start, some 0) := rfl
  have hchoose1 : thumb.chooseDcIndexForNextRequest 252 [] = (thumb, some 1) := rfl
  have hchoose2 : part.chooseDcIndexForNextRequest 252 [] = (part, some 0) := rfl
  have hchoose3 : (again7 whole first).chooseDcIndexForNextRequest 252 [] =
      (again7 whole first, some 0) := rfl
  have hsent : ¬ 1 < (noteEntry first [] 0 1 1 0 0 0).parts.length := Nat.lt_irrefl 1
  change sendAll 252 4 [] start = _
  rw [sendAll_next hchoose hthumb hslow1,
    sendAll_next hchoose1 (sendNext_note rfl rfl hsent hpart) hslow,
    sendAll_next hchoose2 (sendNext_note rfl rfl hsent hlast) hslow2]
  exact sendAll_end 0 hchoose3 rfl

def again8 (whole first : Bytes) : Uploader ℕ :=
  { late4 whole with
    queue := [noteEntry first (first ++ [2]) 1 1 0 0 2 2]
    requests := [(7, noteRequest [2] 1 0 252 1), (8, noteRequest first 0 0 9000 1)]
    sentPerDcIndex := [32769]
    latestDcIndexRemoved := 9000
    nextTimer := false
    nextRequestId := 9
    inFlight := [7, 8]
    saved := (late3 whole).saved ++ [(2, .saveFilePart 8 0 [1])] }

/-- A late answer removes the second session, and its part is sent again under its number. -/
theorem step_again8 (whole : Bytes) {first : Bytes} (hfirst : first.length = 32768) :
    (again7 whole first).step 9000 (.partLoaded true 5) = some (again8 whole first) := by
  let left : Uploader ℕ := { again7 whole first with
    requests := [(6, noteRequest first 0 1 252 0), (7, noteRequest [2] 1 0 252 1)]
    sentPerDcIndex := [1, 32768]
    inFlight := [6, 7] }
  let noted : Uploader ℕ := { left with
    requests := [(7, noteRequest [2] 1 0 252 1)]
    sentPerDcIndex := [1]
    inFlight := [7]
    pendingFromRemovedDcIndices := [noteRequest first 0 1 252 0]
    latestDcIndexRemoved := 9000
    saved := (again8 whole first).saved }
  let waiting : Uploader ℕ := { noted with
    queue := [noteEntry first (first ++ [2]) 1 1 0 0 2 2] }
  have hfinish : (again7 whole first).finishRequest 5 = some (left, thumbRequest) := rfl
  have hnote : ({ left with saved := noted.saved } : Uploader ℕ).noteDuration 9000 thumbRequest =
      some noted := by
    have hremove : ({ left with
        saved := noted.saved
        dcIndicesWithFastRequests := ∅ } : Uploader ℕ).removeDcIndex =
          some { noted with latestDcIndexRemoved := 0 } := by
      have hnone : (∅ : FlatSet ℕ).remove 1 = ∅ := rfl
      simp [removeDcIndex, subtractSent, addSent, left, noted, again7, late4, noteRequest, hfirst,
        hnone]
    have hfast : kFastRequestThreshold ≤ 9000 - 252 := by decide
    have hslow : kSlowRequestThreshold ≤ 9000 - 252 ∧ kWaitForNormalizeTimeout ≤ 9000 - 0 ∧
        1 < 2 := by decide
    unfold noteDuration
    refine (if_pos hfast).trans ((if_pos hslow).trans ?_)
    exact congrArg (Option.map fun s : Uploader ℕ => { s with latestDcIndexRemoved := 9000 })
      hremove
  have hmark : markLoaded (noteEntry first (first ++ [2]) 0 1 1 0 2 2) thumbRequest =
      noteEntry first (first ++ [2]) 1 1 0 0 2 2 := by
    have hmod := pred_mod (by decide : 0 < 65535)
    simp [markLoaded, noteEntry, thumbRequest, hmod]
  have hsaved := partSaved_front (s := left) rfl rfl hmark hnote rfl
  have hsend : waiting.sendNext 9000 0 2 = some (again8 whole first, true) := by
    simp [waiting, noted, left, sendNext, chooseEntryForNextRequest, find, sendPart,
      sendPendingPart, sendPreparedRequest, addSent, noteEntry, noteRequest, noteFile, again8,
      again7, late4, hfirst]
  rw [step, partLoaded, hfinish, Option.bind_some]
  refine Eq.trans hsaved ?_
  have hslow : ¬ (kAcceptAsFastIfTotalAtLeast : ℤ) ≤ 32769 := by decide
  have hchoose : waiting.chooseDcIndexForNextRequest 9000 [] = (waiting, some 0) := rfl
  have hchoose' : (again8 whole first).chooseDcIndexForNextRequest 9000 [] =
      (again8 whole first, some 0) := rfl
  change sendAll 9000 2 [] waiting = _
  rw [sendAll_next hchoose hsend hslow]
  exact sendAll_end 0 hchoose' rfl

def again9 (whole first : Bytes) : Uploader ℕ :=
  { again8 whole first with
    queue := [noteEntry first (first ++ [2]) 1 1 0 32768 2 1]
    requests := [(7, noteRequest [2] 1 0 252 1)]
    sentPerDcIndex := [1]
    inFlight := [7]
    saved := (again8 whole first).saved ++ [(2, .saveFilePart 7 0 first)] }

theorem markLoaded_note (first : Bytes) (docSentSize : ℕ) (bytes : Bytes) (part dcIndex : ℕ)
    (sent queued : ℤ) {w : ℕ} (hlt : w < 65535) :
    markLoaded (noteEntry first (first ++ [2]) 1 1 0 docSentSize 2 (w + 1))
        (noteRequest bytes part dcIndex sent queued) =
      noteEntry first (first ++ [2]) 1 1 0 (docSentSize + bytes.length) 2 w := by
  have hmod := pred_mod hlt
  simp [markLoaded, noteEntry, noteRequest, hmod]

theorem step_again9 (whole : Bytes) {first : Bytes} (hfirst : first.length = 32768) :
    (again8 whole first).step 9001 (.partLoaded true 8) = some (again9 whole first) := by
  let left : Uploader ℕ := { again9 whole first with
    queue := (again8 whole first).queue
    saved := (again8 whole first).saved }
  have hfinish : (again8 whole first).finishRequest 8 =
      some (left, noteRequest first 0 0 9000 1) := by
    simp [finishRequest, subtractSent, addSent, again8, again9, left, noteRequest, hfirst]
  have hnote : ({ left with saved := (again9 whole first).saved } : Uploader ℕ).noteDuration 9001
      (noteRequest first 0 0 9000 1) =
        some { left with saved := (again9 whole first).saved } := by
    simp [noteDuration, kFastRequestThreshold, kAcceptAsFastIfTotalAtLeast, noteRequest, hfirst]
  have hmark := markLoaded_note first 0 first 0 0 9000 1 (by decide : 1 < 65535)
  rw [Nat.zero_add, hfirst] at hmark
  have hsaved := partSaved_front (s := left) rfl rfl hmark hnote rfl
  have hchoose : (again9 whole first).chooseDcIndexForNextRequest 9001 [] =
      (again9 whole first, some 0) := rfl
  rw [step, partLoaded, hfinish, Option.bind_some]
  refine Eq.trans hsaved ?_
  change sendAll 9001 1 [] (again9 whole first) = _
  exact sendAll_end 0 hchoose rfl

def again10 (whole first : Bytes) : Uploader ℕ :=
  { again9 whole first with
    queue := []
    requests := []
    sentPerDcIndex := [0]
    stopSessionsTimer := true
    inFlight := []
    saved := (again9 whole first).saved ++ [(2, .saveFilePart 7 1 [2])]
    finished := [noteEntry first (first ++ [2]) 1 1 0 32769 2 0] }

theorem step_again10 (whole first : Bytes) :
    (again9 whole first).step 9002 (.partLoaded true 7) = some (again10 whole first) := by
  let left : Uploader ℕ := { again9 whole first with
    requests := []
    sentPerDcIndex := [0]
    inFlight := [] }
  have hfinish : (again9 whole first).finishRequest 7 =
      some (left, noteRequest [2] 1 0 252 1) := rfl
  have hnote : ({ left with saved := (again10 whole first).saved } : Uploader ℕ).noteDuration 9002
      (noteRequest [2] 1 0 252 1) =
        some { left with saved := (again10 whole first).saved } := rfl
  have hmark := markLoaded_note first 32768 [2] 1 0 252 1 (by decide : 0 < 65535)
  have hsaved := partSaved_front (s := left) rfl rfl hmark hnote rfl
  rw [step, partLoaded, hfinish, Option.bind_some]
  exact hsaved

def againEvents (whole first : Bytes) : List (ℤ × Event ℕ) :=
  [(0, .upload 1 (videoFile whole)), (1, .partLoaded true 1), (2, .partLoaded true 2),
    (3, .cancel 1), (3, .maybeSend), (4, .upload 2 (noteFile first)), (252, .nextTimer),
    (9000, .partLoaded true 5), (9001, .partLoaded true 8), (9002, .partLoaded true 7)]

theorem run_again {whole first : Bytes} (hwhole : whole.length = 1153433600)
    (hfirst : first.length = 32768) :
    run {} (againEvents whole first) = some (again10 whole first) := by
  rw [show againEvents whole first = startEvents whole ++ (againEvents whole first).drop 5 from rfl,
    run_start hwhole]
  change run (late5 whole) [(4, .upload 2 (noteFile first)), (252, .nextTimer),
    (9000, .partLoaded true 5), (9001, .partLoaded true 8), (9002, .partLoaded true 7)] = _
  rw [run, step_again6, Option.bind_some, run, step_again7 whole hfirst, Option.bind_some, run,
    step_again8 whole hfirst, Option.bind_some, run, step_again9 whole hfirst, Option.bind_some,
    run, step_again10]
  rfl

theorem sendable_note (first : Bytes) : Sendable 2 (noteFile first) := by
  constructor
  · intro part hpart
    rw [make_note] at hpart
    change part ∈ [[1]] at hpart
    rw [List.mem_singleton.mp hpart]
    decide
  · rw [make_note]
    change 1 < 65536
    decide
  · right
    rw [make_note]
    exact Nat.succ_pos _

theorem unchanged_note {first : Bytes} (hfirst : first.length = 32768) :
    (noteFile first).Unchanged := by
  have hcontent : (noteFile first).content ≠ [] := List.append_ne_nil_of_right_ne_nil _ (by decide)
  constructor
  · rw [FilePrepareResult.data, if_pos hcontent]
    change (first ++ [2]).length = 32769
    rw [List.length_append, hfirst]
    rfl
  · exact fun h => absurd h hcontent
  · exact (by decide : 32769 ≤ 8000 * kDocumentUploadPartSize4)

theorem honest_again {whole first : Bytes} (hwhole : whole.length = 1153433600)
    (hfirst : first.length = 32768) : RunOf HonestOnce {} (againEvents whole first) := by
  apply runOf_start hwhole fun _ _ _ h => h
  refine ⟨⟨⟨⟨List.not_mem_nil, sendable_note first⟩, not_saved_start whole, List.not_mem_nil,
    fun _ => unchanged_note hfirst⟩, trivial⟩, fun t ht => ?_⟩
  obtain rfl := Option.some.inj ((step_again6 whole first).symm.trans ht)
  refine ⟨⟨⟨trivial, trivial⟩, trivial⟩, fun t ht => ?_⟩
  obtain rfl := Option.some.inj ((step_again7 whole hfirst).symm.trans ht)
  refine ⟨⟨⟨List.mem_cons_self, trivial⟩, sentOnce_documents 9000 (by simp [again7, noteRequest])⟩,
    fun t ht => ?_⟩
  obtain rfl := Option.some.inj ((step_again8 whole hfirst).symm.trans ht)
  refine ⟨⟨⟨List.mem_cons_of_mem _ List.mem_cons_self, trivial⟩,
    sentOnce_documents 9001 (by simp [again8, noteRequest])⟩, fun t ht => ?_⟩
  obtain rfl := Option.some.inj ((step_again9 whole hfirst).symm.trans ht)
  exact ⟨⟨⟨List.mem_cons_self, trivial⟩, sentOnce_documents 9002 (by simp [again9])⟩,
    fun _ _ => trivial⟩

/-- A part of a document is sent again in the first session. -/
theorem run_acknowledged_again :
    ∃ s, run {} (againEvents (List.replicate 1153433600 0) (List.replicate 32768 0)) = some s ∧
      s.finished.map Entry.itemId = [2] ∧ ∀ entry ∈ s.finished,
        Acknowledged s.saved entry ∧ ∀ md5, Announced md5 s.saved entry := by
  have hwhole : (List.replicate 1153433600 (0 : Fin 256)).length = 1153433600 :=
    List.length_replicate
  have hfirst : (List.replicate 32768 (0 : Fin 256)).length = 32768 := List.length_replicate
  generalize List.replicate 1153433600 (0 : Fin 256) = whole at hwhole ⊢
  generalize List.replicate 32768 (0 : Fin 256) = first at hfirst ⊢
  obtain ⟨s, hrun, hacknowledged⟩ :=
    run_acknowledged (againEvents whole first) (honest_again hwhole hfirst)
  refine ⟨s, hrun, ?_, hacknowledged⟩
  rw [← Option.some.inj ((run_again hwhole hfirst).symm.trans hrun)]
  rfl

def photoFile (first : Bytes) : FilePrepareResult :=
  { type := .photo, id := 7, fileparts := [first, [1]] }

def photoEntry (first : Bytes) (sentSize partsSent partsWaiting : ℕ) : Entry ℕ :=
  { itemId := 2
    file := photoFile first
    sentSize := sentSize
    partsSent := partsSent
    partsWaiting := partsWaiting }

def photoRequest (bytes : Bytes) (part dcIndex : ℕ) (sent : ℤ) : Request ℕ :=
  { itemId := 2
    sent := sent
    bytes := bytes
    dcIndex := dcIndex
    asked := .saveFilePart 7 part bytes }

def late6 (whole first : Bytes) : Uploader ℕ :=
  { late5 whole with queue := [photoEntry first 0 0 0] }

theorem step_late6 (whole first : Bytes) :
    (late5 whole).step 4 (.upload 2 (photoFile first)) = some (late6 whole first) := rfl

def late7 (whole first : Bytes) : Uploader ℕ :=
  { late4 whole with
    queue := [photoEntry first 0 2 2]
    requests := [(5, photoRequest first 0 0 252), (6, photoRequest [1] 1 1 252)]
    sentPerDcIndex := [32768, 1]
    nextTimer := false
    nextRequestId := 7
    inFlight := [5, 6] }

/-- The first part goes to the first session and the last one to the second session. -/
theorem step_late7 (whole : Bytes) {first : Bytes} (hfirst : first.length = 32768) :
    (late6 whole first).step 252 .nextTimer = some (late7 whole first) := by
  simp [step, maybeSend, late6, late5, late4, unsent, photoEntry, photoFile, Entry.parts, sendAll,
    chooseDcIndexForNextRequest, List.range_succ, sendNext, chooseEntryForNextRequest,
    Entry.hasUnsent, sendPart, sendSlicedPart, kMaxUploadPerSession, hfirst, setEntry, ushortEnd,
    sendPreparedRequest, addSent, kAcceptAsFastIfTotalAtLeast, late7, photoRequest,
    Entry.partsOfId, canAddDcIndex, size_none, kMaxSessionsCount, leastSent]

def late8 (whole first : Bytes) : Uploader ℕ :=
  { late4 whole with
    queue := [photoEntry first 32768 2 1]
    requests := [(7, photoRequest [1] 0 0 9000)]
    sentPerDcIndex := [1]
    latestDcIndexRemoved := 9000
    nextTimer := false
    nextRequestId := 8
    inFlight := [7]
    saved := (late3 whole).saved ++ [(2, .saveFilePart 7 0 first)] }

theorem markLoaded_photo (first : Bytes) (sentSize partsSent : ℕ) (bytes : Bytes)
    (part dcIndex : ℕ) (sent : ℤ) {w : ℕ} (hlt : w < 65535) :
    markLoaded (photoEntry first sentSize partsSent (w + 1))
        (photoRequest bytes part dcIndex sent) =
      photoEntry first (sentSize + bytes.length) partsSent w := by
  have hmod := pred_mod hlt
  simp [markLoaded, photoEntry, photoRequest, hmod]

/-- A late answer removes the second session, and its part is sent again as the first one. -/
theorem step_late8 (whole : Bytes) {first : Bytes} (hfirst : first.length = 32768) :
    (late7 whole first).step 9000 (.partLoaded true 5) = some (late8 whole first) := by
  let left : Uploader ℕ := { late7 whole first with
    requests := [(6, photoRequest [1] 1 1 252)]
    sentPerDcIndex := [0, 1]
    inFlight := [6] }
  let noted : Uploader ℕ := { left with
    requests := []
    sentPerDcIndex := [0]
    inFlight := []
    pendingFromRemovedDcIndices := [photoRequest [1] 1 1 252]
    latestDcIndexRemoved := 9000
    saved := (late8 whole first).saved }
  have hfinish : (late7 whole first).finishRequest 5 = some (left, photoRequest first 0 0 252) := by
    simp [finishRequest, subtractSent, addSent, late7, left, photoRequest, hfirst]
  have hnote : ({ left with saved := noted.saved } : Uploader ℕ).noteDuration 9000
      (photoRequest first 0 0 252) = some noted := rfl
  have hsaved := partSaved_front (s := left) rfl rfl
    (markLoaded_photo first 0 2 first 0 0 252 (by decide : 1 < 65535)) hnote rfl
  rw [step, partLoaded, hfinish, Option.bind_some]
  refine Eq.trans hsaved ?_
  simp [noted, left, hfirst, maybeFinishFront, finishFronts, Entry.isFinished, maybeSend, sendAll,
    unsent, chooseDcIndexForNextRequest, canAddDcIndex, kMaxSessionsCount, size_none, find,
    sendPendingPart, sendNext, chooseEntryForNextRequest, photoFile, Entry.hasUnsent, Entry.parts,
    sendPart, sendPreparedRequest, addSent, leastSent, kAcceptAsFastIfTotalAtLeast, late7, late8,
    late4, photoEntry, photoRequest, Entry.partsOfId]

def late9 (whole first : Bytes) : Uploader ℕ :=
  { late4 whole with
    sentPerDcIndex := [0]
    latestDcIndexRemoved := 9000
    nextTimer := false
    stopSessionsTimer := true
    nextRequestId := 8
    saved := (late8 whole first).saved ++ [(2, .saveFilePart 7 0 [1])]
    finished := [photoEntry first 32769 2 0] }

theorem step_late9 (whole first : Bytes) :
    (late8 whole first).step 9001 (.partLoaded true 7) = some (late9 whole first) := by
  let left : Uploader ℕ := { late8 whole first with
    requests := []
    sentPerDcIndex := [0]
    inFlight := [] }
  let noted : Uploader ℕ := { left with saved := (late9 whole first).saved }
  have hfinish : (late8 whole first).finishRequest 7 =
      some (left, photoRequest [1] 0 0 9000) := rfl
  have hnote : ({ left with saved := noted.saved } : Uploader ℕ).noteDuration 9001
      (photoRequest [1] 0 0 9000) = some noted := rfl
  have hsaved := partSaved_front (s := left) rfl rfl
    (markLoaded_photo first 32768 2 [1] 0 0 9000 (by decide : 0 < 65535)) hnote rfl
  rw [step, partLoaded, hfinish, Option.bind_some]
  refine Eq.trans hsaved ?_
  simp [noted, left, maybeFinishFront, finishFronts, Entry.isFinished, maybeSend, photoFile,
    Entry.parts, late8, late9, late4, photoEntry]

def lateEvents (whole first : Bytes) : List (ℤ × Event ℕ) :=
  [(0, .upload 1 (videoFile whole)), (1, .partLoaded true 1), (2, .partLoaded true 2),
    (3, .cancel 1), (3, .maybeSend), (4, .upload 2 (photoFile first)), (252, .nextTimer),
    (9000, .partLoaded true 5), (9001, .partLoaded true 7)]

theorem run_late {whole first : Bytes} (hwhole : whole.length = 1153433600)
    (hfirst : first.length = 32768) :
    run {} (lateEvents whole first) = some (late9 whole first) := by
  rw [show lateEvents whole first = startEvents whole ++ (lateEvents whole first).drop 5 from rfl,
    run_start hwhole]
  change run (late5 whole) [(4, .upload 2 (photoFile first)), (252, .nextTimer),
    (9000, .partLoaded true 5), (9001, .partLoaded true 7)] = _
  rw [run, step_late6, Option.bind_some, run, step_late7 whole hfirst, Option.bind_some, run,
    step_late8 whole hfirst, Option.bind_some, run, step_late9]
  rfl

theorem sendable_photo {first : Bytes} (hfirst : first.length = 32768) :
    Sendable 2 (photoFile first) := by
  constructor
  · intro part hpart
    change part ∈ [first, [1]] at hpart
    simp only [List.mem_cons, List.not_mem_nil, or_false] at hpart
    rcases hpart with rfl | rfl
    · apply List.ne_nil_of_length_pos
      omega
    · decide
  · change 2 < 65536
    decide
  · exact Or.inl (Nat.succ_pos 1)

theorem honest_late {whole first : Bytes} (hwhole : whole.length = 1153433600)
    (hfirst : first.length = 32768) : RunOf Honest {} (lateEvents whole first) := by
  apply runOf_start hwhole fun _ _ _ h => h.1
  refine ⟨⟨⟨List.not_mem_nil, sendable_photo hfirst⟩, not_saved_start whole, List.not_mem_nil,
    fun h => absurd h Bool.false_ne_true⟩, fun t ht => ?_⟩
  obtain rfl := Option.some.inj ((step_late6 whole first).symm.trans ht)
  refine ⟨⟨trivial, trivial⟩, fun t ht => ?_⟩
  obtain rfl := Option.some.inj ((step_late7 whole hfirst).symm.trans ht)
  refine ⟨⟨List.mem_cons_self, trivial⟩, fun t ht => ?_⟩
  obtain rfl := Option.some.inj ((step_late8 whole hfirst).symm.trans ht)
  exact ⟨⟨List.mem_cons_self, trivial⟩, fun t _ => trivial⟩

/-- The last part is announced without being saved under its number. -/
theorem late_not_acknowledged (whole first : Bytes) :
    ¬ Acknowledged (late9 whole first).saved (photoEntry first 32769 2 0) := by
  intro h
  have hmem : SavePart.saveFilePart 7 1 [1] ∈ savedOf (late9 whole first).saved 2 := by
    apply h.parts.mem_iff.mpr
    apply List.mem_append_left
    exact List.mem_map.mpr ⟨1, List.mem_range.mpr (Nat.lt_succ_self 1), rfl⟩
  simp [savedOf, late9, late8, late3] at hmem

/-- A sliced part that is sent again is not sent under its number. -/
theorem run_acknowledged_lost :
    ¬ ∀ events : List (ℤ × Event ℕ), RunOf Honest {} events →
      ∃ s, run {} events = some s ∧ ∀ entry ∈ s.finished, Acknowledged s.saved entry := by
  intro h
  have hwhole : (List.replicate 1153433600 (0 : Fin 256)).length = 1153433600 :=
    List.length_replicate
  have hfirst : (List.replicate 32768 (0 : Fin 256)).length = 32768 := List.length_replicate
  generalize List.replicate 1153433600 (0 : Fin 256) = whole at hwhole
  generalize List.replicate 32768 (0 : Fin 256) = first at hfirst
  obtain ⟨s, hrun, hacknowledged⟩ := h (lateEvents whole first) (honest_late hwhole hfirst)
  obtain rfl := Option.some.inj ((run_late hwhole hfirst).symm.trans hrun)
  exact late_not_acknowledged whole first (hacknowledged _ List.mem_cons_self)

end Uploader

end TelegramDesktop.Storage
