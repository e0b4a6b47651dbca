import Mathlib
import TelegramDesktop.Storage.UploaderSends

namespace TelegramDesktop.Storage

open Base

variable {ι : Type*} [DecidableEq ι]

namespace Uploader

variable {s t : Uploader ι} {answered : List (Request ι)}

omit [DecidableEq ι] in
theorem filter_id {requests : List (ℕ × Request ι)} (hids : (requests.map Prod.fst).Nodup)
    {request : ℕ × Request ι} (h : request ∈ requests) :
    (requests.filter fun other => other.1 == request.1) = [request] := by
  induction requests with
  | nil => exact nomatch h
  | cons first rest ih =>
    rw [List.map_cons, List.nodup_cons] at hids
    rcases List.mem_cons.mp h with rfl | h
    · have hrest : (rest.filter fun other => other.1 == request.1) = [] := by
        apply List.filter_eq_nil_iff.mpr
        intro other hother heq
        exact hids.1 (beq_iff_eq.mp heq ▸ List.mem_map_of_mem hother)
      rw [List.filter_cons, if_pos (beq_self_eq_true _), hrest]
    · have hne : ¬ (first.1 == request.1) = true :=
        fun heq => hids.1 (beq_iff_eq.mp heq ▸ List.mem_map_of_mem h)
      rw [List.filter_cons, if_neg hne]
      exact ih hids.2 h

/-- Requests that are told apart from the rest are all there are. -/
theorem Valid.entries_perm {requests : List (Request ι)} (h : Valid answered s)
    (hperm : requests.Perm (s.records answered)) {entry : Entry ι} (hentry : entry ∈ s.queue) :
    entry.Accounted requests :=
  (h.entries entry hentry).congr fun docPart => waiting_perm hperm entry.itemId docPart

omit [DecidableEq ι] in
/-- A request that is answered and the rest are all there were. -/
theorem records_finished (hids : (s.requests.map Prod.fst).Nodup) {found : ℕ × Request ι}
    (hfound : found ∈ s.requests) :
    ([found.2] ++ (s.requests.filter fun request => request.1 != found.1).map Prod.snd ++
      s.pendingFromRemovedDcIndices).Perm (s.records []) := by
  have happend := List.filter_append_perm (fun request => request.1 == found.1) s.requests
  rw [filter_id hids hfound] at happend
  exact (happend.map Prod.snd).append_right _

omit [DecidableEq ι] in
/-- The requests of a session that is removed are pending. -/
theorem records_removed (answered : List (Request ι)) (s : Uploader ι) (dcIndex : ℕ) :
    (answered ++ (s.requests.filter fun request => request.2.dcIndex != dcIndex).map Prod.snd ++
      (s.pendingFromRemovedDcIndices ++ (s.requests.filter fun request =>
        request.2.dcIndex == dcIndex).map Prod.snd)).Perm (s.records answered) := by
  have happend := (List.filter_append_perm (fun request => request.2.dcIndex == dcIndex)
    s.requests).map Prod.snd
  rw [List.map_append] at happend
  rw [records, List.append_assoc, List.append_assoc]
  apply List.Perm.append_left
  refine (List.perm_append_comm_assoc _ _ _).trans ?_
  refine List.Perm.trans ?_ List.perm_append_comm
  apply List.Perm.append_left
  exact List.perm_append_comm.trans happend

/-- A request in flight is found, and is being answered then. -/
theorem finishRequest_spec (h : Valid [] s) {requestId : ℕ} (hid : requestId ∈ s.inFlight) :
    ∃ t request, s.finishRequest requestId = some (t, request) ∧ Valid [request] t ∧
      t.queue = s.queue := by
  rw [h.inFlight] at hid
  obtain ⟨found, hfound, rfl⟩ := List.mem_map.mp hid
  have hfilter := filter_id h.ids hfound
  have hfind : s.requests.find? (fun request => request.1 == found.1) = some found := by
    rw [← List.head?_filter, hfilter]
    rfl
  obtain ⟨hlength, hsent⟩ := sent_take h.sent fun request => request.1 == found.1
  rw [hfilter] at hlength hsent
  obtain ⟨hqueue, hnext⟩ := subtractSent_frame s [found]
  rw [finishRequest, hfind]
  refine ⟨_, found.2, rfl, ?_, hqueue⟩
  have hrecords := records_finished h.ids hfound
  constructor
  · rw [hqueue]
    exact h.nodup
  · intro d hd
    exact hsent d (hlength ▸ hd)
  · intro request hrequest
    exact (h.dcIndex request (List.mem_filter.mp hrequest).1).trans_eq hlength.symm
  · exact fun request hrequest => h.bytes request (hrecords.mem_iff.mp hrequest)
  · intro request hrequest
    rw [hqueue]
    exact h.queued request (hrecords.mem_iff.mp hrequest)
  · intro entry hentry
    rw [hqueue] at hentry
    exact h.entries_perm hrecords hentry
  · rw [h.inFlight, List.filter_map]
    rfl
  · exact h.ids.sublist ((List.filter_sublist).map _)
  · intro request hrequest
    rw [hnext]
    exact h.fresh request (List.mem_filter.mp hrequest).1

/-- The last session is empty when its requests are taken back. -/
theorem removeDcIndex_spec (h : Valid answered s) (hlen : 1 < s.sentPerDcIndex.length) :
    ∃ t, s.removeDcIndex = some t ∧ Valid answered t ∧ t.queue = s.queue := by
  let dcIndex := s.sentPerDcIndex.length - 1
  let moved := s.requests.filter fun request => request.2.dcIndex == dcIndex
  obtain ⟨hlength, hsent⟩ := sent_take h.sent fun request => request.2.dcIndex == dcIndex
  obtain ⟨hqueue, hnext⟩ := subtractSent_frame s moved
  have hlast : (s.subtractSent moved).sentPerDcIndex.getLast? = some 0 := by
    rw [List.getLast?_eq_getElem?, hlength, hsent dcIndex (by omega)]
    congr 1
    apply load_eq_zero
    intro request hrequest heq
    have hne := (List.mem_filter.mp hrequest).2
    rw [heq, beq_self_eq_true] at hne
    exact Bool.false_ne_true hne
  rw [removeDcIndex, if_neg (by omega)]
  dsimp only
  rw [if_neg (not_not_intro hlast)]
  refine ⟨_, rfl, ?_, hqueue⟩
  have hrecords := records_removed answered s dcIndex
  constructor
  · rw [hqueue]
    exact h.nodup
  · intro d hd
    rw [List.length_dropLast, hlength] at hd
    rw [List.getElem?_dropLast, if_pos (by rw [hlength]; exact hd)]
    exact hsent d (by omega)
  · intro request hrequest
    rw [List.mem_filter, bne_iff_ne] at hrequest
    have hlt := h.dcIndex request hrequest.1
    rw [List.length_dropLast, hlength]
    have hne : request.2.dcIndex ≠ s.sentPerDcIndex.length - 1 := hrequest.2
    omega
  · exact fun request hrequest => h.bytes request (hrecords.mem_iff.mp hrequest)
  · intro request hrequest
    rw [hqueue]
    exact h.queued request (hrecords.mem_iff.mp hrequest)
  · intro entry hentry
    rw [hqueue] at hentry
    exact h.entries_perm hrecords hentry
  · rw [h.inFlight]
    exact ids_filter h.ids _
  · exact h.ids.sublist ((List.filter_sublist).map _)
  · intro request hrequest
    rw [hnext]
    exact h.fresh request (List.mem_filter.mp hrequest).1

theorem noteDuration_spec (h : Valid answered s) (now : ℤ) (request : Request ι) :
    ∃ t, s.noteDuration now request = some t ∧ Valid answered t ∧ t.queue = s.queue := by
  rw [noteDuration]
  dsimp only
  split_ifs with hslowish hslow
  · obtain ⟨t, hremove, hvalid, hqueue⟩ :=
      removeDcIndex_spec (s := { s with dcIndicesWithFastRequests := ∅ })
        (h.of_eq rfl rfl rfl rfl rfl rfl) hslow.2.2
    rw [hremove]
    exact ⟨_, rfl, hvalid.of_eq rfl rfl rfl rfl rfl rfl, hqueue⟩
  · exact ⟨_, rfl, h.of_eq rfl rfl rfl rfl rfl rfl, rfl⟩
  · exact ⟨_, rfl, h.of_eq rfl rfl rfl rfl rfl rfl, rfl⟩
  · exact ⟨s, rfl, h, rfl⟩

omit [DecidableEq ι] in
theorem markLoaded_itemId (entry : Entry ι) (request : Request ι) :
    (markLoaded entry request).itemId = entry.itemId := by
  rw [markLoaded]
  split_ifs
  · rfl
  · rfl

/-- The entry of a request that is answered has one request less. -/
theorem markLoaded_accounted {requests : List (Request ι)} {entry : Entry ι} {request : Request ι}
    (h : entry.Accounted (request :: requests)) (hid : request.itemId = entry.itemId) :
    (markLoaded entry request).Accounted requests := by
  have hparts := h.partsWaiting
  have hdocParts := h.docPartsWaiting
  have hparts_le := h.partsWaiting_le
  have hdocParts_le := h.docPartsWaiting_le
  have hsent_le := h.partsSent_le
  have hdocSent_le := h.docPartsSent_le
  have hlt := h.parts_lt
  have hdocLt := h.docPartsCount_lt
  rw [waiting_cons] at hparts hdocParts
  have hend : ushortEnd = 65536 := rfl
  rw [markLoaded]
  cases hdocPart : request.docPart with
  | true =>
    rw [if_neg fun heq => by rw [hdocPart] at heq; exact nomatch heq.2] at hparts
    rw [if_pos ⟨hid, hdocPart⟩] at hdocParts
    have hless : (entry.docPartsWaiting + (ushortEnd - 1)) % ushortEnd =
        entry.docPartsWaiting - 1 := by
      change (entry.docPartsWaiting + 65535) % 65536 = _
      omega
    rw [if_pos rfl, hless]
    exact { h with
      partsWaiting := hparts
      docPartsWaiting := by
        change entry.docPartsWaiting - 1 = waiting requests entry.itemId true
        omega
      docPartsWaiting_le := by
        change entry.docPartsWaiting - 1 ≤ entry.docPartsSent
        omega }
  | false =>
    rw [if_pos ⟨hid, hdocPart⟩] at hparts
    rw [if_neg fun heq => by rw [hdocPart] at heq; exact nomatch heq.2] at hdocParts
    have hless : (entry.partsWaiting + (ushortEnd - 1)) % ushortEnd =
        entry.partsWaiting - 1 := by
      change (entry.partsWaiting + 65535) % 65536 = _
      omega
    rw [if_neg Bool.false_ne_true, hless]
    exact { h with
      partsWaiting := by
        change entry.partsWaiting - 1 = waiting requests entry.itemId false
        omega
      partsWaiting_le := by
        change entry.partsWaiting - 1 ≤ entry.partsSent
        omega
      docPartsWaiting := hdocParts }

theorem Valid.loaded {request : Request ι} (h : Valid [request] s) {entry : Entry ι}
    (hentry : entry ∈ s.queue) (hid : request.itemId = entry.itemId) :
    Valid [] (s.setEntry (markLoaded entry request)) where
  nodup := (setEntry_ids (s := s) _).symm ▸ h.nodup
  sent := h.sent
  dcIndex := h.dcIndex
  bytes := fun r hr => h.bytes r (List.mem_cons_of_mem _ hr)
  queued := by
    intro r hr
    rw [setEntry_ids]
    exact h.queued r (List.mem_cons_of_mem _ hr)
  entries := by
    intro e he
    rcases mem_setEntry he with rfl | ⟨he, hne⟩
    · exact markLoaded_accounted (h.entries entry hentry) hid
    · refine (h.entries e he).congr fun docPart => ?_
      rw [markLoaded_itemId] at hne
      have hcons : s.records [request] = request :: s.records [] := rfl
      rw [hcons, waiting_cons, if_neg fun heq => hne (heq.1.symm.trans hid)]
      rfl
  inFlight := h.inFlight
  ids := h.ids
  fresh := h.fresh

theorem partSaved_spec (now : ℤ) {request : Request ι}
    (h : Valid [request] s) (hbusy : Busy s) :
    ∃ t, s.partSaved now request = some t ∧ Valid [] t ∧ Busy t := by
  obtain ⟨entry, hfind⟩ := find_isSome (h.queued request List.mem_cons_self)
  obtain ⟨hentry, hid⟩ := find_spec hfind
  have hsaved : Valid [request]
      { s with saved := s.saved ++ [(request.itemId, request.asked)] } :=
    h.of_eq rfl rfl rfl rfl rfl rfl
  obtain ⟨t, hnote, hvalid, hqueue⟩ := noteDuration_spec hsaved now request
  rw [partSaved, hfind]
  dsimp only
  rw [hnote, Option.bind_some]
  have hloaded := hvalid.loaded (hqueue ▸ hentry) hid.symm
  split_ifs with hfront
  · exact maybeSend_spec now (hloaded.maybeFinishFront) (busy_maybeFinishFront _)
  · refine maybeSend_spec now hloaded fun e he => ?_
    rcases head_setEntry he with rfl | he'
    · rw [he, Option.map_some, markLoaded_itemId, hid] at hfront
      exact absurd rfl hfront
    · rw [hqueue] at he'
      exact hbusy e he'

/-- An answer that the part was not saved. -/
theorem Valid.failed_answered {request : Request ι} 
    (h : Valid [request] s) : Valid [] (s.failed request.itemId) := by
  have hfailed := h.failed request.itemId
  have hnil : ([request].filter fun r => decide (r.itemId ≠ request.itemId)) = [] := by simp
  rw [hnil] at hfailed
  exact hfailed

omit [DecidableEq ι] in
theorem make_spec (itemId : ι) (file : FilePrepareResult) :
    ∃ docSize docPartSize docPartsCount, docPartsCount < ushortEnd ∧
      Entry.make itemId file =
        { itemId := itemId
          file := file
          docSize := docSize
          docPartSize := docPartSize
          docPartsCount := docPartsCount } := by
  have hpart : ∀ partSize : ℕ,
      (file.filesize + partSize - 1) / partSize % ushortEnd < ushortEnd :=
    fun partSize => Nat.mod_lt _ (by decide)
  rw [Entry.make]
  cases file.type.isDocument with
  | false => exact ⟨0, 0, 0, by decide, rfl⟩
  | true =>
    rw [if_pos rfl, Entry.setDocSize]
    dsimp only
    split_ifs
    all_goals exact ⟨file.filesize, _, _, hpart _, rfl⟩

/-- A file with parts, of which none is empty and as many as a `ushort` can count. -/
structure Sendable (itemId : ι) (file : FilePrepareResult) : Prop where
  parts_ne : ∀ part ∈ (Entry.make itemId file).parts, part ≠ []
  parts_lt : (Entry.make itemId file).parts.length < ushortEnd
  some_part : 0 < (Entry.make itemId file).parts.length ∨
    0 < (Entry.make itemId file).docPartsCount

theorem queued_spec (h : Valid [] s) (hbusy : Busy s) {itemId : ι}
    (hnew : itemId ∉ s.queue.map Entry.itemId) {file : FilePrepareResult}
    (hfile : Sendable itemId file) :
    Valid [] { s with queue := s.queue ++ [Entry.make itemId file] } ∧
      Busy { s with queue := s.queue ++ [Entry.make itemId file] } := by
  obtain ⟨hne, hlt, hpart⟩ := hfile
  obtain ⟨docSize, docPartSize, docPartsCount, hcount, hmake⟩ := make_spec itemId file
  have hnone : ∀ docPart, waiting (s.records []) itemId docPart = 0 := by
    intro docPart
    by_contra hpos
    obtain ⟨request, hrequest, heq⟩ := exists_of_waiting_pos (Nat.pos_of_ne_zero hpos)
    exact hnew (heq ▸ h.queued request hrequest)
  have haccounted : (Entry.make itemId file).Accounted (s.records []) := by
    rw [hmake] at hne hlt ⊢
    exact
      { parts_lt := hlt
        parts_ne := hne
        partsSent_le := Nat.zero_le _
        docPartsCount_lt := hcount
        docPartsSent_le := Nat.zero_le _
        partsWaiting := (hnone false).symm
        partsWaiting_le := le_refl 0
        docPartsWaiting := (hnone true).symm
        docPartsWaiting_le := le_refl 0 }
  have hid : (Entry.make itemId file).itemId = itemId := by rw [hmake]
  have hqueued : Valid [] { s with queue := s.queue ++ [Entry.make itemId file] } := by
    refine { h with nodup := ?_, queued := ?_, entries := ?_ }
    · refine nodup_push h.nodup fun e he heq => ?_
      rw [hid] at heq
      exact hnew (mem_queue_ids.mpr ⟨e, he, heq⟩)
    · intro request hrequest
      rw [List.map_append]
      exact List.mem_append_left _ (h.queued request hrequest)
    · intro e he
      rcases List.mem_append.mp he with he | he
      · exact h.entries e he
      · rw [List.mem_singleton.mp he]
        exact haccounted
  have hbusy' : Busy { s with queue := s.queue ++ [Entry.make itemId file] } := by
    intro e he
    cases hqueue : s.queue with
    | nil =>
      dsimp only at he
      rw [hqueue] at he
      rw [← Option.some.inj he]
      rw [hmake] at hpart ⊢
      rw [Entry.isFinished]
      rcases hpart with hpart | hpart
      · rw [decide_eq_false (Nat.not_le.mpr hpart)]
        rfl
      · have hdoc : ¬ docPartsCount ≤ 0 := Nat.not_le.mpr hpart
        rw [decide_eq_false hdoc, Bool.and_false]
        rfl
    | cons first rest =>
      dsimp only at he
      rw [hqueue] at he
      exact hbusy e (hqueue ▸ he)
  exact ⟨hqueued, hbusy'⟩

theorem upload_spec (now : ℤ) (h : Valid [] s) (hbusy : Busy s) {itemId : ι}
    (hnew : itemId ∉ s.queue.map Entry.itemId) {file : FilePrepareResult}
    (hfile : Sendable itemId file) :
    ∃ t, s.upload now itemId file = some t ∧ Valid [] t ∧ Busy t := by
  obtain ⟨hqueued, hbusy'⟩ := queued_spec h hbusy hnew hfile
  rw [upload]
  dsimp only
  split_ifs
  · exact maybeSend_spec now hqueued hbusy'
  · exact ⟨_, rfl, hqueued, hbusy'⟩

theorem Valid.stopSessions (h : Valid [] s) : Valid [] s.stopSessions := by
  rw [Uploader.stopSessions]
  by_cases hany : s.sentPerDcIndex.any (· != 0) = true
  · rw [if_pos hany]
    exact h.of_eq rfl rfl rfl rfl rfl rfl
  · rw [if_neg hany]
    have hnone : ∀ request, request ∉ s.requests := by
      intro request hrequest
      have hlt := h.dcIndex request hrequest
      have hmem : request.2 ∈ s.records [] :=
        List.mem_append_left _ (List.mem_map_of_mem hrequest)
      have hpos := load_pos hrequest (h.bytes request.2 hmem)
      apply hany
      rw [List.any_eq_true]
      refine ⟨_, List.mem_of_getElem? (h.sent _ hlt), ?_⟩
      rw [bne_iff_ne]
      exact hpos.ne'
    refine { h with sent := ?_, dcIndex := ?_ }
    · exact fun d hd => absurd hd (Nat.not_lt_zero d)
    · exact fun request hrequest => absurd hrequest (hnone request)

omit [DecidableEq ι] in
theorem busy_stopSessions (hbusy : Busy s) : Busy s.stopSessions := by
  rw [Uploader.stopSessions]
  split_ifs
  · exact hbusy
  · exact hbusy

theorem failAll_spec {fuel : ℕ} (h : Valid [] s)
    (hfuel : s.queue.length ≤ fuel) :
    Valid [] (s.failAll fuel) ∧ (s.failAll fuel).queue = [] := by
  induction fuel generalizing s with
  | zero => exact ⟨h, List.length_eq_zero_iff.mp (Nat.le_zero.mp hfuel)⟩
  | succ fuel ih =>
    rw [failAll]
    cases hqueue : s.queue with
    | nil => exact ⟨h, hqueue⟩
    | cons entry queue =>
      have hmem : entry.itemId ∈ s.queue.map Entry.itemId := by
        rw [hqueue]
        exact List.mem_cons_self
      have hless := length_failed hmem
      exact ih (h.failed entry.itemId) (by omega)

/-- Without a queue there are no requests. -/
theorem Valid.clear (h : Valid [] s) (hqueue : s.queue = []) : Valid [] s.clear := by
  have hnone : ∀ request, request ∉ s.records [] := by
    intro request hrequest
    have hqueued := h.queued request hrequest
    rw [hqueue] at hqueued
    exact nomatch hqueued
  have hrequests : s.requests = [] :=
    List.eq_nil_iff_forall_not_mem.mpr fun request hrequest =>
      hnone request.2 (List.mem_append_left _ (List.mem_map_of_mem hrequest))
  have hcancelled : Valid [] { s with queue := [] }.cancelAllRequests := by
    constructor
    · exact List.nodup_nil
    · intro d hd
      rw [cancelAllRequests, List.length_map] at hd
      rw [cancelAllRequests, List.getElem?_map, List.getElem?_eq_getElem hd]
      rfl
    · exact fun request hrequest => nomatch hrequest
    · intro request hrequest
      exact absurd (List.mem_append_right _ hrequest) (hnone request)
    · intro request hrequest
      exact absurd (List.mem_append_right _ hrequest) (hnone request)
    · exact fun entry hentry => nomatch hentry
    · rw [cancelAllRequests, h.inFlight, hrequests]
      rfl
    · exact List.nodup_nil
    · exact fun request hrequest => nomatch hrequest
  exact hcancelled.stopSessions.of_eq rfl rfl rfl rfl rfl rfl

omit [DecidableEq ι] in
/-- The loops of `setFileData` and `setThumbData`, which count bytes with an `int32`, make parts
that can be sent. -/
theorem slices_sendable {data : Bytes} (hlength : data.length ≤ 2 ^ 31 - kPhotoUploadPartSize) :
    (∀ part ∈ slices data, part ≠ []) ∧ (slices data).length < ushortEnd := by
  rw [kPhotoUploadPartSize] at hlength
  constructor
  · intro part hpart
    obtain ⟨i, hi, rfl⟩ := List.mem_map.mp hpart
    rw [List.mem_range, kPhotoUploadPartSize] at hi
    apply List.ne_nil_of_length_pos
    rw [List.length_take, List.length_drop, kPhotoUploadPartSize]
    omega
  · rw [slices, List.length_map, List.length_range, kPhotoUploadPartSize, ushortEnd]
    omega

/-- What can happen: a file of an item that is not in the queue is uploaded, or an answer comes to
a request in flight, or anything else. -/
def Possible (s : Uploader ι) : Event ι → Prop
  | .upload itemId file => itemId ∉ s.queue.map Entry.itemId ∧ Sendable itemId file
  | .partLoaded _ requestId => requestId ∈ s.inFlight
  | .partFailed requestId => requestId ∈ s.inFlight
  | _ => True

/-- No assertion fails in an event. -/
theorem step_spec (now : ℤ) (h : Valid [] s) (hbusy : Busy s)
    {event : Event ι} (hpossible : Possible s event) :
    ∃ t, s.step now event = some t ∧ Valid [] t ∧ Busy t := by
  cases event with
  | upload itemId file => exact upload_spec now h hbusy hpossible.1 hpossible.2
  | nextTimer => exact maybeSend_spec now (h.of_eq rfl rfl rfl rfl rfl rfl) hbusy
  | maybeSend => exact maybeSend_spec now h hbusy
  | partLoaded result requestId =>
    obtain ⟨u, request, hfinish, hvalid, hqueue⟩ := finishRequest_spec h hpossible
    rw [step, partLoaded, hfinish, Option.bind_some]
    cases result with
    | false =>
      exact ⟨_, rfl, hvalid.failed_answered, busy_maybeFinishFront _⟩
    | true =>
      refine partSaved_spec now hvalid ?_
      rw [Busy, hqueue]
      exact hbusy
  | partFailed requestId =>
    obtain ⟨u, request, hfinish, hvalid, -⟩ := finishRequest_spec h hpossible
    rw [step, partFailed, hfinish, Option.map_some]
    exact ⟨_, rfl, hvalid.failed_answered, busy_maybeFinishFront _⟩
  | cancel itemId => exact ⟨_, rfl, h.failed itemId, busy_maybeFinishFront _⟩
  | cancelAll =>
    obtain ⟨hvalid, hqueue⟩ := failAll_spec h (le_refl s.queue.length)
    have hclear := hvalid.clear hqueue
    refine maybeSend_spec now (hclear.of_eq rfl rfl rfl rfl rfl rfl) ?_
    exact busy_stopSessions fun entry hentry => absurd hentry (Option.not_mem_none entry)
  | pause itemId => exact ⟨_, rfl, h.of_eq rfl rfl rfl rfl rfl rfl, hbusy⟩
  | unpause => exact maybeSend_spec now (h.of_eq rfl rfl rfl rfl rfl rfl) hbusy
  | stopSessions =>
    have hstopped : Valid [] { s with stopSessionsTimer := false } :=
      h.of_eq rfl rfl rfl rfl rfl rfl
    exact ⟨_, rfl, hstopped.stopSessions, busy_stopSessions hbusy⟩

/-- Events with their times. -/
def run : Uploader ι → List (ℤ × Event ι) → Option (Uploader ι)
  | s, [] => some s
  | s, event :: events => (s.step event.1 event.2).bind fun s => run s events

def RunPossible : Uploader ι → List (ℤ × Event ι) → Prop
  | _, [] => True
  | s, event :: events =>
    Possible s event.2 ∧ ∀ t, s.step event.1 event.2 = some t → RunPossible t events

/-- The requests that are not answered, whether they are in a session or not. -/
def unanswered (s : Uploader ι) : List (Request ι) :=
  s.requests.map Prod.snd ++ s.pendingFromRemovedDcIndices

/-- The counters count, and the front entry has something left to send or to be answered. -/
structure Accounts (s : Uploader ι) : Prop where
  sent : ∀ d < s.sentPerDcIndex.length, s.sentPerDcIndex[d]? = some (load s.requests d)
  dcIndex : ∀ request ∈ s.requests, request.2.dcIndex < s.sentPerDcIndex.length
  queued : ∀ request ∈ s.unanswered, ∃ entry ∈ s.queue, entry.itemId = request.itemId
  waiting : ∀ entry ∈ s.queue, entry.partsWaiting + entry.docPartsWaiting =
    s.unanswered.countP fun request => decide (request.itemId = entry.itemId)
  front : ∀ entry ∈ s.queue.head?, entry.hasUnsent = true ∨
    ∃ request ∈ s.unanswered, request.itemId = entry.itemId

theorem Valid.accounts (h : Valid [] s) (hbusy : Busy s) : Accounts s where
  sent := h.sent
  dcIndex := h.dcIndex
  queued := fun request hrequest => mem_queue_ids.mp (h.queued request hrequest)
  waiting := by
    intro entry hentry
    have haccounted := h.entries entry hentry
    rw [haccounted.partsWaiting, haccounted.docPartsWaiting, waiting_add]
    rfl
  front := by
    intro entry hentry
    have haccounted := h.entries entry (List.mem_of_mem_head? hentry)
    have hnot := hbusy entry hentry
    by_cases hunsent : entry.hasUnsent = true
    · exact Or.inl hunsent
    refine Or.inr ?_
    rw [Entry.hasUnsent, Bool.or_eq_true, decide_eq_true_eq, decide_eq_true_eq, not_or,
      not_lt, not_lt] at hunsent
    rw [Entry.isFinished, decide_eq_true hunsent.1, decide_eq_true hunsent.2, Bool.and_true,
      Bool.true_and, Bool.and_eq_false_iff] at hnot
    rcases hnot with hnot | hnot
    · have hpos : 0 < Storage.waiting (s.records []) entry.itemId false := by
        rw [← haccounted.partsWaiting]
        exact Nat.pos_of_ne_zero (beq_eq_false_iff_ne.mp hnot)
      exact exists_of_waiting_pos hpos
    · have hpos : 0 < Storage.waiting (s.records []) entry.itemId true := by
        rw [← haccounted.docPartsWaiting]
        exact Nat.pos_of_ne_zero (beq_eq_false_iff_ne.mp hnot)
      exact exists_of_waiting_pos hpos

theorem run_valid {events : List (ℤ × Event ι)} (h : Valid [] s)
    (hbusy : Busy s) (hpossible : RunPossible s events) :
    ∃ t, s.run events = some t ∧ Valid [] t ∧ Busy t := by
  induction events generalizing s with
  | nil => exact ⟨s, rfl, h, hbusy⟩
  | cons event events ih =>
    obtain ⟨t, hstep, hvalid, hbusy⟩ := step_spec event.1 h hbusy hpossible.1
    rw [run, hstep, Option.bind_some]
    exact ih hvalid hbusy (hpossible.2 t hstep)

omit [DecidableEq ι] in
theorem valid_start [DecidableEq ι] : Valid [] ({} : Uploader ι) where
  nodup := List.nodup_nil
  sent := fun d hd => absurd hd (Nat.not_lt_zero d)
  dcIndex := fun _ hrequest => nomatch hrequest
  bytes := fun _ hrequest => nomatch hrequest
  queued := fun _ hrequest => nomatch hrequest
  entries := fun _ hentry => nomatch hentry
  inFlight := rfl
  ids := List.nodup_nil
  fresh := fun _ hrequest => nomatch hrequest

/-- In every run no assertion fails, and after it, as after each event of it, the counters count
and the queue does not stall. -/
theorem run_accounts (events : List (ℤ × Event ι))
    (hpossible : RunPossible {} events) :
    ∃ s, run {} events = some s ∧ Accounts s := by
  obtain ⟨s, hrun, hvalid, hbusy⟩ :=
    run_valid valid_start (fun _ hentry => nomatch hentry) hpossible
  exact ⟨s, hrun, hvalid.accounts hbusy⟩

local instance neZero_partByte : NeZero 256 := ⟨by decide⟩

/-- A photo of two parts, of which the second is loaded first. -/
def twoParts : List (ℤ × Event ℕ) :=
  [(0, .upload 1 { type := .photo, id := 5, fileparts := [[1], [2]] }), (1, .partLoaded true 2),
    (2, .cancelAll)]

theorem run_accounts_twoParts : ∃ s, run {} twoParts = some s ∧ Accounts s := by
  apply run_accounts
  refine ⟨⟨List.not_mem_nil, by decide, by decide, Or.inl (by decide)⟩, fun t ht => ⟨?_, ?_⟩⟩
  · have hinFlight := congrArg (Option.map inFlight) ht
    have hcomputed : some [1, 2] = some t.inFlight := hinFlight
    change 2 ∈ t.inFlight
    rw [← Option.some.inj hcomputed]
    decide
  · exact fun u _ => ⟨trivial, fun _ _ => trivial⟩

end Uploader

end TelegramDesktop.Storage
