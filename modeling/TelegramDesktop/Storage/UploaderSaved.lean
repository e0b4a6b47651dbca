import Mathlib
import TelegramDesktop.Storage.UploaderParts

namespace TelegramDesktop.Storage

open Base

variable {ι : Type*} [DecidableEq ι]

def savedOf (saved : List (ι × SavePart)) (itemId : ι) : List SavePart :=
  (saved.filter fun part => decide (part.1 = itemId)).map Prod.snd

def askedOf (requests : List (Request ι)) (itemId : ι) : List SavePart :=
  (requests.filter fun request => decide (request.itemId = itemId)).map Request.asked

theorem savedOf_append (saved more : List (ι × SavePart)) (itemId : ι) :
    savedOf (saved ++ more) itemId = savedOf saved itemId ++ savedOf more itemId := by
  rw [savedOf, List.filter_append, List.map_append]
  rfl

theorem askedOf_cons_self {request : Request ι} {itemId : ι} (h : request.itemId = itemId)
    (requests : List (Request ι)) :
    askedOf (request :: requests) itemId = request.asked :: askedOf requests itemId := by
  rw [askedOf, List.filter_cons, if_pos (decide_eq_true h), List.map_cons]
  rfl

theorem askedOf_cons_ne {request : Request ι} {itemId : ι} (h : request.itemId ≠ itemId)
    (requests : List (Request ι)) :
    askedOf (request :: requests) itemId = askedOf requests itemId := by
  rw [askedOf, List.filter_cons, if_neg (by simpa using h)]
  rfl

theorem askedOf_perm {requests requests' : List (Request ι)} (h : requests.Perm requests')
    (itemId : ι) : (askedOf requests itemId).Perm (askedOf requests' itemId) :=
  (h.filter _).map _

theorem askedOf_filter_ne (requests : List (Request ι)) {itemId cancelled : ι}
    (hne : itemId ≠ cancelled) :
    askedOf (requests.filter fun request => decide (request.itemId ≠ cancelled)) itemId =
      askedOf requests itemId := by
  rw [askedOf, List.filter_filter, askedOf]
  congr 1
  apply List.filter_congr
  intro request _
  by_cases h : request.itemId = itemId
  · simp [h, hne]
  · simp [h]

theorem askedOf_eq_nil {requests : List (Request ι)} {itemId : ι}
    (h : ∀ request ∈ requests, request.itemId ≠ itemId) : askedOf requests itemId = [] := by
  rw [askedOf, List.map_eq_nil_iff, List.filter_eq_nil_iff]
  exact fun request hrequest heq => h request hrequest (of_decide_eq_true heq)

theorem savedOf_eq_nil {saved : List (ι × SavePart)} {itemId : ι}
    (h : itemId ∉ saved.map Prod.fst) : savedOf saved itemId = [] := by
  rw [savedOf, List.map_eq_nil_iff, List.filter_eq_nil_iff]
  exact fun part hpart heq => h (of_decide_eq_true heq ▸ List.mem_map_of_mem hpart)

/-- What was saved of an entry and what is asked for it are the parts that were sent. -/
structure Entry.Kept (saved : List (ι × SavePart)) (requests pending : List (Request ι))
    (entry : Entry ι) : Prop where
  reading : entry.Reading
  parts : (savedOf saved entry.itemId ++ askedOf requests entry.itemId).Perm entry.sentParts
  known : ∀ request ∈ requests, request.itemId = entry.itemId → entry.Known request
  resent : ∀ request ∈ pending, request.itemId = entry.itemId →
    entry.resent request = request.asked

/-- The servers have saved each part of a finished entry once, and the parts of a document are its
content, whose sum is announced. -/
structure Acknowledged (saved : List (ι × SavePart)) (entry : Entry ι) : Prop where
  none : entry.file.type.isDocument = false → entry.docPartsCount = 0
  parts : (savedOf saved entry.itemId).Perm
    ((List.range entry.parts.length).map entry.slicedPart ++
      (List.range entry.docPartsCount).map entry.documentPart)
  content : entry.file.type.isDocument = true →
    (List.range entry.docPartsCount).flatMap entry.chunk = entry.file.data
  md5Hash : entry.file.type.isDocument = true → entry.docSize ≤ kUseBigFilesFrom →
    entry.md5Hash = entry.file.data

theorem Entry.Kept.acknowledged {saved : List (ι × SavePart)} {requests pending : List (Request ι)}
    {entry : Entry ι} (h : entry.Kept saved requests pending)
    (haccounted : entry.Accounted requests) (hfinished : entry.isFinished = true) :
    Acknowledged saved entry := by
  have hnone := askedOf_eq_nil (haccounted.no_requests hfinished)
  rw [isFinished, Bool.and_eq_true, Bool.and_eq_true, Bool.and_eq_true, decide_eq_true_eq,
    decide_eq_true_eq] at hfinished
  have hsent : entry.partsSent = entry.parts.length :=
    le_antisymm haccounted.partsSent_le hfinished.1.1.1
  have hdocSent : entry.docPartsSent = entry.docPartsCount :=
    le_antisymm haccounted.docPartsSent_le hfinished.1.1.2
  constructor
  · exact h.reading.none
  · have hparts := h.parts
    rw [hnone, List.append_nil, sentParts, hsent, hdocSent] at hparts
    exact hparts
  · exact h.reading.flatMap_chunk
  · intro hdocument hsmall
    rw [h.reading.md5Hash hdocument hsmall, hdocSent]
    exact h.reading.take_count hdocument

/-- The servers have saved the parts that the announcement of an entry counts, each once and no
other ones, and it names the sum of the content of a document that is not big. -/
structure Announced (md5 : Bytes → Bytes) (saved : List (ι × SavePart)) (entry : Entry ι) :
    Prop where
  parts : ((savedOf saved entry.itemId).map fun part => (part.fileId, part.part)).Perm
    (entry.ready md5).places
  md5Checksum : entry.file.type.isDocument = true → entry.docSize ≤ kUseBigFilesFrom →
    ∃ thumb, entry.ready md5 = .document entry.itemId
      (.inputFile entry.file.id entry.docPartsCount (md5 entry.file.data)) thumb

omit [DecidableEq ι] in
theorem places_slicedPart (entry : Entry ι) (count : ℕ) :
    ((List.range count).map entry.slicedPart).map (fun part => (part.fileId, part.part)) =
      (List.range count).map fun part => (entry.partsOfId, part) := by
  rw [List.map_map]
  rfl

omit [DecidableEq ι] in
theorem places_documentPart (entry : Entry ι) (count : ℕ) :
    ((List.range count).map entry.documentPart).map (fun part => (part.fileId, part.part)) =
      (List.range count).map fun part => (entry.file.id, part) := by
  rw [List.map_map]
  apply List.map_congr_left
  intro part _
  rw [Function.comp_apply, Entry.documentPart]
  split_ifs <;> rfl

theorem Acknowledged.announced {saved : List (ι × SavePart)} {entry : Entry ι}
    (h : Acknowledged saved entry) (md5 : Bytes → Bytes) : Announced md5 saved entry := by
  have hparts := h.parts.map fun part => (part.fileId, part.part)
  rw [List.map_append, places_slicedPart, places_documentPart] at hparts
  cases hdocument : entry.file.type.isDocument with
  | false =>
    refine ⟨hparts.trans (List.Perm.of_eq ?_), fun htrue => ?_⟩
    swap
    · exact absurd (hdocument.symm.trans htrue) Bool.false_ne_true
    rw [h.none hdocument, List.range_zero, List.map_nil, List.append_nil]
    cases htype : entry.file.type <;>
      simp_all [SendMediaType.isDocument, Entry.partsOfId, Entry.ready, Ready.places,
        InputFile.places]
  | true =>
    have hready : entry.ready md5 = .document entry.itemId
        (if kUseBigFilesFrom < entry.docSize then .inputFileBig entry.file.id entry.docPartsCount
          else .inputFile entry.file.id entry.docPartsCount (md5 entry.md5Hash))
        (if entry.parts = [] then Option.none
          else some (.inputFile entry.file.thumbId entry.parts.length entry.file.thumbmd5)) := by
      cases htype : entry.file.type <;> simp_all [SendMediaType.isDocument, Entry.ready]
    have hid : entry.partsOfId = entry.file.thumbId := by
      cases htype : entry.file.type <;> simp_all [SendMediaType.isDocument, Entry.partsOfId]
    constructor
    · rw [hready, Ready.places]
      rw [hid] at hparts
      refine hparts.trans (List.Perm.of_eq ?_)
      congr 1
      · split_ifs with hnil
        · rw [hnil]
          rfl
        · rfl
      · split_ifs <;> rfl
    · intro _ hsmall
      rw [hready, if_neg (Nat.not_lt.mpr hsmall), h.md5Hash hdocument hsmall]
      exact ⟨_, rfl⟩

namespace Uploader

variable {s t : Uploader ι} {answered : List (Request ι)}

structure Kept (answered : List (Request ι)) (s : Uploader ι) : Prop where
  entries : ∀ entry ∈ s.queue,
    entry.Kept s.saved (s.records answered) s.pendingFromRemovedDcIndices
  finished : ∀ entry ∈ s.finished, Acknowledged s.saved entry
  left : ∀ entry ∈ s.finished, entry.itemId ∉ s.queue.map Entry.itemId

theorem Kept.of_eq (h : Kept answered s) (hqueue : t.queue = s.queue)
    (hrequests : t.requests = s.requests)
    (hpending : t.pendingFromRemovedDcIndices = s.pendingFromRemovedDcIndices)
    (hsaved : t.saved = s.saved) (hfinished : t.finished = s.finished) : Kept answered t := by
  have hrecords : t.records answered = s.records answered := by
    rw [records, records, hrequests, hpending]
  constructor
  · rw [hqueue, hsaved, hrecords, hpending]
    exact h.entries
  · rw [hfinished, hsaved]
    exact h.finished
  · rw [hfinished, hqueue]
    exact h.left

omit [DecidableEq ι] in
theorem records_send (answered : List (Request ι)) (now : ℤ) (prepared : SavePart)
    (request : Request ι) :
    ∃ sent queued, ((s.sendPreparedRequest now prepared request).records answered).Perm
      ({ request with sent := sent, queued := queued, asked := prepared } ::
        s.records answered) := by
  refine ⟨now, (s.sentPerDcIndex[request.dcIndex]?).getD 0, ?_⟩
  simp only [records, sendPreparedRequest, addSent, List.map_append, List.map_cons, List.map_nil]
  rw [← List.append_assoc, List.append_assoc, List.singleton_append]
  exact List.perm_middle

theorem askedOf_cons_congr {request request' : Request ι} (hid : request'.itemId = request.itemId)
    (hasked : request'.asked = request.asked) (requests : List (Request ι)) (itemId : ι) :
    askedOf (request' :: requests) itemId = askedOf (request :: requests) itemId := by
  by_cases h : request.itemId = itemId
  · rw [askedOf_cons_self h, askedOf_cons_self (hid.trans h), hasked]
  · rw [askedOf_cons_ne h, askedOf_cons_ne (hid ▸ h)]

theorem Kept.sendPendingPart (h : Kept answered s) {now : ℤ} {entry : Entry ι} {dcIndex : ℕ}
    (hentry : entry ∈ s.queue) {result : SendResult}
    (hsend : s.sendPendingPart now entry dcIndex = some (t, result)) : Kept answered t := by
  rw [Uploader.sendPendingPart] at hsend
  cases hpending : s.pendingFromRemovedDcIndices with
  | nil =>
    rw [hpending] at hsend
    cases hsend
  | cons request pending =>
    rw [hpending] at hsend
    dsimp only at hsend
    by_cases hid : request.itemId ≠ entry.itemId
    · rw [if_pos hid] at hsend
      cases hsend
    rw [if_neg hid] at hsend
    rw [not_not] at hid
    have hresent : entry.resent request = request.asked :=
      (h.entries entry hentry).resent request (hpending ▸ List.mem_cons_self) hid
    let rest : Uploader ι := { s with pendingFromRemovedDcIndices := pending }
    have ht : t = rest.sendPreparedRequest now (entry.resent request)
        { request with dcIndex := dcIndex } :=
      (Prod.mk.inj (Option.some.inj hsend)).1.symm
    obtain ⟨sent, queued, hperm⟩ := records_send (s := rest) answered now
      (entry.resent request) { request with dcIndex := dcIndex }
    rw [← ht] at hperm
    have hold : (request :: rest.records answered).Perm (s.records answered) := by
      rw [records, records, hpending]
      exact List.perm_middle.symm
    have hqueue : t.queue = s.queue := by rw [ht]; rfl
    have hsaved : t.saved = s.saved := by rw [ht]; rfl
    have hfinished : t.finished = s.finished := by rw [ht]; rfl
    have hrest : t.pendingFromRemovedDcIndices = pending := by rw [ht]; rfl
    constructor
    · intro e he
      rw [hqueue] at he
      have hkept := h.entries e he
      rw [hsaved, hrest]
      refine ⟨hkept.reading, ?_, ?_, ?_⟩
      · refine List.Perm.trans (List.Perm.append_left _ ?_) hkept.parts
        refine (askedOf_perm hperm e.itemId).trans ?_
        have hcongr : askedOf ({ request with
            sent := sent
            queued := queued
            dcIndex := dcIndex
            asked := entry.resent request } :: rest.records answered) e.itemId =
              askedOf (request :: rest.records answered) e.itemId := by
          apply askedOf_cons_congr
          · rfl
          · exact hresent
        rw [hcongr]
        exact askedOf_perm hold e.itemId
      · intro r hr heq
        rcases List.mem_cons.mp (hperm.mem_iff.mp hr) with rfl | hr
        · have hknown := hkept.known request (hold.mem_iff.mp List.mem_cons_self) heq
          constructor
          · intro hdoc
            exact (hknown.document hdoc).trans hresent.symm
          · intro hdoc
            obtain ⟨hpart, hbig, part, hasked⟩ := hknown.sliced hdoc
            exact ⟨hpart, hbig, part, hresent.trans hasked⟩
        · exact hkept.known r (hold.mem_iff.mp (List.mem_cons_of_mem _ hr)) heq
      · intro r hr heq
        exact hkept.resent r (hpending ▸ List.mem_cons_of_mem _ hr) heq
    · rw [hfinished, hsaved]
      exact h.finished
    · rw [hfinished, hqueue]
      exact h.left

omit [DecidableEq ι] in
theorem resent_congr {entry entry' : Entry ι} (hfile : entry'.file = entry.file)
    (hcount : entry'.docPartsCount = entry.docPartsCount) (request : Request ι) :
    entry'.resent request = entry.resent request := by
  rw [Entry.resent, Entry.resent, Entry.partsOfId, Entry.partsOfId, hfile, hcount]

omit [DecidableEq ι] in
theorem known_congr {entry entry' : Entry ι} (hfile : entry'.file = entry.file)
    (hcount : entry'.docPartsCount = entry.docPartsCount) {request : Request ι}
    (h : entry.Known request) : entry'.Known request := by
  have hid : entry'.partsOfId = entry.partsOfId := by
    rw [Entry.partsOfId, Entry.partsOfId, hfile]
  constructor
  · rw [resent_congr hfile hcount]
    exact h.document
  · rw [hid]
    exact h.sliced

/-- A new part of an entry is sent. -/
theorem Kept.sendNew (h : Kept answered s) {entry entry' : Entry ι} {request : Request ι}
    {prepared : SavePart} (now : ℤ) (hentry : entry ∈ s.queue)
    (hid : entry'.itemId = entry.itemId) (hfile : entry'.file = entry.file)
    (hcount : entry'.docPartsCount = entry.docPartsCount) (hreading : entry'.Reading)
    (hparts : entry'.sentParts.Perm (prepared :: entry.sentParts))
    (hrequest : request.itemId = entry.itemId)
    (hknown : ∀ sent queued,
      entry'.Known { request with sent := sent, queued := queued, asked := prepared }) :
    Kept answered ((s.setEntry entry').sendPreparedRequest now prepared request) := by
  obtain ⟨sent, queued, hperm⟩ :=
    records_send (s := s.setEntry entry') answered now prepared request
  have hrecords : (s.setEntry entry').records answered = s.records answered := rfl
  rw [hrecords] at hperm
  constructor
  · intro e he
    rcases mem_setEntry he with rfl | ⟨he, hne⟩
    · have hkept := h.entries entry hentry
      refine ⟨hreading, ?_, ?_, ?_⟩
      · refine List.Perm.trans (List.Perm.append_left _ (askedOf_perm hperm _)) ?_
        rw [hid, askedOf_cons_self]
        · exact List.perm_middle.trans ((hkept.parts.cons prepared).trans hparts.symm)
        · exact hrequest
      · intro r hr heq
        rcases List.mem_cons.mp (hperm.mem_iff.mp hr) with rfl | hr
        · exact hknown sent queued
        · exact known_congr hfile hcount (hkept.known r hr (heq.trans hid))
      · intro r hr heq
        rw [resent_congr hfile hcount]
        exact hkept.resent r hr (heq.trans hid)
    · have hkept := h.entries e he
      have hother : request.itemId ≠ e.itemId := fun heq => hne (heq ▸ hrequest.trans hid.symm)
      refine ⟨hkept.reading, ?_, ?_, hkept.resent⟩
      · refine List.Perm.trans (List.Perm.append_left _ (askedOf_perm hperm _)) ?_
        rw [askedOf_cons_ne]
        · exact hkept.parts
        · exact hother
      · intro r hr heq
        rcases List.mem_cons.mp (hperm.mem_iff.mp hr) with rfl | hr
        · exact absurd heq hother
        · exact hkept.known r hr heq
  · exact h.finished
  · intro e he
    change e.itemId ∉ (s.setEntry entry').queue.map Entry.itemId
    rw [setEntry_ids]
    exact h.left e he

theorem Kept.sendSlicedPart (h : Kept answered s) (hvalid : Valid answered s) {now : ℤ}
    {entry : Entry ι} {dcIndex : ℕ} (hentry : entry ∈ s.queue)
    (hunsent : entry.partsSent < entry.parts.length) {result : SendResult}
    (hsend : s.sendSlicedPart now entry dcIndex = some (t, result)) : Kept answered t := by
  have haccounted := hvalid.entries entry hentry
  rw [Uploader.sendSlicedPart, List.getElem?_eq_getElem hunsent] at hsend
  dsimp only at hsend
  split_ifs at hsend
  · obtain ⟨rfl, -⟩ := Prod.mk.inj (Option.some.inj hsend)
    exact h
  obtain ⟨rfl, -⟩ := Prod.mk.inj (Option.some.inj hsend)
  have hlt := haccounted.parts_lt
  have hsent : (entry.partsSent + 1) % ushortEnd = entry.partsSent + 1 :=
    Nat.mod_eq_of_lt (by omega)
  have hpart : Entry.slicedPart entry entry.partsSent =
      .saveFilePart entry.partsOfId entry.partsSent entry.parts[entry.partsSent] := by
    rw [Entry.slicedPart, List.getD_eq_getElem _ _ hunsent]
  rw [hsent, ← hpart]
  have hreading := (h.entries entry hentry).reading
  refine h.sendNew now hentry rfl rfl rfl ⟨hreading.none, hreading.file, hreading.docSize,
    hreading.docPartSize, hreading.docPartsCount, hreading.docFile, hreading.md5Hash⟩ ?_ rfl
    fun sent queued => ?_
  · change ((List.range (entry.partsSent + 1)).map entry.slicedPart ++ _).Perm _
    rw [List.range_succ, List.map_append, List.map_singleton, List.append_assoc,
      List.singleton_append]
    exact List.perm_middle
  · constructor
    · exact fun heq => absurd heq Bool.false_ne_true
    · exact fun _ => ⟨rfl, rfl, entry.partsSent, hpart⟩

theorem Kept.setEntry (h : Kept answered s) {entry : Entry ι}
    (hkept : entry.Kept s.saved (s.records answered) s.pendingFromRemovedDcIndices) :
    Kept answered (s.setEntry entry) where
  entries := by
    intro e he
    rcases mem_setEntry he with rfl | ⟨he, -⟩
    · exact hkept
    · exact h.entries e he
  finished := h.finished
  left := by
    intro e he
    rw [setEntry_ids]
    exact h.left e he

theorem Kept.finishFronts {queue finished : List (Entry ι)}
    (h : Kept answered { s with queue := queue, finished := finished })
    (hvalid : Valid answered { s with queue := queue }) :
    Kept answered { s with
      queue := (Uploader.finishFronts queue).2
      finished := finished ++ (Uploader.finishFronts queue).1 } := by
  induction queue generalizing finished with
  | nil =>
    rw [Uploader.finishFronts, List.append_nil]
    exact h
  | cons entry queue ih =>
    rw [Uploader.finishFronts]
    by_cases hfinished : entry.isFinished = true
    · rw [if_pos hfinished]
      have hkept := h.entries entry List.mem_cons_self
      have haccounted := hvalid.entries entry List.mem_cons_self
      have hnext : Kept answered { s with queue := queue, finished := finished ++ [entry] } := by
        constructor
        · exact fun e he => h.entries e (List.mem_cons_of_mem _ he)
        · intro e he
          rcases List.mem_append.mp he with he | he
          · exact h.finished e he
          · rw [List.mem_singleton.mp he]
            exact hkept.acknowledged haccounted hfinished
        · intro e he hmem
          rcases List.mem_append.mp he with he | he
          · exact h.left e he (List.mem_cons_of_mem _ hmem)
          · rw [List.mem_singleton.mp he] at hmem
            exact (List.nodup_cons.mp hvalid.nodup).1 hmem
      have hrest := ih hnext (hvalid.pop hfinished)
      rw [List.append_assoc, List.singleton_append] at hrest
      exact hrest
    · rw [if_neg hfinished, List.append_nil]
      exact h

theorem Kept.maybeFinishFront (h : Kept answered s) (hvalid : Valid answered s) :
    Kept answered s.maybeFinishFront :=
  Kept.finishFronts (s := s) h hvalid

/-- Nothing is asked of the entry that fails. -/
theorem kept_failed (hvalid : Valid answered s) (itemId : ι)
    (hentries : ∀ entry ∈ s.queue, entry.itemId ≠ itemId →
      entry.Kept s.saved (s.records answered) s.pendingFromRemovedDcIndices)
    (hacknowledged : ∀ entry ∈ s.finished, Acknowledged s.saved entry)
    (hleft : ∀ entry ∈ s.finished, entry.itemId ∉ s.queue.map Entry.itemId) :
    Kept (answered.filter fun request => decide (request.itemId ≠ itemId)) (s.failed itemId) := by
  let rest : Uploader ι :=
    { s with queue := s.queue.eraseP fun entry => decide (entry.itemId = itemId) }
  have hrecords : (rest.cancelRequests itemId).records
      (answered.filter fun request => decide (request.itemId ≠ itemId)) =
        (s.records answered).filter fun request => decide (request.itemId ≠ itemId) :=
    records_cancel itemId
  obtain ⟨sent, hsubtract, -⟩ :=
    rest.subtractSent_spec (s.requests.filter fun request => decide (request.2.itemId = itemId))
  have hframe : (rest.cancelRequests itemId).queue = rest.queue ∧
      (rest.cancelRequests itemId).saved = s.saved ∧
      (rest.cancelRequests itemId).finished = s.finished := by
    rw [cancelRequests]
    dsimp only
    rw [hsubtract]
    exact ⟨rfl, rfl, rfl⟩
  obtain ⟨hqueue, hsaved, hfinished⟩ := hframe
  refine Kept.maybeFinishFront (s := rest.cancelRequests itemId) ?_ (hvalid.cancel itemId)
  constructor
  · intro e he
    rw [hqueue] at he
    obtain ⟨he, hne⟩ := (mem_eraseP_key hvalid.nodup itemId).mp he
    have hkept := hentries e he hne
    rw [hsaved, hrecords]
    refine ⟨hkept.reading, ?_, ?_, ?_⟩
    · rw [askedOf_filter_ne _ hne]
      exact hkept.parts
    · exact fun r hr => hkept.known r (List.mem_filter.mp hr).1
    · exact fun r hr => hkept.resent r (List.mem_filter.mp hr).1
  · rw [hfinished, hsaved]
    exact hacknowledged
  · rw [hfinished, hqueue]
    intro e he hmem
    exact hleft e he (((List.eraseP_sublist).map _).subset hmem)

theorem Kept.failed (h : Kept answered s) (hvalid : Valid answered s) (itemId : ι) :
    Kept (answered.filter fun request => decide (request.itemId ≠ itemId)) (s.failed itemId) :=
  kept_failed hvalid itemId (fun entry hentry _ => h.entries entry hentry) h.finished h.left

theorem Kept.sendDocPart (h : Kept [] s) (hvalid : Valid [] s) {now : ℤ}
    {entry : Entry ι} {dcIndex : ℕ} (hentry : entry ∈ s.queue)
    (hunsent : entry.docPartsSent < entry.docPartsCount) {result : SendResult}
    (hsend : s.sendDocPart now entry dcIndex = some (t, result)) : Kept [] t := by
  have haccounted := hvalid.entries entry hentry
  have hkept := h.entries entry hentry
  rw [Uploader.sendDocPart] at hsend
  dsimp only at hsend
  by_cases hfull : (kMaxUploadPerSession : ℤ) <
      (s.sentPerDcIndex[dcIndex]?).getD 0 + entry.docPartSize
  · rw [if_pos hfull] at hsend
    obtain ⟨rfl, -⟩ := Prod.mk.inj (Option.some.inj hsend)
    exact h
  rw [if_neg hfull, if_neg (not_not_intro hunsent)] at hsend
  obtain ⟨md5Hash, docFile, hfst⟩ := entry.readDocPart_fst
  have hreading := fun entry' bytes (hread : entry.readDocPart = (entry', bytes)) =>
    hkept.reading.readDocPart hunsent hread
  generalize entry.readDocPart = read at hfst hsend hreading
  obtain ⟨entry', partBytes⟩ := read
  dsimp only at hfst hsend
  subst hfst
  by_cases hempty : partBytes = []
  · rw [if_pos hempty] at hsend
    obtain ⟨rfl, -⟩ := Prod.mk.inj (Option.some.inj hsend)
    have hset : Valid [] (s.setEntry { entry with md5Hash := md5Hash, docFile := docFile }) :=
      hvalid.setEntry { haccounted with }
    refine kept_failed hset entry.itemId ?_ h.finished ?_
    · intro e he hne
      rcases mem_setEntry he with rfl | ⟨he, -⟩
      · exact absurd rfl hne
      · exact h.entries e he
    · intro e he
      rw [setEntry_ids]
      exact h.left e he
  rw [if_neg hempty] at hsend
  obtain ⟨hchunk, hread⟩ := hreading _ _ rfl hempty
  obtain ⟨rfl, -⟩ := Prod.mk.inj (Option.some.inj hsend)
  have hlt := haccounted.docPartsCount_lt
  have hsent : (entry.docPartsSent + 1) % ushortEnd = entry.docPartsSent + 1 :=
    Nat.mod_eq_of_lt (by omega)
  rw [hsent]
  refine h.sendNew now hentry rfl rfl rfl (hread _) ?_ rfl fun sent queued => ?_
  · have hprepared : entry.documentPart entry.docPartsSent =
        if decide (kUseBigFilesFrom < entry.docSize) = true then
          SavePart.saveBigFilePart entry.file.id entry.docPartsSent entry.docPartsCount partBytes
        else .saveFilePart entry.file.id entry.docPartsSent partBytes := by
      rw [Entry.documentPart, hchunk]
      simp only [decide_eq_true_eq]
    rw [← hprepared]
    change ((List.range entry.partsSent).map entry.slicedPart ++
      (List.range (entry.docPartsSent + 1)).map entry.documentPart).Perm _
    rw [List.range_succ, List.map_append, List.map_singleton, ← List.append_assoc]
    exact List.perm_append_singleton _ _
  · exact ⟨fun _ => rfl, fun heq => absurd heq Bool.false_ne_true.symm⟩

theorem Kept.sendPart (h : Kept [] s) (hvalid : Valid [] s) {now : ℤ} {entry : Entry ι}
    {dcIndex : ℕ} (hentry : entry ∈ s.queue)
    (hunsent : s.pendingFromRemovedDcIndices = [] → entry.hasUnsent = true) {result : SendResult}
    (hsend : s.sendPart now entry dcIndex = some (t, result)) : Kept [] t := by
  rw [Uploader.sendPart] at hsend
  by_cases hpending : s.pendingFromRemovedDcIndices ≠ []
  · rw [if_pos hpending] at hsend
    exact h.sendPendingPart hentry hsend
  rw [if_neg hpending] at hsend
  by_cases hsliced : entry.partsSent < entry.parts.length
  · rw [if_pos hsliced] at hsend
    exact h.sendSlicedPart hvalid hentry hsliced hsend
  · rw [if_neg hsliced] at hsend
    have hdoc := hunsent (not_not.mp hpending)
    rw [Entry.hasUnsent, decide_eq_false hsliced, Bool.false_or, decide_eq_true_eq] at hdoc
    exact h.sendDocPart hvalid hentry hdoc hsend

theorem Kept.sendNext {now : ℤ} {dcIndex : ℕ} {fuel : ℕ} (h : Kept [] s) (hvalid : Valid [] s)
    (hdcIndex : dcIndex < s.sentPerDcIndex.length) {sent : Bool}
    (hnext : s.sendNext now dcIndex fuel = some (t, sent)) : Kept [] t := by
  induction fuel generalizing s with
  | zero => exact nomatch hnext
  | succ fuel ih =>
    rw [Uploader.sendNext] at hnext
    rcases chooseEntry_spec hvalid with hnone | ⟨entry, hentry, hchosen, hpending, hunsent⟩
    · rw [hnone] at hnext
      obtain ⟨rfl, -⟩ := Prod.mk.inj (Option.some.inj hnext)
      exact h
    · rw [hchosen] at hnext
      obtain ⟨u, result, hpart, hsent⟩ :=
        sendPart_spec hvalid now hdcIndex hentry hpending hunsent
      have hkept := h.sendPart hvalid hentry hunsent hpart
      dsimp only at hnext
      rw [hpart] at hnext
      cases result with
      | dcIndexFull =>
        obtain ⟨rfl, -⟩ := Prod.mk.inj (Option.some.inj hnext)
        exact hkept
      | success =>
        obtain ⟨rfl, -⟩ := Prod.mk.inj (Option.some.inj hnext)
        exact hkept
      | failed => exact ih hkept hsent.valid (hsent.sessions ▸ hdcIndex) hnext

theorem Kept.chooseDcIndex (h : Kept answered s) (now : ℤ) (used : List ℕ) :
    Kept answered (s.chooseDcIndexForNextRequest now used).1 := by
  rw [chooseDcIndexForNextRequest]
  cases (List.range s.sentPerDcIndex.length).find? fun i =>
      s.sentPerDcIndex[i]? == some 0 && decide (i ∉ used) with
  | some i => exact h
  | none =>
    dsimp only
    split_ifs
    · exact h.of_eq rfl rfl rfl rfl rfl
    · exact h

theorem Kept.sendAll {now : ℤ} {fuel : ℕ} {used : List ℕ} (h : Kept [] s) (hvalid : Valid [] s)
    (hbusy : Busy s) (hall : s.sendAll now fuel used = some t) : Kept [] t := by
  induction fuel generalizing s used with
  | zero => exact nomatch hall
  | succ fuel ih =>
    rw [Uploader.sendAll] at hall
    obtain ⟨hchosen, hqueue, -, hdcIndex⟩ := chooseDcIndex_spec hvalid now used
    have hkept := h.chooseDcIndex now used
    generalize s.chooseDcIndexForNextRequest now used = chosen at hchosen hqueue hdcIndex hkept hall
    obtain ⟨u, chosen⟩ := chosen
    have hbusy : Busy u := by
      rw [Busy, hqueue]
      exact hbusy
    cases chosen with
    | none =>
      obtain rfl := Option.some.inj hall
      exact hkept.of_eq rfl rfl rfl rfl rfl
    | some dcIndex =>
      dsimp only at hall
      have hlt := hdcIndex dcIndex rfl
      obtain ⟨v, sent, hnext, hvalid, hbusy, -⟩ :=
        sendNext_spec now hchosen hbusy hlt (Nat.lt_succ_self u.queue.length)
      have hkept := hkept.sendNext hchosen hlt hnext
      rw [hnext] at hall
      cases sent with
      | false =>
        obtain rfl := Option.some.inj hall
        exact hkept
      | true => exact ih hkept hvalid hbusy hall

theorem Kept.maybeSend {now : ℤ} (h : Kept [] s) (hvalid : Valid [] s) (hbusy : Busy s)
    (hsend : s.maybeSend now = some t) : Kept [] t := by
  rw [Uploader.maybeSend] at hsend
  split_ifs at hsend
  · obtain rfl := Option.some.inj hsend
    exact h.of_eq rfl rfl rfl rfl rfl
  · obtain rfl := Option.some.inj hsend
    exact h
  · exact Kept.sendAll (s := { s with stopSessionsTimer := false }) (h.of_eq rfl rfl rfl rfl rfl)
      (hvalid.of_eq rfl rfl rfl rfl rfl rfl) hbusy hsend

end Uploader

end TelegramDesktop.Storage
