import Mathlib
import TelegramDesktop.Base.Keyed
import TelegramDesktop.Storage.Uploader

namespace TelegramDesktop.Storage

open Base

variable {ι : Type*}

/-- The bytes that are being sent in a session. -/
def load (requests : List (ℕ × Request ι)) (dcIndex : ℕ) : ℤ :=
  (requests.map fun request =>
    if request.2.dcIndex = dcIndex then (request.2.bytes.length : ℤ) else 0).sum

theorem load_nil (dcIndex : ℕ) : load ([] : List (ℕ × Request ι)) dcIndex = 0 := rfl

theorem load_append (requests more : List (ℕ × Request ι)) (dcIndex : ℕ) :
    load (requests ++ more) dcIndex = load requests dcIndex + load more dcIndex := by
  rw [load, List.map_append, List.sum_append]
  rfl

theorem load_cons (request : ℕ × Request ι) (requests : List (ℕ × Request ι)) (dcIndex : ℕ) :
    load (request :: requests) dcIndex =
      (if request.2.dcIndex = dcIndex then (request.2.bytes.length : ℤ) else 0) +
        load requests dcIndex := rfl

theorem load_perm {requests requests' : List (ℕ × Request ι)} (h : requests.Perm requests')
    (dcIndex : ℕ) : load requests dcIndex = load requests' dcIndex :=
  (h.map _).sum_eq

theorem load_filter (requests : List (ℕ × Request ι)) (p : ℕ × Request ι → Bool) (dcIndex : ℕ) :
    load (requests.filter p) dcIndex + load (requests.filter fun request => !p request) dcIndex =
      load requests dcIndex := by
  rw [← load_append]
  exact load_perm (List.filter_append_perm p requests) dcIndex

/-- A session in which no request is has nothing to send. -/
theorem load_eq_zero {requests : List (ℕ × Request ι)} {dcIndex : ℕ}
    (h : ∀ request ∈ requests, request.2.dcIndex ≠ dcIndex) : load requests dcIndex = 0 := by
  apply List.sum_eq_zero
  intro bytes hbytes
  obtain ⟨request, hrequest, rfl⟩ := List.mem_map.mp hbytes
  exact if_neg (h request hrequest)

theorem load_pos {requests : List (ℕ × Request ι)} {request : ℕ × Request ι}
    (h : request ∈ requests) (hbytes : request.2.bytes ≠ []) :
    0 < load requests request.2.dcIndex := by
  induction requests with
  | nil => exact nomatch h
  | cons first rest ih =>
    have hrest : 0 ≤ load rest request.2.dcIndex := by
      apply List.sum_nonneg
      intro bytes hbytes
      obtain ⟨other, -, rfl⟩ := List.mem_map.mp hbytes
      split_ifs
      · exact Int.natCast_nonneg _
      · exact le_refl 0
    rw [load_cons]
    rcases List.mem_cons.mp h with rfl | h
    · have hlength := List.length_pos_of_ne_nil hbytes
      rw [if_pos rfl]
      omega
    · have := ih h
      split_ifs
      · omega
      · omega

/-- Taking requests back takes their bytes out of their sessions and changes nothing else. -/
theorem Uploader.subtractSent_spec (s : Uploader ι) (requests : List (ℕ × Request ι)) :
    ∃ sent, s.subtractSent requests = { s with sentPerDcIndex := sent } ∧
      sent.length = s.sentPerDcIndex.length ∧
      ∀ d : ℕ, sent[d]? = (s.sentPerDcIndex[d]?).map fun bytes => bytes - load requests d := by
  induction requests generalizing s with
  | nil =>
    refine ⟨s.sentPerDcIndex, rfl, rfl, fun d => ?_⟩
    cases s.sentPerDcIndex[d]? with
    | none => rfl
    | some bytes => rw [load_nil, Option.map_some, sub_zero]
  | cons request requests ih =>
    obtain ⟨sent, heq, hlength, hsent⟩ :=
      ih (s.addSent request.2.dcIndex (-request.2.bytes.length))
    refine ⟨sent, heq, ?_, fun d => ?_⟩
    · rw [hlength, addSent, List.length_modify]
    · rw [hsent, addSent, List.getElem?_modify, load_cons]
      cases s.sentPerDcIndex[d]? with
      | none => rfl
      | some bytes =>
        rw [Option.map_eq_map, Option.map_some, Option.map_some, Option.map_some]
        split_ifs
        · congr 1
          ring
        · rw [zero_add]

theorem Uploader.addSent_spec (s : Uploader ι) (dcIndex : ℕ) (bytes : ℤ) (d : ℕ) :
    (s.addSent dcIndex bytes).sentPerDcIndex[d]? =
      (s.sentPerDcIndex[d]?).map fun sent => sent + if dcIndex = d then bytes else 0 := by
  rw [addSent, List.getElem?_modify]
  cases s.sentPerDcIndex[d]? with
  | none => rfl
  | some sent =>
    rw [Option.map_eq_map, Option.map_some, Option.map_some]
    split_ifs
    · rfl
    · rw [add_zero]

variable [DecidableEq ι]

/-- How many parts of an item are not answered. -/
def waiting (requests : List (Request ι)) (itemId : ι) (docPart : Bool) : ℕ :=
  requests.countP fun request => decide (request.itemId = itemId) && request.docPart == docPart

theorem waiting_append (requests more : List (Request ι)) (itemId : ι) (docPart : Bool) :
    waiting (requests ++ more) itemId docPart =
      waiting requests itemId docPart + waiting more itemId docPart :=
  List.countP_append

theorem waiting_cons (request : Request ι) (requests : List (Request ι)) (itemId : ι)
    (docPart : Bool) :
    waiting (request :: requests) itemId docPart =
      waiting requests itemId docPart +
        if request.itemId = itemId ∧ request.docPart = docPart then 1 else 0 := by
  rw [waiting, List.countP_cons]
  simp only [Bool.and_eq_true, decide_eq_true_eq, beq_iff_eq]
  rfl

theorem waiting_perm {requests requests' : List (Request ι)} (h : requests.Perm requests')
    (itemId : ι) (docPart : Bool) :
    waiting requests itemId docPart = waiting requests' itemId docPart :=
  h.countP_eq _

/-- What is cancelled with an item is not of another one. -/
theorem waiting_filter_ne (requests : List (Request ι)) {itemId cancelled : ι}
    (hne : itemId ≠ cancelled) (docPart : Bool) :
    waiting (requests.filter fun request => decide (request.itemId ≠ cancelled)) itemId docPart =
      waiting requests itemId docPart := by
  rw [waiting, List.countP_filter]
  apply List.countP_congr
  intro request _
  by_cases h : request.itemId = itemId
  · simp [h, hne]
  · simp [h]

/-- The parts of an item are sliced parts and document parts. -/
theorem waiting_add (requests : List (Request ι)) (itemId : ι) :
    waiting requests itemId false + waiting requests itemId true =
      requests.countP fun request => decide (request.itemId = itemId) := by
  induction requests with
  | nil => rfl
  | cons request requests ih =>
    rw [waiting_cons, waiting_cons, List.countP_cons, ← ih]
    by_cases h : request.itemId = itemId
    · cases request.docPart with
      | false => simp [h]; omega
      | true => simp [h]; omega
    · simp [h]

theorem exists_of_waiting_pos {requests : List (Request ι)} {itemId : ι} {docPart : Bool}
    (h : 0 < waiting requests itemId docPart) : ∃ request ∈ requests, request.itemId = itemId := by
  obtain ⟨request, hrequest, hp⟩ := List.countP_pos_iff.mp h
  rw [Bool.and_eq_true, decide_eq_true_eq] at hp
  exact ⟨request, hrequest, hp.1⟩

/-- What an entry counts of the requests that are not answered. -/
structure Entry.Accounted (requests : List (Request ι)) (entry : Entry ι) : Prop where
  parts_lt : entry.parts.length < ushortEnd
  parts_ne : ∀ part ∈ entry.parts, part ≠ []
  partsSent_le : entry.partsSent ≤ entry.parts.length
  docPartsCount_lt : entry.docPartsCount < ushortEnd
  docPartsSent_le : entry.docPartsSent ≤ entry.docPartsCount
  partsWaiting : entry.partsWaiting = waiting requests entry.itemId false
  partsWaiting_le : entry.partsWaiting ≤ entry.partsSent
  docPartsWaiting : entry.docPartsWaiting = waiting requests entry.itemId true
  docPartsWaiting_le : entry.docPartsWaiting ≤ entry.docPartsSent

theorem Entry.Accounted.congr {requests requests' : List (Request ι)} {entry : Entry ι}
    (h : entry.Accounted requests)
    (hwaiting : ∀ docPart,
      waiting requests' entry.itemId docPart = waiting requests entry.itemId docPart) :
    entry.Accounted requests' :=
  { h with
    partsWaiting := by rw [hwaiting, h.partsWaiting]
    docPartsWaiting := by rw [hwaiting, h.docPartsWaiting] }

/-- An entry is finished only if no request is for it. -/
theorem Entry.Accounted.no_requests {requests : List (Request ι)} {entry : Entry ι}
    (h : entry.Accounted requests) (hfinished : entry.isFinished = true) :
    ∀ request ∈ requests, request.itemId ≠ entry.itemId := by
  rw [isFinished, Bool.and_eq_true, Bool.and_eq_true, beq_iff_eq, beq_iff_eq] at hfinished
  intro request hrequest heq
  have hnone : requests.countP (fun request => decide (request.itemId = entry.itemId)) = 0 := by
    rw [← waiting_add, ← h.partsWaiting, ← h.docPartsWaiting, hfinished.1.2, hfinished.2]
  exact List.countP_eq_zero.mp hnone request hrequest (decide_eq_true heq)

namespace Uploader

/-- The requests that are not answered, those that are being answered first. -/
def records (answered : List (Request ι)) (s : Uploader ι) : List (Request ι) :=
  answered ++ s.requests.map Prod.snd ++ s.pendingFromRemovedDcIndices

structure Valid (answered : List (Request ι)) (s : Uploader ι) : Prop where
  nodup : (s.queue.map Entry.itemId).Nodup
  sent : ∀ d < s.sentPerDcIndex.length, s.sentPerDcIndex[d]? = some (load s.requests d)
  dcIndex : ∀ request ∈ s.requests, request.2.dcIndex < s.sentPerDcIndex.length
  bytes : ∀ request ∈ s.records answered, request.bytes ≠ []
  queued : ∀ request ∈ s.records answered, request.itemId ∈ s.queue.map Entry.itemId
  entries : ∀ entry ∈ s.queue, entry.Accounted (s.records answered)
  inFlight : s.inFlight = s.requests.map Prod.fst
  ids : (s.requests.map Prod.fst).Nodup
  fresh : ∀ request ∈ s.requests, request.1 < s.nextRequestId

/-- The front entry is not finished. -/
def Busy (s : Uploader ι) : Prop := ∀ entry ∈ s.queue.head?, entry.isFinished = false

variable {s t : Uploader ι} {answered : List (Request ι)}

theorem Valid.of_eq (h : Valid answered s) (hqueue : t.queue = s.queue)
    (hrequests : t.requests = s.requests)
    (hpending : t.pendingFromRemovedDcIndices = s.pendingFromRemovedDcIndices)
    (hsent : t.sentPerDcIndex = s.sentPerDcIndex) (hinFlight : t.inFlight = s.inFlight)
    (hnext : t.nextRequestId = s.nextRequestId) : Valid answered t := by
  have hrecords : t.records answered = s.records answered := by
    rw [records, records, hrequests, hpending]
  constructor
  · rw [hqueue]
    exact h.nodup
  · rw [hsent, hrequests]
    exact h.sent
  · rw [hsent, hrequests]
    exact h.dcIndex
  · rw [hrecords]
    exact h.bytes
  · rw [hrecords, hqueue]
    exact h.queued
  · rw [hrecords, hqueue]
    exact h.entries
  · rw [hinFlight, hrequests]
    exact h.inFlight
  · rw [hrequests]
    exact h.ids
  · rw [hrequests, hnext]
    exact h.fresh

omit [DecidableEq ι] in
theorem mem_queue_ids {itemId : ι} :
    itemId ∈ s.queue.map Entry.itemId ↔ ∃ entry ∈ s.queue, entry.itemId = itemId :=
  List.mem_map

theorem setEntry_ids (entry : Entry ι) :
    (s.setEntry entry).queue.map Entry.itemId = s.queue.map Entry.itemId := by
  rw [setEntry, List.map_map]
  apply List.map_congr_left
  intro e _
  by_cases h : e.itemId = entry.itemId
  · rw [Function.comp_apply, if_pos h, h]
  · rw [Function.comp_apply, if_neg h]

theorem mem_setEntry {entry e : Entry ι} (h : e ∈ (s.setEntry entry).queue) :
    e = entry ∨ e ∈ s.queue ∧ e.itemId ≠ entry.itemId := by
  obtain ⟨old, hold, rfl⟩ := List.mem_map.mp h
  by_cases heq : old.itemId = entry.itemId
  · rw [if_pos heq]
    exact Or.inl rfl
  · rw [if_neg heq]
    exact Or.inr ⟨hold, heq⟩

theorem head_setEntry {entry e : Entry ι} (h : e ∈ (s.setEntry entry).queue.head?) :
    e = entry ∨ e ∈ s.queue.head? := by
  rw [setEntry] at h
  cases hqueue : s.queue with
  | nil =>
    rw [hqueue] at h
    exact nomatch h
  | cons first rest =>
    rw [hqueue, List.map_cons, List.head?_cons, Option.mem_some_iff] at h
    split_ifs at h
    · exact Or.inl h.symm
    · exact Or.inr (congrArg some h)

theorem find_spec {itemId : ι} {entry : Entry ι} (h : s.find itemId = some entry) :
    entry ∈ s.queue ∧ entry.itemId = itemId := by
  refine ⟨List.mem_of_find?_eq_some h, ?_⟩
  have hfound := List.find?_some h
  exact of_decide_eq_true hfound

theorem find_isSome {itemId : ι} (h : itemId ∈ s.queue.map Entry.itemId) :
    ∃ entry, s.find itemId = some entry := by
  obtain ⟨entry, hentry, heq⟩ := mem_queue_ids.mp h
  exact Option.isSome_iff_exists.mp (List.find?_isSome.mpr ⟨entry, hentry, decide_eq_true heq⟩)

theorem waiting_send (now : ℤ) (prepared : SavePart) (request : Request ι) (itemId : ι)
    (docPart : Bool) :
    waiting ((s.sendPreparedRequest now prepared request).records answered) itemId docPart =
      waiting (s.records answered) itemId docPart +
        if request.itemId = itemId ∧ request.docPart = docPart then 1 else 0 := by
  simp only [records, sendPreparedRequest, addSent, List.map_append, List.map_cons, List.map_nil,
    waiting_append, waiting_cons]
  have hnil : waiting ([] : List (Request ι)) itemId docPart = 0 := rfl
  rw [hnil]
  omega

omit [DecidableEq ι] in
theorem mem_records_send {now : ℤ} {prepared : SavePart} {request r : Request ι}
    (h : r ∈ (s.sendPreparedRequest now prepared request).records answered) :
    r ∈ s.records answered ∨ r.itemId = request.itemId ∧ r.bytes = request.bytes := by
  simp only [records, sendPreparedRequest, addSent, List.map_append, List.map_cons, List.map_nil,
    List.mem_append, List.mem_singleton] at h ⊢
  rcases h with (h | h | h) | h
  · exact Or.inl (Or.inl (Or.inl h))
  · exact Or.inl (Or.inl (Or.inr h))
  · exact Or.inr (by rw [h]; exact ⟨rfl, rfl⟩)
  · exact Or.inl (Or.inr h)

/-- `t` is what a request is sent from, its entry or the pending requests being changed. -/
theorem Valid.send (h : Valid answered s)
    (hids : t.queue.map Entry.itemId = s.queue.map Entry.itemId)
    (hrequests : t.requests = s.requests) (hsent : t.sentPerDcIndex = s.sentPerDcIndex)
    (hinFlight : t.inFlight = s.inFlight) (hnext : t.nextRequestId = s.nextRequestId)
    (hrecords : ∀ r ∈ t.records answered, r ∈ s.records answered)
    (now : ℤ) (prepared : SavePart) {request : Request ι}
    (hdcIndex : request.dcIndex < s.sentPerDcIndex.length) (hbytes : request.bytes ≠ [])
    (hqueued : request.itemId ∈ s.queue.map Entry.itemId)
    (hentries : ∀ entry ∈ t.queue,
      entry.Accounted ((t.sendPreparedRequest now prepared request).records answered)) :
    Valid answered (t.sendPreparedRequest now prepared request) := by
  have hlength : (t.sendPreparedRequest now prepared request).sentPerDcIndex.length =
      s.sentPerDcIndex.length := by
    rw [← hsent, sendPreparedRequest, addSent, List.length_modify]
  constructor
  · exact hids ▸ h.nodup
  · intro d hd
    rw [hlength] at hd
    change (t.addSent request.dcIndex request.bytes.length).sentPerDcIndex[d]? = _
    rw [addSent_spec, hsent, h.sent d hd, Option.map_some, sendPreparedRequest, hrequests,
      load_append, load_cons, load_nil, add_zero]
  · intro r hr
    rw [hlength]
    rcases List.mem_append.mp hr with hr | hr
    · exact h.dcIndex r (hrequests ▸ hr)
    · rw [List.mem_singleton.mp hr]
      exact hdcIndex
  · intro r hr
    rcases mem_records_send hr with hr | ⟨-, hr⟩
    · exact h.bytes r (hrecords r hr)
    · rw [hr]
      exact hbytes
  · intro r hr
    change r.itemId ∈ t.queue.map Entry.itemId
    rw [hids]
    rcases mem_records_send hr with hr | ⟨hr, -⟩
    · exact h.queued r (hrecords r hr)
    · rw [hr]
      exact hqueued
  · exact hentries
  · simp only [sendPreparedRequest, addSent, List.map_append, List.map_cons, List.map_nil]
    rw [hinFlight, h.inFlight, hrequests]
  · refine nodup_push (hrequests ▸ h.ids) fun r hr => ?_
    have hfresh := h.fresh r (hrequests ▸ hr)
    rw [hnext]
    exact hfresh.ne
  · intro r hr
    change r.1 < t.nextRequestId + 1
    rcases List.mem_append.mp hr with hr | hr
    · have hfresh := h.fresh r (hrequests ▸ hr)
      omega
    · rw [List.mem_singleton.mp hr]
      exact Nat.lt_succ_self _

omit [DecidableEq ι] in
theorem ids_filter {requests : List (ℕ × Request ι)} (hids : (requests.map Prod.fst).Nodup)
    (p : ℕ × Request ι → Bool) :
    ((requests.map Prod.fst).filter fun id => decide (id ∉ (requests.filter p).map Prod.fst)) =
      (requests.filter fun request => !p request).map Prod.fst := by
  rw [List.filter_map]
  congr 1
  apply List.filter_congr
  intro request hrequest
  rw [Function.comp_apply, Bool.eq_iff_iff, decide_eq_true_eq, Bool.not_eq_true']
  constructor
  · intro hnot
    by_contra hp
    exact hnot (List.mem_map_of_mem (List.mem_filter.mpr ⟨hrequest, by simpa using hp⟩))
  · intro hp hmem
    obtain ⟨other, hother, heq⟩ := List.mem_map.mp hmem
    rw [List.mem_filter] at hother
    rw [List.inj_on_of_nodup_map hids hother.1 hrequest heq, hp] at hother
    exact Bool.false_ne_true hother.2

omit [DecidableEq ι] in
theorem sent_take
    (h : ∀ d < s.sentPerDcIndex.length, s.sentPerDcIndex[d]? = some (load s.requests d))
    (p : ℕ × Request ι → Bool) :
    (s.subtractSent (s.requests.filter p)).sentPerDcIndex.length = s.sentPerDcIndex.length ∧
      ∀ d < s.sentPerDcIndex.length,
        (s.subtractSent (s.requests.filter p)).sentPerDcIndex[d]? =
          some (load (s.requests.filter fun request => !p request) d) := by
  obtain ⟨sent, heq, hlength, hsent⟩ := s.subtractSent_spec (s.requests.filter p)
  rw [heq]
  refine ⟨hlength, fun d hd => ?_⟩
  have hsum := load_filter s.requests p d
  rw [hsent, h d hd, Option.map_some]
  congr 1
  omega

omit [DecidableEq ι] in
theorem subtractSent_frame (s : Uploader ι) (requests : List (ℕ × Request ι)) :
    (s.subtractSent requests).queue = s.queue ∧
      (s.subtractSent requests).nextRequestId = s.nextRequestId := by
  obtain ⟨sent, heq, -⟩ := s.subtractSent_spec requests
  rw [heq]
  exact ⟨rfl, rfl⟩

theorem records_cancel (itemId : ι) :
    (s.cancelRequests itemId).records
        (answered.filter fun request => decide (request.itemId ≠ itemId)) =
      (s.records answered).filter fun request => decide (request.itemId ≠ itemId) := by
  simp only [records, cancelRequests, List.filter_append, List.filter_map]
  rfl

/-- An entry goes with its requests. -/
theorem Valid.cancel (h : Valid answered s) (itemId : ι) :
    Valid (answered.filter fun request => decide (request.itemId ≠ itemId))
      ({ s with queue := s.queue.eraseP fun entry => decide (entry.itemId = itemId) }.cancelRequests
        itemId) := by
  let rest : Uploader ι :=
    { s with queue := s.queue.eraseP fun entry => decide (entry.itemId = itemId) }
  change Valid _ (rest.cancelRequests itemId)
  have hrecords : (rest.cancelRequests itemId).records
      (answered.filter fun request => decide (request.itemId ≠ itemId)) =
        (s.records answered).filter fun request => decide (request.itemId ≠ itemId) :=
    records_cancel itemId
  obtain ⟨hlength, hsent⟩ :=
    sent_take (s := rest) h.sent fun request => decide (request.2.itemId = itemId)
  have hkept : (rest.cancelRequests itemId).requests =
      s.requests.filter fun request => !decide (request.2.itemId = itemId) := by
    simp only [cancelRequests, decide_not, rest]
  have hqueue : (rest.cancelRequests itemId).queue = rest.queue :=
    (subtractSent_frame rest _).1
  have hnext : (rest.cancelRequests itemId).nextRequestId = s.nextRequestId :=
    (subtractSent_frame rest _).2
  have hmem : ∀ entry, entry ∈ rest.queue ↔ entry ∈ s.queue ∧ entry.itemId ≠ itemId :=
    fun entry => mem_eraseP_key h.nodup itemId
  constructor
  · rw [hqueue]
    exact h.nodup.sublist ((List.eraseP_sublist).map _)
  · intro d hd
    rw [hkept]
    exact hsent d (hlength ▸ hd)
  · intro request hrequest
    rw [hkept] at hrequest
    exact (h.dcIndex request (List.mem_filter.mp hrequest).1).trans_eq hlength.symm
  · intro request hrequest
    rw [hrecords] at hrequest
    exact h.bytes request (List.mem_filter.mp hrequest).1
  · intro request hrequest
    rw [hrecords, List.mem_filter, decide_eq_true_eq] at hrequest
    obtain ⟨entry, hentry, heq⟩ := mem_queue_ids.mp (h.queued request hrequest.1)
    rw [hqueue]
    exact mem_queue_ids.mpr ⟨entry, (hmem entry).mpr ⟨hentry, heq ▸ hrequest.2⟩, heq⟩
  · intro entry hentry
    rw [hqueue, hmem] at hentry
    rw [hrecords]
    exact (h.entries entry hentry.1).congr fun docPart => waiting_filter_ne _ hentry.2 docPart
  · rw [hkept, ← ids_filter h.ids, ← h.inFlight]
    rfl
  · rw [hkept]
    exact h.ids.sublist ((List.filter_sublist).map _)
  · intro request hrequest
    rw [hkept] at hrequest
    rw [hnext]
    exact h.fresh request (List.mem_filter.mp hrequest).1

/-- The front entry goes when it is finished, as no request is for it. -/
theorem Valid.pop {entry : Entry ι} {queue : List (Entry ι)}
    (h : Valid answered { s with queue := entry :: queue }) (hfinished : entry.isFinished = true) :
    Valid answered { s with queue := queue } where
  nodup := (List.nodup_cons.mp h.nodup).2
  sent := h.sent
  dcIndex := h.dcIndex
  bytes := h.bytes
  queued := by
    intro request hrequest
    have hne := (h.entries entry List.mem_cons_self).no_requests hfinished request hrequest
    exact (List.mem_cons.mp (h.queued request hrequest)).resolve_left hne
  entries := fun entry hentry => h.entries entry (List.mem_cons_of_mem _ hentry)
  inFlight := h.inFlight
  ids := h.ids
  fresh := h.fresh

theorem Valid.finishFronts {queue : List (Entry ι)}
    (h : Valid answered { s with queue := queue }) :
    Valid answered { s with queue := (Uploader.finishFronts queue).2 } := by
  induction queue with
  | nil => exact h
  | cons entry queue ih =>
    rw [Uploader.finishFronts]
    by_cases hfinished : entry.isFinished = true
    · rw [if_pos hfinished]
      exact ih (h.pop hfinished)
    · rw [if_neg hfinished]
      exact h

omit [DecidableEq ι] in
theorem finishFronts_suffix (queue : List (Entry ι)) :
    (finishFronts queue).2 <:+ queue := by
  induction queue with
  | nil => exact List.suffix_refl _
  | cons entry queue ih =>
    rw [finishFronts]
    split_ifs
    · exact ih.trans (List.suffix_cons entry queue)
    · exact List.suffix_refl _

omit [DecidableEq ι] in
theorem finishFronts_head (queue : List (Entry ι)) :
    ∀ entry ∈ (finishFronts queue).2.head?, entry.isFinished = false := by
  induction queue with
  | nil => exact fun entry hentry => nomatch hentry
  | cons entry queue ih =>
    rw [finishFronts]
    split_ifs with hfinished
    · exact ih
    · intro e he
      rw [← Option.some.inj he]
      exact Bool.eq_false_of_not_eq_true hfinished

theorem Valid.maybeFinishFront (h : Valid answered s) :
    Valid answered (s.maybeFinishFront) :=
  (h.finishFronts ).of_eq rfl rfl rfl rfl rfl rfl

omit [DecidableEq ι] in
theorem busy_maybeFinishFront (s : Uploader ι) :
    Busy (s.maybeFinishFront) :=
  finishFronts_head s.queue

theorem Valid.failed (h : Valid answered s) (itemId : ι) :
    Valid (answered.filter fun request => decide (request.itemId ≠ itemId))
      (s.failed itemId) :=
  (h.cancel itemId).maybeFinishFront

theorem failed_queue (s : Uploader ι) (itemId : ι) :
    (s.failed itemId).queue <:+
      s.queue.eraseP fun entry => decide (entry.itemId = itemId) := by
  have hqueue := (subtractSent_frame
    { s with queue := s.queue.eraseP fun entry => decide (entry.itemId = itemId) }
    (s.requests.filter fun request => decide (request.2.itemId = itemId))).1
  dsimp only at hqueue
  rw [← hqueue]
  exact finishFronts_suffix _

end Uploader

end TelegramDesktop.Storage
