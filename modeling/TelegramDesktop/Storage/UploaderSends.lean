import Mathlib
import TelegramDesktop.Storage.UploaderAccounts

namespace TelegramDesktop.Storage

open Base

variable {ι : Type*}

namespace Entry

theorem checked_fst (entry : Entry ι) (result : Bytes) :
    ∃ md5Hash, (entry.checked result).1 = { entry with md5Hash := md5Hash } := by
  rw [checked]
  split_ifs
  all_goals exact ⟨_, rfl⟩

theorem readDocPart_fst (entry : Entry ι) :
    ∃ md5Hash docFile,
      entry.readDocPart.1 = { entry with md5Hash := md5Hash, docFile := docFile } := by
  rw [readDocPart]
  by_cases hcontent : entry.file.content ≠ []
  · rw [if_pos hcontent]
    obtain ⟨md5Hash, h⟩ := entry.checked_fst (mid entry.file.content entry.docOffset
      entry.docPartSize)
    rw [h]
    exact ⟨md5Hash, entry.docFile, rfl⟩
  · rw [if_neg hcontent]
    cases hfile : entry.docFile with
    | none =>
      dsimp only
      split_ifs
      · exact ⟨entry.md5Hash, entry.docFile, rfl⟩
      · obtain ⟨md5Hash, h⟩ := checked_fst
          { entry with docFile := some (entry.file.disk.read 0 entry.docPartSize).length }
          (entry.file.disk.read 0 entry.docPartSize)
        rw [h]
        exact ⟨md5Hash, _, rfl⟩
    | some position =>
      dsimp only
      obtain ⟨md5Hash, h⟩ := checked_fst
        { entry with
          docFile := some
            (position + (entry.file.disk.read position entry.docPartSize).length) }
        (entry.file.disk.read position entry.docPartSize)
      rw [h]
      exact ⟨md5Hash, _, rfl⟩

/-- The parts of an entry that are not sent. -/
def unsent (entry : Entry ι) : ℕ :=
  (entry.parts.length - entry.partsSent) + (entry.docPartsCount - entry.docPartsSent)

end Entry

namespace Uploader

variable [DecidableEq ι] {s t : Uploader ι} {answered : List (Request ι)}

omit [DecidableEq ι] in
theorem unsent_eq (s : Uploader ι) :
    s.unsent = s.pendingFromRemovedDcIndices.length + (s.queue.map Entry.unsent).sum := rfl

/-- An entry with fewer parts to send leaves the uploader with fewer. -/
theorem unsent_setEntry (hnodup : (s.queue.map Entry.itemId).Nodup) {entry entry' : Entry ι}
    (hentry : entry ∈ s.queue) (hless : entry'.unsent < entry.unsent)
    (hid : entry'.itemId = entry.itemId) : (s.setEntry entry').unsent < s.unsent := by
  rw [unsent_eq, unsent_eq, setEntry]
  apply Nat.add_lt_add_left
  rw [List.map_map]
  apply List.sum_lt_sum
  · intro e he
    rw [Function.comp_apply]
    split_ifs with heq
    · rw [List.inj_on_of_nodup_map hnodup he hentry (heq.trans hid)]
      exact hless.le
    · exact le_refl _
  · refine ⟨entry, hentry, ?_⟩
    rw [Function.comp_apply, if_pos hid.symm]
    exact hless

/-- What sending a part to a session can come to. -/
structure Sent (answered : List (Request ι)) (s t : Uploader ι) (result : SendResult) :
    Prop where
  valid : Valid answered t
  busy : Busy s → Busy t
  sessions : t.sentPerDcIndex.length = s.sentPerDcIndex.length
  unsent_le : t.unsent ≤ s.unsent
  success : result = .success → t.unsent < s.unsent
  failed : result = .failed → t.queue.length < s.queue.length

theorem Sent.full (h : Valid answered s) : Sent answered s s .dcIndexFull where
  valid := h
  busy := id
  sessions := rfl
  unsent_le := le_refl _
  success := fun heq => nomatch heq
  failed := fun heq => nomatch heq

omit [DecidableEq ι] in
theorem sessions_send (now : ℤ) (prepared : SavePart) (request : Request ι) :
    (s.sendPreparedRequest now prepared request).sentPerDcIndex.length =
      s.sentPerDcIndex.length := by
  rw [sendPreparedRequest, addSent, List.length_modify]

theorem sendPendingPart_spec (h : Valid answered s) (now : ℤ) {entry : Entry ι} {dcIndex : ℕ}
    (hdcIndex : dcIndex < s.sentPerDcIndex.length) {request : Request ι}
    {pending : List (Request ι)} (hpending : s.pendingFromRemovedDcIndices = request :: pending)
    (hid : request.itemId = entry.itemId) :
    ∃ t, s.sendPendingPart now entry dcIndex = some (t, .success) ∧
      Sent answered s t .success := by
  have hmem : request ∈ s.records answered := by
    rw [records, hpending]
    exact List.mem_append_right _ List.mem_cons_self
  rw [sendPendingPart, hpending]
  dsimp only
  rw [if_neg (not_not_intro hid)]
  refine ⟨_, rfl, ?_⟩
  have hrecords : ∀ r ∈ ({ s with pendingFromRemovedDcIndices := pending } : Uploader ι).records
      answered, r ∈ s.records answered := by
    intro r hr
    rw [records, hpending]
    rcases List.mem_append.mp hr with hr | hr
    · exact List.mem_append_left _ hr
    · exact List.mem_append_right _ (List.mem_cons_of_mem _ hr)
  have hless : ({ s with pendingFromRemovedDcIndices := pending } : Uploader ι).unsent <
      s.unsent := by
    rw [unsent_eq, unsent_eq, hpending, List.length_cons]
    dsimp only
    omega
  refine ⟨?_, id, sessions_send _ _ _, hless.le, fun _ => hless, by rintro ⟨⟩⟩
  refine h.send (t := { s with pendingFromRemovedDcIndices := pending }) rfl rfl rfl rfl rfl
    hrecords now _ hdcIndex (h.bytes request hmem)
    (h.queued request hmem) fun e he => (h.entries e he).congr fun docPart => ?_
  rw [waiting_send]
  simp only [records, hpending, waiting_append, waiting_cons]
  omega

theorem sendSlicedPart_spec (h : Valid answered s) (now : ℤ) {entry : Entry ι} {dcIndex : ℕ}
    (hdcIndex : dcIndex < s.sentPerDcIndex.length) (hentry : entry ∈ s.queue)
    (hunsent : entry.partsSent < entry.parts.length) :
    ∃ t result, s.sendSlicedPart now entry dcIndex = some (t, result) ∧
      Sent answered s t result := by
  have haccounted := h.entries entry hentry
  rw [sendSlicedPart, List.getElem?_eq_getElem hunsent]
  dsimp only
  split_ifs with hfull
  · exact ⟨s, .dcIndexFull, rfl, Sent.full h⟩
  refine ⟨_, _, rfl, ?_⟩
  have hlt := haccounted.parts_lt
  have hle := haccounted.partsWaiting_le
  have hsent : (entry.partsSent + 1) % ushortEnd = entry.partsSent + 1 :=
    Nat.mod_eq_of_lt (by omega)
  have hwaiting : (entry.partsWaiting + 1) % ushortEnd = entry.partsWaiting + 1 :=
    Nat.mod_eq_of_lt (by omega)
  rw [hsent, hwaiting]
  have hids := mem_queue_ids.mpr ⟨entry, hentry, rfl⟩
  have hless : ({ entry with
      partsWaiting := entry.partsWaiting + 1
      partsSent := entry.partsSent + 1 } : Entry ι).unsent < entry.unsent := by
    apply Nat.add_lt_add_right
    change entry.parts.length - (entry.partsSent + 1) < entry.parts.length - entry.partsSent
    omega
  constructor
  · refine h.send (setEntry_ids _) rfl rfl rfl rfl (fun r hr => hr) now _ hdcIndex
      (haccounted.parts_ne _ (List.getElem_mem hunsent)) hids fun e he => ?_
    rcases mem_setEntry he with rfl | ⟨he, hne⟩
    · constructor
      · exact haccounted.parts_lt
      · exact haccounted.parts_ne
      · exact hunsent
      · exact haccounted.docPartsCount_lt
      · exact haccounted.docPartsSent_le
      · rw [waiting_send, if_pos ⟨rfl, rfl⟩]
        exact congrArg (· + 1) haccounted.partsWaiting
      · exact Nat.succ_le_succ hle
      · rw [waiting_send, if_neg (by rintro ⟨-, ⟨⟩⟩)]
        exact haccounted.docPartsWaiting
      · exact haccounted.docPartsWaiting_le
    · refine (h.entries e he).congr fun docPart => ?_
      rw [waiting_send, if_neg fun heq => hne heq.1.symm]
      rfl
  · intro hbusy e he
    rcases head_setEntry he with rfl | he
    · simp [Entry.isFinished]
    · exact hbusy e he
  · exact sessions_send _ _ _
  · exact (unsent_setEntry h.nodup hentry hless rfl).le
  · exact fun _ => unsent_setEntry h.nodup hentry hless rfl
  · rintro ⟨⟩

theorem Valid.setEntry (h : Valid answered s) {entry : Entry ι}
    (hentry : entry.Accounted (s.records answered)) : Valid answered (s.setEntry entry) where
  nodup := (setEntry_ids entry).symm ▸ h.nodup
  sent := h.sent
  dcIndex := h.dcIndex
  bytes := h.bytes
  queued := by
    rw [setEntry_ids]
    exact h.queued
  entries := by
    intro e he
    rcases mem_setEntry he with rfl | ⟨he, -⟩
    · exact hentry
    · exact h.entries e he
  inFlight := h.inFlight
  ids := h.ids
  fresh := h.fresh

theorem unsent_setEntry_le (hnodup : (s.queue.map Entry.itemId).Nodup) {entry entry' : Entry ι}
    (hentry : entry ∈ s.queue) (hle : entry'.unsent ≤ entry.unsent)
    (hid : entry'.itemId = entry.itemId) : (s.setEntry entry').unsent ≤ s.unsent := by
  rw [unsent_eq, unsent_eq, Uploader.setEntry]
  apply Nat.add_le_add_left
  rw [List.map_map]
  apply List.sum_le_sum
  intro e he
  rw [Function.comp_apply]
  split_ifs with heq
  · rw [List.inj_on_of_nodup_map hnodup he hentry (heq.trans hid)]
    exact hle
  · exact le_refl _

theorem unsent_failed (s : Uploader ι) (itemId : ι) :
    (s.failed itemId).unsent ≤ s.unsent := by
  rw [unsent_eq, unsent_eq]
  apply Nat.add_le_add
  · exact List.length_filter_le _ _
  · have hsub := (failed_queue s itemId).sublist.trans List.eraseP_sublist
    exact (hsub.map Entry.unsent).sum_le_sum fun _ _ => Nat.zero_le _

theorem length_failed {itemId : ι}
    (hqueued : itemId ∈ s.queue.map Entry.itemId) :
    (s.failed itemId).queue.length < s.queue.length := by
  obtain ⟨entry, hentry, heq⟩ := mem_queue_ids.mp hqueued
  have hle := (failed_queue s itemId).length_le
  rw [List.length_eraseP_of_mem hentry (decide_eq_true heq)] at hle
  have hpos := List.length_pos_of_mem hentry
  omega

theorem sessions_failed (h : Valid answered s) (itemId : ι) :
    (s.failed itemId).sentPerDcIndex.length = s.sentPerDcIndex.length :=
  (sent_take (s := { s with
    queue := s.queue.eraseP fun entry => decide (entry.itemId = itemId) }) h.sent _).1

theorem sendDocPart_spec (h : Valid [] s) (now : ℤ) {entry : Entry ι}
    {dcIndex : ℕ} (hdcIndex : dcIndex < s.sentPerDcIndex.length) (hentry : entry ∈ s.queue)
    (hunsent : entry.docPartsSent < entry.docPartsCount) :
    ∃ t result, s.sendDocPart now entry dcIndex = some (t, result) ∧ Sent [] s t result := by
  have haccounted := h.entries entry hentry
  have hqueued := mem_queue_ids.mpr ⟨entry, hentry, rfl⟩
  rw [sendDocPart]
  by_cases hfull : (kMaxUploadPerSession : ℤ) <
      (s.sentPerDcIndex[dcIndex]?).getD 0 + entry.docPartSize
  · dsimp only
    rw [if_pos hfull]
    exact ⟨s, .dcIndexFull, rfl, Sent.full h⟩
  dsimp only
  rw [if_neg hfull, if_neg (not_not_intro hunsent)]
  obtain ⟨md5Hash, docFile, hread⟩ := entry.readDocPart_fst
  generalize entry.readDocPart = read at hread
  obtain ⟨entry', partBytes⟩ := read
  dsimp only at hread ⊢
  subst hread
  have hread : ({ entry with md5Hash := md5Hash, docFile := docFile } : Entry ι).Accounted
      (s.records []) := { haccounted with }
  by_cases hempty : partBytes = []
  · rw [if_pos hempty]
    refine ⟨_, .failed, rfl, ?_⟩
    have hset := h.setEntry hread
    constructor
    · exact hset.failed entry.itemId
    · exact fun _ => busy_maybeFinishFront _
    · exact sessions_failed hset _
    · exact (unsent_failed _ _).trans
        (unsent_setEntry_le h.nodup hentry (le_refl _) rfl)
    · rintro ⟨⟩
    · intro _
      refine (length_failed ?_).trans_eq (List.length_map _)
      rw [setEntry_ids]
      exact hqueued
  rw [if_neg hempty]
  refine ⟨_, .success, rfl, ?_⟩
  have hlt := haccounted.docPartsCount_lt
  have hle := haccounted.docPartsWaiting_le
  have hsent : (entry.docPartsSent + 1) % ushortEnd = entry.docPartsSent + 1 :=
    Nat.mod_eq_of_lt (by omega)
  have hwaiting : (entry.docPartsWaiting + 1) % ushortEnd = entry.docPartsWaiting + 1 :=
    Nat.mod_eq_of_lt (by omega)
  have hless : ({ entry with
      md5Hash := md5Hash
      docFile := docFile
      docPartsSent := entry.docPartsSent + 1
      docPartsWaiting := entry.docPartsWaiting + 1 } : Entry ι).unsent < entry.unsent := by
    apply Nat.add_lt_add_left
    change entry.docPartsCount - (entry.docPartsSent + 1) <
      entry.docPartsCount - entry.docPartsSent
    omega
  rw [hsent, hwaiting]
  constructor
  · refine h.send (setEntry_ids _) rfl rfl rfl rfl (fun r hr => hr) now _ hdcIndex hempty hqueued
      fun e he => ?_
    rcases mem_setEntry he with rfl | ⟨he, hne⟩
    · constructor
      · exact haccounted.parts_lt
      · exact haccounted.parts_ne
      · exact haccounted.partsSent_le
      · exact haccounted.docPartsCount_lt
      · exact hunsent
      · rw [waiting_send, if_neg (by rintro ⟨-, ⟨⟩⟩)]
        exact haccounted.partsWaiting
      · exact haccounted.partsWaiting_le
      · rw [waiting_send, if_pos ⟨rfl, rfl⟩]
        exact congrArg (· + 1) haccounted.docPartsWaiting
      · exact Nat.succ_le_succ hle
    · refine (h.entries e he).congr fun docPart => ?_
      rw [waiting_send, if_neg fun heq => hne heq.1.symm]
      rfl
  · intro hbusy e he
    rcases head_setEntry he with rfl | he
    · simp [Entry.isFinished]
    · exact hbusy e he
  · exact sessions_send _ _ _
  · exact (unsent_setEntry h.nodup hentry hless rfl).le
  · exact fun _ => unsent_setEntry h.nodup hentry hless rfl
  · rintro ⟨⟩

theorem chooseEntry_spec (h : Valid [] s) :
    s.chooseEntryForNextRequest = some none ∨
      ∃ entry ∈ s.queue, s.chooseEntryForNextRequest = some (some entry) ∧
        (∀ request pending, s.pendingFromRemovedDcIndices = request :: pending →
          request.itemId = entry.itemId) ∧
        (s.pendingFromRemovedDcIndices = [] → entry.hasUnsent = true) := by
  rw [chooseEntryForNextRequest]
  cases hpending : s.pendingFromRemovedDcIndices with
  | nil =>
    cases hfind : s.queue.find? Entry.hasUnsent with
    | none => exact Or.inl rfl
    | some entry =>
      refine Or.inr ⟨entry, List.mem_of_find?_eq_some hfind, rfl, ?_, ?_⟩
      · exact fun _ _ heq => absurd heq.symm (List.cons_ne_nil _ _)
      · exact fun _ => List.find?_some hfind
  | cons request pending =>
    have hmem : request ∈ s.records [] := by
      rw [records, hpending]
      exact List.mem_append_right _ List.mem_cons_self
    obtain ⟨entry, hfind⟩ := find_isSome (h.queued request hmem)
    obtain ⟨hentry, hid⟩ := find_spec hfind
    dsimp only
    rw [hfind]
    refine Or.inr ⟨entry, hentry, rfl, ?_, ?_⟩
    · intro first rest heq
      rw [← (List.cons.inj heq).1, hid]
    · exact fun heq => absurd heq (List.cons_ne_nil _ _)

/-- No assertion fails in a send. -/
theorem sendPart_spec (h : Valid [] s) (now : ℤ) {entry : Entry ι}
    {dcIndex : ℕ} (hdcIndex : dcIndex < s.sentPerDcIndex.length) (hentry : entry ∈ s.queue)
    (hpending : ∀ request pending, s.pendingFromRemovedDcIndices = request :: pending →
      request.itemId = entry.itemId)
    (hunsent : s.pendingFromRemovedDcIndices = [] → entry.hasUnsent = true) :
    ∃ t result, s.sendPart now entry dcIndex = some (t, result) ∧ Sent [] s t result := by
  rw [sendPart]
  cases heq : s.pendingFromRemovedDcIndices with
  | cons request pending =>
    rw [if_pos (List.cons_ne_nil _ _)]
    obtain ⟨t, ht⟩ := sendPendingPart_spec h now hdcIndex heq (hpending request pending heq)
    exact ⟨t, .success, ht⟩
  | nil =>
    rw [if_neg (not_not_intro rfl)]
    by_cases hsliced : entry.partsSent < entry.parts.length
    · rw [if_pos hsliced]
      exact sendSlicedPart_spec h now hdcIndex hentry hsliced
    · rw [if_neg hsliced]
      have hdoc := hunsent heq
      rw [Entry.hasUnsent, decide_eq_false hsliced, Bool.false_or, decide_eq_true_eq] at hdoc
      exact sendDocPart_spec h now hdcIndex hentry hdoc

omit [DecidableEq ι] in
theorem leastSent_lt {used : List ℕ} {dcIndex : ℕ} (h : s.leastSent used = some dcIndex) :
    dcIndex < s.sentPerDcIndex.length := by
  have hfold : ∀ i ∈ s.leastSent used, i < s.sentPerDcIndex.length := by
    refine List.foldlRecOn
      (motive := fun result : Option ℕ => ∀ i ∈ result, i < s.sentPerDcIndex.length) _ _
      (fun i hi => absurd hi (Option.not_mem_none i)) ?_
    intro result hresult first hfirst i hi
    rw [List.mem_range] at hfirst
    by_cases hused : first ∈ used
    · rw [if_pos hused] at hi
      exact hresult i hi
    · rw [if_neg hused] at hi
      cases result with
      | none => exact Option.some.inj hi ▸ hfirst
      | some j =>
        dsimp only at hi
        split_ifs at hi
        · exact Option.some.inj hi ▸ hfirst
        · exact hresult i hi
  exact hfold dcIndex h

theorem chooseDcIndex_spec (h : Valid answered s) (now : ℤ) (used : List ℕ) :
    Valid answered (s.chooseDcIndexForNextRequest now used).1 ∧
      (s.chooseDcIndexForNextRequest now used).1.queue = s.queue ∧
      (s.chooseDcIndexForNextRequest now used).1.unsent = s.unsent ∧
      ∀ dcIndex ∈ (s.chooseDcIndexForNextRequest now used).2,
        dcIndex < (s.chooseDcIndexForNextRequest now used).1.sentPerDcIndex.length := by
  rw [chooseDcIndexForNextRequest]
  cases hfind : (List.range s.sentPerDcIndex.length).find? fun i =>
      s.sentPerDcIndex[i]? == some 0 && decide (i ∉ used) with
  | some i =>
    refine ⟨h, rfl, rfl, fun dcIndex heq => ?_⟩
    rw [← Option.some.inj heq]
    exact List.mem_range.mp (List.mem_of_find?_eq_some hfind)
  | none =>
    dsimp only
    by_cases hadd : s.canAddDcIndex = true
    · rw [if_pos hadd]
      refine ⟨?_, rfl, rfl, ?_⟩
      · refine { h with sent := ?_, dcIndex := ?_ }
        · intro d hd
          rw [List.length_append, List.length_singleton] at hd
          by_cases hlast : d < s.sentPerDcIndex.length
          · rw [List.getElem?_append_left hlast]
            exact h.sent d hlast
          · obtain rfl : d = s.sentPerDcIndex.length := by omega
            have hnone : load s.requests s.sentPerDcIndex.length = 0 :=
              load_eq_zero fun request hrequest => (h.dcIndex request hrequest).ne
            rw [List.getElem?_append_right (le_refl _), Nat.sub_self, hnone]
            rfl
        · intro request hrequest
          rw [List.length_append]
          exact Nat.lt_add_right _ (h.dcIndex request hrequest)
      · intro dcIndex heq
        rw [← Option.some.inj heq, List.length_append]
        exact Nat.lt_succ_self _
    · rw [if_neg hadd]
      exact ⟨h, rfl, rfl, fun dcIndex heq => leastSent_lt heq⟩

/-- The inner loop sends a part, finds none to send or finds the session full. -/
theorem sendNext_spec (now : ℤ) {dcIndex : ℕ} {fuel : ℕ} (h : Valid [] s)
    (hbusy : Busy s) (hdcIndex : dcIndex < s.sentPerDcIndex.length)
    (hfuel : s.queue.length < fuel) :
    ∃ t sent, s.sendNext now dcIndex fuel = some (t, sent) ∧ Valid [] t ∧ Busy t ∧
      (sent = true → t.unsent < s.unsent) := by
  induction fuel generalizing s with
  | zero => exact absurd hfuel (Nat.not_lt_zero _)
  | succ fuel ih =>
    rw [sendNext]
    rcases chooseEntry_spec h with hnone | ⟨entry, hentry, hchosen, hpending, hunsent⟩
    · rw [hnone]
      exact ⟨s, false, rfl, h, hbusy, fun heq => nomatch heq⟩
    · rw [hchosen]
      obtain ⟨t, result, hpart, hsent⟩ :=
        sendPart_spec h now hdcIndex hentry hpending hunsent
      dsimp only
      rw [hpart]
      cases result with
      | dcIndexFull => exact ⟨t, false, rfl, hsent.valid, hsent.busy hbusy, fun heq => nomatch heq⟩
      | success => exact ⟨t, true, rfl, hsent.valid, hsent.busy hbusy, fun _ => hsent.success rfl⟩
      | failed =>
        have hless := hsent.failed rfl
        obtain ⟨u, sent, hnext, hvalid, hbusy, hunsent⟩ := ih hsent.valid (hsent.busy hbusy)
          (hsent.sessions ▸ hdcIndex) (by omega)
        exact ⟨u, sent, hnext, hvalid, hbusy, fun heq => (hunsent heq).trans_le hsent.unsent_le⟩

/-- The outer loop ends, as each turn has one part less to send. -/
theorem sendAll_spec (now : ℤ) {fuel : ℕ} (used : List ℕ)
    (h : Valid [] s) (hbusy : Busy s) (hfuel : s.unsent < fuel) :
    ∃ t, s.sendAll now fuel used = some t ∧ Valid [] t ∧ Busy t := by
  induction fuel generalizing s used with
  | zero => exact absurd hfuel (Nat.not_lt_zero _)
  | succ fuel ih =>
    rw [sendAll]
    obtain ⟨hvalid, hqueue, hunsent, hdcIndex⟩ := chooseDcIndex_spec h now used
    generalize s.chooseDcIndexForNextRequest now used = chosen at hvalid hqueue hunsent hdcIndex
    obtain ⟨t, chosen⟩ := chosen
    have hbusy : Busy t := by
      rw [Busy, hqueue]
      exact hbusy
    cases chosen with
    | none => exact ⟨_, rfl, hvalid.of_eq rfl rfl rfl rfl rfl rfl, hbusy⟩
    | some dcIndex =>
      obtain ⟨u, sent, hnext, hvalid, hbusy, hless⟩ := sendNext_spec now hvalid hbusy
        (hdcIndex dcIndex rfl) (Nat.lt_succ_self t.queue.length)
      dsimp only
      rw [hnext]
      cases sent with
      | false => exact ⟨u, rfl, hvalid, hbusy⟩
      | true =>
        have hfewer := hless rfl
        dsimp only at hunsent hfewer
        exact ih _ hvalid hbusy (by omega)

theorem maybeSend_spec (now : ℤ) (h : Valid [] s) (hbusy : Busy s) :
    ∃ t, s.maybeSend now = some t ∧ Valid [] t ∧ Busy t := by
  rw [maybeSend]
  split_ifs
  · exact ⟨_, rfl, h.of_eq rfl rfl rfl rfl rfl rfl, hbusy⟩
  · exact ⟨s, rfl, h, hbusy⟩
  · exact sendAll_spec now [] (h.of_eq rfl rfl rfl rfl rfl rfl) hbusy (Nat.lt_succ_self _)

end Uploader

end TelegramDesktop.Storage
