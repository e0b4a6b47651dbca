import TelegramDesktop.Mtproto.DedicatedFileLoader

namespace TelegramDesktop.Mtproto.DedicatedFileLoader
open Base

variable {document : List UInt8} {front : ℕ} {s : DedicatedLoader} {out : List Output}

/-- The requests are for the parts from the front on, the first of them waits, and those that
wait are in flight as long as nothing failed. -/
structure Holds (document : List UInt8) (front : ℕ) (s : DedicatedLoader) (out : List Output) :
    Prop where
  written : Written document front s.toAbstractDedicatedLoader out
  requests : Consecutive document front s.requests s.offset
  count : s.requests.length ≤ kRequestsCount
  head : ∀ request ∈ s.requests.head?, request.bytes = []
  inFlight : ∀ offset ∈ s.inFlight, ∃ request ∈ s.requests,
    request.offset = offset ∧ request.bytes = []
  nodup : s.inFlight.Nodup
  asked : .failed ∉ out → s.unavailable = 0 → ∀ request ∈ s.requests, request.bytes = [] →
    request.offset ∈ s.inFlight

/-- There is nothing more to ask for, or nothing more can be asked for now, or it will be. -/
def GoesOn (document : List UInt8) (s : DedicatedLoader) : Prop :=
  document.length ≤ s.offset ∨ s.requests.length = kRequestsCount ∨ 0 < s.delayed

theorem Holds.sendRequest (h : Holds document front s out) :
    Holds document front (sendRequest document.length s) out ∧
      GoesOn document (sendRequest document.length s) := by
  rw [DedicatedFileLoader.sendRequest]
  by_cases hno : s.requests.length ≥ kRequestsCount ∨ s.offset ≥ document.length
  · rw [if_pos hno]
    refine ⟨h, ?_⟩
    rcases hno with hfull | hend
    · exact .inr (.inl (le_antisymm h.count hfull))
    · exact .inl hend
  · rw [if_neg hno]
    rw [not_or] at hno
    have hnew : s.offset ∉ s.inFlight := by
      intro hmem
      obtain ⟨request, hrequest, hoffset, -⟩ := h.inFlight _ hmem
      have hbounds := (Consecutive.bounds h.requests).2 request hrequest
      omega
    refine ⟨⟨h.written, h.requests.push (by omega), ?_, ?_, ?_, ?_, ?_⟩, ?_⟩
    · show (s.requests ++ [_]).length ≤ kRequestsCount
      rw [List.length_append, List.length_singleton]
      omega
    · intro request hrequest
      rw [List.head?_append] at hrequest
      rcases hhead : s.requests.head? with _ | first
      · rw [hhead] at hrequest
        rw [← Option.some.inj hrequest]
      · rw [hhead] at hrequest
        rw [← Option.some.inj hrequest]
        exact h.head first hhead
    · intro offset hoffset
      have hcases : offset ∈ s.inFlight ∨ offset = s.offset := by
        by_cases hvalid : s.valid = true
        · rw [if_pos hvalid] at hoffset
          exact (List.mem_append.mp hoffset).imp_right List.mem_singleton.mp
        · rw [if_neg hvalid] at hoffset
          exact .inl hoffset
      rcases hcases with hold | rfl
      · obtain ⟨request, hrequest, hwaits⟩ := h.inFlight offset hold
        exact ⟨request, List.mem_append_left _ hrequest, hwaits⟩
      · exact ⟨_, List.mem_append_right _ (List.mem_singleton_self _), rfl, rfl⟩
    · show (if s.valid = true then _ else _ : List ℕ).Nodup
      split
      · exact List.nodup_append.mpr ⟨h.nodup, List.nodup_singleton _, fun a ha b hb heq => by
          rw [List.mem_singleton.mp hb] at heq
          exact hnew (heq ▸ ha)⟩
      · exact h.nodup
    · intro hfailed hunavailable request hrequest hempty
      change (if s.valid = true then s.unavailable else s.unavailable + 1) = 0 at hunavailable
      have hvalid : s.valid = true := by
        by_contra hinvalid
        rw [if_neg hinvalid] at hunavailable
        exact Nat.succ_ne_zero _ hunavailable
      rw [if_pos hvalid] at hunavailable
      show _ ∈ (if s.valid = true then _ else _ : List ℕ)
      rw [if_pos hvalid]
      rcases List.mem_append.mp hrequest with hold | hlast
      · exact List.mem_append_left _ (h.asked hfailed hunavailable request hold hempty)
      · rw [List.mem_singleton.mp hlast]
        exact List.mem_append_right _ (List.mem_singleton_self _)
    · -- Either the count is reached or the next call is delayed.
      by_cases hmore : (s.requests ++ [({ offset := s.offset } : Request)]).length < kRequestsCount
      · right
        right
        show 0 < (if _ then _ else _ : ℕ)
        rw [if_pos hmore]
        exact Nat.succ_pos _
      · right
        left
        show (s.requests ++ [({ offset := s.offset } : Request)]).length = kRequestsCount
        rw [List.length_append, List.length_singleton] at hmore ⊢
        omega

/-- After a failure some requests are no longer in flight. -/
theorem Holds.failed {inFlight : List ℕ} {unavailable : ℕ} (h : Holds document front s out)
    (hsub : inFlight.Sublist s.inFlight) {more : List Output} (hmore : ∀ o ∈ more, o = .failed)
    (hne : more ≠ []) :
    Holds document front { s with inFlight := inFlight, unavailable := unavailable }
      (out ++ more) := by
  have hfailed : Output.failed ∈ out ++ more := by
    apply List.mem_append_right
    obtain ⟨first, hfirst⟩ := List.exists_mem_of_ne_nil more hne
    exact hmore first hfirst ▸ hfirst
  exact ⟨h.written.append_failed hmore, h.requests, h.count, h.head,
    fun offset hoffset => h.inFlight offset (hsub.subset hoffset), h.nodup.sublist hsub,
    fun hno => absurd hfailed hno⟩

/-- The other requests that wait are those that were there. -/
theorem mem_filled {before after : List Request} {found request : Request} {offset : ℕ}
    {bytes : List UInt8} (hnodup : ((before ++ found :: after).map Request.offset).Nodup)
    (hfound : found.offset = offset) (hne : bytes ≠ []) (hempty : request.bytes = []) :
    request ∈ before ++ { found with bytes := bytes } :: after ↔
      request ∈ before ++ found :: after ∧ request.offset ≠ offset := by
  rw [List.map_append, List.map_cons, List.nodup_append, List.nodup_cons, hfound] at hnodup
  obtain ⟨-, ⟨hafter, -⟩, hbefore⟩ := hnodup
  rw [List.mem_append, List.mem_cons, List.mem_append, List.mem_cons]
  constructor
  · intro hmem
    rcases hmem with hmem | rfl | hmem
    · exact ⟨.inl hmem, hbefore _ (List.mem_map_of_mem hmem) _ List.mem_cons_self⟩
    · exact absurd hempty hne
    · exact ⟨.inr (.inr hmem), fun hat => hafter (hat ▸ List.mem_map_of_mem hmem)⟩
  · intro hmem
    rcases hmem with ⟨hmem | rfl | hmem, hother⟩
    · exact .inl hmem
    · exact absurd hfound hother
    · exact .inr (.inr hmem)

/-- The part that was waited for comes. -/
theorem Holds.gotPart (h : Holds document front s out) (hsize : document.length < 2 ^ 31)
    {offset : ℕ} (hoffset : offset ∈ s.inFlight) {bytes : List UInt8} (hne : bytes ≠ [])
    (hbytes : bytes = partOf document offset) (disk : ℕ → Disk) :
    ∃ front', Holds document front'
        (gotPart document.length (toInt offset) (.file bytes) disk
          { s with inFlight := s.inFlight.erase offset }).1
        (out ++ (gotPart document.length (toInt offset) (.file bytes) disk
          { s with inFlight := s.inFlight.erase offset }).2) ∧
      GoesOn document (gotPart document.length (toInt offset) (.file bytes) disk
          { s with inFlight := s.inFlight.erase offset }).1 := by
  obtain ⟨waiting, hwaiting, hat, -⟩ := h.inFlight offset hoffset
  have hbounds := (Consecutive.bounds h.requests).2 waiting hwaiting
  obtain ⟨before, after, found, heq, hfound, -, hset⟩ := setBytes_eq bytes hwaiting hat
  have hnodup := Consecutive.nodup h.requests
  have hrequests := h.requests
  rw [heq] at hrequests
  have hfilled := hrequests.setBytes hfound hbytes
  obtain ⟨front', hrest, hwritten, hhead, hsuffix, hkept⟩ :=
    writeFront_follows hsize disk hfilled h.written
  have hothers (request : Request) (hempty : request.bytes = []) :
      request ∈ before ++ { found with bytes := bytes } :: after ↔
        request ∈ s.requests ∧ request.offset ≠ offset := by
    rw [heq]
    exact mem_filled (heq ▸ hnodup) hfound hne hempty
  have hholds : Holds document front'
      { s with
        toAbstractDedicatedLoader := (writeFront document.length disk
          (before ++ { found with bytes := bytes } :: after) s.toAbstractDedicatedLoader).2.1
        requests := (writeFront document.length disk
          (before ++ { found with bytes := bytes } :: after) s.toAbstractDedicatedLoader).1
        inFlight := s.inFlight.erase offset }
      (out ++ (writeFront document.length disk
        (before ++ { found with bytes := bytes } :: after) s.toAbstractDedicatedLoader).2.2) := by
    refine ⟨hwritten, hrest, ?_, hhead, ?_, h.nodup.erase _, ?_⟩
    · have hlength := hsuffix.length_le
      have hcount := h.count
      rw [heq] at hcount
      rw [List.length_append, List.length_cons] at hlength hcount
      exact hlength.trans hcount
    · intro other hother
      obtain ⟨hne', hmem⟩ := (h.nodup.mem_erase_iff).mp hother
      obtain ⟨request, hrequest, hrequestOffset, hempty⟩ := h.inFlight other hmem
      refine ⟨request, hkept request ?_ hempty, hrequestOffset, hempty⟩
      exact (hothers request hempty).mpr ⟨hrequest, hrequestOffset ▸ hne'⟩
    · intro hfailed hunavailable request hrequest hempty
      obtain ⟨hmem, hne'⟩ := (hothers request hempty).mp (hsuffix.subset hrequest)
      have hasked := h.asked (fun hf => hfailed (List.mem_append_left _ hf)) hunavailable request
        hmem hempty
      exact (h.nodup.mem_erase_iff).mpr ⟨hne', hasked⟩
  have hrequestsNe : ¬ s.requests.isEmpty = true := by
    intro hnil
    rw [List.isEmpty_iff.mp hnil] at hwaiting
    exact absurd hwaiting List.not_mem_nil
  have hbytesNe : ¬ bytes.isEmpty = true := fun hnil => hne (List.isEmpty_iff.mp hnil)
  refine ⟨front', ?_⟩
  rw [DedicatedFileLoader.gotPart, if_neg hrequestsNe, if_neg hbytesNe, toInt_eq (by omega)]
  dsimp only
  rw [hset]
  exact hholds.sendRequest

/-- What the server sends for a part is the part, or nothing. -/
def Honest (document : List UInt8) : Input → Prop
  | .part offset (.file bytes) _ => bytes = [] ∨ bytes = partOf document offset
  | _ => True

/-- What holds after every event. -/
def Follows (document : List UInt8) (s : DedicatedLoader) (out : List Output) : Prop :=
  ∃ front, Holds document front s out ∧ (.failed ∉ out → GoesOn document s)

theorem Follows.failed {inFlight : List ℕ} {unavailable : ℕ} (h : Follows document s out)
    (hsub : inFlight.Sublist s.inFlight) {more : List Output} (hmore : ∀ o ∈ more, o = .failed)
    (hne : more ≠ []) :
    Follows document { s with inFlight := inFlight, unavailable := unavailable } (out ++ more) := by
  obtain ⟨front, hholds, -⟩ := h
  refine ⟨front, hholds.failed hsub hmore hne, fun hno => absurd ?_ hno⟩
  apply List.mem_append_right
  obtain ⟨first, hfirst⟩ := List.exists_mem_of_ne_nil more hne
  exact hmore first hfirst ▸ hfirst

theorem Follows.failed_once {inFlight : List ℕ} {unavailable : ℕ} (h : Follows document s out)
    (hsub : inFlight.Sublist s.inFlight) :
    Follows document { s with inFlight := inFlight, unavailable := unavailable }
      (out ++ [.failed]) :=
  h.failed hsub (fun _ => List.mem_singleton.mp) (List.cons_ne_nil _ _)

theorem Follows.step (h : Follows document s out) (hsize : document.length < 2 ^ 31)
    {input : Input} (hhonest : Honest document input) :
    Follows document (step document.length s input).1
      (out ++ (step document.length s input).2) := by
  cases input with
  | part offset result disk =>
    rw [DedicatedFileLoader.step]
    by_cases hoffset : offset ∈ s.inFlight
    · rw [if_pos hoffset]
      have hfollows := h
      obtain ⟨front, hholds, -⟩ := h
      obtain ⟨waiting, hwaiting, -⟩ := hholds.inFlight offset hoffset
      have hrequests : ¬ s.requests.isEmpty = true := by
        intro hnil
        rw [List.isEmpty_iff.mp hnil] at hwaiting
        exact absurd hwaiting List.not_mem_nil
      cases result with
      | cdnRedirect =>
        rw [gotPart, if_neg hrequests]
        exact hfollows.failed_once List.erase_sublist
      | file bytes =>
        by_cases hempty : bytes = []
        · rw [gotPart, if_neg hrequests, hempty, if_pos List.isEmpty_nil]
          exact hfollows.failed_once List.erase_sublist
        · obtain ⟨front', hafter, hgoes⟩ :=
            hholds.gotPart hsize hoffset hempty (hhonest.resolve_left hempty) disk
          exact ⟨front', hafter, fun _ => hgoes⟩
    · rw [if_neg hoffset, List.append_nil]
      exact h
  | error offset =>
    rw [DedicatedFileLoader.step]
    by_cases hoffset : offset ∈ s.inFlight
    · rw [if_pos hoffset]
      exact h.failed_once List.erase_sublist
    · rw [if_neg hoffset, List.append_nil]
      exact h
  | delayed =>
    rw [DedicatedFileLoader.step]
    by_cases hnone : s.delayed = 0
    · rw [if_pos hnone, List.append_nil]
      exact h
    · rw [if_neg hnone, List.append_nil]
      obtain ⟨front, hholds, -⟩ := h
      have hbefore : Holds document front { s with delayed := s.delayed - 1 } out :=
        ⟨hholds.written, hholds.requests, hholds.count, hholds.head, hholds.inFlight, hholds.nodup,
          hholds.asked⟩
      exact ⟨front, hbefore.sendRequest.1, fun _ => hbefore.sendRequest.2⟩
  | die =>
    rw [DedicatedFileLoader.step]
    by_cases hnone : s.inFlight = []
    · rw [hnone, List.map_nil, List.append_nil, ← hnone]
      exact h
    · refine h.failed (List.nil_sublist _) (fun o ho => ?_) (mt List.map_eq_nil_iff.mp hnone)
      obtain ⟨offset, -, rfl⟩ := List.mem_map.mp ho
      rfl
  | invalid =>
    obtain ⟨front, hholds, hgoes⟩ := h
    rw [DedicatedFileLoader.step, List.append_nil]
    exact ⟨front, ⟨hholds.written, hholds.requests, hholds.count, hholds.head, hholds.inFlight,
      hholds.nodup, hholds.asked⟩, hgoes⟩
  | unavailable =>
    rw [DedicatedFileLoader.step]
    by_cases hnone : s.unavailable = 0
    · rw [if_pos hnone, List.append_nil]
      exact h
    · rw [if_neg hnone]
      exact h.failed_once (List.Sublist.refl _)

/-- A file that is there from an earlier loading, cut to whole parts, is of the document. -/
def Resumes (document : List UInt8) (opening : Opening) : Prop :=
  ∀ content ∈ opening.existing, kChunkSize ≤ content.length → content.length ≤ kMaxFileSize →
    content.take (content.length - content.length % kChunkSize) <+: document

/-- A loader that has nothing in flight and nothing delayed does nothing more. -/
def Idle (s : DedicatedLoader) : Prop := s.inFlight = [] ∧ s.delayed = 0 ∧ s.unavailable = 0

theorem Idle.step (h : Idle s) (size : ℕ) (input : Input) :
    Idle (step size s input).1 ∧ (step size s input).2 = [] := by
  obtain ⟨hinFlight, hdelayed, hunavailable⟩ := h
  cases input with
  | part offset result stored =>
    rw [DedicatedFileLoader.step, if_neg (hinFlight ▸ List.not_mem_nil)]
    exact ⟨⟨hinFlight, hdelayed, hunavailable⟩, rfl⟩
  | error offset =>
    rw [DedicatedFileLoader.step, if_neg (hinFlight ▸ List.not_mem_nil)]
    exact ⟨⟨hinFlight, hdelayed, hunavailable⟩, rfl⟩
  | delayed =>
    rw [DedicatedFileLoader.step, if_pos hdelayed]
    exact ⟨⟨hinFlight, hdelayed, hunavailable⟩, rfl⟩
  | die =>
    rw [DedicatedFileLoader.step, hinFlight]
    exact ⟨⟨rfl, hdelayed, hunavailable⟩, rfl⟩
  | invalid => exact ⟨⟨hinFlight, hdelayed, hunavailable⟩, rfl⟩
  | unavailable =>
    rw [DedicatedFileLoader.step, if_pos hunavailable]
    exact ⟨⟨hinFlight, hdelayed, hunavailable⟩, rfl⟩

/-- A good output holds the first parts of the document. -/
theorem validateOutput_resumes {opening : Opening} (hresumes : Resumes document opening)
    (hgood : (validateOutput opening).1 = true) :
    (validateOutput opening).2.output <+: document ∧ (validateOutput opening).2.buffer = [] ∧
      (validateOutput opening).2.alreadySize = (validateOutput opening).2.output.length ∧
      (validateOutput opening).2.totalSize = 0 := by
  unfold validateOutput at hgood ⊢
  cases hexisting : opening.existing with
  | none => exact ⟨List.nil_prefix, rfl, rfl, rfl⟩
  | some content =>
    rw [hexisting] at hgood
    dsimp only at hgood ⊢
    by_cases hrange : content.length < kChunkSize ∨ content.length > kMaxFileSize
    · rw [if_pos hrange] at hgood ⊢
      dsimp only at hgood ⊢
      rw [hgood, if_pos rfl]
      exact ⟨List.nil_prefix, rfl, rfl, rfl⟩
    · rw [if_neg hrange] at hgood ⊢
      rw [not_or] at hrange
      cases hresized : opening.resized with
      | false =>
        rw [hresized, if_neg Bool.false_ne_true] at hgood
        exact absurd hgood Bool.false_ne_true
      | true =>
        rw [if_pos rfl]
        refine ⟨hresumes content hexisting (by omega) (by omega), rfl, ?_, rfl⟩
        dsimp only
        rw [List.length_take]
        omega

/-- The first call of `writeChunk`, which writes nothing and sets the total size. -/
theorem written_start (hdocument : 0 < document.length) (hsize : document.length < 2 ^ 31)
    {a : AbstractDedicatedLoader} (houtput : a.output <+: document) (hbuffer : a.buffer = [])
    (hopen : a.isOpen = true) (halready : a.alreadySize = a.output.length)
    (htotal : a.totalSize = 0) (disk : Disk) :
    Written document a.alreadySize (writeChunk disk [] (toInt document.length) a).1
      (writeChunk disk [] (toInt document.length) a).2 := by
  have hle := houtput.length_le
  have hparts : a.output = document.take a.alreadySize := by
    rw [halready]
    exact List.prefix_iff_eq_take.mp houtput
  have hmin : a.alreadySize + 0 = min a.alreadySize document.length := by omega
  rw [writeChunk, List.isEmpty_nil, if_pos rfl]
  dsimp only
  rw [Bool.not_true, if_neg Bool.false_ne_true, htotal, if_pos rfl, toInt_eq hsize, List.length_nil]
  by_cases hend : (document.length : ℤ) > 0 ∧
      ((a.alreadySize + 0 : ℕ) : ℤ) ≥ document.length
  · rw [if_pos hend]
    have hreached : document.length ≤ a.alreadySize := by omega
    have hwhole : a.output ++ a.buffer = document := by
      rw [hbuffer, List.append_nil, hparts]
      exact List.take_of_length_le hreached
    have hshort : a.buffer.length ≤ kWriteBufferSize := by
      rw [hbuffer]
      exact Nat.zero_le _
    have hclosed := close_spec disk
      (a := { a with alreadySize := a.alreadySize + 0, totalSize := document.length })
      hwhole hshort [] [.ready]
    obtain ⟨hquiet, hasserted⟩ := not_mem_close disk
      { a with alreadySize := a.alreadySize + 0, totalSize := document.length }
    have hready : ∀ more : List Output, Output.ready ∈ more ++ [.ready] :=
      fun more => List.mem_append_right _ (List.mem_singleton_self _)
    refine ⟨rfl, .inl ⟨hmin, fun hr => absurd (hready _) hr⟩, fun _ => ⟨hclosed, hreached⟩,
      fun hr => absurd (hready _) hr, fun _ _ => hready _, ?_, ?_⟩
    · rw [List.count_append, List.count_eq_zero_of_not_mem hquiet]
      exact le_refl 1
    · intro ha
      rcases List.mem_append.mp ha with ha | ha
      · exact hasserted ha
      · exact Output.noConfusion (List.mem_singleton.mp ha)
  · rw [if_neg hend]
    refine ⟨rfl, .inl ⟨hmin, fun _ => ⟨hparts, hbuffer⟩⟩, fun hr => ?_, fun _ => hopen,
      fun hreached => ?_, Nat.zero_le 1, ?_⟩
    · exact Output.noConfusion (List.mem_singleton.mp hr)
    · omega
    · exact fun ha => Output.noConfusion (List.mem_singleton.mp ha)

/-- The loader after the start has failed for good, or follows the document. -/
theorem start_follows (hdocument : 0 < document.length) (hsize : document.length < 2 ^ 31)
    {opening : Opening} (hresumes : Resumes document opening) (valid : Bool) (disk : Disk) :
    (Idle (start document.length opening valid disk).1 ∧
      (start document.length opening valid disk).2 = [.failed]) ∨
    Follows document (start document.length opening valid disk).1
      (start document.length opening valid disk).2 := by
  rw [start]
  dsimp only
  by_cases hbad : (!(validateOutput opening).1 || !opening.opened) = true
  · rw [if_pos hbad]
    exact .inl ⟨⟨rfl, rfl, rfl⟩, rfl⟩
  · rw [if_neg hbad, startLoading]
    cases valid with
    | false => exact .inl ⟨⟨rfl, rfl, rfl⟩, rfl⟩
    | true =>
      right
      have hgood : (validateOutput opening).1 = true := by
        cases hvalidate : (validateOutput opening).1 with
        | true => rfl
        | false =>
          rw [hvalidate] at hbad
          exact absurd rfl hbad
      obtain ⟨houtput, hbuffer, halready, htotal⟩ := validateOutput_resumes hresumes hgood
      have hwritten := written_start (a := { (validateOutput opening).2 with isOpen := true })
        hdocument hsize houtput hbuffer rfl halready htotal disk
      let first := writeChunk disk [] (toInt document.length)
        { (validateOutput opening).2 with isOpen := true }
      have hholds : Holds document (validateOutput opening).2.alreadySize
          { first.1 with valid := true, offset := (validateOutput opening).2.alreadySize }
          first.2 :=
        ⟨hwritten, rfl, Nat.zero_le _, fun request hr => absurd hr (Option.not_mem_none _),
          fun offset ho => absurd ho List.not_mem_nil, List.nodup_nil,
          fun _ _ request hr => absurd hr List.not_mem_nil⟩
      exact ⟨_, hholds.sendRequest.1, fun _ => hholds.sendRequest.2⟩

/-- What can be said of what was fired, and of the file. -/
structure Safe (document : List UInt8) (s : DedicatedLoader) (out : List Output) : Prop where
  whole : .ready ∈ out → Closed document s.output out
  once : out.count .ready ≤ 1
  asserted : .asserted ∉ out
  ordered : .failed ∉ out → .ready ∉ out →
    s.output <+: document ∧ s.buffer = [] ∧ s.alreadySize = s.output.length
  completes : .failed ∉ out → Idle s → .ready ∈ out

theorem Follows.safe (h : Follows document s out) : Safe document s out := by
  obtain ⟨front, hholds, hgoes⟩ := h
  have hwritten := hholds.written
  refine ⟨fun hr => (hwritten.ready hr).1, hwritten.once, hwritten.asserted,
    fun hfailed hready => ?_, fun hfailed hidle => ?_⟩
  · obtain ⟨halready, hclean⟩ := hwritten.parts.resolve_right fun hshort => hfailed hshort.2
    obtain ⟨houtput, hbuffer⟩ := hclean hready
    rw [houtput, halready, List.length_take]
    exact ⟨List.take_prefix _ _, hbuffer, rfl⟩
  · have hnone : s.requests = [] := by
      cases hrequests : s.requests with
      | nil => rfl
      | cons first rest =>
        have hfirst : first ∈ s.requests := hrequests ▸ List.mem_cons_self
        have hempty : first.bytes = [] := hholds.head first (by rw [hrequests]; rfl)
        have hasked := hholds.asked hfailed hidle.2.2 first hfirst hempty
        rw [hidle.1] at hasked
        exact absurd hasked List.not_mem_nil
    have hfront : front = s.offset := by
      have hrequests := hholds.requests
      rw [hnone] at hrequests
      exact hrequests
    apply hwritten.reached _ hfailed
    rcases hgoes hfailed with hend | hfull | hdelayed
    · rw [hfront]
      exact hend
    · rw [hnone] at hfull
      exact absurd hfull (by decide)
    · exact absurd hdelayed (by rw [hidle.2.1]; exact lt_irrefl 0)

/-- In whatever order parts, errors and the end of the session come, whatever writes fail: the
file is the document when ready is fired, which is once, but for a short last part that could not
be written when the file was closed; before it and before a failure the file is a prefix of the
document, and when there is nothing more to wait for ready was fired. -/
theorem run_safe (hdocument : 0 < document.length) (hsize : document.length < 2 ^ 31)
    {opening : Opening} (hresumes : Resumes document opening) (valid : Bool) (disk : Disk)
    {inputs : List Input} (hhonest : ∀ input ∈ inputs, Honest document input) :
    let first := start document.length opening valid disk
    let r := run (step document.length) first.1 inputs
    Safe document r.1 (first.2 ++ r.2) := by
  intro first
  rcases start_follows hdocument hsize hresumes valid disk with ⟨hidle, hout⟩ | hfollows
  · have hrun := run_invariant (step document.length) (fun _ s out => Idle s ∧ out = [])
      (s := first.1) ⟨hidle, rfl⟩
      (fun _ s out input hbefore => by
        obtain ⟨hnext, hnone⟩ := hbefore.1.step document.length input
        rw [hbefore.2, hnone]
        exact ⟨hnext, rfl⟩) inputs
    have hfailed : first.2 ++ (run (step document.length) first.1 inputs).2 = [.failed] := by
      rw [hrun.2, List.append_nil]
      exact hout
    dsimp only
    rw [hfailed]
    have hin : Output.failed ∈ [Output.failed] := List.mem_singleton_self _
    refine ⟨fun hr => ?_, Nat.zero_le 1, fun ha => ?_, fun hno _ => absurd hin hno,
      fun hno => absurd hin hno⟩
    · exact Output.noConfusion (List.mem_singleton.mp hr)
    · exact Output.noConfusion (List.mem_singleton.mp ha)
  · have hrun := runMeets_invariant (step document.length) (fun _ input => Honest document input)
      (fun _ s out => Follows document s (first.2 ++ out)) (s := first.1)
      (by rw [List.append_nil]; exact hfollows)
      (fun _ s out input hbefore hinput => by
        rw [← List.append_assoc]
        exact hbefore.step hsize hinput) inputs (runMeets_of_forall _ _ hhonest)
    exact hrun.safe

/-- A document of three parts and five bytes, whose first part is there from before. -/
def sampleDocument : List UInt8 := List.replicate (3 * kChunkSize + 5) 7

def sampleOpening : Opening where
  existing := some (List.replicate (kChunkSize + 3) 7)
  removed := true
  resized := true
  opened := true

def sampleDisk : Disk := ⟨kWriteBufferSize, kChunkSize, kWriteBufferSize⟩

/-- The third part comes before the second, and the last five bytes are not written. -/
def sampleInputs : List Input := [
  .delayed,
  .part (2 * kChunkSize) (.file (partOf sampleDocument (2 * kChunkSize))) fun _ => sampleDisk,
  .part kChunkSize (.file (partOf sampleDocument kChunkSize)) fun _ => sampleDisk,
  .part (3 * kChunkSize) (.file (partOf sampleDocument (3 * kChunkSize))) fun _ => ⟨0, 0, 0⟩]

theorem run_safe_sample :
    let first := start sampleDocument.length sampleOpening true sampleDisk
    let r := run (step sampleDocument.length) first.1 sampleInputs
    Safe sampleDocument r.1 (first.2 ++ r.2) := by
  have hlength : sampleDocument.length = 3 * kChunkSize + 5 := List.length_replicate
  have hresumes : Resumes sampleDocument sampleOpening := by
    intro content hcontent _ _
    obtain rfl := Option.some.inj hcontent
    rw [List.take_replicate]
    refine ⟨List.replicate (2 * kChunkSize + 5) 7, ?_⟩
    rw [← List.replicate_add, List.length_replicate, sampleDocument]
    congr 1
  refine run_safe (by rw [hlength]; omega) ?_ hresumes true sampleDisk ?_
  · rw [hlength, kChunkSize]
    omega
  · intro input hinput
    simp only [sampleInputs, List.mem_cons, List.not_mem_nil, or_false] at hinput
    rcases hinput with rfl | rfl | rfl | rfl
    · trivial
    · exact .inr rfl
    · exact .inr rfl
    · exact .inr rfl

end TelegramDesktop.Mtproto.DedicatedFileLoader
