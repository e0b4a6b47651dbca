import Mathlib

namespace TelegramDesktop.Storage

def kPartSize : ℕ := 128 * 1024

def kRequestPartsCount : ℤ := 32

def partsCount (size : ℕ) : ℕ := (size + kPartSize - 1) / kPartSize

structure StreamedFileDownloader (size : ℕ) where
  partIsSaved : List Bool := List.replicate (partsCount size) false
  nextPartIndex : ℕ := 0
  partsRequested : ℤ := 0
  partsSaved : ℤ := 0
  finished : Bool := false
  cancelled : Bool := false
  /-- The offsets the reader was asked to load since it was last told to cancel. -/
  offsetsAsked : List ℕ := []

namespace StreamedFileDownloader

variable {size : ℕ}

/-- The first part from `nextPartIndex` on that is not saved, the parts count when all are. -/
def firstUnsaved (s : StreamedFileDownloader size) : ℕ :=
  s.nextPartIndex + (s.partIsSaved.drop s.nextPartIndex).idxOf false

def requestPart (s : StreamedFileDownloader size) : StreamedFileDownloader size :=
  let index := s.firstUnsaved
  if index = partsCount size then
    { s with nextPartIndex := partsCount size }
  else
    { s with
      nextPartIndex := index + 1
      offsetsAsked := s.offsetsAsked ++ [index * kPartSize]
      partsRequested := s.partsRequested + 1 }

theorem nextPartIndex_lt_requestPart {s : StreamedFileDownloader size}
    (h : s.nextPartIndex < partsCount size) :
    s.nextPartIndex < s.requestPart.nextPartIndex := by
  unfold requestPart firstUnsaved
  dsimp only
  split_ifs
  · exact h
  · exact Nat.lt_succ_of_le (Nat.le_add_right _ _)

/-- The reader goes on by itself: what it has loaded comes back later, one `savePart` each. -/
def requestParts (s : StreamedFileDownloader size) : StreamedFileDownloader size :=
  if h : s.finished = false ∧ s.nextPartIndex < partsCount size ∧
      s.partsRequested < kRequestPartsCount then
    s.requestPart.requestParts
  else s
termination_by partsCount size - s.nextPartIndex
decreasing_by
  have := nextPartIndex_lt_requestPart h.2.1
  omega

def cancelHook (s : StreamedFileDownloader size) : StreamedFileDownloader size :=
  { s with partsRequested := 0, nextPartIndex := 0, offsetsAsked := [] }

/-- The part of `FileLoader::cancel` that this class sees. -/
def cancel (s : StreamedFileDownloader size) : StreamedFileDownloader size :=
  { s.cancelHook with cancelled := true, finished := true }

def finalizeResult (s : StreamedFileDownloader size) (written : Bool) :
    StreamedFileDownloader size :=
  if written then { s with finished := true } else s.cancel

def markSaved (s : StreamedFileDownloader size) (index : ℕ) : StreamedFileDownloader size :=
  { s with
    partIsSaved := s.partIsSaved.set index true
    partsSaved := s.partsSaved + 1
    partsRequested :=
      if index < s.nextPartIndex then s.partsRequested - 1 else s.partsRequested }

/-- `partWritten` and `resultWritten` say whether the writes to the disk succeed; `none` is a
failed expectation. -/
def savePart (s : StreamedFileDownloader size) (offset : ℕ) (partWritten resultWritten : Bool) :
    Option (StreamedFileDownloader size) :=
  if offset < size ∧ offset % kPartSize = 0 then
    let index := offset / kPartSize
    if s.finished || s.cancelled then some s
    else if s.partIsSaved.getD index false then some s
    else
      let s := s.markSaved index
      if !partWritten then some s.cancel
      else if s.partsSaved = partsCount size then some (s.finalizeResult resultWritten)
      else some s.requestParts
  else none

inductive Op
  | requestParts
  | savePart (offset : ℕ) (partWritten resultWritten : Bool)
  | cancelHook
  | cancel

def step (s : StreamedFileDownloader size) : Op → Option (StreamedFileDownloader size)
  | .requestParts => some s.requestParts
  | .savePart offset partWritten resultWritten => s.savePart offset partWritten resultWritten
  | .cancelHook => some s.cancelHook
  | .cancel => some s.cancel

def run (s : StreamedFileDownloader size) (ops : List Op) :
    Option (StreamedFileDownloader size) :=
  ops.foldlM step s

/-- A part the reader was asked for and that has not come back. -/
def Outstanding (s : StreamedFileDownloader size) (i : ℕ) : Prop :=
  i < s.nextPartIndex ∧ s.partIsSaved[i]? = some false ∧ i * kPartSize ∈ s.offsetsAsked

structure Kept (s : StreamedFileDownloader size) : Prop where
  length : s.partIsSaved.length = partsCount size
  saved : s.partsSaved = s.partIsSaved.count true
  requested : s.partsRequested = (s.partIsSaved.take s.nextPartIndex).count false
  window : s.partsRequested ≤ kRequestPartsCount
  next : s.nextPartIndex ≤ partsCount size
  asked : ∀ i < s.nextPartIndex, s.partIsSaved[i]? = some false →
    i * kPartSize ∈ s.offsetsAsked

theorem Kept.start : Kept ({} : StreamedFileDownloader size) where
  length := List.length_replicate
  saved := by simp [List.count_replicate]
  requested := by simp
  window := by simp [kRequestPartsCount]
  next := Nat.zero_le _
  asked := fun i hi => absurd hi (Nat.not_lt_zero i)

theorem Kept.cancelHook {s : StreamedFileDownloader size} (hs : Kept s) : Kept s.cancelHook where
  length := hs.length
  saved := hs.saved
  requested := by simp [StreamedFileDownloader.cancelHook]
  window := by simp [StreamedFileDownloader.cancelHook, kRequestPartsCount]
  next := Nat.zero_le _
  asked := fun i hi => absurd hi (Nat.not_lt_zero i)

theorem Kept.cancel {s : StreamedFileDownloader size} (hs : Kept s) : Kept s.cancel where
  __ := hs.cancelHook

theorem Kept.finalizeResult {s : StreamedFileDownloader size} (hs : Kept s) (written : Bool) :
    Kept (s.finalizeResult written) := by
  unfold StreamedFileDownloader.finalizeResult
  split_ifs
  · exact { hs with }
  · exact hs.cancel

theorem not_mem_take_idxOf (l : List Bool) : false ∉ l.take (l.idxOf false) := by
  induction l with
  | nil => simp
  | cons b l ih => cases b <;> simp [ih]

/-- The parts that are skipped are saved ones. -/
theorem count_take_firstUnsaved (s : StreamedFileDownloader size) :
    (s.partIsSaved.take s.firstUnsaved).count false =
      (s.partIsSaved.take s.nextPartIndex).count false := by
  have hskipped := List.count_eq_zero.mpr (not_mem_take_idxOf (s.partIsSaved.drop s.nextPartIndex))
  rw [firstUnsaved, List.take_add, List.count_append, hskipped, Nat.add_zero]

theorem Kept.firstUnsaved_le {s : StreamedFileDownloader size} (hs : Kept s) :
    s.firstUnsaved ≤ partsCount size := by
  have hle := List.idxOf_le_length (a := false) (l := s.partIsSaved.drop s.nextPartIndex)
  rw [List.length_drop, hs.length] at hle
  have hnext := hs.next
  unfold firstUnsaved
  omega

theorem Kept.get_firstUnsaved {s : StreamedFileDownloader size} (hs : Kept s)
    (hne : s.firstUnsaved ≠ partsCount size) : s.partIsSaved[s.firstUnsaved]? = some false := by
  have hlt : (s.partIsSaved.drop s.nextPartIndex).idxOf false <
      (s.partIsSaved.drop s.nextPartIndex).length := by
    have hle := hs.firstUnsaved_le
    have hnext := hs.next
    unfold firstUnsaved at hle hne
    rw [List.length_drop, hs.length]
    omega
  have hget := List.getElem?_idxOf (List.idxOf_lt_length_iff.mp hlt)
  rwa [List.getElem?_drop] at hget

/-- A part before the first unsaved one was passed by before, or is saved. -/
theorem lt_nextPartIndex_of_lt_firstUnsaved {s : StreamedFileDownloader size} {i : ℕ}
    (hi : i < s.firstUnsaved) (hget : s.partIsSaved[i]? = some false) : i < s.nextPartIndex := by
  by_contra hge
  obtain ⟨d, rfl⟩ := Nat.exists_eq_add_of_le (Nat.le_of_not_lt hge)
  apply not_mem_take_idxOf (s.partIsSaved.drop s.nextPartIndex)
  have hd : d < (s.partIsSaved.drop s.nextPartIndex).idxOf false := by
    unfold firstUnsaved at hi
    omega
  rw [← List.getElem?_drop] at hget
  exact List.mem_of_getElem? ((List.getElem?_take_of_lt hd).trans hget)

theorem Kept.requestPart {s : StreamedFileDownloader size} (hs : Kept s)
    (hwindow : s.partsRequested < kRequestPartsCount) : Kept s.requestPart := by
  unfold StreamedFileDownloader.requestPart
  dsimp only
  have hcount := count_take_firstUnsaved s
  split_ifs with hindex
  · -- all is saved from here on, so nothing new is asked for
    rw [hindex] at hcount
    exact
      { length := hs.length
        saved := hs.saved
        requested := hs.requested.trans (congrArg _ hcount.symm)
        window := hs.window
        next := le_refl _
        asked := fun i hi hget =>
          hs.asked i (lt_nextPartIndex_of_lt_firstUnsaved (hindex.symm ▸ hi) hget) hget }
  · have hget := hs.get_firstUnsaved hindex
    refine
      { length := hs.length
        saved := hs.saved
        requested := ?_
        window := Int.add_one_le_iff.mpr hwindow
        next := Nat.lt_of_le_of_ne hs.firstUnsaved_le hindex
        asked := fun i hi hi' => ?_ }
    · change s.partsRequested + 1 = _
      rw [List.take_add_one, hget, List.count_append, hcount, hs.requested]
      simp
    · apply List.mem_append.mpr
      rcases Nat.lt_succ_iff_lt_or_eq.mp hi with hi | rfl
      · exact Or.inl (hs.asked i (lt_nextPartIndex_of_lt_firstUnsaved hi hi') hi')
      · exact Or.inr (List.mem_singleton.mpr rfl)

@[simp] theorem finished_requestPart (s : StreamedFileDownloader size) :
    s.requestPart.finished = s.finished := by
  unfold StreamedFileDownloader.requestPart
  dsimp only
  split_ifs <;> rfl

theorem Kept.requestParts {s : StreamedFileDownloader size} (hs : Kept s) :
    Kept s.requestParts := by
  fun_induction StreamedFileDownloader.requestParts s with
  | case1 s h ih => exact ih (hs.requestPart h.2.2)
  | case2 s h => exact hs

theorem finished_requestParts (s : StreamedFileDownloader size) :
    s.requestParts.finished = s.finished := by
  fun_induction StreamedFileDownloader.requestParts s with
  | case1 s h ih => exact ih.trans (finished_requestPart s)
  | case2 s h => rfl

/-- The loop stops only when every part was passed by or the window is full. -/
theorem Kept.filled {s : StreamedFileDownloader size} (hs : Kept s) (hf : s.finished = false) :
    s.requestParts.nextPartIndex = partsCount size ∨
      s.requestParts.partsRequested = kRequestPartsCount := by
  fun_induction StreamedFileDownloader.requestParts s with
  | case1 s h ih => exact ih (hs.requestPart h.2.2) ((finished_requestPart s).trans hf)
  | case2 s h =>
    have hnext := hs.next
    have hwindow := hs.window
    simp only [hf, true_and, not_and, not_lt] at h
    rcases hnext.eq_or_lt with hnext | hnext
    · exact Or.inl hnext
    · exact Or.inr (le_antisymm hwindow (h hnext))

theorem Kept.markSaved {s : StreamedFileDownloader size} (hs : Kept s) {index : ℕ}
    (hget : s.partIsSaved[index]? = some false) : Kept (s.markSaved index) := by
  have hindex : index < s.partIsSaved.length := (List.getElem?_eq_some_iff.mp hget).1
  have hvalue : s.partIsSaved[index] = false := (List.getElem?_eq_some_iff.mp hget).2
  have hwindow := hs.window
  refine
    { length := (List.length_set ..).trans hs.length
      saved := ?_
      requested := ?_
      window := ?_
      next := hs.next
      asked := fun i hi hi' => ?_ }
  · change s.partsSaved + 1 = _
    rw [StreamedFileDownloader.markSaved, List.count_set hindex, hvalue, hs.saved]
    simp
  · dsimp only [StreamedFileDownloader.markSaved]
    rw [List.take_set, hs.requested]
    split_ifs with hlt
    · -- only a part that was passed by counts as requested
      have hmem : index < (s.partIsSaved.take s.nextPartIndex).length := by
        rw [List.length_take]
        omega
      have hpos : 0 < (s.partIsSaved.take s.nextPartIndex).count false := by
        apply List.count_pos_iff.mpr
        exact List.mem_of_getElem? ((List.getElem?_take_of_lt hlt).trans hget)
      rw [List.count_set hmem, List.getElem_take, hvalue]
      simp only [beq_self_eq_true, if_true, Bool.true_beq, Bool.false_eq_true, if_false]
      omega
    · rw [List.set_eq_of_length_le]
      rw [List.length_take]
      omega
  · dsimp only [StreamedFileDownloader.markSaved]
    split_ifs <;> omega
  · -- the part that came back is not owed any more
    apply hs.asked i hi
    change (s.partIsSaved.set index true)[i]? = some false at hi'
    rcases eq_or_ne index i with rfl | hne
    · rw [List.getElem?_set_self hindex] at hi'
      exact absurd hi' (by decide)
    · rwa [List.getElem?_set_ne hne] at hi'

theorem index_lt {offset : ℕ} (h : offset < size) : offset / kPartSize < partsCount size := by
  have hpart : 0 < kPartSize := by decide
  rw [partsCount, Nat.div_lt_iff_lt_mul hpart]
  have hmod := Nat.div_add_mod (size + kPartSize - 1) kPartSize
  have hlt := Nat.mod_lt (size + kPartSize - 1) hpart
  rw [Nat.mul_comm] at hmod
  omega

theorem Kept.savePart {s t : StreamedFileDownloader size} (hs : Kept s) {offset : ℕ}
    {partWritten resultWritten : Bool}
    (h : s.savePart offset partWritten resultWritten = some t) : Kept t := by
  unfold StreamedFileDownloader.savePart at h
  dsimp only at h
  split_ifs at h with hoffset hclosed hsaved hfailed hlast
  · exact Option.some.inj h ▸ hs
  · exact Option.some.inj h ▸ hs
  -- the part is new
  all_goals
    have hindex : offset / kPartSize < s.partIsSaved.length := hs.length ▸ index_lt hoffset.1
    have hget : s.partIsSaved[offset / kPartSize]? = some false := by
      rw [List.getD_eq_getElem?_getD, List.getElem?_eq_getElem hindex] at hsaved
      rw [List.getElem?_eq_getElem hindex]
      simpa using hsaved
    have hmarked := hs.markSaved hget
    rw [← Option.some.inj h]
  · exact hmarked.cancel
  · exact hmarked.finalizeResult resultWritten
  · exact hmarked.requestParts

theorem Kept.step {s t : StreamedFileDownloader size} (hs : Kept s) {op : Op}
    (h : s.step op = some t) : Kept t := by
  cases op with
  | requestParts => exact Option.some.inj h ▸ hs.requestParts
  | savePart offset partWritten resultWritten => exact hs.savePart h
  | cancelHook => exact Option.some.inj h ▸ hs.cancelHook
  | cancel => exact Option.some.inj h ▸ hs.cancel

theorem Kept.run {ops : List Op} {s t : StreamedFileDownloader size} (hs : Kept s)
    (h : s.run ops = some t) : Kept t := by
  induction ops generalizing s with
  | nil => exact Option.some.inj h ▸ hs
  | cons op ops ih =>
    obtain ⟨next, hnext, hrest⟩ := Option.bind_eq_some_iff.mp h
    exact ih (hs.step hnext) hrest

/-- With a part unsaved the filled window holds one that the reader still owes. -/
theorem Kept.outstanding {s : StreamedFileDownloader size} (hs : Kept s)
    (hunsaved : false ∈ s.partIsSaved)
    (hfilled : s.nextPartIndex = partsCount size ∨ s.partsRequested = kRequestPartsCount) :
    ∃ i, s.Outstanding i := by
  have hmem : false ∈ s.partIsSaved.take s.nextPartIndex := by
    rcases hfilled with hnext | hfull
    · rwa [hnext, ← hs.length, List.take_length]
    · apply List.count_pos_iff.mp
      have hrequested := hs.requested
      rw [hfull, kRequestPartsCount] at hrequested
      omega
  obtain ⟨i, hi⟩ := List.getElem?_of_mem hmem
  have hlt : i < s.nextPartIndex := by
    have := (List.getElem?_eq_some_iff.mp hi).1
    rw [List.length_take] at this
    omega
  rw [List.getElem?_take_of_lt hlt] at hi
  exact ⟨i, hlt, hi, hs.asked i hlt hi⟩

/-- What a downloader that has just requested parts is owed. -/
structure Filled (s : StreamedFileDownloader size) : Prop where
  outstanding : ∃ i, s.Outstanding i
  full : s.nextPartIndex = partsCount size ∨
    s.nextPartIndex < partsCount size ∧ s.partsRequested = kRequestPartsCount

theorem Kept.filled_requestParts {s : StreamedFileDownloader size} (hs : Kept s)
    (hfinished : s.requestParts.finished = false) (hunsaved : false ∈ s.requestParts.partIsSaved) :
    Filled s.requestParts := by
  have hfilled := hs.filled ((finished_requestParts s).symm.trans hfinished)
  refine ⟨hs.requestParts.outstanding hunsaved hfilled, ?_⟩
  rcases hs.requestParts.next.eq_or_lt with hnext | hnext
  · exact Or.inl hnext
  · exact Or.inr ⟨hnext, hfilled.resolve_left hnext.ne⟩

/-- A part that is saved either ends the loading or makes the downloader request more. -/
theorem Kept.filled_savePart {s t : StreamedFileDownloader size} (hs : Kept s) {offset : ℕ}
    {partWritten resultWritten : Bool}
    (h : s.savePart offset partWritten resultWritten = some t)
    (hnew : s.partIsSaved[offset / kPartSize]? = some false) (hopen : s.cancelled = false)
    (hfinished : t.finished = false) (hunsaved : false ∈ t.partIsSaved) : Filled t := by
  unfold StreamedFileDownloader.savePart at h
  dsimp only at h
  split_ifs at h with hoffset hclosed hsaved hfailed hlast
  · rw [hopen, Option.some.inj h, hfinished] at hclosed
    exact nomatch hclosed
  · rw [List.getD_eq_getElem?_getD, hnew] at hsaved
    exact nomatch hsaved
  · rw [← Option.some.inj h] at hfinished
    exact nomatch hfinished
  · rw [← Option.some.inj h, StreamedFileDownloader.finalizeResult] at hfinished
    split_ifs at hfinished <;> exact nomatch hfinished
  · obtain rfl := Option.some.inj h
    exact (hs.markSaved hnew).filled_requestParts hfinished hunsaved

/-- The offsets `savePart` is promised. -/
def Op.Valid (size : ℕ) : Op → Prop
  | .savePart offset _ _ => offset < size ∧ offset % kPartSize = 0
  | _ => True

theorem run_of_valid {ops : List Op} (hops : ∀ op ∈ ops, op.Valid size)
    (s : StreamedFileDownloader size) : ∃ t, s.run ops = some t := by
  induction ops generalizing s with
  | nil => exact ⟨s, rfl⟩
  | cons op ops ih =>
    have hstep : ∃ t, s.step op = some t := by
      have hop := hops op List.mem_cons_self
      cases op with
      | savePart offset partWritten resultWritten =>
        change ∃ t, s.savePart offset partWritten resultWritten = some t
        unfold savePart
        dsimp only
        change offset < size ∧ offset % kPartSize = 0 at hop
        rw [if_pos hop]
        split_ifs <;> exact ⟨_, rfl⟩
      | _ => exact ⟨_, rfl⟩
    obtain ⟨t, ht⟩ := hstep
    obtain ⟨u, hu⟩ := ih (fun op hop => hops op (List.mem_cons_of_mem _ hop)) t
    exact ⟨u, Option.bind_eq_some_iff.mpr ⟨t, ht, hu⟩⟩

@[simp] theorem partIsSaved_requestParts (s : StreamedFileDownloader size) :
    s.requestParts.partIsSaved = s.partIsSaved := by
  fun_induction requestParts s with
  | case1 s hopen ih =>
    rw [ih]
    unfold requestPart
    dsimp only
    split_ifs
    · rfl
    · rfl
  | case2 s hopen => rfl

/-- A part comes while the loader is open. -/
def Comes (s : StreamedFileDownloader size) (i : ℕ) : Op → Prop
  | .savePart offset _ _ => offset / kPartSize = i ∧ s.finished = false ∧ s.cancelled = false
  | _ => False

/-- A step saves the part that comes and no other. -/
theorem Kept.saved_step {s t : StreamedFileDownloader size} (hs : Kept s) {op : Op}
    (h : s.step op = some t) (i : ℕ) :
    t.partIsSaved[i]? = some true ↔ s.partIsSaved[i]? = some true ∨ Comes s i op := by
  cases op with
  | requestParts =>
    rw [← Option.some.inj h, partIsSaved_requestParts]
    exact (or_iff_left id).symm
  | cancelHook =>
    rw [← Option.some.inj h]
    exact (or_iff_left id).symm
  | cancel =>
    rw [← Option.some.inj h]
    exact (or_iff_left id).symm
  | savePart offset partWritten resultWritten =>
    change s.savePart offset partWritten resultWritten = some t at h
    unfold StreamedFileDownloader.savePart at h
    dsimp only at h
    rw [Comes]
    split_ifs at h with hoffset hclosed hsaved hfailed hlast
    · -- it comes too late
      rw [← Option.some.inj h, or_iff_left]
      rintro ⟨-, hfinished, hcancelled⟩
      rw [hfinished, hcancelled] at hclosed
      exact absurd hclosed Bool.false_ne_true
    · -- it is there already
      rw [← Option.some.inj h]
      refine (or_iff_left_of_imp ?_).symm
      rintro ⟨rfl, -⟩
      rw [List.getD_eq_getElem?_getD] at hsaved
      cases hget : s.partIsSaved[offset / kPartSize]? with
      | none =>
        rw [hget] at hsaved
        exact absurd hsaved Bool.false_ne_true
      | some saved =>
        rw [hget] at hsaved
        exact congrArg some hsaved
    all_goals
      have hindex : offset / kPartSize < s.partIsSaved.length := hs.length ▸ index_lt hoffset.1
      have hopen : s.finished = false ∧ s.cancelled = false := by simpa using hclosed
      have hset : t.partIsSaved = s.partIsSaved.set (offset / kPartSize) true := by
        rw [← Option.some.inj h]
        first
          | rfl
          | exact partIsSaved_requestParts _
          | (unfold StreamedFileDownloader.finalizeResult; split_ifs <;> rfl)
      rw [hset, List.getElem?_set]
      by_cases heq : offset / kPartSize = i
      · subst heq
        simp [hindex, hopen]
      · simp [heq]

/-- Exactly the parts that came while the loader was open are saved. -/
theorem saved_iff_came {ops : List Op} {s : StreamedFileDownloader size} (h : run {} ops = some s)
    (i : ℕ) : s.partIsSaved[i]? = some true ↔
      ∃ before op after t, ops = before ++ op :: after ∧
        run {} before = some (t : StreamedFileDownloader size) ∧ Comes t i op := by
  induction ops using List.reverseRecOn generalizing s with
  | nil =>
    rw [← Option.some.inj h]
    refine iff_of_false (fun hget => ?_) ?_
    · have hmem := List.mem_of_getElem? hget
      exact Bool.false_ne_true (List.eq_of_mem_replicate hmem).symm
    · rintro ⟨before, op, after, t, hnil, -⟩
      exact List.append_ne_nil_of_right_ne_nil _ (List.cons_ne_nil _ _) hnil.symm
  | append_singleton ops last ih =>
    rw [run, List.foldlM_append] at h
    obtain ⟨t, hfold, hlast⟩ := Option.bind_eq_some_iff.mp h
    have ht : run {} ops = some t := hfold
    have hstep : t.step last = some s := by simpa using hlast
    rw [(Kept.start.run ht).saved_step hstep i, ih ht]
    constructor
    · rintro (⟨before, op, after, t', rfl, hbefore, hcomes⟩ | hcomes)
      · exact ⟨before, op, after ++ [last], t', by simp, hbefore, hcomes⟩
      · exact ⟨ops, last, [], t, rfl, ht, hcomes⟩
    · rintro ⟨before, op, after, t', hops, hbefore, hcomes⟩
      rcases List.eq_nil_or_concat after with rfl | ⟨after, other, rfl⟩
      · obtain ⟨rfl, hop⟩ := List.append_inj' hops rfl
        obtain rfl := (List.cons.inj hop).1
        rw [ht] at hbefore
        exact .inr (Option.some.inj hbefore ▸ hcomes)
      · refine .inl ⟨before, op, after, t', ?_, hbefore, hcomes⟩
        rw [List.concat_eq_append, ← List.cons_append, ← List.append_assoc] at hops
        exact (List.append_inj' hops rfl).1

/-- Whatever is requested, saved and cancelled, in whatever order: the counters say what they
stand for, exactly the parts that came while the loader was open are saved, and a downloader that
has just requested parts is owed one or has all. -/
theorem window_exact {ops : List Op} (hops : ∀ op ∈ ops, op.Valid size) :
    ∃ s : StreamedFileDownloader size, run {} ops = some s ∧
    s.partsRequested = (s.partIsSaved.take s.nextPartIndex).count false ∧
    0 ≤ s.partsRequested ∧ s.partsRequested ≤ kRequestPartsCount ∧
    s.partsSaved = s.partIsSaved.count true ∧
    (∀ i, s.partIsSaved[i]? = some true ↔
      ∃ before op after t, ops = before ++ op :: after ∧
        run {} before = some (t : StreamedFileDownloader size) ∧ Comes t i op) ∧
    (s.requestParts.finished = false → false ∈ s.requestParts.partIsSaved →
      Filled s.requestParts) ∧
    ∀ offset partWritten resultWritten t,
      s.savePart offset partWritten resultWritten = some t →
      s.partIsSaved[offset / kPartSize]? = some false → s.cancelled = false →
      t.finished = false → false ∈ t.partIsSaved → Filled t := by
  obtain ⟨s, h⟩ := run_of_valid hops {}
  have hs := Kept.start.run h
  refine ⟨s, h, hs.requested, ?_, hs.window, hs.saved, saved_iff_came h, hs.filled_requestParts,
    ?_⟩
  · rw [hs.requested]
    exact Int.natCast_nonneg _
  · intro offset partWritten resultWritten t ht hnew hopen hfinished hunsaved
    exact hs.filled_savePart ht hnew hopen hfinished hunsaved

/-- A part read by the player comes first, then the downloader starts, is stopped and goes on. -/
theorem window_exact_interleaved :
    ∃ s : StreamedFileDownloader (2 * kPartSize + 1),
      run {} [.savePart kPartSize true true, .cancelHook, .requestParts,
        .savePart 0 true true] = some s ∧
      s.partsRequested = (s.partIsSaved.take s.nextPartIndex).count false ∧
      (s.requestParts.finished = false → false ∈ s.requestParts.partIsSaved →
        Filled s.requestParts) := by
  have hops : ∀ op ∈ [Op.savePart kPartSize true true, .cancelHook, .requestParts,
      .savePart 0 true true], op.Valid (2 * kPartSize + 1) := by
    simp [Op.Valid, kPartSize]
  obtain ⟨s, h, hrequested, -, -, -, -, hfilled, -⟩ := window_exact hops
  exact ⟨s, h, hrequested, hfilled⟩

end StreamedFileDownloader

end TelegramDesktop.Storage
