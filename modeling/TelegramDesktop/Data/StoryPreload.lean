import TelegramDesktop.Base.FlatSet
import TelegramDesktop.Media.StreamingPreload
import TelegramDesktop.Storage.FileDownload

namespace TelegramDesktop.Data
open Base Media.Streaming
open Storage (kDownloadPartSize)

namespace StoryPreload

/-- The task keeps what its `_done` has been called with. -/
structure LoadTask where
  parts : PartsMap
  called : List (List UInt8) := []
  requestedOffsets : FlatSet ℕ := ∅
  full : ℕ
  nextRequestOffset : ℕ := 0
  finished : Bool := false
  failed : Bool := false

namespace LoadTask

def partsCount (videoPreloadPrefix : ℕ) : ℕ :=
  (videoPreloadPrefix + kDownloadPartSize - 1) / kDownloadPartSize

/-- The constructor, where `none` is a violated `Assert`. -/
def create (size videoPreloadPrefix : ℕ) : Option LoadTask :=
  if 0 < videoPreloadPrefix ∧ videoPreloadPrefix ≤ size then
    some {
      parts := (List.range (partsCount videoPreloadPrefix)).foldl
        (fun parts i => parts.emplace (i * kDownloadPartSize) []) ∅
      full := size }
  else none

def readyToRequest (task : LoadTask) : Bool :=
  !task.failed && decide (task.nextRequestOffset < task.parts.size * kDownloadPartSize)

def takeNextRequestOffset (task : LoadTask) : Option (ℕ × LoadTask) :=
  if task.readyToRequest then
    let requestedOffsets := task.requestedOffsets.insert task.nextRequestOffset
    requestedOffsets.elems.getLast?.map fun offset => (offset, { task with
      requestedOffsets
      nextRequestOffset := task.nextRequestOffset + kDownloadPartSize })
  else none

def feedPart (task : LoadTask) (offset : ℕ) (bytes : List UInt8) : Option LoadTask :=
  if offset < task.parts.size * kDownloadPartSize ∧ offset ∈ task.requestedOffsets ∧
      bytes.length ≤ kDownloadPartSize then
    let requestedOffsets := task.requestedOffsets.remove offset
    let parts := task.parts.upsert offset fun _ => bytes
    let task := { task with requestedOffsets, parts }
    if parts.size * kDownloadPartSize ≤ task.nextRequestOffset + kDownloadPartSize ∧
        requestedOffsets.isEmpty then
      some { task with
        finished := true
        called := task.called ++ [closedData parts task.full] }
    else some task
  else none

inductive Op where
  | takeNextRequestOffset
  | feedPart (offset : ℕ)
  deriving DecidableEq

/-- A part is fed with the bytes of the file at its offset. -/
def step (file : List UInt8) (task : LoadTask) : Op → Option LoadTask
  | .takeNextRequestOffset => task.takeNextRequestOffset.map Prod.snd
  | .feedPart offset => task.feedPart offset (partAt file offset)

def run (file : List UInt8) (videoPreloadPrefix : ℕ) (ops : List Op) : Option LoadTask :=
  (create file.length videoPreloadPrefix).bind fun task => ops.foldlM (step file) task

/-- The data is called for once, when every part has been fed, and is read back as the parts. -/
structure Right (file : List UInt8) (count : ℕ) (ops : List Op) (task : LoadTask) : Prop where
  once : task.called.length ≤ 1
  done : task.called ≠ [] ↔ ∀ i < count, .feedPart (i * kPartSize) ∈ ops
  read : ∀ data ∈ task.called, ∃ entry, checkedParseCacheEntry data 0 file.length = some entry ∧
    ∀ part, part ∈ entry.parts.entries ↔
      Op.feedPart part.1 ∈ ops ∧ part.2 = partAt file part.1

/-- The part at the offset is the only one that has not been fed of those asked for, which are all
but the last. -/
def LastUnasked (count : ℕ) (task : LoadTask) (offset : ℕ) : Prop :=
  task.nextRequestOffset = (count - 1) * kPartSize ∧
    ∀ other, other ∈ task.requestedOffsets ↔ other = offset

variable {file : List UInt8} {count taken videoPreloadPrefix : ℕ} {ops : List Op}
  {task task' : LoadTask}

/-- So many parts have been asked for. -/
structure Ok (file : List UInt8) (count taken : ℕ) (ops : List Op) (task : LoadTask) : Prop where
  le : taken ≤ count
  next : task.nextRequestOffset = taken * kPartSize
  requested : ∀ offset, offset ∈ task.requestedOffsets ↔
    ∃ i < taken, offset = i * kPartSize ∧ .feedPart offset ∉ ops
  fed : ∀ offset, .feedPart offset ∈ ops → ∃ i < taken, offset = i * kPartSize
  parts : task.parts = firstParts count fun i =>
    if .feedPart (i * kPartSize) ∈ ops then partAt file (i * kPartSize) else []
  full : task.full = file.length
  failed : task.failed = false

theorem mul_part_inj {i j : ℕ} (h : i * kPartSize = j * kPartSize) : i = j :=
  Nat.eq_of_mul_eq_mul_right (by decide) h

/-- A part that is put to its offset. -/
theorem upsert_firstParts {part : ℕ → List UInt8} {j : ℕ} (hj : j < count) (bytes : List UInt8) :
    (firstParts count part).upsert (j * kPartSize) (fun _ => bytes) =
      firstParts count fun i => if i = j then bytes else part i := by
  apply FlatMap.eq_of_mem_iff
  intro entry
  rw [FlatMap.mem_upsert, mem_firstParts, mem_firstParts]
  constructor
  · rintro (⟨⟨i, hi, rfl⟩, hne⟩ | rfl)
    · refine ⟨i, hi, ?_⟩
      rw [if_neg fun hij => hne (congrArg (· * kPartSize) hij)]
    · exact ⟨j, hj, by rw [if_pos rfl]⟩
  · rintro ⟨i, hi, rfl⟩
    by_cases hij : i = j
    · rw [if_pos hij, hij]
      exact .inr rfl
    · rw [if_neg hij]
      exact .inl ⟨⟨i, hi, rfl⟩, fun heq => hij (mul_part_inj heq)⟩

theorem create_ok (h : 0 < videoPreloadPrefix ∧ videoPreloadPrefix ≤ file.length) :
    ∃ task, create file.length videoPreloadPrefix = some task ∧ task.called = [] ∧
      Ok file (partsCount videoPreloadPrefix) 0 [] task := by
  refine ⟨_, if_pos h, rfl, ?_⟩
  have hparts : (List.range (partsCount videoPreloadPrefix)).foldl
      (fun parts i => FlatMap.emplace parts (i * kDownloadPartSize) []) ∅ =
        emplaceAll (firstParts (partsCount videoPreloadPrefix) fun _ => []).entries ∅ := by
    rw [emplaceAll, firstParts, List.foldl_map]
    rfl
  refine ⟨Nat.zero_le _, (Nat.zero_mul _).symm, ?_, ?_, ?_, rfl, rfl⟩
  · simp
  · simp
  · simp only [List.not_mem_nil, if_false]
    exact hparts.trans (emplaceAll_entries _)

theorem Ok.size (h : Ok file count taken ops task) : task.parts.size = count := by
  rw [h.parts, size_firstParts]

/-- A request is for the next part. -/
theorem takeNextRequestOffset_spec (h : Ok file count taken ops task) {offset : ℕ}
    (htake : task.takeNextRequestOffset = some (offset, task')) :
    task'.called = task.called ∧
      Ok file count (taken + 1) (ops ++ [.takeNextRequestOffset]) task' := by
  have hP : kDownloadPartSize = kPartSize := rfl
  rw [takeNextRequestOffset] at htake
  split_ifs at htake with hready
  rw [readyToRequest, h.failed, Bool.not_false, Bool.true_and, decide_eq_true_iff, h.next, h.size,
    hP] at hready
  have hlt : taken < count := Nat.lt_of_mul_lt_mul_right hready
  obtain ⟨_, -, hpair⟩ := Option.map_eq_some_iff.mp htake
  obtain ⟨-, rfl⟩ := Prod.mk.inj hpair
  have hmem : ∀ offset, .feedPart offset ∈ ops ++ [Op.takeNextRequestOffset] ↔
      .feedPart offset ∈ ops := by
    simp
  refine ⟨rfl, hlt, ?_, ?_, ?_, ?_, h.full, h.failed⟩
  · rw [Nat.succ_mul, ← h.next]
    rfl
  · intro offset
    rw [FlatSet.mem_insert, h.requested, h.next, hmem]
    constructor
    · rintro (rfl | ⟨i, hi, heq, hnot⟩)
      · refine ⟨taken, Nat.lt_succ_self _, rfl, fun hfed => ?_⟩
        obtain ⟨i, hi, heq⟩ := h.fed _ hfed
        exact hi.ne (mul_part_inj heq).symm
      · exact ⟨i, Nat.lt_succ_of_lt hi, heq, hnot⟩
    · rintro ⟨i, hi, heq, hnot⟩
      rcases Nat.lt_succ_iff_lt_or_eq.mp hi with hi | rfl
      · exact .inr ⟨i, hi, heq, hnot⟩
      · exact .inl heq
  · intro offset hfed
    obtain ⟨i, hi, heq⟩ := h.fed offset ((hmem offset).mp hfed)
    exact ⟨i, Nat.lt_succ_of_lt hi, heq⟩
  · simp only [hmem]
    exact h.parts

/-- A part that is fed ends the task if no other one is waited for and at most one is left. -/
theorem feedPart_spec (h : Ok file count taken ops task) {offset : ℕ}
    (hfeed : task.feedPart offset (partAt file offset) = some task') :
    (∃ i < taken, offset = i * kPartSize ∧ .feedPart offset ∉ ops) ∧
      Ok file count taken (ops ++ [.feedPart offset]) task' ∧
      task'.called = if count ≤ taken + 1 ∧
          ∀ i < taken, .feedPart (i * kPartSize) ∈ ops ++ [.feedPart offset]
        then task.called ++ [closedData task'.parts file.length] else task.called := by
  have hP : kDownloadPartSize = kPartSize := rfl
  rw [feedPart] at hfeed
  by_cases hexpects : offset < task.parts.size * kDownloadPartSize ∧
      offset ∈ task.requestedOffsets ∧ (partAt file offset).length ≤ kDownloadPartSize
  · rw [if_pos hexpects] at hfeed
    obtain ⟨i, hi, rfl, hnot⟩ := (h.requested offset).mp hexpects.2.1
    have hmem : ∀ other, .feedPart other ∈ ops ++ [Op.feedPart (i * kPartSize)] ↔
        .feedPart other ∈ ops ∨ other = i * kPartSize := by
      simp
    have hrequested : ∀ other, other ∈ task.requestedOffsets.remove (i * kPartSize) ↔
        ∃ j < taken, other = j * kPartSize ∧
          .feedPart other ∉ ops ++ [Op.feedPart (i * kPartSize)] := by
      intro other
      rw [FlatSet.mem_remove, h.requested, hmem]
      constructor
      · rintro ⟨⟨j, hj, heq, hnot'⟩, hne⟩
        exact ⟨j, hj, heq, not_or.mpr ⟨hnot', hne⟩⟩
      · rintro ⟨j, hj, heq, hneither⟩
        exact ⟨⟨j, hj, heq, fun hfed => hneither (.inl hfed)⟩, fun hsame => hneither (.inr hsame)⟩
    have hfed : ∀ other, .feedPart other ∈ ops ++ [Op.feedPart (i * kPartSize)] →
        ∃ j < taken, other = j * kPartSize := by
      intro other hother
      rcases (hmem other).mp hother with hother | rfl
      · exact h.fed other hother
      · exact ⟨i, hi, rfl⟩
    have hparts : task.parts.upsert (i * kPartSize) (fun _ => partAt file (i * kPartSize)) =
        firstParts count fun j => if .feedPart (j * kPartSize) ∈
          ops ++ [Op.feedPart (i * kPartSize)] then partAt file (j * kPartSize) else [] := by
      rw [h.parts, upsert_firstParts (hi.trans_le h.le)]
      congr 1
      funext j
      by_cases hj : j = i
      · rw [if_pos hj, if_pos ((hmem _).mpr (.inr (congrArg (· * kPartSize) hj))), hj]
      · have hiff : .feedPart (j * kPartSize) ∈ ops ++ [Op.feedPart (i * kPartSize)] ↔
            .feedPart (j * kPartSize) ∈ ops :=
          (hmem _).trans (or_iff_left fun heq => hj (mul_part_inj heq))
        rw [if_neg hj]
        simp only [hiff]
    have hsize := (congrArg FlatMap.size hparts).trans size_firstParts
    have hlast : (task.parts.upsert (i * kPartSize) (fun _ => partAt file (i * kPartSize))).size *
          kDownloadPartSize ≤ task.nextRequestOffset + kDownloadPartSize ∧
        (task.requestedOffsets.remove (i * kPartSize)).isEmpty = true ↔
        count ≤ taken + 1 ∧
          ∀ j < taken, .feedPart (j * kPartSize) ∈ ops ++ [Op.feedPart (i * kPartSize)] := by
      rw [hsize, hP, h.next, ← Nat.succ_mul, Nat.mul_le_mul_right_iff (by decide),
        FlatSet.isEmpty_iff]
      refine and_congr_right' ⟨fun hempty j hj => ?_, fun hall => ?_⟩
      · by_contra hwaited
        have hother := (hrequested (j * kPartSize)).mpr ⟨j, hj, rfl, hwaited⟩
        rw [hempty] at hother
        exact FlatSet.not_mem_empty _ hother
      · apply FlatSet.eq_of_mem
        intro other
        refine iff_of_false (fun hother => ?_) (FlatSet.not_mem_empty other)
        obtain ⟨j, hj, rfl, hwaited⟩ := (hrequested other).mp hother
        exact hwaited (hall j hj)
    refine ⟨⟨i, hi, rfl, hnot⟩, ?_⟩
    dsimp only at hfeed
    split_ifs at hfeed with hend
    · obtain rfl := Option.some.inj hfeed
      refine ⟨⟨h.le, h.next, hrequested, hfed, hparts, h.full, h.failed⟩, ?_⟩
      rw [if_pos (hlast.mp hend), h.full]
    · obtain rfl := Option.some.inj hfeed
      refine ⟨⟨h.le, h.next, hrequested, hfed, hparts, h.full, h.failed⟩, ?_⟩
      rw [if_neg (mt hlast.mpr hend)]
  · rw [if_neg hexpects] at hfeed
    nomatch hfeed

theorem run_append (file : List UInt8) (videoPreloadPrefix : ℕ) (ops : List Op) (op : Op) :
    run file videoPreloadPrefix (ops ++ [op]) =
      (run file videoPreloadPrefix ops).bind fun task => step file task op := by
  rw [run, run, Option.bind_assoc]
  congr 1
  funext task
  rw [List.foldlM_append]
  change ((ops.foldlM (step file) task).bind fun task => (step file task op).bind some) = _
  simp

theorem run_nil (file : List UInt8) (videoPreloadPrefix : ℕ) :
    run file videoPreloadPrefix [] = create file.length videoPreloadPrefix := by
  rw [run]
  cases create file.length videoPreloadPrefix
  · rfl
  · rfl

theorem run_before {before : List Op} (hbefore : before <+: ops)
    (hrun : (run file videoPreloadPrefix ops).isSome) :
    (run file videoPreloadPrefix before).isSome := by
  obtain ⟨after, rfl⟩ := hbefore
  induction after using List.reverseRecOn with
  | nil => rwa [List.append_nil] at hrun
  | append_singleton after op ih =>
    rw [← List.append_assoc, run_append] at hrun
    apply ih
    cases hafter : run file videoPreloadPrefix (before ++ after) with
    | some task => rfl
    | none =>
      rw [hafter] at hrun
      nomatch hrun

theorem partsCount_pos (h : 0 < videoPreloadPrefix) : 0 < partsCount videoPreloadPrefix := by
  rw [partsCount, kDownloadPartSize]
  omega

theorem partsCount_span (h : 0 < videoPreloadPrefix) :
    (partsCount videoPreloadPrefix - 1) * kPartSize < videoPreloadPrefix := by
  rw [partsCount, kDownloadPartSize, kPartSize]
  omega

/-- So far no part has been fed as the only one left of all but the last. -/
def NeverLastUnasked (file : List UInt8) (videoPreloadPrefix : ℕ) (ops : List Op) : Prop :=
  ∀ before offset task, before ++ [.feedPart offset] <+: ops →
    run file videoPreloadPrefix before = some task →
      ¬ LastUnasked (partsCount videoPreloadPrefix) task offset

def AllFed (count : ℕ) (ops : List Op) : Prop := ∀ i < count, .feedPart (i * kPartSize) ∈ ops

instance (count : ℕ) (ops : List Op) : Decidable (AllFed count ops) := by
  unfold AllFed
  infer_instance

def fileParts (file : List UInt8) (count : ℕ) : PartsMap :=
  firstParts count fun i => partAt file (i * kPartSize)

/-- What has been called if the last part was never left unasked. -/
def expected (file : List UInt8) (count : ℕ) (ops : List Op) : List (List UInt8) :=
  if AllFed count ops then [closedData (fileParts file count) file.length] else []

theorem Ok.parts_of_all (h : Ok file count taken ops task) (hall : AllFed count ops) :
    task.parts = fileParts file count := by
  rw [h.parts, fileParts, firstParts, firstParts]
  apply FlatMap.ext
  apply List.map_congr_left
  intro i hi
  rw [if_pos (hall i (List.mem_range.mp hi))]

/-- A step of the run, which has not been led astray, ends the task exactly with the last part. -/
theorem feedPart_expected (h : Ok file count taken ops task) {offset : ℕ}
    (hcalled : task.called = expected file count ops) (hasked : ¬ LastUnasked count task offset)
    (hfeed : task.feedPart offset (partAt file offset) = some task') :
    task'.called = expected file count (ops ++ [.feedPart offset]) := by
  obtain ⟨⟨i, hi, rfl, hnot⟩, hok, heq⟩ := feedPart_spec h hfeed
  rw [heq, expected]
  by_cases hend : count ≤ taken + 1 ∧
      ∀ j < taken, .feedPart (j * kPartSize) ∈ ops ++ [Op.feedPart (i * kPartSize)]
  · have htaken : taken = count := by
      by_contra hne
      apply hasked
      have hle := h.le
      refine ⟨?_, fun other => ?_⟩
      · rw [h.next]
        congr 1
        omega
      · rw [h.requested]
        constructor
        · rintro ⟨j, hj, rfl, hwaited⟩
          have hmem := hend.2 j hj
          rw [List.mem_append, or_iff_right hwaited, List.mem_singleton] at hmem
          exact Op.feedPart.inj hmem
        · rintro rfl
          exact ⟨i, hi, rfl, hnot⟩
    have hall : AllFed count (ops ++ [Op.feedPart (i * kPartSize)]) := htaken ▸ hend.2
    have hbefore : ¬ AllFed count ops := fun hbefore => hnot (hbefore i (htaken ▸ hi))
    rw [if_pos hend, if_pos hall, hcalled, expected, if_neg hbefore, hok.parts_of_all hall,
      List.nil_append]
  · have hall : ¬ AllFed count (ops ++ [Op.feedPart (i * kPartSize)]) := by
      intro hall
      apply hend
      have htaken : count ≤ taken := by
        by_contra hlt
        obtain ⟨j, hj, hsame⟩ := hok.fed _ (hall taken (not_le.mp hlt))
        exact hj.ne (mul_part_inj hsame).symm
      exact ⟨htaken.trans (Nat.le_succ _), fun j hj => hall j (hj.trans_le h.le)⟩
    have hbefore : ¬ AllFed count ops := fun hbefore =>
      hall fun j hj => List.mem_append_left _ (hbefore j hj)
    rw [if_neg hend, if_neg hall, hcalled, expected, if_neg hbefore]

theorem run_ok (hrun : run file videoPreloadPrefix ops = some task) :
    (∃ taken, Ok file (partsCount videoPreloadPrefix) taken ops task) ∧
      (NeverLastUnasked file videoPreloadPrefix ops →
        task.called = expected file (partsCount videoPreloadPrefix) ops) := by
  induction ops using List.reverseRecOn generalizing task with
  | nil =>
    rw [run_nil] at hrun
    by_cases h : 0 < videoPreloadPrefix ∧ videoPreloadPrefix ≤ file.length
    · obtain ⟨task', hcreate, hcalled, hok⟩ := create_ok h
      obtain rfl := Option.some.inj (hrun.symm.trans hcreate)
      refine ⟨⟨0, hok⟩, fun _ => ?_⟩
      have hnone : ¬ AllFed (partsCount videoPreloadPrefix) [] := fun hall =>
        List.not_mem_nil (hall 0 (partsCount_pos h.1))
      rw [hcalled, expected, if_neg hnone]
    · rw [create, if_neg h] at hrun
      nomatch hrun
  | append_singleton ops op ih =>
    rw [run_append] at hrun
    obtain ⟨before, hbefore, hstep⟩ := Option.bind_eq_some_iff.mp hrun
    obtain ⟨⟨taken, hok⟩, hcalled⟩ := ih hbefore
    have hearlier : NeverLastUnasked file videoPreloadPrefix (ops ++ [op]) →
        NeverLastUnasked file videoPreloadPrefix ops := fun h other offset task hother =>
      h other offset task (hother.trans (List.prefix_append _ _))
    cases op with
    | takeNextRequestOffset =>
      rw [step] at hstep
      obtain ⟨⟨offset, after⟩, htake, rfl⟩ := Option.map_eq_some_iff.mp hstep
      obtain ⟨hsame, hok'⟩ := takeNextRequestOffset_spec hok htake
      refine ⟨⟨taken + 1, hok'⟩, fun hnever => ?_⟩
      have hall : AllFed (partsCount videoPreloadPrefix) ops ↔
          AllFed (partsCount videoPreloadPrefix) (ops ++ [.takeNextRequestOffset]) := by
        unfold AllFed
        simp only [List.mem_append, List.mem_singleton, reduceCtorEq, or_false]
      rw [hsame, hcalled (hearlier hnever), expected, expected]
      exact if_congr hall rfl rfl
    | feedPart offset =>
      rw [step] at hstep
      obtain ⟨-, hok', -⟩ := feedPart_spec hok hstep
      refine ⟨⟨taken, hok'⟩, fun hnever => ?_⟩
      exact feedPart_expected hok (hcalled (hearlier hnever))
        (hnever ops offset before (List.prefix_refl _) hbefore) hstep

/-- Where the last part was left unasked, the task has ended without it. -/
theorem feedPart_unasked (hpos : 0 < count) (h : Ok file count taken ops task) {offset : ℕ}
    (hasked : LastUnasked count task offset)
    (hfeed : task.feedPart offset (partAt file offset) = some task') :
    task'.called ≠ [] ∧ ¬ AllFed count (ops ++ [.feedPart offset]) := by
  obtain ⟨-, hok, heq⟩ := feedPart_spec h hfeed
  have htaken : taken = count - 1 := mul_part_inj (h.next.symm.trans hasked.1)
  have hend : count ≤ taken + 1 ∧
      ∀ j < taken, .feedPart (j * kPartSize) ∈ ops ++ [Op.feedPart offset] := by
    refine ⟨by omega, fun j hj => ?_⟩
    by_contra hwaited
    rw [List.mem_append, List.mem_singleton, not_or] at hwaited
    have hother := (hasked.2 _).mp ((h.requested _).mpr ⟨j, hj, rfl, hwaited.1⟩)
    exact hwaited.2 (congrArg Op.feedPart hother)
  constructor
  · rw [heq, if_pos hend]
    exact List.append_ne_nil_of_right_ne_nil _ (List.cons_ne_nil _ _)
  · intro hall
    obtain ⟨j, hj, hsame⟩ := hok.fed _ (hall (count - 1) (by omega))
    rw [htaken] at hj
    exact hj.ne (mul_part_inj hsame).symm

/-- The parts that are read are those that have been fed. -/
theorem parts_eq_iff (h : Ok file count taken ops task) (hall : AllFed count ops)
    (parts : PartsMap) : parts = fileParts file count ↔
      ∀ part, part ∈ parts.entries ↔ Op.feedPart part.1 ∈ ops ∧ part.2 = partAt file part.1 := by
  have hmem : ∀ part, part ∈ (fileParts file count).entries ↔
      Op.feedPart part.1 ∈ ops ∧ part.2 = partAt file part.1 := by
    intro part
    rw [fileParts, mem_firstParts]
    constructor
    · rintro ⟨i, hi, rfl⟩
      exact ⟨hall i hi, rfl⟩
    · rintro ⟨hfed, hbytes⟩
      obtain ⟨i, hi, hoffset⟩ := h.fed _ hfed
      exact ⟨i, hi.trans_le h.le, Prod.ext hoffset.symm (hbytes.trans (hoffset ▸ rfl)).symm⟩
  constructor
  · rintro rfl
    exact hmem
  · intro hparts
    exact FlatMap.eq_of_mem_iff fun part => (hparts part).trans (hmem part).symm

theorem right_iff (hpos : 0 < count) (hcount : count ≤ 80)
    (hspan : (count - 1) * kPartSize < file.length) (h : Ok file count taken ops task)
    (hcalled : task.called = expected file count ops) :
    Right file count ops task ↔ (AllFed count ops → Readable file.length count) := by
  by_cases hall : AllFed count ops
  · rw [expected, if_pos hall] at hcalled
    have hread := firstParts_readable_iff hpos hcount hspan
    constructor
    · intro hright _
      obtain ⟨entry, hentry, hparts⟩ := hright.read _ (hcalled ▸ List.mem_singleton_self _)
      exact hread.mp ⟨entry, hentry, (parts_eq_iff h hall entry.parts).mpr hparts⟩
    · intro hreadable
      obtain ⟨entry, hentry, hparts⟩ := hread.mpr (hreadable hall)
      refine ⟨hcalled ▸ le_rfl, ?_, fun data hdata => ?_⟩
      · rw [hcalled]
        exact iff_of_true (List.cons_ne_nil _ _) hall
      · rw [hcalled, List.mem_singleton] at hdata
        rw [hdata]
        exact ⟨entry, hentry, (parts_eq_iff h hall entry.parts).mp hparts⟩
  · rw [expected, if_neg hall] at hcalled
    refine iff_of_true ⟨?_, ?_, ?_⟩ fun hall' => absurd hall' hall
    · rw [hcalled]
      exact Nat.zero_le _
    · rw [hcalled]
      exact iff_of_false (fun hne => hne rfl) hall
    · rw [hcalled]
      intro data hdata
      nomatch hdata

theorem takeNextRequestOffset_ready (h : Ok file count taken ops task) (hlt : taken < count) :
    (step file task .takeNextRequestOffset).isSome := by
  have hP : kDownloadPartSize = kPartSize := rfl
  have hready : task.readyToRequest = true := by
    rw [readyToRequest, h.failed, h.next, h.size, hP, Bool.not_false, Bool.true_and]
    exact decide_eq_true (Nat.mul_lt_mul_of_pos_right hlt (by decide))
  have hmem : task.nextRequestOffset ∈ task.requestedOffsets.insert task.nextRequestOffset :=
    FlatSet.mem_insert.mpr (.inl rfl)
  rw [step, takeNextRequestOffset, if_pos hready]
  dsimp only
  rw [Option.isSome_map, Option.isSome_map, List.getLast?_isSome]
  exact List.ne_nil_of_mem hmem

theorem feedPart_requested (h : Ok file count taken ops task) {i : ℕ} (hi : i < taken)
    (hnot : .feedPart (i * kPartSize) ∉ ops) :
    (step file task (.feedPart (i * kPartSize))).isSome := by
  have hexpects : i * kPartSize < task.parts.size * kDownloadPartSize ∧
      i * kPartSize ∈ task.requestedOffsets ∧
        (partAt file (i * kPartSize)).length ≤ kDownloadPartSize := by
    refine ⟨?_, (h.requested _).mpr ⟨i, hi, rfl, hnot⟩, ?_⟩
    · rw [h.size]
      exact Nat.mul_lt_mul_of_pos_right (hi.trans_le h.le) (by decide)
    · rw [length_partAt]
      exact Nat.min_le_left _ _
  rw [step, feedPart, if_pos hexpects]
  dsimp only
  split_ifs
  · rfl
  · rfl

/-- A preload is right in all its states if and only if no part but the last is fed while only the
last has not been asked for, and the entry is readable if it comes to be. -/
theorem run_right_iff (file : List UInt8) (videoPreloadPrefix : ℕ)
    (h : 0 < videoPreloadPrefix ∧ videoPreloadPrefix ≤ file.length)
    (hcount : partsCount videoPreloadPrefix ≤ 80) (ops : List Op)
    (hrun : (run file videoPreloadPrefix ops).isSome) :
    (∀ before task, before <+: ops → run file videoPreloadPrefix before = some task →
      Right file (partsCount videoPreloadPrefix) before task) ↔
      NeverLastUnasked file videoPreloadPrefix ops ∧
        (AllFed (partsCount videoPreloadPrefix) ops →
          Readable file.length (partsCount videoPreloadPrefix)) := by
  have hpos := partsCount_pos h.1
  have hspan := (partsCount_span h.1).trans_le h.2
  constructor
  · intro hright
    have hnever : NeverLastUnasked file videoPreloadPrefix ops := by
      intro before offset task hbefore hrun' hasked
      obtain ⟨task', htask'⟩ := Option.isSome_iff_exists.mp (run_before hbefore hrun)
      have hstep := htask'
      rw [run_append, hrun', Option.bind_some] at hstep
      obtain ⟨taken, hok⟩ := (run_ok hrun').1
      obtain ⟨hcalled, hall⟩ := feedPart_unasked hpos hok hasked hstep
      exact hall ((hright _ task' hbefore htask').done.mp hcalled)
    refine ⟨hnever, ?_⟩
    obtain ⟨task, htask⟩ := Option.isSome_iff_exists.mp hrun
    obtain ⟨⟨taken, hok⟩, hcalled⟩ := run_ok htask
    exact (right_iff hpos hcount hspan hok (hcalled hnever)).mp
      (hright ops task (List.prefix_refl _) htask)
  · rintro ⟨hnever, hreadable⟩ before task hbefore hrun'
    obtain ⟨⟨taken, hok⟩, hcalled⟩ := run_ok hrun'
    have hnever' : NeverLastUnasked file videoPreloadPrefix before :=
      fun other offset task hother => hnever other offset task (hother.trans hbefore)
    apply (right_iff hpos hcount hspan hok (hcalled hnever')).mpr
    exact fun hall => hreadable fun i hi => hbefore.subset (hall i hi)

/-- The second of two parts is asked for before the first one is fed. -/
def twoAsked : List Op :=
  [.takeNextRequestOffset, .takeNextRequestOffset, .feedPart (0 * kPartSize),
    .feedPart (1 * kPartSize)]

theorem run_right_iff_two : ∃ task,
    run (List.replicate (kPartSize + 1) 0) (kPartSize + 1) twoAsked = some task ∧
      Right (List.replicate (kPartSize + 1) 0) 2 twoAsked task := by
  have hlength : (List.replicate (kPartSize + 1) (0 : UInt8)).length = kPartSize + 1 :=
    List.length_replicate
  generalize List.replicate (kPartSize + 1) (0 : UInt8) = file at hlength ⊢
  have hcount : partsCount (kPartSize + 1) = 2 := by decide
  have hprefix : 0 < kPartSize + 1 ∧ kPartSize + 1 ≤ file.length :=
    ⟨Nat.succ_pos _, hlength.ge⟩
  obtain ⟨start, hcreate, -, hok⟩ := create_ok hprefix
  rw [hcount] at hok
  obtain ⟨first, hfirst⟩ := Option.isSome_iff_exists.mp
    (takeNextRequestOffset_ready hok (by decide))
  obtain ⟨pair, htake, rfl⟩ := Option.map_eq_some_iff.mp hfirst
  obtain ⟨-, hok1⟩ := takeNextRequestOffset_spec hok htake
  obtain ⟨second, hsecond⟩ := Option.isSome_iff_exists.mp
    (takeNextRequestOffset_ready hok1 (by decide))
  obtain ⟨pair', htake', rfl⟩ := Option.map_eq_some_iff.mp hsecond
  obtain ⟨-, hok2⟩ := takeNextRequestOffset_spec hok1 htake'
  obtain ⟨fed, hfed⟩ := Option.isSome_iff_exists.mp
    (feedPart_requested hok2 (show 0 < 0 + 1 + 1 by decide) (by simp))
  obtain ⟨-, hok3, -⟩ := feedPart_spec hok2 hfed
  obtain ⟨task, htask⟩ := Option.isSome_iff_exists.mp
    (feedPart_requested hok3 (show 1 < 0 + 1 + 1 by decide) (by simp [kPartSize]))
  have hrun2 : run file (kPartSize + 1) ([] ++ [.takeNextRequestOffset] ++
      [.takeNextRequestOffset]) = some pair'.2 := by
    rw [run_append, run_append, run_nil, hcreate, Option.bind_some, hfirst, Option.bind_some,
      hsecond]
  have hrun3 : run file (kPartSize + 1) ([] ++ [.takeNextRequestOffset] ++
      [.takeNextRequestOffset] ++ [.feedPart (0 * kPartSize)]) = some fed := by
    rw [run_append, hrun2, Option.bind_some, hfed]
  have hrun : run file (kPartSize + 1) twoAsked = some task := by
    change run file (kPartSize + 1) ([] ++ [.takeNextRequestOffset] ++ [.takeNextRequestOffset] ++
      [.feedPart (0 * kPartSize)] ++ [.feedPart (1 * kPartSize)]) = some task
    rw [run_append, hrun3, Option.bind_some, htask]
  refine ⟨task, hrun, ?_⟩
  have hright := (run_right_iff file (kPartSize + 1) hprefix (hcount ▸ by decide) twoAsked
    (hrun ▸ rfl)).mpr
  rw [hcount] at hright
  refine hright ⟨?_, fun _ => ?_⟩ twoAsked task (List.prefix_refl _) hrun
  · intro before offset asked hbefore hasked hlast
    -- both parts have been asked for when one is fed
    have hnext : asked.nextRequestOffset = 2 * kPartSize := by
      obtain ⟨after, hafter⟩ := hbefore
      rcases before with _ | ⟨a, _ | ⟨b, _ | ⟨c, _ | ⟨d, before⟩⟩⟩⟩
      · simp [twoAsked] at hafter
      · simp [twoAsked] at hafter
      · simp only [twoAsked, List.cons_append, List.cons.injEq] at hafter
        obtain ⟨rfl, rfl, -⟩ := hafter
        rw [← Option.some.inj (hrun2.symm.trans hasked)]
        exact hok2.next
      · simp only [twoAsked, List.cons_append, List.cons.injEq] at hafter
        obtain ⟨rfl, rfl, rfl, -⟩ := hafter
        rw [← Option.some.inj (hrun3.symm.trans hasked)]
        exact hok3.next
      · simp [twoAsked] at hafter
    have hone := hnext.symm.trans hlast.1
    rw [hcount] at hone
    exact absurd (mul_part_inj hone) (by decide)
  · rw [hlength]
    exact ⟨by decide, fun hlarge => absurd hlarge (by decide),
      fun hheader => absurd hheader (by decide)⟩

/-- The first of two parts ends the task if it is answered before the second is asked for. -/
theorem not_right_unasked :
    ¬ ∀ (file : List UInt8) (videoPreloadPrefix : ℕ),
      0 < videoPreloadPrefix ∧ videoPreloadPrefix ≤ file.length →
        partsCount videoPreloadPrefix ≤ 80 → ∀ ops task,
          run file videoPreloadPrefix ops = some task →
            Right file (partsCount videoPreloadPrefix) ops task := by
  intro hright
  have hlength : (List.replicate (kPartSize + 1) (0 : UInt8)).length = kPartSize + 1 :=
    List.length_replicate
  generalize List.replicate (kPartSize + 1) (0 : UInt8) = file at hlength
  have hcount : partsCount (kPartSize + 1) = 2 := by decide
  obtain ⟨start, hcreate, -, hok⟩ := create_ok (show 0 < kPartSize + 1 ∧ kPartSize + 1 ≤ file.length
    from ⟨Nat.succ_pos _, hlength.ge⟩)
  rw [hcount] at hok
  obtain ⟨asked, hasked⟩ := Option.isSome_iff_exists.mp
    (takeNextRequestOffset_ready hok (by decide))
  obtain ⟨pair, htake, rfl⟩ := Option.map_eq_some_iff.mp hasked
  obtain ⟨-, hok'⟩ := takeNextRequestOffset_spec hok htake
  obtain ⟨fed, hfed⟩ := Option.isSome_iff_exists.mp
    (feedPart_requested hok' (show 0 < 0 + 1 by decide) (by simp))
  have hunasked : LastUnasked 2 pair.2 (0 * kPartSize) := by
    refine ⟨hok'.next, fun other => ?_⟩
    rw [hok'.requested]
    constructor
    · rintro ⟨i, hi, rfl, -⟩
      rw [Nat.lt_one_iff.mp hi]
    · rintro rfl
      exact ⟨0, by decide, rfl, by simp⟩
  obtain ⟨hcalled, hall⟩ := feedPart_unasked (by decide) hok' hunasked hfed
  have hrun : run file (kPartSize + 1)
      ([] ++ [.takeNextRequestOffset] ++ [.feedPart (0 * kPartSize)]) = some fed := by
    rw [run_append, run_append, run_nil, hcreate]
    rw [Option.bind_some, hasked, Option.bind_some, hfed]
  have hdone := (hright file (kPartSize + 1) ⟨Nat.succ_pos _, hlength.ge⟩ (hcount ▸ by decide) _ fed
    hrun).done
  rw [hcount] at hdone
  exact hall (hdone.mp hcalled)

end LoadTask

end StoryPreload

end TelegramDesktop.Data
