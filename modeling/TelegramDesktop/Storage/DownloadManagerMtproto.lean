import TelegramDesktop.Base.Rotate

namespace TelegramDesktop.Storage.DownloadManagerMtproto

variable {Task : Type*}

structure Enqueued (Task : Type*) where
  task : Task
  priority : ℤ

namespace Queue

variable [DecidableEq Task]

/-- The position is looked for in the old vector, a missing task is pushed to its end. -/
def enqueue (tasks : List (Enqueued Task)) (task : Task) (priority : ℤ) :
    List (Enqueued Task) :=
  let position := tasks.findIdx fun enqueued => decide (enqueued.priority ≤ priority)
  let now := tasks.findIdx fun enqueued => decide (enqueued.task = task)
  let tasks :=
    if now < tasks.length then tasks.modify now fun enqueued => { enqueued with priority }
    else tasks ++ [⟨task, priority⟩]
  if position < now then Base.rotateSegment tasks position now (now + 1)
  else if now + 1 < position then Base.rotateSegment tasks now (now + 1) position
  else tasks

def remove (tasks : List (Enqueued Task)) (task : Task) : List (Enqueued Task) :=
  tasks.filter fun enqueued => decide (enqueued.task ≠ task)

/-- The loop of `resetGeneration`; `none` is the failed assertion. -/
def resetFrom : List (Enqueued Task) → Option (List (Enqueued Task))
  | [] => some []
  | first :: rest =>
    if first.priority ≠ 0 then
      if first.priority = -1 then some (first :: rest) else none
    else (resetFrom rest).map ({ first with priority := -1 } :: ·)

def resetGeneration (tasks : List (Enqueued Task)) : Option (List (Enqueued Task)) :=
  let first := tasks.findIdx fun enqueued => decide (enqueued.priority = 0)
  (resetFrom (tasks.drop first)).map (tasks.take first ++ ·)

/-- The tasks before `till`. -/
def tillNotHighest (tasks : List (Enqueued Task)) (onlyHighestPriority : Bool) :
    List (Enqueued Task) :=
  match tasks with
  | [] => []
  | front :: _ =>
    if onlyHighestPriority ∧ 0 < front.priority then
      tasks.takeWhile fun enqueued => decide (enqueued.priority = front.priority)
    else tasks

def nextTask (readyToRequest : Task → Bool) (tasks : List (Enqueued Task))
    (onlyHighestPriority : Bool) : Option Task :=
  ((tillNotHighest tasks onlyHighestPriority).find? fun enqueued =>
    readyToRequest enqueued.task).map Enqueued.task

inductive Op (Task : Type*)
  | enqueue (task : Task) (priority : ℤ)
  | remove (task : Task)
  | resetGeneration

def step (tasks : List (Enqueued Task)) : Op Task → Option (List (Enqueued Task))
  | .enqueue task priority => some (enqueue tasks task priority)
  | .remove task => some (remove tasks task)
  | .resetGeneration => resetGeneration tasks

def run (tasks : List (Enqueued Task)) (ops : List (Op Task)) :
    Option (List (Enqueued Task)) :=
  ops.foldlM step tasks

def others (tasks : List (Enqueued Task)) (task : Task) : List (Enqueued Task) :=
  tasks.filter fun enqueued => decide (enqueued.task ≠ task)

theorem others_eq_self {tasks : List (Enqueued Task)} {task : Task}
    (h : ∀ enqueued ∈ tasks, enqueued.task ≠ task) : others tasks task = tasks :=
  List.filter_eq_self.mpr fun enqueued henqueued => decide_eq_true (h enqueued henqueued)

theorem others_append (a b : List (Enqueued Task)) (task : Task) :
    others (a ++ b) task = others a task ++ others b task :=
  List.filter_append ..

theorem others_cons_self (task : Task) (priority : ℤ) (rest : List (Enqueued Task)) :
    others (⟨task, priority⟩ :: rest) task = others rest task :=
  List.filter_cons_of_neg (by simp)

/-- A new task is pushed and goes back to the position. -/
theorem enqueue_new {tasks : List (Enqueued Task)} {task : Task}
    (h : ∀ enqueued ∈ tasks, enqueued.task ≠ task) (priority : ℤ) {a b : List (Enqueued Task)}
    (htasks : tasks = a ++ b)
    (hposition : tasks.findIdx (fun enqueued => decide (enqueued.priority ≤ priority)) =
      a.length) :
    enqueue tasks task priority = a ++ ⟨task, priority⟩ :: b := by
  have hnow : tasks.findIdx (fun enqueued => decide (enqueued.task = task)) = tasks.length :=
    List.findIdx_eq_length.mpr fun enqueued henqueued => decide_eq_false (h enqueued henqueued)
  have hlength : tasks.length = a.length + b.length := by rw [htasks, List.length_append]
  unfold enqueue
  simp only [hnow, hposition, lt_irrefl, if_false]
  rcases b with _ | ⟨first, b⟩
  · rw [if_neg (by simp [hlength]), if_neg (by omega), htasks, List.append_nil]
  · rw [if_pos (by simp [hlength]), hlength, htasks]
    simpa using Base.rotateSegment_last a (first :: b) [] ⟨task, priority⟩

section Present

variable {u v : List (Enqueued Task)} {task : Task} {was priority : ℤ}

theorem findIdx_present (hu : ∀ enqueued ∈ u, enqueued.task ≠ task) :
    (u ++ ⟨task, was⟩ :: v).findIdx (fun enqueued => decide (enqueued.task = task)) =
      u.length := by
  have hnone : u.findIdx (fun enqueued => decide (enqueued.task = task)) = u.length :=
    List.findIdx_eq_length.mpr fun enqueued henqueued => decide_eq_false (hu enqueued henqueued)
  rw [List.findIdx_append, hnone, if_neg (lt_irrefl _), List.findIdx_cons]
  simp

omit [DecidableEq Task] in
theorem modify_present :
    (u ++ ⟨task, was⟩ :: v).modify u.length (fun enqueued => { enqueued with priority }) =
      u ++ ⟨task, priority⟩ :: v := by
  simp [List.modify_eq_take_drop, List.modifyHead]

/-- The task goes up, or stays. -/
theorem enqueue_up (hu : ∀ enqueued ∈ u, enqueued.task ≠ task) {a b : List (Enqueued Task)}
    (hab : u = a ++ b)
    (hposition : (u ++ ⟨task, was⟩ :: v).findIdx
      (fun enqueued => decide (enqueued.priority ≤ priority)) = a.length) :
    enqueue (u ++ ⟨task, was⟩ :: v) task priority = a ++ ⟨task, priority⟩ :: (b ++ v) := by
  have hlength : u.length = a.length + b.length := by rw [hab, List.length_append]
  unfold enqueue
  simp only [findIdx_present hu, modify_present, hposition]
  rw [if_pos (c := u.length < _) (by simp)]
  split_ifs with hup hdown
  · rw [hlength, hab]
    exact Base.rotateSegment_last a b v _
  · omega
  · have hb : b = [] := List.length_eq_zero_iff.mp (by omega)
    rw [hab, hb, List.append_nil, List.nil_append]

/-- The task goes down, or stays. -/
theorem enqueue_down (hu : ∀ enqueued ∈ u, enqueued.task ≠ task) {a b : List (Enqueued Task)}
    (hab : v = a ++ b)
    (hposition : (u ++ ⟨task, was⟩ :: v).findIdx
      (fun enqueued => decide (enqueued.priority ≤ priority)) = u.length + 1 + a.length) :
    enqueue (u ++ ⟨task, was⟩ :: v) task priority = u ++ a ++ ⟨task, priority⟩ :: b := by
  unfold enqueue
  simp only [findIdx_present hu, modify_present, hposition]
  rw [if_pos (c := u.length < _) (by simp), if_neg (by omega)]
  split_ifs with hdown
  · rw [hab]
    exact Base.rotateSegment_first u a b _
  · have ha : a = [] := List.length_eq_zero_iff.mp (by omega)
    rw [hab, ha, List.append_nil, List.nil_append]

end Present

/-- The task ends up right before the first one of an equal or a lower priority, and nothing
else moves. -/
theorem enqueue_eq {tasks : List (Enqueued Task)} (hnodup : (tasks.map Enqueued.task).Nodup)
    (task : Task) (priority : ℤ) :
    ∃ a b, tasks = a ++ b ∧
      (∀ enqueued ∈ a, priority < enqueued.priority) ∧
      (∀ first ∈ b.head?, first.priority ≤ priority) ∧
      enqueue tasks task priority = others a task ++ ⟨task, priority⟩ :: others b task := by
  obtain ⟨a, b, htasks, hposition, ha, hb⟩ := Base.exists_append_findIdx
    (fun enqueued : Enqueued Task => decide (enqueued.priority ≤ priority)) tasks
  refine ⟨a, b, htasks, fun enqueued hmem => lt_of_not_ge (of_decide_eq_false (ha enqueued hmem)),
    fun first hfirst => of_decide_eq_true (hb first hfirst), ?_⟩
  by_cases hmem : ∃ enqueued ∈ tasks, enqueued.task = task
  · obtain ⟨⟨owner, was⟩, hmem, howner⟩ := hmem
    obtain rfl : owner = task := howner
    obtain ⟨u, v, rfl⟩ := List.append_of_mem hmem
    rw [List.map_append, List.map_cons, List.nodup_append, List.nodup_cons] at hnodup
    obtain ⟨-, ⟨hnotv, -⟩, hdisjoint⟩ := hnodup
    have hu : ∀ enqueued ∈ u, enqueued.task ≠ owner := fun enqueued h =>
      hdisjoint _ (List.mem_map_of_mem h) _ List.mem_cons_self
    have hv : ∀ enqueued ∈ v, enqueued.task ≠ owner := fun enqueued h heq =>
      hnotv (List.mem_map.mpr ⟨enqueued, h, heq⟩)
    -- the place is before the task, right at it or behind it
    rcases List.append_eq_append_iff.mp htasks.symm with ⟨d, rfl, rfl⟩ | ⟨_ | ⟨first, d⟩, rfl, hd⟩
    · rw [others_eq_self fun enqueued h => hu enqueued (List.mem_append_left _ h), others_append,
        others_eq_self fun enqueued h => hu enqueued (List.mem_append_right _ h),
        others_cons_self, others_eq_self hv]
      exact enqueue_up hu rfl hposition
    · rw [List.append_nil] at hposition ⊢
      rw [← hd.trans (List.nil_append b), others_eq_self hu, others_cons_self, others_eq_self hv]
      exact enqueue_up hu (List.append_nil u).symm hposition
    · obtain ⟨rfl, rfl⟩ := List.cons.inj hd
      rw [others_append, others_cons_self, others_eq_self hu,
        others_eq_self fun enqueued h => hv enqueued (List.mem_append_left _ h),
        others_eq_self fun enqueued h => hv enqueued (List.mem_append_right _ h)]
      refine enqueue_down hu rfl (hposition.trans ?_)
      rw [List.length_append, List.length_cons]
      omega
  · have hnew : ∀ enqueued ∈ tasks, enqueued.task ≠ task := fun enqueued h heq =>
      hmem ⟨enqueued, h, heq⟩
    have hnew' := htasks ▸ hnew
    rw [others_eq_self fun enqueued h => hnew' enqueued (List.mem_append_left _ h),
      others_eq_self fun enqueued h => hnew' enqueued (List.mem_append_right _ h)]
    exact enqueue_new hnew priority htasks hposition

/-- The priority a task was last given, lowered by the resets since. -/
def noted (last : Task → Option ℤ) : Op Task → Task → Option ℤ
  | .enqueue task priority => Function.update last task (some priority)
  | .remove task => Function.update last task none
  | .resetGeneration => fun task => (last task).map fun p => if p = 0 then -1 else p

def lastPriority (ops : List (Op Task)) : Task → Option ℤ := ops.foldl noted fun _ => none

def Op.Valid : Op Task → Prop
  | .enqueue _ priority => 0 ≤ priority
  | _ => True

structure Kept (tasks : List (Enqueued Task)) (last : Task → Option ℤ) : Prop where
  nodup : (tasks.map Enqueued.task).Nodup
  sorted : tasks.Pairwise fun a b => b.priority ≤ a.priority
  known : ∀ task priority, ⟨task, priority⟩ ∈ tasks ↔ last task = some priority
  bound : ∀ enqueued ∈ tasks, -1 ≤ enqueued.priority

theorem mem_others {tasks : List (Enqueued Task)} {task : Task} {enqueued : Enqueued Task} :
    enqueued ∈ others tasks task ↔ enqueued ∈ tasks ∧ enqueued.task ≠ task := by
  rw [others, List.mem_filter, decide_eq_true_iff]

omit [DecidableEq Task] in
theorem Kept.start : Kept ([] : List (Enqueued Task)) (fun _ => none) where
  nodup := List.nodup_nil
  sorted := List.Pairwise.nil
  known := by simp
  bound := by simp

theorem map_others (tasks : List (Enqueued Task)) (task : Task) :
    (others tasks task).map Enqueued.task =
      (tasks.map Enqueued.task).filter fun other => decide (other ≠ task) := by
  rw [others, List.filter_map]
  rfl

theorem Kept.remove {tasks : List (Enqueued Task)} {last : Task → Option ℤ}
    (h : Kept tasks last) (task : Task) :
    Kept (Queue.remove tasks task) (noted last (.remove task)) where
  nodup := (map_others tasks task).symm ▸ h.nodup.filter _
  sorted := h.sorted.filter _
  known := fun other priority => by
    change _ ∈ others tasks task ↔ _
    rw [mem_others, h.known, noted]
    rcases eq_or_ne other task with rfl | hne
    · simp
    · simp [hne]
  bound := fun enqueued henqueued => h.bound enqueued (mem_others.mp henqueued).1

/-- An enqueued task comes before all of an equal or a lower priority, behind the higher ones,
and the others keep their order. -/
theorem Kept.placed {tasks : List (Enqueued Task)} {last : Task → Option ℤ}
    (h : Kept tasks last) (task : Task) (priority : ℤ) :
    ∃ a b, enqueue tasks task priority = a ++ ⟨task, priority⟩ :: b ∧
      (∀ enqueued ∈ a, priority < enqueued.priority) ∧
      (∀ enqueued ∈ b, enqueued.priority ≤ priority) ∧ a ++ b = others tasks task := by
  obtain ⟨a, b, rfl, ha, hb, heq⟩ := enqueue_eq h.nodup task priority
  refine ⟨others a task, others b task, heq, fun enqueued hmem => ha _ (mem_others.mp hmem).1, ?_,
    (others_append ..).symm⟩
  intro enqueued hmem
  have hsorted := (List.pairwise_append.mp h.sorted).2.1
  rcases b with _ | ⟨first, b⟩
  · exact nomatch hmem
  · have hfirst := hb first rfl
    rcases List.mem_cons.mp (mem_others.mp hmem).1 with rfl | hmem
    · exact hfirst
    · exact ((List.pairwise_cons.mp hsorted).1 enqueued hmem).trans hfirst

theorem Kept.enqueue {tasks : List (Enqueued Task)} {last : Task → Option ℤ}
    (h : Kept tasks last) (task : Task) {priority : ℤ} (hpriority : 0 ≤ priority) :
    Kept (Queue.enqueue tasks task priority) (noted last (.enqueue task priority)) := by
  obtain ⟨a, b, heq, ha, hb, hothers⟩ := h.placed task priority
  have hrest : Kept (a ++ b) (noted last (.remove task)) := hothers ▸ h.remove task
  have hperm : (a ++ ⟨task, priority⟩ :: b).Perm (⟨task, priority⟩ :: (a ++ b)) :=
    List.perm_middle
  have hmem : ∀ enqueued, enqueued ∈ Queue.enqueue tasks task priority ↔
      enqueued = ⟨task, priority⟩ ∨ enqueued ∈ a ++ b := fun enqueued => by
    rw [heq, hperm.mem_iff, List.mem_cons]
  have hnot : task ∉ (a ++ b).map Enqueued.task := by
    rw [hothers, map_others, List.mem_filter]
    simp
  refine ⟨?_, ?_, ?_, ?_⟩
  · rw [heq, (hperm.map Enqueued.task).nodup_iff, List.map_cons, List.nodup_cons]
    exact ⟨hnot, hrest.nodup⟩
  · obtain ⟨hsa, hsb, hab⟩ := List.pairwise_append.mp hrest.sorted
    rw [heq, List.pairwise_append, List.pairwise_cons]
    refine ⟨hsa, ⟨hb, hsb⟩, fun x hx y hy => ?_⟩
    rcases List.mem_cons.mp hy with rfl | hy
    · exact (ha x hx).le
    · exact hab x hx y hy
  · intro other p
    rw [hmem, hrest.known, noted, noted, Enqueued.mk.injEq]
    rcases eq_or_ne other task with rfl | hne
    · simp [eq_comm]
    · simp [hne]
  · intro enqueued henqueued
    rcases (hmem enqueued).mp henqueued with rfl | henqueued
    · change -1 ≤ priority
      omega
    · exact hrest.bound enqueued henqueued

/-- A zero priority becomes the generation before. -/
def lowered (enqueued : Enqueued Task) : Enqueued Task :=
  { enqueued with priority := if enqueued.priority = 0 then -1 else enqueued.priority }

omit [DecidableEq Task] in
theorem lowered_eq_self {enqueued : Enqueued Task} (h : enqueued.priority ≠ 0) :
    lowered enqueued = enqueued := by
  rw [lowered, if_neg h]

omit [DecidableEq Task] in
theorem map_lowered_eq_self {tasks : List (Enqueued Task)}
    (h : ∀ enqueued ∈ tasks, enqueued.priority ≠ 0) : tasks.map lowered = tasks :=
  (List.map_congr_left fun enqueued hmem => lowered_eq_self (h enqueued hmem)).trans
    (List.map_id tasks)

omit [DecidableEq Task] in
/-- Behind the zeros of an ordered queue there are only tasks of earlier generations. -/
theorem resetFrom_eq {tasks : List (Enqueued Task)}
    (hsorted : tasks.Pairwise fun a b => b.priority ≤ a.priority)
    (hlow : ∀ enqueued ∈ tasks, enqueued.priority = 0 ∨ enqueued.priority = -1) :
    resetFrom tasks = some (tasks.map lowered) := by
  induction tasks with
  | nil => rfl
  | cons first rest ih =>
    rw [List.pairwise_cons] at hsorted
    rcases hlow first List.mem_cons_self with hzero | hbefore
    · rw [resetFrom, if_neg (not_not.mpr hzero),
        ih hsorted.2 fun enqueued h => hlow enqueued (List.mem_cons_of_mem _ h), List.map_cons,
        lowered, if_pos hzero]
      rfl
    · have hnonzero : ∀ enqueued ∈ first :: rest, enqueued.priority ≠ 0 := by
        intro enqueued hmem
        rcases List.mem_cons.mp hmem with rfl | hmem
        · omega
        · have := hsorted.1 enqueued hmem
          omega
      rw [resetFrom, if_pos (by omega), if_pos hbefore, map_lowered_eq_self hnonzero]

omit [DecidableEq Task] in
/-- The assertion of `resetGeneration` holds: it lowers the zeros and nothing else. -/
theorem Kept.resetGeneration_eq {tasks : List (Enqueued Task)} {last : Task → Option ℤ}
    (h : Kept tasks last) : resetGeneration tasks = some (tasks.map lowered) := by
  obtain ⟨before, behind, hsplit, hfirst, hbefore, hstop⟩ := Base.exists_append_findIdx
    (fun enqueued : Enqueued Task => decide (enqueued.priority = 0)) tasks
  have hsorted := (List.pairwise_append.mp (hsplit ▸ h.sorted)).2.1
  -- from the first zero on the priorities are zero or from the generation before
  have hlow : ∀ enqueued ∈ behind, enqueued.priority = 0 ∨ enqueued.priority = -1 := by
    intro enqueued hmem
    have hbound := h.bound enqueued (hsplit ▸ List.mem_append_right _ hmem)
    cases behind with
    | nil => exact nomatch hmem
    | cons first rest =>
      have hzero : first.priority = 0 := of_decide_eq_true (hstop first rfl)
      rcases List.mem_cons.mp hmem with rfl | hmem
      · exact Or.inl hzero
      · have := (List.pairwise_cons.mp hsorted).1 enqueued hmem
        omega
  calc resetGeneration tasks
      = (resetFrom (tasks.drop before.length)).map (tasks.take before.length ++ ·) := by
        rw [resetGeneration, hfirst]
    _ = (resetFrom behind).map (before ++ ·) := by rw [hsplit, List.drop_left, List.take_left]
    _ = some (before ++ behind.map lowered) := by
        rw [resetFrom_eq hsorted hlow]
        rfl
    _ = some (tasks.map lowered) := by
        rw [hsplit, List.map_append,
          map_lowered_eq_self fun enqueued hmem => of_decide_eq_false (hbefore enqueued hmem)]

theorem Kept.lower {tasks : List (Enqueued Task)} {last : Task → Option ℤ}
    (h : Kept tasks last) : Kept (tasks.map lowered) (noted last .resetGeneration) where
  nodup := by
    rw [List.map_map]
    exact h.nodup
  sorted := by
    rw [List.pairwise_map]
    refine h.sorted.imp_of_mem fun ha hb hab => ?_
    have hbound := h.bound _ hb
    dsimp only [lowered]
    split_ifs <;> omega
  known := fun task priority => by
    rw [noted, Option.map_eq_some_iff, List.mem_map]
    constructor
    · rintro ⟨enqueued, hmem, heq⟩
      obtain ⟨rfl, rfl⟩ := Enqueued.mk.inj heq
      exact ⟨enqueued.priority, (h.known _ _).mp hmem, rfl⟩
    · rintro ⟨p, hlast, rfl⟩
      exact ⟨⟨task, p⟩, (h.known _ _).mpr hlast, rfl⟩
  bound := fun enqueued hmem => by
    obtain ⟨was, hwas, rfl⟩ := List.mem_map.mp hmem
    have := h.bound was hwas
    dsimp only [lowered]
    split_ifs <;> omega

theorem Kept.step {tasks : List (Enqueued Task)} {last : Task → Option ℤ} (h : Kept tasks last)
    {op : Op Task} (hop : op.Valid) :
    ∃ next, step tasks op = some next ∧ Kept next (noted last op) := by
  cases op with
  | enqueue task priority => exact ⟨_, rfl, h.enqueue task hop⟩
  | remove task => exact ⟨_, rfl, h.remove task⟩
  | resetGeneration => exact ⟨_, h.resetGeneration_eq, h.lower⟩

theorem Kept.run {ops : List (Op Task)} {tasks : List (Enqueued Task)} {last : Task → Option ℤ}
    (h : Kept tasks last) (hops : ∀ op ∈ ops, op.Valid) :
    ∃ next, run tasks ops = some next ∧ Kept next (ops.foldl noted last) := by
  induction ops generalizing tasks last with
  | nil => exact ⟨tasks, rfl, h⟩
  | cons op ops ih =>
    obtain ⟨middle, hstep, hmiddle⟩ := h.step (hops op List.mem_cons_self)
    obtain ⟨next, hrun, hnext⟩ := ih hmiddle fun op hop => hops op (List.mem_cons_of_mem _ hop)
    exact ⟨next, Option.bind_eq_some_iff.mpr ⟨middle, hstep, hrun⟩, hnext⟩

/-- With `onlyHighestPriority` and a task of a positive priority only the tasks of the highest
priority are looked at. -/
def LookedAt (tasks : List (Enqueued Task)) (onlyHighestPriority : Bool)
    (enqueued : Enqueued Task) : Prop :=
  enqueued ∈ tasks ∧
    (onlyHighestPriority = true → (∃ other ∈ tasks, 0 < other.priority) →
      ∀ other ∈ tasks, other.priority ≤ enqueued.priority)

omit [DecidableEq Task] in
theorem mem_takeWhile_front {tasks : List (Enqueued Task)} {highest : ℤ}
    (hsorted : tasks.Pairwise fun a b => b.priority ≤ a.priority)
    (hbound : ∀ enqueued ∈ tasks, enqueued.priority ≤ highest) (enqueued : Enqueued Task) :
    enqueued ∈ tasks.takeWhile (fun enqueued => decide (enqueued.priority = highest)) ↔
      enqueued ∈ tasks ∧ enqueued.priority = highest := by
  induction tasks with
  | nil => simp
  | cons first rest ih =>
    rw [List.pairwise_cons] at hsorted
    have ih := ih hsorted.2 fun enqueued hmem => hbound enqueued (List.mem_cons_of_mem _ hmem)
    by_cases hfirst : first.priority = highest
    · rw [List.takeWhile_cons, if_pos (decide_eq_true hfirst), List.mem_cons, List.mem_cons, ih]
      constructor
      · rintro (rfl | ⟨hmem, heq⟩)
        · exact ⟨Or.inl rfl, hfirst⟩
        · exact ⟨Or.inr hmem, heq⟩
      · rintro ⟨rfl | hmem, heq⟩
        · exact Or.inl rfl
        · exact Or.inr ⟨hmem, heq⟩
    · rw [List.takeWhile_cons, if_neg (by simpa using hfirst)]
      refine ⟨fun hmem => absurd hmem List.not_mem_nil, ?_⟩
      rintro ⟨hmem, heq⟩
      have hhigh := hbound first List.mem_cons_self
      rcases List.mem_cons.mp hmem with rfl | hmem
      · exact absurd heq hfirst
      · have := hsorted.1 enqueued hmem
        omega

omit [DecidableEq Task] in
theorem mem_tillNotHighest {tasks : List (Enqueued Task)}
    (hsorted : tasks.Pairwise fun a b => b.priority ≤ a.priority) (onlyHighestPriority : Bool)
    (enqueued : Enqueued Task) :
    enqueued ∈ tillNotHighest tasks onlyHighestPriority ↔
      LookedAt tasks onlyHighestPriority enqueued := by
  rcases tasks with _ | ⟨front, rest⟩
  · simp [tillNotHighest, LookedAt]
  have hbound : ∀ other ∈ front :: rest, other.priority ≤ front.priority := by
    intro other hmem
    rcases List.mem_cons.mp hmem with rfl | hmem
    · exact le_refl _
    · exact (List.pairwise_cons.mp hsorted).1 other hmem
  unfold tillNotHighest LookedAt
  dsimp only
  split_ifs with hhigh
  · rw [mem_takeWhile_front hsorted hbound]
    refine and_congr_right fun hmem => ⟨?_, ?_⟩
    · rintro heq - - other hother
      exact heq ▸ hbound other hother
    · intro h
      exact le_antisymm (hbound enqueued hmem)
        (h hhigh.1 ⟨front, List.mem_cons_self, hhigh.2⟩ front List.mem_cons_self)
  · refine ⟨fun hmem => ⟨hmem, ?_⟩, And.left⟩
    rintro honly ⟨other, hother, hpos⟩
    exact absurd ⟨honly, hpos.trans_le (hbound other hother)⟩ hhigh

/-- What the queue is for: a ready task of the highest priority among those looked at. -/
def NextTask (readyToRequest : Task → Bool) (tasks : List (Enqueued Task))
    (onlyHighestPriority : Bool) : Option Task → Prop
  | some task => ∃ priority, LookedAt tasks onlyHighestPriority ⟨task, priority⟩ ∧
      readyToRequest task = true ∧
      ∀ other, LookedAt tasks onlyHighestPriority other → readyToRequest other.task = true →
        other.priority ≤ priority
  | none => ∀ other, LookedAt tasks onlyHighestPriority other → readyToRequest other.task = false

omit [DecidableEq Task] in
theorem tillNotHighest_sublist (tasks : List (Enqueued Task)) (onlyHighestPriority : Bool) :
    (tillNotHighest tasks onlyHighestPriority).Sublist tasks := by
  rcases tasks with _ | ⟨front, rest⟩
  · exact List.Sublist.refl _
  · unfold tillNotHighest
    dsimp only
    split_ifs
    · exact List.takeWhile_sublist _
    · exact List.Sublist.refl _

omit [DecidableEq Task] in
theorem nextTask_spec {tasks : List (Enqueued Task)}
    (hsorted : tasks.Pairwise fun a b => b.priority ≤ a.priority)
    (readyToRequest : Task → Bool) (onlyHighestPriority : Bool) :
    NextTask readyToRequest tasks onlyHighestPriority
      (nextTask readyToRequest tasks onlyHighestPriority) := by
  have htill := hsorted.sublist (tillNotHighest_sublist tasks onlyHighestPriority)
  have hmem := mem_tillNotHighest hsorted onlyHighestPriority
  unfold nextTask
  cases hfind : (tillNotHighest tasks onlyHighestPriority).find? fun enqueued =>
      readyToRequest enqueued.task with
  | none =>
    intro other hother
    simpa using List.find?_eq_none.mp hfind other ((hmem other).mpr hother)
  | some first =>
    obtain ⟨hready, before, after, hsplit, hbefore⟩ := List.find?_eq_some_iff_append.mp hfind
    refine ⟨first.priority, (hmem first).mp (List.mem_of_find?_eq_some hfind), hready, ?_⟩
    intro other hother hotherReady
    have hother := (hmem other).mpr hother
    rw [hsplit] at hother htill
    rcases List.mem_append.mp hother with hother | hother
    · have := hbefore other hother
      rw [hotherReady] at this
      exact nomatch this
    · rcases List.mem_cons.mp hother with rfl | hother
      · exact le_refl _
      · exact (List.pairwise_cons.mp (List.pairwise_append.mp htill).2.1).1 other hother

/-- Over every run: no task twice, each with the priority noted for it, the priorities in order,
an enqueued task right where it belongs, and the next task is a ready one of the highest. -/
theorem priority_queue {ops : List (Op Task)} (hops : ∀ op ∈ ops, op.Valid) :
    ∃ tasks, run [] ops = some tasks ∧
      (tasks.map Enqueued.task).Nodup ∧
      (∀ task priority, ⟨task, priority⟩ ∈ tasks ↔ lastPriority ops task = some priority) ∧
      (tasks.Pairwise fun a b => b.priority ≤ a.priority) ∧
      (∀ task priority, ∃ a b, enqueue tasks task priority = a ++ ⟨task, priority⟩ :: b ∧
        (∀ enqueued ∈ a, priority < enqueued.priority) ∧
        (∀ enqueued ∈ b, enqueued.priority ≤ priority) ∧ a ++ b = others tasks task) ∧
      (∀ task, remove tasks task = others tasks task) ∧
      resetGeneration tasks = some (tasks.map lowered) ∧
      ∀ readyToRequest onlyHighestPriority,
        NextTask readyToRequest tasks onlyHighestPriority
          (nextTask readyToRequest tasks onlyHighestPriority) := by
  obtain ⟨tasks, hrun, h⟩ := Kept.start.run hops
  exact ⟨tasks, hrun, h.nodup, h.known, h.sorted, h.placed, fun task => rfl,
    h.resetGeneration_eq, nextTask_spec h.sorted⟩

/-- A task is moved up, the generation ends and an equal priority comes in before it. -/
theorem priority_queue_moves :
    ∃ tasks, run [] [Op.enqueue "a" 0, .enqueue "b" 2, .enqueue "a" 3, .enqueue "c" 0,
        .resetGeneration, .enqueue "d" 0, .remove "b"] = some tasks ∧
      (tasks.map Enqueued.task).Nodup ∧
      (tasks.Pairwise fun a b => b.priority ≤ a.priority) := by
  have hops : ∀ op ∈ [Op.enqueue "a" 0, .enqueue "b" 2, .enqueue "a" 3, .enqueue "c" 0,
      .resetGeneration, .enqueue "d" 0, .remove "b"], op.Valid := by
    simp [Op.Valid]
  obtain ⟨tasks, hrun, hnodup, -, hsorted, -⟩ := priority_queue hops
  exact ⟨tasks, hrun, hnodup, hsorted⟩

end Queue

end TelegramDesktop.Storage.DownloadManagerMtproto
