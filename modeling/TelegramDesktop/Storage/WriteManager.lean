import TelegramDesktop.Base.Latest
import TelegramDesktop.Base.Run
import TelegramDesktop.Storage.FileUtilitiesCrash

namespace TelegramDesktop.Storage
open Base

namespace WriteManager

/-- What is to be written in the files of one base name. -/
structure WriteEntry where
  base : String
  file : FileUtilities.WriteEntry

/-- What the thread of the manager is asked for. -/
inductive Task
  | write (entry : WriteEntry)
  | writeScheduled

end WriteManager

open WriteManager

/-- The manager with the queue of its thread. What its functions emit is what `writeNow` was
called for. -/
structure WriteManager where
  queue : List Task := []
  scheduled : List WriteEntry := []

namespace WriteManager

def scheduleWrite (m : WriteManager) : WriteManager :=
  { m with queue := m.queue ++ [.writeScheduled] }

def write (entry : WriteEntry) (m : WriteManager) : WriteManager :=
  scheduleWrite { m with scheduled := place WriteEntry.base entry m.scheduled }

def writeSync (entry : WriteEntry) (m : WriteManager) : WriteManager × List WriteEntry :=
  ({ m with scheduled := m.scheduled.eraseP fun other => decide (other.base = entry.base) },
    [entry])

/-- Whether there was an entry is whether one is emitted. -/
def writeOneScheduledNow (m : WriteManager) : WriteManager × List WriteEntry :=
  match m.scheduled with
  | [] => (m, [])
  | entry :: rest => ({ m with scheduled := rest }, [entry])

def writeScheduled (m : WriteManager) : WriteManager × List WriteEntry :=
  let r := writeOneScheduledNow m
  if !r.2.isEmpty && !r.1.scheduled.isEmpty then (scheduleWrite r.1, r.2) else r

theorem scheduled_writeOneScheduledNow {m : WriteManager} (h : (writeOneScheduledNow m).2 ≠ []) :
    (writeOneScheduledNow m).1.scheduled.length < m.scheduled.length := by
  unfold writeOneScheduledNow at h ⊢
  split at h
  · exact absurd rfl h
  · next entry rest heq =>
    rw [heq]
    exact Nat.lt_succ_self _

def writeSyncAll (m : WriteManager) : WriteManager × List WriteEntry :=
  let r := writeOneScheduledNow m
  if _h : r.2 = [] then r
  else
    let t := writeSyncAll r.1
    (t.1, r.2 ++ t.2)
termination_by m.scheduled.length
decreasing_by exact scheduled_writeOneScheduledNow _h

/-- The thread takes the next task. -/
def thread (m : WriteManager) : WriteManager × List WriteEntry :=
  match m.queue with
  | [] => (m, [])
  | .write entry :: tasks => (write entry { m with queue := tasks }, [])
  | .writeScheduled :: tasks => writeScheduled { m with queue := tasks }

/-- So many tasks of the thread. -/
def threads (count : ℕ) (m : WriteManager) : WriteManager × List WriteEntry :=
  run (fun m (_ : Unit) => thread m) m (List.replicate count ())

/-- What a call that waits for the thread does: the tasks before it, and its own. -/
def withSync (f : WriteManager → WriteManager × List WriteEntry) (m : WriteManager) :
    WriteManager × List WriteEntry :=
  let r := threads m.queue.length m
  let t := f r.1
  (t.1, r.2 ++ t.2)

end WriteManager

structure AsyncWriteManager where
  manager : Option WriteManager := none
  finished : Bool := false

namespace AsyncWriteManager

/-- What the callers do, and the thread of the manager taking a task. -/
inductive Event
  | write (entry : WriteEntry)
  | writeSync (entry : WriteEntry)
  | sync
  | stop
  | thread

def sync (a : AsyncWriteManager) : AsyncWriteManager × List WriteEntry :=
  match a.manager with
  | none => (a, [])
  | some m =>
    let r := withSync writeSyncAll m
    ({ a with manager := some r.1 }, r.2)

def stop (a : AsyncWriteManager) : AsyncWriteManager × List WriteEntry :=
  let r := sync a
  (⟨none, true⟩, r.2)

def step (a : AsyncWriteManager) : Event → AsyncWriteManager × List WriteEntry
  -- Both ways of writing assert that `stop` was not called, and nothing below rests on that.
  | .write entry =>
    let m := a.manager.getD {}
    ({ a with manager := some { m with queue := m.queue ++ [.write entry] } }, [])
  | .writeSync entry =>
    let r := withSync (writeSync entry) (a.manager.getD {})
    ({ a with manager := some r.1 }, r.2)
  | .sync => sync a
  | .stop => stop a
  | .thread =>
    match a.manager with
    | none => (a, [])
    | some m =>
      let r := thread m
      ({ a with manager := some r.1 }, r.2)

end AsyncWriteManager

namespace WriteManager

variable {m : WriteManager} {base : String}

/-- The entries that a task of the thread still has to place. -/
def Task.entries : Task → List WriteEntry
  | .write entry => [entry]
  | .writeScheduled => []

/-- The entries that are not written yet, the older ones first. -/
def pending (m : WriteManager) : List WriteEntry :=
  m.scheduled ++ m.queue.flatMap Task.entries

/-- Each base is scheduled once, and what is scheduled has a task that will write it. -/
structure Valid (m : WriteManager) : Prop where
  nodup : (m.scheduled.map WriteEntry.base).Nodup
  woken : m.scheduled ≠ [] → Task.writeScheduled ∈ m.queue

/-- An operation that is handed some entries keeps the last of each base. -/
def Keeps (m : WriteManager) (r : WriteManager × List WriteEntry) (entries : List WriteEntry) :
    Prop :=
  r.1.Valid ∧ Coalesces WriteEntry.base (r.2 ++ r.1.pending) (m.pending ++ entries)

theorem flatMap_writeScheduled (tasks : List Task) :
    (tasks ++ [Task.writeScheduled]).flatMap Task.entries = tasks.flatMap Task.entries := by
  rw [List.flatMap_append, List.flatMap_singleton]
  exact List.append_nil _

theorem keeps_write (h : m.Valid) {entry : WriteEntry} {tasks : List Task}
    (hqueue : m.queue = .write entry :: tasks) :
    Keeps m (write entry { m with queue := tasks }, []) [] := by
  refine ⟨⟨nodup_place entry h.nodup, fun _ => ?_⟩, ?_⟩
  · exact List.mem_append_right _ (List.mem_singleton_self _)
  · rw [pending, pending, write, scheduleWrite, hqueue]
    dsimp only
    rw [flatMap_writeScheduled, List.flatMap_cons, Task.entries, List.nil_append, List.append_nil,
      ← List.append_assoc]
    exact (coalesces_place entry h.nodup).append (.refl _)

/-- The first entry that is scheduled becomes the next that is written. -/
theorem pending_writeOneScheduledNow (m : WriteManager) :
    (writeOneScheduledNow m).2 ++ (writeOneScheduledNow m).1.pending = m.pending := by
  unfold writeOneScheduledNow pending
  split
  · rfl
  · next entry rest heq => rw [heq]; rfl

theorem nodup_writeOneScheduledNow (h : (m.scheduled.map WriteEntry.base).Nodup) :
    ((writeOneScheduledNow m).1.scheduled.map WriteEntry.base).Nodup := by
  unfold writeOneScheduledNow
  split
  · exact h
  · next entry rest heq =>
    rw [heq, List.map_cons, List.nodup_cons] at h
    exact h.2

theorem queue_writeOneScheduledNow (m : WriteManager) :
    (writeOneScheduledNow m).1.queue = m.queue := by
  unfold writeOneScheduledNow
  split <;> rfl

theorem writeOneScheduledNow_nil (h : (writeOneScheduledNow m).2 = []) :
    (writeOneScheduledNow m).1.scheduled = [] := by
  unfold writeOneScheduledNow at h ⊢
  split at h
  · next heq => exact heq
  · exact absurd h (List.cons_ne_nil _ _)

theorem keeps_writeScheduled (h : m.Valid) {tasks : List Task}
    (hqueue : m.queue = .writeScheduled :: tasks) :
    Keeps m (writeScheduled { m with queue := tasks }) [] := by
  let after : WriteManager := { m with queue := tasks }
  have hpending : m.pending = after.pending := by
    rw [pending, pending, hqueue, List.flatMap_cons]
    rfl
  have hnodup : ((writeOneScheduledNow after).1.scheduled.map WriteEntry.base).Nodup :=
    nodup_writeOneScheduledNow h.nodup
  have hkept := pending_writeOneScheduledNow after
  show Keeps m (writeScheduled after) []
  rw [Keeps, hpending, List.append_nil, writeScheduled]
  by_cases hmore : (!(writeOneScheduledNow after).2.isEmpty &&
      !(writeOneScheduledNow after).1.scheduled.isEmpty) = true
  · rw [if_pos hmore]
    refine ⟨⟨hnodup, fun _ => List.mem_append_right _ (List.mem_singleton_self _)⟩, ?_⟩
    rw [← hkept, scheduleWrite, pending]
    dsimp only
    rw [flatMap_writeScheduled]
    exact .refl _
  · rw [if_neg hmore]
    refine ⟨⟨hnodup, fun hne => absurd hne (not_not.mpr ?_)⟩, hkept ▸ .refl _⟩
    -- Either nothing was scheduled or nothing is left.
    by_cases hone : (writeOneScheduledNow after).2 = []
    · exact writeOneScheduledNow_nil hone
    · simpa [hone] using hmore

theorem keeps_thread (h : m.Valid) : Keeps m (thread m) [] := by
  unfold thread
  split
  · rw [Keeps, List.nil_append, List.append_nil]
    exact ⟨h, .refl _⟩
  · next entry tasks hqueue => exact keeps_write h hqueue
  · next tasks hqueue => exact keeps_writeScheduled h hqueue

/-- What one operation keeps and what the next keeps. -/
theorem Keeps.trans {r t : WriteManager × List WriteEntry} {entries : List WriteEntry}
    (h : Keeps m r []) (h' : Keeps r.1 t entries) : Keeps m (t.1, r.2 ++ t.2) entries := by
  have hlast := h.2.append (.refl entries)
  rw [List.append_nil, List.append_assoc] at hlast
  rw [Keeps, List.append_assoc]
  exact ⟨h'.1, (Coalesces.append (.refl r.2) h'.2).trans hlast⟩

theorem keeps_threads (h : m.Valid) (count : ℕ) : Keeps m (threads count m) [] := by
  induction count generalizing m with
  | zero =>
    rw [Keeps, List.append_nil]
    exact ⟨h, .refl _⟩
  | succ count ih => exact (keeps_thread h).trans (ih (keeps_thread h).1)

/-- The thread has taken the tasks that there were, and has only been asked to go on. -/
theorem queue_thread (m : WriteManager) :
    ∃ more, (thread m).1.queue = m.queue.tail ++ more ∧ more.flatMap Task.entries = [] := by
  unfold thread
  split
  · next hqueue => exact ⟨[], by rw [hqueue]; rfl, rfl⟩
  · next entry tasks hqueue => exact ⟨[.writeScheduled], by rw [hqueue]; rfl, rfl⟩
  · next tasks hqueue =>
    rw [writeScheduled, hqueue]
    split
    · refine ⟨[.writeScheduled], ?_, rfl⟩
      rw [scheduleWrite, queue_writeOneScheduledNow]
      rfl
    · refine ⟨[], ?_, rfl⟩
      rw [queue_writeOneScheduledNow]
      exact (List.append_nil _).symm

theorem queue_threads (count : ℕ) (m : WriteManager) :
    ∃ more, (threads count m).1.queue = m.queue.drop count ++ more ∧
      more.flatMap Task.entries = [] := by
  induction count generalizing m with
  | zero => exact ⟨[], (List.append_nil _).symm, rfl⟩
  | succ count ih =>
    obtain ⟨added, hadded, hnone⟩ := queue_thread m
    obtain ⟨more, hmore, hmoreNone⟩ := ih (thread m).1
    refine ⟨added.drop (count - m.queue.tail.length) ++ more, ?_, ?_⟩
    · show (threads count (thread m).1).1.queue = _
      rw [hmore, hadded, List.drop_append, List.drop_tail, List.append_assoc]
    · rw [List.flatMap_append, hmoreNone, List.append_nil]
      apply List.flatMap_eq_nil_iff.mpr
      intro task htask
      exact List.flatMap_eq_nil_iff.mp hnone task (List.mem_of_mem_drop htask)

/-- Nothing waits to be placed when a call that waits begins. -/
theorem queue_threads_all (m : WriteManager) :
    (threads m.queue.length m).1.queue.flatMap Task.entries = [] := by
  obtain ⟨more, hmore, hnone⟩ := queue_threads m.queue.length m
  rw [hmore, List.drop_length, List.nil_append, hnone]

theorem keeps_writeSync (h : m.Valid) (hqueue : m.queue.flatMap Task.entries = [])
    (entry : WriteEntry) : Keeps m (writeSync entry m) [entry] := by
  have hsub := List.eraseP_sublist (p := fun other => decide (WriteEntry.base other = entry.base))
    (l := m.scheduled)
  refine ⟨⟨h.nodup.sublist (hsub.map _), fun hne => h.woken fun hnil => hne ?_⟩, ?_⟩
  · rw [writeSync, hnil]
    rfl
  · rw [pending, pending, writeSync]
    dsimp only
    rw [hqueue, List.append_nil, List.append_nil]
    exact coalesces_eraseP entry h.nodup

theorem valid_writeOneScheduledNow (h : m.Valid) : (writeOneScheduledNow m).1.Valid := by
  refine ⟨nodup_writeOneScheduledNow h.nodup, fun hne => ?_⟩
  rw [queue_writeOneScheduledNow]
  apply h.woken
  intro hnil
  apply hne
  rw [writeOneScheduledNow, hnil]
  exact hnil

theorem keeps_writeOneScheduledNow (h : m.Valid) : Keeps m (writeOneScheduledNow m) [] := by
  rw [Keeps, pending_writeOneScheduledNow, List.append_nil]
  exact ⟨valid_writeOneScheduledNow h, .refl _⟩

theorem keeps_writeSyncAll (h : m.Valid) :
    Keeps m (writeSyncAll m) [] ∧ (writeSyncAll m).1.scheduled = [] ∧
      (writeSyncAll m).1.queue = m.queue := by
  induction m using writeSyncAll.induct with
  | case1 m r hnone =>
    rw [writeSyncAll, dif_pos hnone]
    exact ⟨keeps_writeOneScheduledNow h, writeOneScheduledNow_nil hnone,
      queue_writeOneScheduledNow m⟩
  | case2 m r hsome ih =>
    have hkept := keeps_writeOneScheduledNow h
    rw [writeSyncAll, dif_neg hsome]
    obtain ⟨hrest, hnil, hqueue⟩ := ih hkept.1
    exact ⟨hkept.trans hrest, hnil, hqueue.trans (queue_writeOneScheduledNow m)⟩

/-- What a call that waits keeps, when its own function keeps it. -/
theorem keeps_withSync (h : m.Valid) {f : WriteManager → WriteManager × List WriteEntry}
    {entries : List WriteEntry}
    (hf : ∀ m : WriteManager, m.Valid → m.queue.flatMap Task.entries = [] → Keeps m (f m) entries) :
    Keeps m (withSync f m) entries := by
  have hbefore := keeps_threads h m.queue.length
  exact hbefore.trans (hf _ hbefore.1 (queue_threads_all m))

/-- After a call that waits for all, nothing is pending. -/
theorem pending_syncAll (h : m.Valid) : (withSync writeSyncAll m).1.pending = [] := by
  have hbefore := keeps_threads h m.queue.length
  obtain ⟨-, hnil, hqueue⟩ := keeps_writeSyncAll hbefore.1
  rw [pending, withSync, hnil, hqueue, queue_threads_all]
  rfl

/-- A bound for the tasks until there is none: a task to place an entry becomes a task to go on
and maybe an entry that is scheduled. -/
def work (m : WriteManager) : ℕ :=
  m.scheduled.length + (m.queue.map fun task => 1 + 2 * task.entries.length).sum

theorem length_place_le (entry : WriteEntry) (queue : List WriteEntry) :
    (place WriteEntry.base entry queue).length ≤ queue.length + 1 := by
  have h : ((place WriteEntry.base entry queue).map WriteEntry.base).length = _ :=
    congrArg List.length (map_place entry queue)
  rw [List.length_map] at h
  rw [h]
  split
  · rw [List.length_map]
    omega
  · rw [List.length_append, List.length_map]
    rfl

theorem work_scheduleWrite (m : WriteManager) : (scheduleWrite m).work = m.work + 1 := by
  simp [work, scheduleWrite, Task.entries, Nat.add_assoc]

theorem work_writeOneScheduledNow (m : WriteManager) :
    (writeOneScheduledNow m).1.work + (writeOneScheduledNow m).2.length = m.work := by
  unfold writeOneScheduledNow
  split
  · rfl
  · next entry rest heq =>
    simp [work, heq]
    omega

theorem work_writeScheduled (m : WriteManager) : (writeScheduled m).1.work ≤ m.work := by
  have hone := work_writeOneScheduledNow m
  rw [writeScheduled]
  split
  · next hmore =>
    show (scheduleWrite (writeOneScheduledNow m).1).work ≤ m.work
    have hne : (writeOneScheduledNow m).2 ≠ [] := by
      intro hnil
      simp [hnil] at hmore
    have hpos := List.length_pos_of_ne_nil hne
    rw [work_scheduleWrite]
    omega
  · omega

theorem work_thread (h : m.queue ≠ []) : (thread m).1.work < m.work := by
  unfold thread
  split
  · next hqueue => exact absurd hqueue h
  · next entry tasks hqueue =>
    have hplace := length_place_le entry m.scheduled
    rw [write, work_scheduleWrite, work, work, hqueue, List.map_cons, List.sum_cons, Task.entries,
      List.length_singleton]
    dsimp only
    omega
  · next tasks hqueue =>
    have hrest := work_writeScheduled { m with queue := tasks }
    have hwork : m.work = ({ m with queue := tasks } : WriteManager).work + 1 := by
      rw [work, work, hqueue, List.map_cons, List.sum_cons, Task.entries, List.length_nil]
      dsimp only
      omega
    omega

theorem threads_idle (h : m.queue = []) (count : ℕ) : threads count m = (m, []) := by
  have hstays : thread m = (m, []) := by
    rw [thread, h]
  induction count with
  | zero => rfl
  | succ count ih =>
    show ((threads count (thread m).1).1, (thread m).2 ++ (threads count (thread m).1).2) = (m, [])
    rw [hstays, ih]
    rfl

/-- The thread comes to an end of its tasks. -/
theorem queue_settled {count : ℕ} (h : m.work ≤ count) : (threads count m).1.queue = [] := by
  by_cases hqueue : m.queue = []
  · rw [threads_idle hqueue, hqueue]
  · induction count generalizing m with
    | zero =>
      have hless := work_thread hqueue
      omega
    | succ count ih =>
      have hless := work_thread hqueue
      show (threads count (thread m).1).1.queue = []
      by_cases hnext : (thread m).1.queue = []
      · rw [threads_idle hnext, hnext]
      · exact ih (by omega) hnext

/-- Nothing is pending then. -/
theorem pending_settled (hvalid : m.Valid) {count : ℕ} (h : m.work ≤ count) :
    (threads count m).1.pending = [] := by
  have hqueue := queue_settled h
  have hnone : (threads count m).1.scheduled = [] := by
    by_contra hne
    have hwoken := (keeps_threads hvalid count).1.woken hne
    rw [hqueue] at hwoken
    exact absurd hwoken List.not_mem_nil
  rw [pending, hnone, hqueue]
  rfl

end WriteManager

namespace AsyncWriteManager

variable {a : AsyncWriteManager}

/-- The entries that an event adds. -/
def Event.entries : Event → List WriteEntry
  | .write entry | .writeSync entry => [entry]
  | .sync | .stop | .thread => []

def pending (a : AsyncWriteManager) : List WriteEntry := (a.manager.getD {}).pending

def Valid (a : AsyncWriteManager) : Prop := (a.manager.getD {}).Valid

theorem valid_empty : ({} : WriteManager).Valid := ⟨List.nodup_nil, fun h => absurd rfl h⟩

/-- What is done about one manager is done about the object. -/
theorem keeps_of_manager {r : AsyncWriteManager × List WriteEntry}
    {t : WriteManager × List WriteEntry} {entries : List WriteEntry}
    (h : Keeps (a.manager.getD {}) t entries) (hmanager : r.1.manager = some t.1)
    (hout : r.2 = t.2) :
    r.1.Valid ∧ Coalesces WriteEntry.base (r.2 ++ r.1.pending) (a.pending ++ entries) := by
  rw [Valid, pending, hmanager, hout]
  exact h

theorem keeps_write (h : a.Valid) (entry : WriteEntry) :
    Keeps (a.manager.getD {})
      ({ (a.manager.getD {}) with queue := (a.manager.getD {}).queue ++ [.write entry] }, [])
      [entry] := by
  refine ⟨⟨h.nodup, fun hne => List.mem_append_left _ (h.woken hne)⟩, ?_⟩
  rw [WriteManager.pending, WriteManager.pending]
  dsimp only
  rw [List.flatMap_append, List.nil_append, List.append_assoc]
  exact .refl _

theorem keeps_sync (h : a.Valid) :
    (sync a).1.Valid ∧ (sync a).1.pending = [] ∧
      Coalesces WriteEntry.base (sync a).2 a.pending := by
  cases hmanager : a.manager with
  | none =>
    have hempty : a.pending = [] := by
      rw [pending, hmanager]
      rfl
    rw [sync, hmanager]
    exact ⟨h, hempty, hempty ▸ .refl _⟩
  | some m =>
    have hvalid : m.Valid := by
      rw [Valid, hmanager] at h
      exact h
    have hkept := keeps_withSync hvalid fun m hm _ => (keeps_writeSyncAll hm).1
    have hnone := pending_syncAll hvalid
    have hlast := hkept.2
    rw [hnone, List.append_nil, List.append_nil] at hlast
    rw [sync, hmanager, Valid, pending, pending, hmanager]
    exact ⟨hkept.1, hnone, hlast⟩

theorem keeps_step (h : a.Valid) (event : Event) :
    (step a event).1.Valid ∧ Coalesces WriteEntry.base
      ((step a event).2 ++ (step a event).1.pending) (a.pending ++ event.entries) := by
  cases event with
  | write entry => exact keeps_of_manager (keeps_write h entry) rfl rfl
  | writeSync entry =>
    have hkept := keeps_withSync (f := writeSync entry) h fun m hm hqueue =>
      keeps_writeSync hm hqueue entry
    exact keeps_of_manager hkept rfl rfl
  | sync =>
    obtain ⟨hvalid, hnone, hlast⟩ := keeps_sync h
    refine ⟨hvalid, ?_⟩
    show Coalesces WriteEntry.base ((sync a).2 ++ (sync a).1.pending) (a.pending ++ [])
    rw [hnone, List.append_nil, List.append_nil]
    exact hlast
  | stop =>
    refine ⟨valid_empty, ?_⟩
    show Coalesces WriteEntry.base ((sync a).2 ++ []) (a.pending ++ [])
    rw [List.append_nil, List.append_nil]
    exact (keeps_sync h).2.2
  | thread =>
    cases hmanager : a.manager with
    | none =>
      rw [step, hmanager, Event.entries, List.nil_append, List.append_nil]
      exact ⟨h, .refl _⟩
    | some m =>
      have hvalid : m.Valid := by
        rw [Valid, hmanager] at h
        exact h
      rw [step, hmanager]
      apply keeps_of_manager (t := thread m)
      · rw [hmanager]
        exact keeps_thread hvalid
      · rfl
      · rfl

/-- What a run has written and has still to write, against what it was handed. -/
theorem keeps_run (events : List Event) :
    (run step {} events).1.Valid ∧ Coalesces WriteEntry.base
      ((run step {} events).2 ++ (run step {} events).1.pending)
      (events.flatMap Event.entries) := by
  apply run_invariant step fun events a out => a.Valid ∧
    Coalesces WriteEntry.base (out ++ a.pending) (events.flatMap Event.entries)
  · exact ⟨valid_empty, .refl _⟩
  · intro events a out event ih
    have hkept := keeps_step ih.1 event
    refine ⟨hkept.1, ?_⟩
    rw [List.append_assoc, List.flatMap_append, List.flatMap_singleton]
    have hbefore := ih.2.append (.refl event.entries)
    rw [List.append_assoc] at hbefore
    exact (Coalesces.append (.refl out) hkept.2).trans hbefore

/-- In every run of the callers and of the thread: of each base the writes come in the order of
the calls, none comes twice or of itself, and the last call was written, or is scheduled with a
task that will write it, or waits to be scheduled. -/
theorem writes_coalesce (events : List Event) (base : String) :
    let r := run step {} events
    let ofBase (entries : List WriteEntry) := entries.filter fun entry => decide (entry.base = base)
    (ofBase (r.2 ++ r.1.pending)).Sublist (ofBase (events.flatMap Event.entries)) ∧
      (ofBase (r.2 ++ r.1.pending)).getLast? = (ofBase (events.flatMap Event.entries)).getLast? ∧
      ((r.1.manager.getD {}).scheduled ≠ [] →
        Task.writeScheduled ∈ (r.1.manager.getD {}).queue) := by
  obtain ⟨hvalid, hlast⟩ := keeps_run events
  exact ⟨(hlast base).1, (hlast base).2, hvalid.woken⟩

end AsyncWriteManager
end TelegramDesktop.Storage
