import Mathlib
import TelegramDesktop.Base.Prefixes
import TelegramDesktop.Data.GroupCallParticipantsIndex
import TelegramDesktop.Data.GroupCallUpdates

/-! The number of participants that a group call shows. Who speaks, offsets, timers and updates
that come from inside of another update are left out. -/

namespace TelegramDesktop.Data

open Base
open GroupCall (Key QueuedType)

/-- `MTPDgroupCall`. -/
structure MTPGroupCall where
  version : ℤ
  participantsCount : ℕ
  listenersHidden : Bool := false

/-- `MTPphone_GroupCall`. -/
inductive MTPPhoneGroupCall (P : Type*)
  | groupCall (call : MTPGroupCall) (participants : List (MTPParticipant P))
  | discarded (participants : List (MTPParticipant P))

/-- `updateGroupCall` and `updateGroupCallParticipants`, with `is_versioned` of each participant. -/
inductive MTPGroupCallUpdate (P : Type*)
  | groupCall (call : MTPGroupCall)
  | groupCallDiscarded
  | groupCallParticipants (participants : List (MTPParticipant P × Bool)) (version : ℤ)

structure GroupCallCount (P : Type*) [LinearOrder P] where
  slice : GroupCallParticipants P := {}
  version : ℤ := 0
  listenersHidden : Bool := false
  allParticipantsLoaded : Bool := false
  fullCount : ℤ := 0
  savedFull : Option (MTPPhoneGroupCall P) := none
  queuedUpdates : List (Key × MTPGroupCallUpdate P) := []

variable {P : Type*} [LinearOrder P]

namespace GroupCallCount

def participants (s : GroupCallCount P) : List (Participant P) := s.slice.participants

def serverParticipantsCount (s : GroupCallCount P) : ℤ := s.slice.serverParticipantsCount

/-- What `computeParticipantsCount` writes. -/
def participantsCount (s : GroupCallCount P) : ℤ :=
  if s.allParticipantsLoaded && !s.listenersHidden then s.participants.length
  else max s.participants.length s.serverParticipantsCount

def computeParticipantsCount (s : GroupCallCount P) : GroupCallCount P :=
  { s with fullCount := s.participantsCount }

def setServerParticipantsCount (s : GroupCallCount P) (count : ℕ) : GroupCallCount P :=
  { s with slice := { s.slice with serverParticipantsCount := count } }

def applyParticipantsSlice (s : GroupCallCount P) (list : List (MTPParticipant P))
    (sliceSource : ApplySliceSource) : GroupCallCount P :=
  let s := { s with slice := s.slice.applyParticipantsSlice list sliceSource }
  if sliceSource = .updateReceived then s.computeParticipantsCount else s

def applyCallFields (s : GroupCallCount P) (data : MTPGroupCall) : GroupCallCount P :=
  let s := { s with
    version := if data.version = 0 then 1 else data.version
    listenersHidden := data.listenersHidden }
  let s := s.setServerParticipantsCount data.participantsCount
  { s with
    allParticipantsLoaded := decide (s.serverParticipantsCount = (s.participants.length : ℤ)) }

/-- A discarded call is taken away later, from the main queue. -/
def processFullCallFields (s : GroupCallCount P) : MTPPhoneGroupCall P → GroupCallCount P
  | .groupCall call participants =>
    let s := { s with
      slice := GroupCallParticipants.cleared s.slice
      allParticipantsLoaded := false }
    (s.applyParticipantsSlice participants .fullReloaded).applyCallFields call
  | .discarded _ => s

def applyEnqueuedUpdate (s : GroupCallCount P) : MTPGroupCallUpdate P → GroupCallCount P
  | .groupCall call => (s.applyCallFields call).computeParticipantsCount
  | .groupCallDiscarded => s
  | .groupCallParticipants participants version =>
    let s := { s with version := if version = 0 then 1 else version }
    s.applyParticipantsSlice (participants.map Prod.fst) .updateReceived

/-- The loop of `processQueuedUpdates`, over what is queued. -/
def drain (s : GroupCallCount P) : List (Key × MTPGroupCallUpdate P) → GroupCallCount P
  | [] => { s with queuedUpdates := [] }
  | ((version, type), update) :: rest =>
    let incremented := type = .versionedParticipant
    -- an update that was applied already is skipped
    if version < s.version ∨ (version = s.version ∧ incremented) then s.drain rest
    else if version = s.version ∨ (version = s.version + 1 ∧ incremented) then
      (s.applyEnqueuedUpdate update).drain rest
    -- one before it is still to come
    else { s with queuedUpdates := ((version, type), update) :: rest }

def processQueuedUpdates (s : GroupCallCount P) : GroupCallCount P :=
  if s.version = 0 then s else s.drain s.queuedUpdates

def finishParticipantsSliceRequest (s : GroupCallCount P) : GroupCallCount P :=
  s.computeParticipantsCount.processQueuedUpdates

def processFullCall (s : GroupCallCount P) (call : MTPPhoneGroupCall P) : GroupCallCount P :=
  (s.processFullCallFields call).finishParticipantsSliceRequest

/-- Whether the saved call was there, and the state after it. -/
def processSavedFullCall (s : GroupCallCount P) : Bool × GroupCallCount P :=
  match s.savedFull with
  | none => (false, s)
  | some call => (true, { s with savedFull := none }.processFullCallFields call)

/-- `requestParticipants` is answered, up to `finishParticipantsSliceRequest`. -/
def participantsAnswered (s : GroupCallCount P) (list : List (MTPParticipant P)) (count : ℕ) :
    GroupCallCount P :=
  let (reloaded, s) := s.processSavedFullCall
  let s := s.applyParticipantsSlice list (if reloaded then .fullReloaded else .sliceLoaded)
  let s := s.setServerParticipantsCount count
  if list.isEmpty then { s with allParticipantsLoaded := true } else s

def participantsDone (s : GroupCallCount P) (list : List (MTPParticipant P)) (count : ℕ) :
    GroupCallCount P :=
  (s.participantsAnswered list count).finishParticipantsSliceRequest

/-- `requestParticipants` fails, up to `finishParticipantsSliceRequest`. -/
def participantsFailed (s : GroupCallCount P) : GroupCallCount P :=
  let (_, s) := s.processSavedFullCall
  let s := s.setServerParticipantsCount s.participants.length
  { s with allParticipantsLoaded := true }

def participantsFail (s : GroupCallCount P) : GroupCallCount P :=
  s.participantsFailed.finishParticipantsSliceRequest

/-- `flat_multi_map::emplace`. -/
def emplace (key : Key) (update : MTPGroupCallUpdate P) :
    List (Key × MTPGroupCallUpdate P) → List (Key × MTPGroupCallUpdate P)
  | [] => [(key, update)]
  | entry :: rest =>
    if Key.Le entry.1 key then entry :: emplace key update rest
    else (key, update) :: entry :: rest

def queue (s : GroupCallCount P) (key : Key) (update : MTPGroupCallUpdate P) : GroupCallCount P :=
  { s with queuedUpdates := emplace key update s.queuedUpdates }

/-- `enqueueUpdate` up to `processQueuedUpdates`. -/
def applyOrQueue (s : GroupCallCount P) (update : MTPGroupCallUpdate P) : GroupCallCount P :=
  match update with
  | .groupCall call =>
    if s.version = 0 ∨ s.version = call.version then s.applyEnqueuedUpdate update
    else if s.version = 0 ∨ s.version ≤ call.version then s.queue (call.version, .call) update
    else s
  | .groupCallDiscarded => s
  | .groupCallParticipants participants version =>
    let increment := participants.any fun data => data.2
    let required := if increment then version - 1 else version
    if s.version = required then s.applyEnqueuedUpdate update
    else if s.version ≤ required then
      let type := if increment then .versionedParticipant else .participant
      s.queue (version, type) update
    else s

def enqueueUpdate (s : GroupCallCount P) (update : MTPGroupCallUpdate P) : GroupCallCount P :=
  (s.applyOrQueue update).processQueuedUpdates

def applyLocalUpdate (s : GroupCallCount P) (list : List (MTPParticipant P)) : GroupCallCount P :=
  -- no `computeParticipantsCount` for this source
  s.applyParticipantsSlice list .updateConstructed

/-- `requestUnknownParticipants` is answered. -/
def unknownDone (s : GroupCallCount P) (list : List (MTPParticipant P)) : GroupCallCount P :=
  s.applyParticipantsSlice list .unknownLoaded

/-- `reload` up to its request. -/
def reload (s : GroupCallCount P) : GroupCallCount P :=
  let updates := s.queuedUpdates.map Prod.snd
  updates.foldl applyEnqueuedUpdate { s with queuedUpdates := [] }

def requestParticipantsAfterReload (s : GroupCallCount P) : MTPPhoneGroupCall P → Bool
  | .groupCall call participants =>
    decide (participants.length < call.participantsCount) &&
      decide (participants.length < s.participants.length)
  | .discarded _ => false

/-- `reload` is answered. -/
def reloadDone (s : GroupCallCount P) (result : MTPPhoneGroupCall P) : GroupCallCount P :=
  if s.requestParticipantsAfterReload result then { s with savedFull := some result }
  else s.processFullCall result

inductive Operation (P : Type*)
  | processFullCall (call : MTPPhoneGroupCall P)
  | participantsDone (list : List (MTPParticipant P)) (count : ℕ)
  | participantsFail
  | enqueueUpdate (update : MTPGroupCallUpdate P)
  | applyLocalUpdate (list : List (MTPParticipant P))
  | unknownDone (list : List (MTPParticipant P))
  | reload
  | reloadDone (result : MTPPhoneGroupCall P)

def step (s : GroupCallCount P) : Operation P → GroupCallCount P
  | .processFullCall call => s.processFullCall call
  | .participantsDone list count => s.participantsDone list count
  | .participantsFail => s.participantsFail
  | .enqueueUpdate update => s.enqueueUpdate update
  | .applyLocalUpdate list => s.applyLocalUpdate list
  | .unknownDone list => s.unknownDone list
  | .reload => s.reload
  | .reloadDone result => s.reloadDone result

/-- A new `GroupCall`: the listeners of a stream are hidden. -/
def created (rtmp : Bool) : GroupCallCount P := { listenersHidden := rtmp }

def run (rtmp : Bool) (operations : List (Operation P)) : GroupCallCount P :=
  operations.foldl step (created rtmp)

variable {s : GroupCallCount P}

/-- The shown number is the one that would be computed now. -/
def Current (s : GroupCallCount P) : Prop :=
  s.fullCount = s.participantsCount ∧ 0 ≤ s.serverParticipantsCount

/-- What holds of every call, with a number up to date or without. -/
structure Valid (s : GroupCallCount P) : Prop where
  slice : GroupCallParticipants.Valid s.slice
  count : 0 ≤ s.serverParticipantsCount

/-- What the listeners hear does not touch the call. -/
theorem fire_if (sliceSource : ApplySliceSource) (call : GroupCallParticipants P)
    (event : Fired P) :
    (if sliceSource ≠ .fullReloaded then call.fire event else call) =
      { call with
        fired := if sliceSource ≠ .fullReloaded then call.fired ++ [event] else call.fired } := by
  split_ifs <;> rfl

/-- An entry of a participant who has not left. -/
theorem applyParticipant_stays (sliceSource : ApplySliceSource) (call : GroupCallParticipants P)
    {data : MTPParticipant P} (hleft : data.left = false) :
    let was := call.findParticipant data.peer
    let value := Participant.ofData was sliceSource data
    let now := was.elim (call.pushParticipant value) fun i => call.replaceParticipant i value
    (call.applyParticipant sliceSource data).participants = now.participants ∧
      (call.applyParticipant sliceSource data).serverParticipantsCount =
        if data.justJoined then int32Add call.serverParticipantsCount 1
        else call.serverParticipantsCount := by
  intro was value now
  have helim : ∀ was : Option (Participant P),
      (was.elim (call.pushParticipant value) fun i =>
        call.replaceParticipant i value).serverParticipantsCount =
          call.serverParticipantsCount := by
    intro was
    cases was <;> rfl
  have hnow : now.serverParticipantsCount = call.serverParticipantsCount := helim was
  unfold GroupCallParticipants.applyParticipant
  rw [hleft, if_neg Bool.false_ne_true]
  simp only [fire_if]
  by_cases hjoined : data.justJoined
  · simp only [if_pos hjoined]
    exact ⟨rfl, congrArg (int32Add · 1) hnow⟩
  · simp only [if_neg hjoined]
    exact ⟨rfl, hnow⟩

theorem leave_eq (sliceSource : ApplySliceSource) (call : GroupCallParticipants P) (peer : P) :
    (call.leave sliceSource peer).participants =
        ((call.findParticipant peer).elim call call.eraseParticipant).participants ∧
      (call.leave sliceSource peer).serverParticipantsCount =
        if 0 < call.serverParticipantsCount then call.serverParticipantsCount - 1
        else call.serverParticipantsCount := by
  unfold GroupCallParticipants.leave
  cases call.findParticipant peer with
  | none =>
    dsimp only [Option.elim_none]
    split_ifs <;> exact ⟨rfl, rfl⟩
  | some i =>
    simp only [fire_if, Option.elim_some]
    by_cases hcount : 0 < call.serverParticipantsCount
    · have herased : 0 < (call.eraseParticipant i).serverParticipantsCount := hcount
      simp only [if_pos herased, if_pos hcount]
      exact ⟨trivial, rfl⟩
    · have herased : ¬0 < (call.eraseParticipant i).serverParticipantsCount := hcount
      simp only [if_neg herased, if_neg hcount]
      exact ⟨trivial, rfl⟩

theorem count_applyParticipant (sliceSource : ApplySliceSource) (call : GroupCallParticipants P)
    (data : MTPParticipant P) :
    (call.applyParticipant sliceSource data).serverParticipantsCount =
      if data.left then
        if 0 < call.serverParticipantsCount then call.serverParticipantsCount - 1
        else call.serverParticipantsCount
      else if data.justJoined then int32Add call.serverParticipantsCount 1
      else call.serverParticipantsCount := by
  by_cases hleft : data.left
  · rw [if_pos hleft, GroupCallParticipants.applyParticipant, if_pos hleft]
    exact (leave_eq sliceSource call data.peer).2
  · rw [if_neg hleft]
    exact (applyParticipant_stays sliceSource call (Bool.eq_false_of_not_eq_true hleft)).2

def adjust (count : ℤ) (data : MTPParticipant P) : ℤ :=
  if data.left then if 0 < count then count - 1 else count
  else if data.justJoined then count + 1
  else count

/-- The server's count, adjusted by the joins and leaves of a list. -/
def adjusted (list : List (MTPParticipant P)) (count : ℤ) : ℤ := list.foldl adjust count

/-- Every count on the way is an `int`. -/
def Counts (count : ℤ) : List (MTPParticipant P) → Prop
  | [] => True
  | data :: rest => adjust count data < 2 ^ 31 ∧ Counts (adjust count data) rest

omit [LinearOrder P] in
theorem adjust_nonneg {count : ℤ} (hcount : 0 ≤ count) (data : MTPParticipant P) :
    0 ≤ adjust count data := by
  unfold adjust
  split_ifs <;> omega

theorem count_applyParticipantsSlice (sliceSource : ApplySliceSource)
    (call : GroupCallParticipants P) {list : List (MTPParticipant P)}
    (hcount : 0 ≤ call.serverParticipantsCount)
    (hlist : Counts call.serverParticipantsCount list) :
    (call.applyParticipantsSlice list sliceSource).serverParticipantsCount =
      adjusted list call.serverParticipantsCount := by
  induction list generalizing call with
  | nil => rfl
  | cons data rest ih =>
    obtain ⟨hfits, hrest⟩ := hlist
    have hadjust : (call.applyParticipant sliceSource data).serverParticipantsCount =
        adjust call.serverParticipantsCount data := by
      rw [count_applyParticipant, adjust]
      unfold adjust at hfits
      split_ifs at hfits ⊢ with hleft hpositive hjoined
      · rfl
      · rfl
      · exact int32Add_of_range (by omega) hfits
      · rfl
    have hslice := ih (call.applyParticipant sliceSource data)
    rw [hadjust] at hslice
    exact hslice (adjust_nonneg hcount data) hrest

omit [LinearOrder P] in
theorem adjusted_nonneg (list : List (MTPParticipant P)) {count : ℤ} (hcount : 0 ≤ count) :
    0 ≤ adjusted list count := by
  induction list generalizing count with
  | nil => exact hcount
  | cons data rest ih => exact ih (adjust_nonneg hcount data)

theorem Valid.applyParticipantsSlice (hs : Valid s) {list : List (MTPParticipant P)}
    (hlist : Counts s.serverParticipantsCount list) (sliceSource : ApplySliceSource) :
    Valid (s.applyParticipantsSlice list sliceSource) := by
  have hslice := (hs.slice.applyParticipantsSlice list sliceSource).1
  have hcount := adjusted_nonneg list hs.count
  rw [serverParticipantsCount,
    ← count_applyParticipantsSlice sliceSource s.slice hs.count hlist] at hcount
  unfold GroupCallCount.applyParticipantsSlice
  split_ifs with hsource
  · exact ⟨hslice, hcount⟩
  · exact ⟨hslice, hcount⟩

theorem slice_applyParticipantsSlice (s : GroupCallCount P) (list : List (MTPParticipant P))
    (sliceSource : ApplySliceSource) :
    (s.applyParticipantsSlice list sliceSource).slice =
      s.slice.applyParticipantsSlice list sliceSource := by
  unfold GroupCallCount.applyParticipantsSlice
  split_ifs <;> rfl

theorem Valid.setServerParticipantsCount (hs : GroupCallParticipants.Valid s.slice) (count : ℕ) :
    Valid (s.setServerParticipantsCount count) where
  slice := hs.same (.count (.refl _) count)
  count := Int.natCast_nonneg count

theorem Valid.applyCallFields (hs : GroupCallParticipants.Valid s.slice) (data : MTPGroupCall) :
    Valid (s.applyCallFields data) where
  slice := hs.same (.count (.refl _) data.participantsCount)
  count := Int.natCast_nonneg data.participantsCount

theorem Valid.processFullCallFields (hs : Valid s) (call : MTPPhoneGroupCall P) :
    Valid (s.processFullCallFields call) := by
  cases call with
  | discarded => exact hs
  | groupCall call participants =>
    -- whatever the slice makes of the count, the call's own comes after it
    have hcleared := GroupCallParticipants.Valid.cleared s.slice
    have hslice := (hcleared.applyParticipantsSlice participants .fullReloaded).1
    apply Valid.applyCallFields
    rw [slice_applyParticipantsSlice]
    exact hslice

theorem Valid.processSavedFullCall (hs : Valid s) : Valid s.processSavedFullCall.2 := by
  unfold GroupCallCount.processSavedFullCall
  cases s.savedFull with
  | none => exact hs
  | some call =>
    have htaken : Valid { s with savedFull := none } := ⟨hs.slice, hs.count⟩
    exact htaken.processFullCallFields call

theorem Valid.current (hs : Valid s) : Current s.computeParticipantsCount := ⟨rfl, hs.count⟩

/-- Both at once, since the loops need both. -/
def Good (s : GroupCallCount P) : Prop := Valid s ∧ Current s

theorem Valid.good (hs : Valid s) : Good s.computeParticipantsCount :=
  ⟨⟨hs.slice, hs.count⟩, hs.current⟩

/-- An update leaves the server's count an `int`. -/
def UpdateCounts (s : GroupCallCount P) : MTPGroupCallUpdate P → Prop
  | .groupCallParticipants participants _ =>
    Counts s.serverParticipantsCount (participants.map Prod.fst)
  | _ => True

theorem Good.applyEnqueuedUpdate (hs : Good s) {update : MTPGroupCallUpdate P}
    (hupdate : UpdateCounts s update) : Good (s.applyEnqueuedUpdate update) := by
  cases update with
  | groupCall call => exact (Valid.applyCallFields hs.1.slice call).good
  | groupCallDiscarded => exact hs
  | groupCallParticipants participants version =>
    have hversion : Valid { s with version := if version = 0 then 1 else version } :=
      ⟨hs.1.slice, hs.1.count⟩
    have hslice := hversion.applyParticipantsSlice hupdate .updateReceived
    exact ⟨hslice, rfl, hslice.count⟩

theorem Good.queued (hs : Good s) (updates : List (Key × MTPGroupCallUpdate P)) :
    Good { s with queuedUpdates := updates } :=
  ⟨⟨hs.1.slice, hs.1.count⟩, hs.2⟩

/-- So does each update that is applied from the queue. -/
def DrainCounts (s : GroupCallCount P) : List (Key × MTPGroupCallUpdate P) → Prop
  | [] => True
  | ((version, type), update) :: rest =>
    let incremented := type = .versionedParticipant
    if version < s.version ∨ (version = s.version ∧ incremented) then DrainCounts s rest
    else if version = s.version ∨ (version = s.version + 1 ∧ incremented) then
      UpdateCounts s update ∧ DrainCounts (s.applyEnqueuedUpdate update) rest
    else True

def QueueCounts (s : GroupCallCount P) : Prop := s.version ≠ 0 → DrainCounts s s.queuedUpdates

theorem Good.drain (hs : Good s) {updates : List (Key × MTPGroupCallUpdate P)}
    (hupdates : DrainCounts s updates) : Good (s.drain updates) := by
  induction updates generalizing s with
  | nil => exact hs.queued []
  | cons entry rest ih =>
    obtain ⟨⟨version, type⟩, update⟩ := entry
    rw [GroupCallCount.drain]
    rw [DrainCounts] at hupdates
    split_ifs at hupdates ⊢ with hold hnow
    · exact ih hs hupdates
    · exact ih (hs.applyEnqueuedUpdate hupdates.1) hupdates.2
    · exact hs.queued _

theorem Good.processQueuedUpdates (hs : Good s) (hqueue : QueueCounts s) :
    Good s.processQueuedUpdates := by
  unfold GroupCallCount.processQueuedUpdates
  split_ifs with hversion
  · exact hs
  · exact hs.drain (hqueue hversion)

theorem Valid.finishParticipantsSliceRequest (hs : Valid s)
    (hqueue : QueueCounts s.computeParticipantsCount) : Good s.finishParticipantsSliceRequest :=
  hs.good.processQueuedUpdates hqueue

theorem Valid.participantsAnswered (hs : Valid s) (list : List (MTPParticipant P)) (count : ℕ) :
    Valid (s.participantsAnswered list count) := by
  unfold GroupCallCount.participantsAnswered
  set source := if s.processSavedFullCall.1 then ApplySliceSource.fullReloaded else .sliceLoaded
    with hsource
  have hslice := (hs.processSavedFullCall.slice.applyParticipantsSlice list source).1
  rw [← slice_applyParticipantsSlice s.processSavedFullCall.2 list source] at hslice
  have hcount := Valid.setServerParticipantsCount hslice count
  by_cases hempty : list.isEmpty
  · simp only [if_pos hempty]
    exact ⟨hcount.slice, hcount.count⟩
  · simp only [if_neg hempty]
    exact hcount

theorem Valid.participantsFailed (hs : Valid s) : Valid s.participantsFailed := by
  have hcount := Valid.setServerParticipantsCount hs.processSavedFullCall.slice
    s.processSavedFullCall.2.participants.length
  exact ⟨hcount.slice, hcount.count⟩

/-- Whether `enqueueUpdate` applies the participants at once. -/
def AppliedNow (s : GroupCallCount P) : MTPGroupCallUpdate P → Prop
  | .groupCallParticipants participants version =>
    s.version = if participants.any fun data => data.2 then version - 1 else version
  | _ => False

theorem Good.applyOrQueue (hs : Good s) {update : MTPGroupCallUpdate P}
    (hupdate : AppliedNow s update → UpdateCounts s update) : Good (s.applyOrQueue update) := by
  cases update with
  | groupCallDiscarded => exact hs
  | groupCall call =>
    simp only [GroupCallCount.applyOrQueue]
    split_ifs with hnow hlater
    · exact hs.applyEnqueuedUpdate trivial
    · exact hs.queued _
    · exact hs
  | groupCallParticipants participants version =>
    simp only [GroupCallCount.applyOrQueue]
    rw [AppliedNow] at hupdate
    split_ifs at hupdate ⊢ with hincrement hnow hlater hnow' hlater'
    · exact hs.applyEnqueuedUpdate (hupdate hnow)
    · exact hs.queued _
    · exact hs
    · exact hs.applyEnqueuedUpdate (hupdate hnow')
    · exact hs.queued _
    · exact hs

theorem Good.enqueueUpdate (hs : Good s) {update : MTPGroupCallUpdate P}
    (hupdate : AppliedNow s update → UpdateCounts s update)
    (hqueue : QueueCounts (s.applyOrQueue update)) : Good (s.enqueueUpdate update) :=
  (hs.applyOrQueue hupdate).processQueuedUpdates hqueue

/-- `reload` applies all that is queued. -/
def ReloadCounts (s : GroupCallCount P) : List (MTPGroupCallUpdate P) → Prop
  | [] => True
  | update :: rest => UpdateCounts s update ∧ ReloadCounts (s.applyEnqueuedUpdate update) rest

theorem Good.reload (hs : Good s)
    (hupdates : ReloadCounts { s with queuedUpdates := [] } (s.queuedUpdates.map Prod.snd)) :
    Good s.reload := by
  unfold GroupCallCount.reload
  have hempty : Good { s with queuedUpdates := [] } := hs.queued []
  generalize { s with queuedUpdates := [] } = s' at hempty hupdates ⊢
  generalize s.queuedUpdates.map Prod.snd = updates at hupdates ⊢
  induction updates generalizing s' with
  | nil => exact hempty
  | cons update rest ih => exact ih _ (hempty.applyEnqueuedUpdate hupdates.1) hupdates.2

/-- Every list that an operation applies leaves the server's count an `int`, but those after which
the server's own count is set. -/
def OperationCounts (s : GroupCallCount P) : Operation P → Prop
  | .processFullCall call => QueueCounts (s.processFullCallFields call).computeParticipantsCount
  | .participantsDone list count =>
    QueueCounts (s.participantsAnswered list count).computeParticipantsCount
  | .participantsFail => QueueCounts s.participantsFailed.computeParticipantsCount
  | .enqueueUpdate update =>
    (AppliedNow s update → UpdateCounts s update) ∧ QueueCounts (s.applyOrQueue update)
  | .applyLocalUpdate list => Counts s.serverParticipantsCount list
  | .unknownDone list => Counts s.serverParticipantsCount list
  | .reload => ReloadCounts { s with queuedUpdates := [] } (s.queuedUpdates.map Prod.snd)
  | .reloadDone result =>
    s.requestParticipantsAfterReload result = false →
      QueueCounts (s.processFullCallFields result).computeParticipantsCount

theorem Good.reloadDone (hs : Good s) (result : MTPPhoneGroupCall P)
    (hresult : s.requestParticipantsAfterReload result = false →
      QueueCounts (s.processFullCallFields result).computeParticipantsCount) :
    Good (s.reloadDone result) := by
  unfold GroupCallCount.reloadDone
  split_ifs with hafter
  · exact ⟨⟨hs.1.slice, hs.1.count⟩, hs.2⟩
  · have hfields := hs.1.processFullCallFields result
    exact hfields.finishParticipantsSliceRequest (hresult (Bool.eq_false_of_not_eq_true hafter))

/-- What the last entry of a peer says: whether he has left. -/
def lastWord (peer : P) : List (MTPParticipant P) → Option Bool
  | [] => none
  | data :: rest => (lastWord peer rest).or (if data.peer = peer then some data.left else none)

theorem mem_of_lastWord {peer : P} {list : List (MTPParticipant P)} {left : Bool}
    (h : lastWord peer list = some left) : peer ∈ list.map MTPParticipant.peer := by
  induction list with
  | nil => exact nomatch h
  | cons data rest ih =>
    rw [lastWord] at h
    rw [List.map_cons, List.mem_cons]
    by_cases hpeer : data.peer = peer
    · exact .inl hpeer.symm
    · rw [if_neg hpeer, Option.or_none] at h
      exact .inr (ih h)

theorem mem_applyParticipant {call : GroupCallParticipants P}
    (hcall : GroupCallParticipants.Valid call) (sliceSource : ApplySliceSource)
    (data : MTPParticipant P) (peer : P) :
    peer ∈ (call.applyParticipant sliceSource data).participants.map Participant.peer ↔
      if data.peer = peer then data.left = false
      else peer ∈ call.participants.map Participant.peer := by
  by_cases hleft : data.left
  · rw [GroupCallParticipants.applyParticipant, if_pos hleft, (leave_eq _ _ _).1, hleft]
    cases hfind : call.findParticipant data.peer with
    | none =>
      rw [Option.elim_none]
      split_ifs with hpeer
      · have habsent := GroupCallParticipants.ne_of_find hfind
        simp only [List.mem_map, iff_false, not_exists, not_and]
        intro p hp hp'
        exact habsent p hp (hp'.trans hpeer.symm)
      · rfl
    | some i =>
      obtain ⟨hi, hipeer⟩ := GroupCallParticipants.mem_of_find hfind
      have herased : (call.eraseParticipant i).participants.map Participant.peer =
          (call.participants.map Participant.peer).erase data.peer := by
        have hsame : (fun p : Participant P => decide (p.peer = i.peer)) =
            (fun peer => data.peer == peer) ∘ Participant.peer := by
          funext p
          rw [Function.comp_apply, ← hipeer, Bool.beq_eq_decide_eq]
          exact decide_eq_decide.mpr eq_comm
        rw [List.erase_eq_eraseP, List.eraseP_map, ← hsame]
        rfl
      rw [Option.elim_some, herased, hcall.nodup.mem_erase_iff]
      split_ifs with hpeer
      · simp [hpeer]
      · exact ⟨And.right, fun hmem => ⟨fun h => hpeer h.symm, hmem⟩⟩
  · rw [Bool.not_eq_true] at hleft
    rw [(applyParticipant_stays sliceSource call hleft).1, hleft]
    cases hfind : call.findParticipant data.peer with
    | none =>
      simp only [Option.elim_none, GroupCallParticipants.pushParticipant, List.map_append,
        List.map_cons, List.map_nil, List.mem_append, List.mem_singleton]
      show _ ∨ peer = data.peer ↔ _
      split_ifs with hpeer
      · simp [hpeer]
      · exact or_iff_left fun h => hpeer h.symm
    | some i =>
      obtain ⟨hi, hipeer⟩ := GroupCallParticipants.mem_of_find hfind
      have hpeers : (call.replaceParticipant i
          (Participant.ofData (some i) sliceSource data)).participants.map Participant.peer =
            call.participants.map Participant.peer := by
        apply GroupCallParticipants.map_modifyParticipant
        intro p _ hp
        exact hp.symm
      rw [Option.elim_some, hpeers]
      split_ifs with hpeer
      · simp only [iff_true]
        exact List.mem_map.mpr ⟨i, hi, hipeer.trans hpeer⟩
      · rfl

theorem mem_applyParticipantsSlice {call : GroupCallParticipants P}
    (hcall : GroupCallParticipants.Valid call) (sliceSource : ApplySliceSource)
    (list : List (MTPParticipant P)) (peer : P) :
    peer ∈ (call.applyParticipantsSlice list sliceSource).participants.map Participant.peer ↔
      (lastWord peer list).elim (peer ∈ call.participants.map Participant.peer)
        fun left => left = false := by
  induction list generalizing call with
  | nil => rfl
  | cons data rest ih =>
    have hrest := ih (hcall.applyParticipant sliceSource data).1
    rw [mem_applyParticipant hcall] at hrest
    refine hrest.trans ?_
    rw [lastWord]
    cases lastWord peer rest with
    | some left => rfl
    | none =>
      by_cases hpeer : data.peer = peer
      · simp [hpeer]
      · simp [hpeer]

def peers (s : GroupCallCount P) : Finset P := (s.participants.map Participant.peer).toFinset

/-- The participants whose last word in the list is that they have left. -/
def departures (s : GroupCallCount P) (list : List (MTPParticipant P)) : Finset P :=
  s.peers.filter fun peer => lastWord peer list = some true

/-- The others of the list who have not left. -/
def arrivals (s : GroupCallCount P) (list : List (MTPParticipant P)) : Finset P :=
  (list.map MTPParticipant.peer).toFinset.filter fun peer =>
    peer ∉ s.peers ∧ lastWord peer list = some false

theorem card_peers (hs : Valid s) : s.peers.card = s.participants.length := by
  have hcard := List.toFinset_card_of_nodup hs.slice.nodup
  rw [List.length_map] at hcard
  exact hcard

theorem length_slice (hs : Valid s) (list : List (MTPParticipant P))
    (sliceSource : ApplySliceSource) :
    (s.slice.applyParticipantsSlice list sliceSource).participants.length +
        (s.departures list).card =
      s.participants.length + (s.arrivals list).card := by
  have hslice := (hs.slice.applyParticipantsSlice list sliceSource).1
  have hlength := List.toFinset_card_of_nodup hslice.nodup
  rw [List.length_map] at hlength
  rw [← hlength, ← card_peers hs]
  have hmem := mem_applyParticipantsSlice hs.slice sliceSource list
  have hdepartures : Disjoint ((s.slice.applyParticipantsSlice list
      sliceSource).participants.map Participant.peer).toFinset (s.departures list) := by
    rw [Finset.disjoint_left]
    intro peer hafter hleft
    rw [List.mem_toFinset, hmem peer, (Finset.mem_filter.mp hleft).2] at hafter
    exact nomatch hafter
  have harrivals : Disjoint s.peers (s.arrivals list) := by
    rw [Finset.disjoint_left]
    intro peer hbefore harrived
    exact (Finset.mem_filter.mp harrived).2.1 hbefore
  rw [← Finset.card_union_of_disjoint hdepartures, ← Finset.card_union_of_disjoint harrivals]
  congr 1
  ext peer
  rw [Finset.mem_union, Finset.mem_union, List.mem_toFinset, hmem peer, departures, arrivals,
    Finset.mem_filter, Finset.mem_filter, List.mem_toFinset]
  have hbefore : peer ∈ s.slice.participants.map Participant.peer ↔ peer ∈ s.peers :=
    List.mem_toFinset.symm
  rw [hbefore]
  cases hword : lastWord peer list with
  | none => simp
  | some left =>
    have hlisted := mem_of_lastWord hword
    cases left with
    | false => simp [hlisted, em]
    | true => simp

/-- Whether a list leaves the number to show as it is: as many arrive as depart, or, where the
server's count matters too, the larger of both numbers stays. -/
def Balanced (s : GroupCallCount P) (list : List (MTPParticipant P)) : Prop :=
  if s.allParticipantsLoaded && !s.listenersHidden then
    (s.arrivals list).card = (s.departures list).card
  else
    max (s.participants.length + (s.arrivals list).card - (s.departures list).card : ℤ)
        (adjusted list s.serverParticipantsCount) =
      max (s.participants.length : ℤ) s.serverParticipantsCount

theorem current_slice_iff (hs : Good s) {list : List (MTPParticipant P)}
    (hlist : Counts s.serverParticipantsCount list) {sliceSource : ApplySliceSource}
    (hsource : sliceSource ≠ .updateReceived) :
    Current (s.applyParticipantsSlice list sliceSource) ↔ Balanced s list := by
  have hvalid := hs.1.applyParticipantsSlice hlist sliceSource
  have hlength := length_slice hs.1 list sliceSource
  have hcount := count_applyParticipantsSlice sliceSource s.slice hs.1.count hlist
  have hbefore := hs.2.1
  have hcurrent : Current (s.applyParticipantsSlice list sliceSource) ↔
      s.participantsCount = (s.applyParticipantsSlice list sliceSource).participantsCount := by
    rw [Current, and_iff_left hvalid.count, ← hbefore]
    unfold GroupCallCount.applyParticipantsSlice
    rw [if_neg hsource]
  rw [hcurrent, Balanced]
  unfold GroupCallCount.applyParticipantsSlice participantsCount
  simp only [if_neg hsource]
  by_cases hloaded : (s.allParticipantsLoaded && !s.listenersHidden) = true
  · simp only [if_pos hloaded, participants]
    rw [participants] at hlength
    omega
  · simp only [if_neg hloaded, participants, serverParticipantsCount, hcount]
    rw [participants] at hlength
    omega

def OperationBalanced (s : GroupCallCount P) : Operation P → Prop
  | .applyLocalUpdate list => Balanced s list
  | .unknownDone list => Balanced s list
  | _ => True

theorem Valid.step (hs : Good s) {operation : Operation P}
    (hcounts : OperationCounts s operation) : Valid (s.step operation) := by
  cases operation with
  | processFullCall call =>
    exact ((hs.1.processFullCallFields call).finishParticipantsSliceRequest hcounts).1
  | participantsDone list count =>
    exact ((hs.1.participantsAnswered list count).finishParticipantsSliceRequest hcounts).1
  | participantsFail => exact (hs.1.participantsFailed.finishParticipantsSliceRequest hcounts).1
  | enqueueUpdate update => exact (hs.enqueueUpdate hcounts.1 hcounts.2).1
  | applyLocalUpdate list => exact hs.1.applyParticipantsSlice hcounts .updateConstructed
  | unknownDone list => exact hs.1.applyParticipantsSlice hcounts .unknownLoaded
  | reload => exact (hs.reload hcounts).1
  | reloadDone result => exact (hs.reloadDone result hcounts).1

theorem current_step_iff (hs : Good s) {operation : Operation P}
    (hcounts : OperationCounts s operation) :
    Current (s.step operation) ↔ OperationBalanced s operation := by
  cases operation with
  | processFullCall call =>
    have hfields := hs.1.processFullCallFields call
    exact iff_of_true (hfields.finishParticipantsSliceRequest hcounts).2 trivial
  | participantsDone list count =>
    have hanswered := hs.1.participantsAnswered list count
    exact iff_of_true (hanswered.finishParticipantsSliceRequest hcounts).2 trivial
  | participantsFail =>
    exact iff_of_true (hs.1.participantsFailed.finishParticipantsSliceRequest hcounts).2 trivial
  | enqueueUpdate update => exact iff_of_true (hs.enqueueUpdate hcounts.1 hcounts.2).2 trivial
  | applyLocalUpdate list => exact current_slice_iff hs hcounts (by decide)
  | unknownDone list => exact current_slice_iff hs hcounts (by decide)
  | reload => exact iff_of_true (hs.reload hcounts).2 trivial
  | reloadDone result => exact iff_of_true (hs.reloadDone result hcounts).2 trivial

theorem good_created (rtmp : Bool) : Good (created rtmp : GroupCallCount P) where
  left := ⟨(GroupCallParticipants.Valid.cleared {}).same (.refl _), le_rfl⟩
  right := ⟨by cases rtmp <;> rfl, le_rfl⟩

/-- The number is up to date after each operation of a run if and only if no local update and no
answer about unknown participants moves what is to be shown. -/
theorem fullCount_current_iff (rtmp : Bool) (operations : List (Operation P))
    (hcounts : ∀ before operation, before ++ [operation] <+: operations →
      OperationCounts (run rtmp before) operation) :
    (∀ before, before <+: operations → Current (run rtmp before)) ↔
      ∀ before operation, before ++ [operation] <+: operations →
        OperationBalanced (run rtmp before) operation := by
  apply Base.foldl_prefix_iff (I := Good) (A := OperationCounts)
  · exact fun s hs => hs.2
  -- an operation keeps the number up to date exactly when it is balanced
  · intro s operation hs hcounts hbalanced
    exact ⟨Valid.step hs hcounts, (current_step_iff hs hcounts).mpr hbalanced⟩
  · intro s operation hs hcounts hnot hcurrent
    exact hnot ((current_step_iff hs hcounts).mp hcurrent)
  · exact good_created rtmp
  · exact hcounts

def present (peer : ℕ) (justJoined : Bool := false) : MTPParticipant ℕ where
  peer := peer
  source := 10 * peer
  justJoined := justJoined

def streamOperations : List (Operation ℕ) := [
  .processFullCall (.groupCall ⟨5, 3, true⟩ [present 1, present 2]),
  .enqueueUpdate (.groupCallParticipants [(present 3 true, true)] 6),
  .applyLocalUpdate [present 1]]

theorem fullCount_current_stream :
    Current (run true (streamOperations.take 2)) ∧ Current (run true streamOperations) := by
  have hcurrent : ∀ before, before <+: streamOperations → Current (run true before) := by
    refine (fullCount_current_iff true streamOperations ?_).mpr ?_
    · intro before operation hbefore
      obtain ⟨rest, hrest⟩ := hbefore
      unfold streamOperations at hrest
      obtain _ | ⟨first, _ | ⟨second, _ | ⟨third, before⟩⟩⟩ := before
      · cases hrest
        exact fun _ => trivial
      · cases hrest
        exact ⟨fun _ => ⟨by decide, trivial⟩, fun _ => trivial⟩
      · cases hrest
        exact ⟨by decide, trivial⟩
      · exact absurd (congrArg List.length hrest) (by simp)
    · intro before operation hbefore
      obtain ⟨rest, hrest⟩ := hbefore
      unfold streamOperations at hrest
      obtain _ | ⟨first, _ | ⟨second, _ | ⟨third, before⟩⟩⟩ := before
      · cases hrest
        exact trivial
      · cases hrest
        exact trivial
      · cases hrest
        show Balanced _ _
        rw [Balanced]
        decide
      · exact absurd (congrArg List.length hrest) (by simp)
  exact ⟨hcurrent _ (List.take_prefix 2 _), hcurrent _ (List.prefix_refl _)⟩

/-- Somebody joins in a local update, and nobody counts him. -/
theorem fullCount_local_join :
    ¬∀ operations : List (Operation ℕ), Current (run false operations) := by
  intro h
  have hjoined := (h [.applyLocalUpdate [present 1 true]]).1
  exact absurd hjoined (by decide)

end GroupCallCount

end TelegramDesktop.Data
