import Mathlib
import TelegramDesktop.Base.FlatMap
import TelegramDesktop.Base.Int32

/-! The participants of a group call and their audio sources. Requests for unknown participants,
timers and what is kept in the peers are left out. -/

namespace TelegramDesktop.Data

open Base

def kSpeakingAfterActive : ℤ := 6000

def kSoundStatusKeptFor : ℤ := 1500

def kDefaultVolume : ℤ := 10000

def uint32 (v : ℤ) : ℕ := (v % 2 ^ 32).toNat

/-- `MTPDgroupCallParticipantVideo`, each source group with its semantics. -/
structure MTPVideo where
  paused : Bool := false
  endpoint : String
  sourceGroups : List (String × List ℤ) := []
  audioSource : Option ℤ := none

structure VideoParams where
  endpointId : String := ""
  ssrcGroups : List (String × List ℕ) := []
  additionalSsrc : ℕ := 0
  paused : Bool := false

structure ParticipantVideoParams where
  camera : VideoParams
  screen : VideoParams

def VideoParams.empty (params : VideoParams) : Bool :=
  params.additionalSsrc == 0 && (params.endpointId.isEmpty || params.ssrcGroups.isEmpty)

def parseGroups (groups : List (String × List ℤ)) : List (String × List ℕ) :=
  groups.map fun group => (group.1, group.2.map uint32)

def videoParamsAreEqual (was : VideoParams) : Option MTPVideo → Bool
  | none => was.empty
  | some data =>
    data.paused == was.paused && uint32 (data.audioSource.getD 0) == was.additionalSsrc &&
      data.endpoint == was.endpointId && parseGroups data.sourceGroups == was.ssrcGroups

/-- `ParseVideoParams` of one video. -/
def parseVideo : Option MTPVideo → VideoParams
  | none => {}
  | some data =>
    { paused := data.paused
      endpointId := data.endpoint
      additionalSsrc := uint32 (data.audioSource.getD 0)
      ssrcGroups := parseGroups data.sourceGroups }

def getAdditionalAudioSsrc : Option ParticipantVideoParams → ℕ
  | none => 0
  | some params => params.screen.additionalSsrc

def parseVideoParams (camera screen : Option MTPVideo) (existing : Option ParticipantVideoParams) :
    Option ParticipantVideoParams :=
  if camera.isNone && screen.isNone then none
  else
    match existing with
    | some params =>
      if videoParamsAreEqual params.camera camera && videoParamsAreEqual params.screen screen then
        existing
      else some ⟨parseVideo camera, parseVideo screen⟩
    | none => some ⟨parseVideo camera, parseVideo screen⟩

/-- The params that are there are taken again only with the same source. -/
theorem additional_parseVideoParams (camera screen : Option MTPVideo)
    (existing : Option ParticipantVideoParams) :
    getAdditionalAudioSsrc (parseVideoParams camera screen existing) =
      (parseVideo screen).additionalSsrc := by
  unfold parseVideoParams
  split_ifs with hnone
  · rw [Bool.and_eq_true, Option.isNone_iff_eq_none, Option.isNone_iff_eq_none] at hnone
    rw [hnone.2]
    rfl
  · cases existing with
    | none => rfl
    | some params =>
      dsimp only
      split_ifs with hequal
      · rw [Bool.and_eq_true] at hequal
        have hscreen := hequal.2
        rw [getAdditionalAudioSsrc]
        cases screen with
        | none =>
          rw [videoParamsAreEqual, VideoParams.empty, Bool.and_eq_true, beq_iff_eq] at hscreen
          exact hscreen.1
        | some data =>
          rw [videoParamsAreEqual] at hscreen
          simp only [Bool.and_eq_true, beq_iff_eq] at hscreen
          exact hscreen.1.1.2.symm
      · rfl

/-- `MTPDgroupCallParticipant`. -/
structure MTPParticipant (P : Type*) where
  peer : P
  source : ℤ
  date : ℤ := 0
  activeDate : Option ℤ := none
  volume : Option ℤ := none
  raiseHandRating : Option ℕ := none
  video : Option MTPVideo := none
  presentation : Option MTPVideo := none
  left : Bool := false
  muted : Bool := false
  canSelfUnmute : Bool := false
  justJoined : Bool := false
  min : Bool := false
  mutedByYou : Bool := false
  volumeByAdmin : Bool := false
  videoJoined : Bool := false

structure Participant (P : Type*) where
  peer : P
  videoParams : Option ParticipantVideoParams
  date : ℤ
  lastActive : ℤ
  raisedHandRating : ℕ
  ssrc : ℕ
  volume : ℤ
  sounding : Bool
  speaking : Bool
  additionalSounding : Bool
  additionalSpeaking : Bool
  muted : Bool
  mutedByMe : Bool
  canSelfUnmute : Bool
  onlyMinLoaded : Bool
  videoJoined : Bool
  applyVolumeFromMin : Bool

inductive ApplySliceSource
  | fullReloaded
  | sliceLoaded
  | unknownLoaded
  | updateReceived
  | updateConstructed
  deriving DecidableEq

structure LastSpokeTimes where
  anything : ℤ := 0
  voice : ℤ := 0

/-- What the listeners of the call hear. -/
inductive Fired (P : Type*)
  | participantUpdate (was now : Option (Participant P))
  | participantSpeaking (participant : Participant P)

structure GroupCallParticipants (P : Type*) [LinearOrder P] where
  participants : List (Participant P) := []
  participantPeerByAudioSsrc : FlatMap ℕ P := ∅
  speakingByActiveFinishes : FlatMap P ℤ := ∅
  serverParticipantsCount : ℤ := 0
  fired : List (Fired P) := []

variable {P : Type*} [LinearOrder P]

namespace Participant

def additionalSsrc (p : Participant P) : ℕ := getAdditionalAudioSsrc p.videoParams

/-- What `applyParticipantsSlice` makes of an entry, `was` being the participant before it. -/
def ofData (was : Option (Participant P)) (sliceSource : ApplySliceSource)
    (data : MTPParticipant P) : Participant P :=
  let canSelfUnmute := !data.muted || data.canSelfUnmute
  let existingVideoParams := was.bind fun w => w.videoParams
  { peer := data.peer
    videoParams :=
      if sliceSource = .updateConstructed then existingVideoParams
      else parseVideoParams data.video data.presentation existingVideoParams
    date := data.date
    lastActive := data.activeDate.getD (was.elim 0 fun w => w.lastActive)
    raisedHandRating := data.raiseHandRating.getD 0
    ssrc := uint32 data.source
    volume :=
      match was with
      | some w =>
        if !w.applyVolumeFromMin && data.min then w.volume else data.volume.getD kDefaultVolume
      | none => data.volume.getD kDefaultVolume
    sounding := canSelfUnmute && was.any fun w => w.sounding
    speaking := canSelfUnmute && was.any fun w => w.speaking
    additionalSounding := canSelfUnmute && was.any fun w => w.additionalSounding
    additionalSpeaking := canSelfUnmute && was.any fun w => w.additionalSpeaking
    muted := data.muted
    mutedByMe :=
      match was with
      | some w => if data.min then w.mutedByMe else data.mutedByYou
      | none => data.mutedByYou
    canSelfUnmute := canSelfUnmute
    onlyMinLoaded := data.min && was.all fun w => w.onlyMinLoaded
    videoJoined := data.videoJoined
    applyVolumeFromMin :=
      match was with
      | some w => if data.min then w.applyVolumeFromMin else data.min || data.volumeByAdmin
      | none => data.min || data.volumeByAdmin }

def withSounding (useAdditional sounding speaking : Bool) (p : Participant P) : Participant P :=
  if useAdditional then { p with additionalSounding := sounding, additionalSpeaking := speaking }
  else { p with sounding := sounding, speaking := speaking }

end Participant

namespace GroupCallParticipants

def findParticipant (s : GroupCallParticipants P) (peer : P) : Option (Participant P) :=
  s.participants.find? fun p => p.peer = peer

/-- `participantPeerByAudioSsrc`. -/
def findPeerByAudioSsrc (s : GroupCallParticipants P) (ssrc : ℕ) : Option P :=
  s.participantPeerByAudioSsrc.get? ssrc

/-- Write to the place that `findParticipant` finds. -/
def modifyParticipant (peer : P) (f : Participant P → Participant P) :
    List (Participant P) → List (Participant P)
  | [] => []
  | p :: rest => if p.peer = peer then f p :: rest else p :: modifyParticipant peer f rest

def fire (s : GroupCallParticipants P) (event : Fired P) : GroupCallParticipants P :=
  { s with fired := s.fired ++ [event] }

/-- `emplace` of a source that is there. -/
def emplaceSsrc (index : FlatMap ℕ P) (ssrc : ℕ) (peer : P) : FlatMap ℕ P :=
  if ssrc = 0 then index else index.emplace ssrc peer

/-- The index when a source of `peer` changes. -/
def changeSsrc (index : FlatMap ℕ P) (was now : ℕ) (peer : P) : FlatMap ℕ P :=
  if was ≠ now then emplaceSsrc (index.erase was) now peer else index

/-- The index when `i` becomes `value`. -/
def patchIndex (index : FlatMap ℕ P) (i value : Participant P) : FlatMap ℕ P :=
  changeSsrc (changeSsrc index i.ssrc value.ssrc value.peer) i.additionalSsrc
    value.additionalSsrc value.peer

def eraseParticipant (s : GroupCallParticipants P) (i : Participant P) :
    GroupCallParticipants P :=
  { s with
    participantPeerByAudioSsrc :=
      (s.participantPeerByAudioSsrc.erase i.ssrc).erase i.additionalSsrc
    speakingByActiveFinishes := s.speakingByActiveFinishes.erase i.peer
    participants := s.participants.eraseP fun p => p.peer = i.peer }

def pushParticipant (s : GroupCallParticipants P) (value : Participant P) :
    GroupCallParticipants P :=
  { s with
    participantPeerByAudioSsrc :=
      emplaceSsrc (emplaceSsrc s.participantPeerByAudioSsrc value.ssrc value.peer)
        value.additionalSsrc value.peer
    participants := s.participants ++ [value] }

def replaceParticipant (s : GroupCallParticipants P) (i value : Participant P) :
    GroupCallParticipants P :=
  { s with
    participantPeerByAudioSsrc := patchIndex s.participantPeerByAudioSsrc i value
    participants := modifyParticipant value.peer (fun _ => value) s.participants }

/-- An entry whose participant has left. -/
def leave (sliceSource : ApplySliceSource) (s : GroupCallParticipants P) (peer : P) :
    GroupCallParticipants P :=
  let s :=
    match s.findParticipant peer with
    | none => s
    | some i =>
      if sliceSource ≠ .fullReloaded then
        (s.eraseParticipant i).fire (.participantUpdate (some i) none)
      else s.eraseParticipant i
  if 0 < s.serverParticipantsCount then
    { s with serverParticipantsCount := s.serverParticipantsCount - 1 }
  else s

/-- One entry of `applyParticipantsSlice`. -/
def applyParticipant (sliceSource : ApplySliceSource) (s : GroupCallParticipants P)
    (data : MTPParticipant P) : GroupCallParticipants P :=
  if data.left then s.leave sliceSource data.peer
  else
    let was := s.findParticipant data.peer
    let value := Participant.ofData was sliceSource data
    let s := was.elim (s.pushParticipant value) fun i => s.replaceParticipant i value
    let s :=
      if data.justJoined then
        { s with serverParticipantsCount := int32Add s.serverParticipantsCount 1 }
      else s
    if sliceSource ≠ .fullReloaded then s.fire (.participantUpdate was (some value)) else s

def applyParticipantsSlice (s : GroupCallParticipants P) (list : List (MTPParticipant P))
    (sliceSource : ApplySliceSource) : GroupCallParticipants P :=
  list.foldl (applyParticipant sliceSource) s

/-- `count` is what `applyCallFields` takes from the call. -/
def processFullCallFields (s : GroupCallParticipants P) (participants : List (MTPParticipant P))
    (count : ℤ) : GroupCallParticipants P :=
  let s := { s with
    participants := []
    speakingByActiveFinishes := ∅
    participantPeerByAudioSsrc := ∅ }
  { s.applyParticipantsSlice participants .fullReloaded with serverParticipantsCount := count }

/-- The end of `applyLastSpoke`. -/
def setSounding (s : GroupCallParticipants P) (participant : Participant P)
    (useAdditional sounding speaking : Bool) : GroupCallParticipants P :=
  let nowSounding :=
    if useAdditional then participant.additionalSounding else participant.sounding
  let nowSpeaking :=
    if useAdditional then participant.additionalSpeaking else participant.speaking
  if nowSounding ≠ sounding ∨ nowSpeaking ≠ speaking then
    let f := Participant.withSounding useAdditional sounding speaking
    { s with participants := modifyParticipant participant.peer f s.participants }.fire
      (.participantUpdate (some participant) (some (f participant)))
  else s

/-- Nothing is returned where the `Assert` fails. -/
def applyLastSpoke (s : GroupCallParticipants P) (ssrc : ℕ) (times : LastSpokeTimes) (now : ℤ) :
    Option (GroupCallParticipants P) :=
  match s.findPeerByAudioSsrc ssrc with
  | none => some s
  | some peer =>
    (s.findParticipant peer).map fun participant =>
      let s := { s with
        speakingByActiveFinishes := s.speakingByActiveFinishes.erase participant.peer }
      let sounding :=
        decide (now ≤ times.anything + kSoundStatusKeptFor) && participant.canSelfUnmute
      let speaking := sounding && decide (now ≤ times.voice + kSoundStatusKeptFor)
      let s := if speaking then s.fire (.participantSpeaking participant) else s
      s.setSounding participant (ssrc != participant.ssrc) sounding speaking

/-- `unixtime` is `base::unixtime::now()`. -/
def applyActiveUpdate (s : GroupCallParticipants P) (inCall : Bool) (times : LastSpokeTimes)
    (participantPeerLoaded : Option P) (now unixtime : ℤ) : GroupCallParticipants P :=
  if inCall then s
  else
    match participantPeerLoaded.bind s.findParticipant with
    | none => s
    | some participant =>
      if !participant.canSelfUnmute then s
      else
        let elapsed := ((now - times.anything).tdiv 1000).bmod (2 ^ 32)
        let lastActive := unixtime - elapsed
        let finishes := times.anything + kSpeakingAfterActive
        if lastActive ≤ participant.lastActive ∨ finishes ≤ now then s
        else
          let f : Participant P → Participant P := fun p =>
            { p with lastActive := lastActive, speaking := true, canSelfUnmute := true }
          let speakingByActiveFinishes :=
            (s.speakingByActiveFinishes.erase participant.peer).emplace participant.peer finishes
          let s := { s with
            speakingByActiveFinishes := speakingByActiveFinishes
            participants := modifyParticipant participant.peer f s.participants }
          if !participant.speaking || !participant.canSelfUnmute then
            s.fire (.participantUpdate (some participant) (some (f participant)))
          else s

/-- A participant that no longer speaks by active. -/
def stopSpeaking (s : GroupCallParticipants P) (peer : P) : Option (GroupCallParticipants P) :=
  (s.findParticipant peer).map fun participant =>
    if participant.speaking then
      let f : Participant P → Participant P := fun p => { p with speaking := false }
      { s with participants := modifyParticipant peer f s.participants }.fire
        (.participantUpdate (some participant) (some (f participant)))
    else s

def checkFinishSpeakingByActive (s : GroupCallParticipants P) (now : ℤ) :
    Option (GroupCallParticipants P) :=
  let stop := (s.speakingByActiveFinishes.filter fun time => decide (time ≤ now)).keys
  let left := s.speakingByActiveFinishes.filter fun time => !decide (time ≤ now)
  stop.foldlM stopSpeaking { s with speakingByActiveFinishes := left }

inductive Operation (P : Type*)
  | applyParticipantsSlice (list : List (MTPParticipant P)) (sliceSource : ApplySliceSource)
  | processFullCallFields (participants : List (MTPParticipant P)) (count : ℤ)
  | applyLastSpoke (ssrc : ℕ) (times : LastSpokeTimes) (now : ℤ)
  | applyActiveUpdate (inCall : Bool) (times : LastSpokeTimes) (participantPeerLoaded : Option P)
      (now unixtime : ℤ)
  | checkFinishSpeakingByActive (now : ℤ)

def step (s : GroupCallParticipants P) : Operation P → Option (GroupCallParticipants P)
  | .applyParticipantsSlice list sliceSource => some (s.applyParticipantsSlice list sliceSource)
  | .processFullCallFields participants count => some (s.processFullCallFields participants count)
  | .applyLastSpoke ssrc times now => s.applyLastSpoke ssrc times now
  | .applyActiveUpdate inCall times participantPeerLoaded now unixtime =>
    some (s.applyActiveUpdate inCall times participantPeerLoaded now unixtime)
  | .checkFinishSpeakingByActive now => s.checkFinishSpeakingByActive now

def run (s : GroupCallParticipants P) (operations : List (Operation P)) :
    Option (GroupCallParticipants P) :=
  operations.foldlM step s

end GroupCallParticipants

end TelegramDesktop.Data
