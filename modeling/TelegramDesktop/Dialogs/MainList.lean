import Mathlib.Algebra.BigOperators.Group.List.Basic
import Mathlib.Tactic.Abel

namespace TelegramDesktop.Dialogs

structure UnreadState where
  messages : ℤ := 0
  messagesMuted : ℤ := 0
  chats : ℤ := 0
  chatsMuted : ℤ := 0
  marks : ℤ := 0
  marksMuted : ℤ := 0
  reactions : ℤ := 0
  reactionsMuted : ℤ := 0
  mentions : ℤ := 0
  known : Bool := false
  deriving DecidableEq

namespace UnreadState

instance : Add UnreadState where
  add a b := {
    messages := a.messages + b.messages
    messagesMuted := a.messagesMuted + b.messagesMuted
    chats := a.chats + b.chats
    chatsMuted := a.chatsMuted + b.chatsMuted
    marks := a.marks + b.marks
    marksMuted := a.marksMuted + b.marksMuted
    reactions := a.reactions + b.reactions
    reactionsMuted := a.reactionsMuted + b.reactionsMuted
    mentions := a.mentions + b.mentions
    known := a.known }

instance : Sub UnreadState where
  sub a b := {
    messages := a.messages - b.messages
    messagesMuted := a.messagesMuted - b.messagesMuted
    chats := a.chats - b.chats
    chatsMuted := a.chatsMuted - b.chatsMuted
    marks := a.marks - b.marks
    marksMuted := a.marksMuted - b.marksMuted
    reactions := a.reactions - b.reactions
    reactionsMuted := a.reactionsMuted - b.reactionsMuted
    mentions := a.mentions - b.mentions
    known := a.known }

/-- The components of a state that are summed up. -/
inductive Counter where
  | messages
  | messagesMuted
  | chats
  | chatsMuted
  | marks
  | marksMuted
  | reactions
  | reactionsMuted
  | mentions

def get (a : UnreadState) : Counter → ℤ
  | .messages => a.messages
  | .messagesMuted => a.messagesMuted
  | .chats => a.chats
  | .chatsMuted => a.chatsMuted
  | .marks => a.marks
  | .marksMuted => a.marksMuted
  | .reactions => a.reactions
  | .reactionsMuted => a.reactionsMuted
  | .mentions => a.mentions

@[simp] theorem get_add (a b : UnreadState) (c : Counter) : (a + b).get c = a.get c + b.get c := by
  cases c <;> rfl

@[simp] theorem get_sub (a b : UnreadState) (c : Counter) : (a - b).get c = a.get c - b.get c := by
  cases c <;> rfl

@[simp] theorem known_add (a b : UnreadState) : (a + b).known = a.known := rfl

@[simp] theorem known_sub (a b : UnreadState) : (a - b).known = a.known := rfl

@[simp] theorem get_zero (known : Bool) (c : Counter) : get { known := known } c = 0 := by
  cases c <;> rfl

end UnreadState

/-- `ownUnreadState` is the `_unreadState` of the list, `unreadState` is what it shows. -/
structure MainList where
  ownUnreadState : UnreadState := { known := true }
  cloudUnreadState : UnreadState := {}
  loaded : Bool := false
  allAreMuted : Bool := false
  deriving DecidableEq

namespace MainList

def useCloudState (s : MainList) : Bool := s.cloudUnreadState.known && !s.loaded

def unreadState (s : MainList) : UnreadState :=
  let result :=
    if s.useCloudState then
      { s.cloudUnreadState with
        marks := s.ownUnreadState.marks
        marksMuted := s.ownUnreadState.marksMuted }
    else s.ownUnreadState
  if s.allAreMuted then
    { result with
      messagesMuted := result.messages
      chatsMuted := result.chats
      marksMuted := result.marks }
  else result

/-- What is fired when the notifier of a state is left, with the state after it. -/
def withNotifier (s : MainList) (notify : Bool) (next : MainList) : MainList × List UnreadState :=
  (next, if notify then [s.unreadState] else [])

def finalizeCloudUnread (s : MainList) : MainList :=
  { s with cloudUnreadState := { s.cloudUnreadState with
      messagesMuted := s.cloudUnreadState.messages
      chatsMuted := s.cloudUnreadState.chats
      marksMuted := 0
      marks := 0 } }

def setLoaded (s : MainList) (loaded : Bool) : MainList × List UnreadState :=
  if s.loaded = loaded then (s, []) else s.withNotifier true { s with loaded := loaded }

def setAllAreMuted (s : MainList) (allAreMuted : Bool) : MainList × List UnreadState :=
  if s.allAreMuted = allAreMuted then (s, [])
  else s.withNotifier true { s with allAreMuted := allAreMuted }

def clear (s : MainList) : MainList × List UnreadState :=
  s.withNotifier true { s with
    ownUnreadState := { known := true }
    cloudUnreadState := { known := true } }

/-- The change of both states, where the cloud one takes part in it. -/
def change (s : MainList) (updateCloudUnread : Bool) (f : UnreadState → UnreadState) : MainList :=
  if updateCloudUnread then
    finalizeCloudUnread { s with
      ownUnreadState := f s.ownUnreadState
      cloudUnreadState := f s.cloudUnreadState }
  else { s with ownUnreadState := f s.ownUnreadState }

/-- `none` is a failed `Assert`. -/
def unreadStateChanged (s : MainList) (wasState nowState : UnreadState) :
    Option (MainList × List UnreadState) :=
  let updateCloudUnread := s.cloudUnreadState.known && wasState.known
  let notify := !s.useCloudState || wasState.known
  if updateCloudUnread && !nowState.known then none
  else some (s.withNotifier notify
    (s.change updateCloudUnread fun state => state + (nowState - wasState)))

def unreadEntryChanged (s : MainList) (state : UnreadState) (added : Bool) :
    MainList × List UnreadState :=
  if state.messages = 0 ∧ state.chats = 0 ∧ state.marks = 0 ∧ state.mentions = 0 ∧
      state.reactions = 0 then (s, [])
  else
    let updateCloudUnread := s.cloudUnreadState.known && state.known
    let notify := !s.cloudUnreadState.known || s.loaded || state.known
    s.withNotifier notify
      (s.change updateCloudUnread fun own => if added then own + state else own - state)

/-- The counts of messages and of peers in a folder, with the muted ones first. -/
def updateCloudUnread (s : MainList) (mutedMessages unmutedMessages mutedPeers unmutedPeers : ℤ) :
    MainList × List UnreadState :=
  let next := finalizeCloudUnread { s with cloudUnreadState := { s.cloudUnreadState with
    messages := mutedMessages + unmutedMessages
    chats := mutedPeers + unmutedPeers } }
  s.withNotifier (!s.loaded)
    { next with cloudUnreadState := { next.cloudUnreadState with known := true } }

@[simp] theorem change_own (s : MainList) (update : Bool) (f : UnreadState → UnreadState) :
    (s.change update f).ownUnreadState = f s.ownUnreadState := by
  cases update <;> rfl

@[simp] theorem change_loaded (s : MainList) (update : Bool) (f : UnreadState → UnreadState) :
    (s.change update f).loaded = s.loaded := by
  cases update <;> rfl

@[simp] theorem change_allAreMuted (s : MainList) (update : Bool)
    (f : UnreadState → UnreadState) : (s.change update f).allAreMuted = s.allAreMuted := by
  cases update <;> rfl

/-- The list tells of a change at most once, and with the value before it. -/
def Announces (s next : MainList) (events : List UnreadState) : Prop :=
  (events = [] ∨ events = [s.unreadState]) ∧
    (next.unreadState ≠ s.unreadState → events = [s.unreadState])

theorem announces_self (s : MainList) : s.Announces s [] :=
  ⟨.inl rfl, fun h => absurd rfl h⟩

theorem announces_withNotifier {s next : MainList} {notify : Bool}
    (h : notify = false → next.unreadState = s.unreadState) :
    s.Announces (s.withNotifier notify next).1 (s.withNotifier notify next).2 := by
  cases notify with
  | true => exact ⟨.inr rfl, fun _ => rfl⟩
  | false => exact ⟨.inl rfl, fun hne => absurd (h rfl) hne⟩

/-- What a change shows where the cloud state is used but is not changed: the marks. -/
theorem unreadState_change_clouded {s : MainList} (h : s.useCloudState = true)
    {f : UnreadState → UnreadState} (hmarks : (f s.ownUnreadState).marks = s.ownUnreadState.marks)
    (hmuted : s.allAreMuted = false →
      (f s.ownUnreadState).marksMuted = s.ownUnreadState.marksMuted) :
    (s.change false f).unreadState = s.unreadState := by
  have hcloud : (s.change false f).useCloudState = true := h
  rw [unreadState, unreadState, hcloud, h]
  cases hall : s.allAreMuted with
  | true =>
    have hall' : (s.change false f).allAreMuted = true := hall
    simp only [hall', if_true, change_own, hmarks]
    rfl
  | false =>
    have hall' : (s.change false f).allAreMuted = false := hall
    simp only [hall', change_own, hmarks, hmuted hall]
    rfl

end MainList

end TelegramDesktop.Dialogs
