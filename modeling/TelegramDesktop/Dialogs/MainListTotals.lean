import TelegramDesktop.Dialogs.MainList

namespace TelegramDesktop.Dialogs

variable {ι : Type*} [DecidableEq ι]

/-- A list with the states of its entries, as they are now. -/
structure Listed (ι : Type*) where
  list : MainList := {}
  entries : List (ι × UnreadState) := []
  deriving DecidableEq

inductive ListOp (ι : Type*) where
  | addEntry (key : ι) (state : UnreadState)
  | removeEntry (key : ι) (state : UnreadState)
  | unreadStateChanged (key : ι) (wasState nowState : UnreadState)
  | updateCloudUnread (mutedMessages unmutedMessages mutedPeers unmutedPeers : ℤ)
  | setLoaded (loaded : Bool)
  | setAllAreMuted (allAreMuted : Bool)
  | clear

namespace Listed

/-- The entries with other ones in place of those, beside the result of an operation. -/
def withEntries (entries : List (ι × UnreadState)) (result : MainList × List UnreadState) :
    Listed ι × List UnreadState :=
  (⟨result.1, entries⟩, result.2)

def step (l : Listed ι) : ListOp ι → Option (Listed ι × List UnreadState)
  | .addEntry key state =>
    some (withEntries ((key, state) :: l.entries) (l.list.unreadEntryChanged state true))
  | .removeEntry key state =>
    some (withEntries (l.entries.erase (key, state)) (l.list.unreadEntryChanged state false))
  | .unreadStateChanged key wasState nowState =>
    (l.list.unreadStateChanged wasState nowState).map
      (withEntries ((key, nowState) :: l.entries.erase (key, wasState)))
  | .updateCloudUnread mutedMessages unmutedMessages mutedPeers unmutedPeers =>
    some (withEntries l.entries
      (l.list.updateCloudUnread mutedMessages unmutedMessages mutedPeers unmutedPeers))
  | .setLoaded loaded => some (withEntries l.entries (l.list.setLoaded loaded))
  | .setAllAreMuted allAreMuted =>
    some (withEntries l.entries (l.list.setAllAreMuted allAreMuted))
  | .clear => some (withEntries [] l.list.clear)

/-- What is asked of the callers: an entry is in the list once, its state is the one it was last
reported with, and it does not become unknown. -/
def Enabled (l : Listed ι) : ListOp ι → Prop
  | .addEntry key _ => key ∉ l.entries.map Prod.fst
  | .removeEntry key state => (key, state) ∈ l.entries
  | .unreadStateChanged key wasState nowState =>
    (key, wasState) ∈ l.entries ∧ (wasState.known → nowState.known)
  | _ => True

/-- The own state is the sum of the entries' states, and of something beside them. -/
structure SumsWith (l : Listed ι) (extra : UnreadState.Counter → ℤ) : Prop where
  known : l.list.ownUnreadState.known = true
  get : ∀ c, l.list.ownUnreadState.get c =
    (l.entries.map fun entry => entry.2.get c).sum + extra c

/-- What is left of the entries beside when the list is cleared. -/
def extraAfter (extra : UnreadState.Counter → ℤ) : ListOp ι → UnreadState.Counter → ℤ
  | .clear => fun _ => 0
  | _ => extra

end Listed

/-- An entry with nothing unread has nothing muted either. -/
def UnreadState.MutedWithin (state : UnreadState) : Prop :=
  state.messages = 0 ∧ state.chats = 0 ∧ state.marks = 0 ∧ state.mentions = 0 ∧
    state.reactions = 0 → ∀ c, state.get c = 0

/-- Where the cloud state is shown, an entry with an unknown one does not change the marks that
are shown. -/
def MainList.KeepsMarks (s : MainList) (known : Bool) (marks marksMuted : ℤ) : Prop :=
  s.useCloudState = true → known = false →
    marks = 0 ∧ (s.allAreMuted = false → marksMuted = 0)

def Listed.Meets (l : Listed ι) : ListOp ι → Prop
  | .addEntry _ state | .removeEntry _ state =>
    state.MutedWithin ∧ l.list.KeepsMarks state.known state.marks state.marksMuted
  | .unreadStateChanged _ wasState nowState =>
    l.list.KeepsMarks wasState.known (nowState.marks - wasState.marks)
      (nowState.marksMuted - wasState.marksMuted)
  | _ => True

namespace MainList

/-- A change that is not announced is of an unknown state, beside the cloud one. -/
theorem announces_change {s : MainList} {known : Bool} {f : UnreadState → UnreadState}
    (hmarks : s.KeepsMarks known ((f s.ownUnreadState).marks - s.ownUnreadState.marks)
      ((f s.ownUnreadState).marksMuted - s.ownUnreadState.marksMuted)) :
    s.Announces
      (s.withNotifier (!s.useCloudState || known)
        (s.change (s.cloudUnreadState.known && known) f)).1
      (s.withNotifier (!s.useCloudState || known)
        (s.change (s.cloudUnreadState.known && known) f)).2 := by
  apply announces_withNotifier
  intro hquiet
  obtain ⟨hcloud, hknown⟩ := Bool.or_eq_false_iff.mp hquiet
  have hcloud : s.useCloudState = true := by simpa using hcloud
  obtain ⟨hm, hmm⟩ := hmarks hcloud hknown
  rw [hknown, Bool.and_false]
  apply unreadState_change_clouded hcloud
  · omega
  · intro hall
    have hsame := hmm hall
    omega

theorem unreadEntryChanged_own {s : MainList} {state : UnreadState} (h : state.MutedWithin)
    (added : Bool) (c : UnreadState.Counter) :
    (s.unreadEntryChanged state added).1.ownUnreadState.get c =
      s.ownUnreadState.get c + if added then state.get c else - state.get c := by
  rw [unreadEntryChanged]
  split_ifs with hnone hadded hadded
  · rw [h hnone c, add_zero]
  · rw [h hnone c, neg_zero, add_zero]
  · simp [withNotifier]
  · simp [withNotifier, sub_eq_add_neg]

theorem unreadEntryChanged_announces {s : MainList} {state : UnreadState} (added : Bool)
    (h : s.KeepsMarks state.known state.marks state.marksMuted) :
    s.Announces (s.unreadEntryChanged state added).1 (s.unreadEntryChanged state added).2 := by
  rw [unreadEntryChanged]
  by_cases hnone : state.messages = 0 ∧ state.chats = 0 ∧ state.marks = 0 ∧
      state.mentions = 0 ∧ state.reactions = 0
  · rw [if_pos hnone]
    exact s.announces_self
  · rw [if_neg hnone]
    have hnotify : (!s.cloudUnreadState.known || s.loaded || state.known) =
        (!s.useCloudState || state.known) := by
      rw [useCloudState]
      cases s.cloudUnreadState.known <;> cases s.loaded <;> rfl
    dsimp only
    rw [hnotify]
    apply announces_change
    intro hcloud hknown
    obtain ⟨hmarks, hmuted⟩ := h hcloud hknown
    have hadd := UnreadState.get_add s.ownUnreadState state
    have hsub := UnreadState.get_sub s.ownUnreadState state
    constructor
    · have ha := hadd .marks
      have hd := hsub .marks
      simp only [UnreadState.get] at ha hd
      split_ifs <;> omega
    · intro hall
      have ha := hadd .marksMuted
      have hd := hsub .marksMuted
      have hzero := hmuted hall
      simp only [UnreadState.get] at ha hd
      split_ifs <;> omega

theorem unreadEntryChanged_known (s : MainList) (state : UnreadState) (added : Bool) :
    (s.unreadEntryChanged state added).1.ownUnreadState.known = s.ownUnreadState.known := by
  rw [unreadEntryChanged]
  split_ifs
  · rfl
  · simp [withNotifier]
  · simp [withNotifier]

theorem unreadStateChanged_spec {s : MainList} {wasState nowState : UnreadState}
    (hknown : wasState.known → nowState.known)
    (h : s.KeepsMarks wasState.known (nowState.marks - wasState.marks)
      (nowState.marksMuted - wasState.marksMuted)) :
    ∃ next events, s.unreadStateChanged wasState nowState = some (next, events) ∧
      next.ownUnreadState = s.ownUnreadState + (nowState - wasState) ∧
      s.Announces next events := by
  have hassert : (s.cloudUnreadState.known && wasState.known && !nowState.known) = false := by
    cases hwas : wasState.known with
    | false => rw [Bool.and_false, Bool.false_and]
    | true => rw [hknown hwas, Bool.not_true, Bool.and_false]
  rw [unreadStateChanged]
  rw [hassert, if_neg Bool.false_ne_true]
  refine ⟨_, _, rfl, change_own _ _ _, announces_change ?_⟩
  intro hcloud hunknown
  obtain ⟨hmarks, hmuted⟩ := h hcloud hunknown
  have hadd := UnreadState.get_add s.ownUnreadState (nowState - wasState)
  have hsub := UnreadState.get_sub nowState wasState
  constructor
  · have ha := hadd .marks
    have hd := hsub .marks
    simp only [UnreadState.get] at ha hd
    omega
  · intro hall
    have ha := hadd .marksMuted
    have hd := hsub .marksMuted
    have hzero := hmuted hall
    simp only [UnreadState.get] at ha hd
    omega

theorem updateCloudUnread_announces (s : MainList) (a b c d : ℤ) :
    s.Announces (s.updateCloudUnread a b c d).1 (s.updateCloudUnread a b c d).2 := by
  apply announces_withNotifier
  intro hquiet
  -- A loaded list shows its own state whatever is known of the cloud one.
  have hloaded : s.loaded = true := by simpa using hquiet
  have hown : s.useCloudState = false := by
    rw [useCloudState, hloaded, Bool.not_true, Bool.and_false]
  rw [unreadState, unreadState, hown]
  simp [useCloudState, finalizeCloudUnread, hloaded]

theorem setLoaded_announces (s : MainList) (loaded : Bool) :
    s.Announces (s.setLoaded loaded).1 (s.setLoaded loaded).2 := by
  rw [setLoaded]
  split_ifs
  · exact s.announces_self
  · exact announces_withNotifier fun h => nomatch h

theorem setAllAreMuted_announces (s : MainList) (allAreMuted : Bool) :
    s.Announces (s.setAllAreMuted allAreMuted).1 (s.setAllAreMuted allAreMuted).2 := by
  rw [setAllAreMuted]
  split_ifs
  · exact s.announces_self
  · exact announces_withNotifier fun h => nomatch h

theorem setLoaded_own (s : MainList) (loaded : Bool) :
    (s.setLoaded loaded).1.ownUnreadState = s.ownUnreadState := by
  rw [setLoaded]
  split_ifs
  · rfl
  · rfl

theorem setAllAreMuted_own (s : MainList) (allAreMuted : Bool) :
    (s.setAllAreMuted allAreMuted).1.ownUnreadState = s.ownUnreadState := by
  rw [setAllAreMuted]
  split_ifs
  · rfl
  · rfl

end MainList

namespace Listed

theorem sum_erase {entries : List (ι × UnreadState)} {entry : ι × UnreadState}
    (h : entry ∈ entries) (c : UnreadState.Counter) :
    entry.2.get c + ((entries.erase entry).map fun entry => entry.2.get c).sum =
      (entries.map fun entry => entry.2.get c).sum := by
  have hperm := (List.perm_cons_erase h).map fun entry : ι × UnreadState => entry.2.get c
  rw [hperm.sum_eq, List.map_cons, List.sum_cons]

/-- An operation keeps the sum, and tells of what it changes. -/
theorem step_exact {l : Listed ι} {extra : UnreadState.Counter → ℤ} (hsums : l.SumsWith extra)
    {op : ListOp ι} (henabled : l.Enabled op) (hmeets : l.Meets op) :
    ∃ next events, l.step op = some (next, events) ∧ next.SumsWith (extraAfter extra op) ∧
      l.list.Announces next.list events := by
  cases op with
  | addEntry key state =>
    refine ⟨_, _, rfl, ⟨?_, fun c => ?_⟩, MainList.unreadEntryChanged_announces true hmeets.2⟩
    · exact (MainList.unreadEntryChanged_known _ state true).trans hsums.known
    · change (l.list.unreadEntryChanged state true).1.ownUnreadState.get c = _
      rw [MainList.unreadEntryChanged_own hmeets.1 true c, hsums.get c, if_pos rfl]
      simp only [List.map_cons, List.sum_cons, extraAfter]
      omega
  | removeEntry key state =>
    refine ⟨_, _, rfl, ⟨?_, fun c => ?_⟩, MainList.unreadEntryChanged_announces false hmeets.2⟩
    · exact (MainList.unreadEntryChanged_known _ state false).trans hsums.known
    · have herase := sum_erase henabled c
      change (l.list.unreadEntryChanged state false).1.ownUnreadState.get c =
        ((l.entries.erase (key, state)).map fun entry => entry.2.get c).sum + extra c
      rw [MainList.unreadEntryChanged_own hmeets.1 false c, hsums.get c, ← herase,
        if_neg Bool.false_ne_true]
      dsimp only
      omega
  | unreadStateChanged key wasState nowState =>
    obtain ⟨hentry, hknown⟩ := henabled
    obtain ⟨next, events, hstep, hown, hannounces⟩ :=
      MainList.unreadStateChanged_spec hknown hmeets
    refine ⟨⟨next, (key, nowState) :: l.entries.erase (key, wasState)⟩, events, ?_,
      ⟨?_, fun c => ?_⟩, hannounces⟩
    · rw [step, hstep]
      rfl
    · exact (congrArg UnreadState.known hown).trans hsums.known
    · have herase := sum_erase hentry c
      change next.ownUnreadState.get c = _
      rw [hown, UnreadState.get_add, UnreadState.get_sub, hsums.get c, ← herase]
      simp only [List.map_cons, List.sum_cons, extraAfter]
      omega
  | updateCloudUnread mutedMessages unmutedMessages mutedPeers unmutedPeers =>
    exact ⟨_, _, rfl, ⟨hsums.known, hsums.get⟩, MainList.updateCloudUnread_announces _ _ _ _ _⟩
  | setLoaded loaded =>
    have hown := MainList.setLoaded_own l.list loaded
    refine ⟨_, _, rfl, ⟨?_, fun c => ?_⟩, MainList.setLoaded_announces _ loaded⟩
    · exact (congrArg UnreadState.known hown).trans hsums.known
    · exact (congrArg (UnreadState.get · c) hown).trans (hsums.get c)
  | setAllAreMuted allAreMuted =>
    have hown := MainList.setAllAreMuted_own l.list allAreMuted
    refine ⟨_, _, rfl, ⟨?_, fun c => ?_⟩, MainList.setAllAreMuted_announces _ allAreMuted⟩
    · exact (congrArg UnreadState.known hown).trans hsums.known
    · exact (congrArg (UnreadState.get · c) hown).trans (hsums.get c)
  | clear =>
    refine ⟨_, _, rfl, ⟨rfl, fun c => ?_⟩, ⟨.inr rfl, fun _ => rfl⟩⟩
    exact UnreadState.get_zero true c

end Listed

/-- The chats of a folder, and the list that the folder is an entry of with its other entries. -/
structure FolderTree (ι : Type*) where
  folder : Listed ι := {}
  parent : Listed ι := {}
  -- the folder's link, and whether `_all` of the parent has its row
  inChatList : Bool := false
  inParent : Bool := false
  deriving DecidableEq

inductive FolderOp (ι : Type*) where
  | inFolder (op : ListOp ι)
  | inParent (op : ListOp ι)
  | addFolder
  | removeFolder

namespace FolderTree

def chatListUnreadState (t : FolderTree ι) : UnreadState := t.folder.list.unreadState

/-- What the folder does with an event of its list: `notifyUnreadStateChange`. -/
def notifyUnreadStateChange (t : FolderTree ι) (old : UnreadState) :
    Option (FolderTree ι × List UnreadState) :=
  if t.inChatList then
    (t.parent.list.unreadStateChanged old t.chatListUnreadState).map fun result =>
      ({ t with parent := { t.parent with list := result.1 } }, result.2)
  else some (t, [])

def notifyAll (t : FolderTree ι) : List UnreadState → Option (FolderTree ι × List UnreadState)
  | [] => some (t, [])
  | old :: events => (t.notifyUnreadStateChange old).bind fun result =>
    (notifyAll result.1 events).map fun rest => (rest.1, result.2 ++ rest.2)

/-- A list that is cleared has no rows any more, whatever the entries' links are. -/
def rowAfter (inParent : Bool) : ListOp ι → Bool
  | .clear => false
  | _ => inParent

/-- The next state, with what the folder's list and the parent list fire. -/
def step (t : FolderTree ι) :
    FolderOp ι → Option (FolderTree ι × List UnreadState × List UnreadState)
  | .inFolder op => (t.folder.step op).bind fun result =>
    (notifyAll { t with folder := result.1 } result.2).map fun parent =>
      (parent.1, result.2, parent.2)
  | .inParent op => (t.parent.step op).map fun result =>
    ({ t with
      parent := result.1
      inParent := rowAfter t.inParent op }, [], result.2)
  | .addFolder =>
    if t.inChatList then some (t, [], [])
    else
      let result := t.parent.list.unreadEntryChanged t.chatListUnreadState true
      some ({ t with
        parent := { t.parent with list := result.1 }
        inChatList := true
        inParent := true }, [], result.2)
  | .removeFolder =>
    if t.inChatList then
      let result := t.parent.list.unreadEntryChanged t.chatListUnreadState false
      some ({ t with
        parent := { t.parent with list := result.1 }
        inChatList := false
        inParent := false }, [], result.2)
    else some (t, [], [])

def Enabled (t : FolderTree ι) : FolderOp ι → Prop
  | .inFolder op => t.folder.Enabled op
  | .inParent op => t.parent.Enabled op
  | .addFolder | .removeFolder => True

/-- The folder's link is left from before the parent list was cleared. -/
def LinkLeft (t : FolderTree ι) : Prop := t.inChatList = true ∧ t.inParent = false

/-- What the folder brings into the parent list or takes from it is counted there. -/
def FolderCounted (t : FolderTree ι) : Prop :=
  t.chatListUnreadState.MutedWithin ∧
    t.parent.list.KeepsMarks t.chatListUnreadState.known t.chatListUnreadState.marks
      t.chatListUnreadState.marksMuted

/-- With the link left the folder has nothing to tell of. -/
def Meets (t : FolderTree ι) : FolderOp ι → Prop
  | .inFolder op => t.folder.Meets op ∧ (t.LinkLeft → ∀ next events,
    t.folder.step op = some (next, events) →
      ∀ c, next.list.unreadState.get c = t.folder.list.unreadState.get c)
  | .inParent op => t.parent.Meets op
  | .addFolder => t.inChatList = false → t.FolderCounted
  | .removeFolder => t.inChatList = true →
    t.FolderCounted ∧ (t.inParent = false → ∀ c, t.chatListUnreadState.get c = 0)

/-- What the folder is in the sum of the parent list. -/
def folderPart (t : FolderTree ι) (c : UnreadState.Counter) : ℤ :=
  if t.inParent then t.chatListUnreadState.get c else 0

/-- Both lists are the sums of what is in them. -/
structure Sums (t : FolderTree ι) : Prop where
  folder : t.folder.SumsWith fun _ => 0
  parent : t.parent.SumsWith t.folderPart
  link : t.inParent = true → t.inChatList = true

/-- Both lists tell of what changes in them. -/
def Announces (t next : FolderTree ι) (folder parent : List UnreadState) : Prop :=
  t.folder.list.Announces next.folder.list folder ∧
    t.parent.list.Announces next.parent.list parent

theorem chatListUnreadState_known {s : MainList} (h : s.ownUnreadState.known = true) :
    s.unreadState.known = true := by
  rw [MainList.unreadState]
  cases hcloud : s.useCloudState with
  | true =>
    have hknown : s.cloudUnreadState.known = true := (Bool.and_eq_true_iff.mp hcloud).1
    cases s.allAreMuted
    · exact hknown
    · exact hknown
  | false =>
    cases s.allAreMuted
    · exact h
    · exact h

omit [DecidableEq ι] in
/-- The parent list follows what a folder with a link tells. -/
theorem notify_exact {t : FolderTree ι} (folder : Listed ι) {old : UnreadState}
    {extra : UnreadState.Counter → ℤ} (hin : t.inChatList = true) (hsums : t.parent.SumsWith extra)
    (hwas : old.known = true) (hnow : folder.list.unreadState.known = true) :
    ∃ parent events, notifyUnreadStateChange { t with folder := folder } old =
        some ({ t with folder := folder, parent := { t.parent with list := parent } }, events) ∧
      Listed.SumsWith { t.parent with list := parent }
        (fun c => extra c + (folder.list.unreadState.get c - old.get c)) ∧
      t.parent.list.Announces parent events := by
  obtain ⟨parent, events, hstep, hown, hannounces⟩ := MainList.unreadStateChanged_spec
    (s := t.parent.list) (fun _ => hnow)
    (fun _ hunknown => absurd (hwas.symm.trans hunknown) (nomatch ·))
  refine ⟨parent, events, ?_, ⟨?_, fun c => ?_⟩, hannounces⟩
  · rw [notifyUnreadStateChange, if_pos hin]
    rw [chatListUnreadState, hstep]
    rfl
  · exact (congrArg UnreadState.known hown).trans hsums.known
  · change parent.ownUnreadState.get c = _
    rw [hown, UnreadState.get_add, UnreadState.get_sub, hsums.get c]
    dsimp only
    omega

omit [DecidableEq ι] in
/-- A folder without a link tells nobody. -/
theorem notifyAll_unlinked {t : FolderTree ι} (hin : t.inChatList = false)
    (events : List UnreadState) : notifyAll t events = some (t, []) := by
  induction events with
  | nil => rfl
  | cons old events ih =>
    rw [notifyAll, notifyUnreadStateChange, hin, if_neg Bool.false_ne_true, Option.bind_some, ih]
    rfl

theorem step_inFolder {t : FolderTree ι} (h : t.Sums) {op : ListOp ι}
    (henabled : t.folder.Enabled op) (hmeets : t.Meets (.inFolder op)) :
    ∃ next folder parent, t.step (.inFolder op) = some (next, folder, parent) ∧ next.Sums ∧
      t.Announces next folder parent := by
  obtain ⟨folder, events, hstep, hsums, hevents, hchange⟩ :=
    Listed.step_exact h.folder henabled hmeets.1
  have hsums : folder.SumsWith fun _ => 0 := by
    cases op <;> exact hsums
  have hleft : t.LinkLeft → ∀ c,
      folder.list.unreadState.get c = t.folder.list.unreadState.get c :=
    fun hleft => hmeets.2 hleft folder events hstep
  rw [step, hstep]
  by_cases hin : t.inChatList = true
  · rcases hevents with rfl | rfl
    · -- Nothing is told, so the folder is the same part of the parent list.
      have hsame : folder.list.unreadState = t.folder.list.unreadState := by
        by_contra hne
        exact nomatch hchange hne
      have hpart : folderPart { t with folder := folder } = t.folderPart := by
        funext c
        rw [folderPart, folderPart, chatListUnreadState, chatListUnreadState, hsame]
      refine ⟨{ t with folder := folder }, [], [], rfl, ⟨hsums, ?_, h.link⟩, ⟨.inl rfl, hchange⟩,
        MainList.announces_self _⟩
      rw [hpart]
      exact h.parent
    · have hwas := chatListUnreadState_known h.folder.known
      have hnow := chatListUnreadState_known hsums.known
      obtain ⟨parent, fired, hnotify, hparent, hfired⟩ :=
        notify_exact folder hin h.parent hwas hnow
      refine ⟨{ t with folder := folder, parent := { t.parent with list := parent } },
        [t.folder.list.unreadState], fired, ?_, ⟨hsums, ?_, h.link⟩, ⟨.inr rfl, hchange⟩, hfired⟩
      · simp [notifyAll, hnotify]
      · have hpart : folderPart { t with
            folder := folder, parent := { t.parent with list := parent } } =
            fun c => t.folderPart c +
              (folder.list.unreadState.get c - t.folder.list.unreadState.get c) := by
          funext c
          change (if t.inParent then folder.list.unreadState.get c else 0) =
            (if t.inParent then t.folder.list.unreadState.get c else 0) + _
          cases hrow : t.inParent with
          | true =>
            rw [if_pos rfl, if_pos rfl]
            omega
          | false =>
            have hsame := hleft ⟨hin, hrow⟩ c
            rw [if_neg Bool.false_ne_true, if_neg Bool.false_ne_true]
            omega
        rw [hpart]
        exact hparent
  · rw [Bool.not_eq_true] at hin
    have hrow : t.inParent = false := by
      by_contra hrow
      exact Bool.false_ne_true (hin.symm.trans (h.link ((Bool.not_eq_false _).mp hrow)))
    have hpart : folderPart { t with folder := folder } = t.folderPart := by
      funext c
      rw [folderPart, folderPart, hrow, if_neg Bool.false_ne_true, if_neg Bool.false_ne_true]
    refine ⟨{ t with folder := folder }, events, [], ?_, ⟨hsums, ?_, h.link⟩, ⟨hevents, hchange⟩,
      MainList.announces_self _⟩
    · rw [Option.bind_some, notifyAll_unlinked (t := { t with folder := folder }) hin]
      rfl
    · rw [hpart]
      exact h.parent

theorem step_inParent {t : FolderTree ι} (h : t.Sums) {op : ListOp ι}
    (henabled : t.parent.Enabled op) (hmeets : t.parent.Meets op) :
    ∃ next folder parent, t.step (.inParent op) = some (next, folder, parent) ∧ next.Sums ∧
      t.Announces next folder parent := by
  obtain ⟨parent, events, hstep, hsums, hannounces⟩ :=
    Listed.step_exact h.parent henabled hmeets
  rw [step, hstep]
  cases op with
  | clear =>
    have hpart : folderPart { t with parent := parent, inParent := false } = fun _ => 0 := by
      funext c
      exact if_neg Bool.false_ne_true
    refine ⟨_, _, _, rfl, ⟨h.folder, ?_, fun hrow => absurd hrow Bool.false_ne_true⟩,
      MainList.announces_self _, hannounces⟩
    exact ⟨hsums.known, fun c => (hsums.get c).trans (by rw [rowAfter, hpart]; rfl)⟩
  | addEntry key state =>
    exact ⟨_, _, _, rfl, ⟨h.folder, hsums, h.link⟩, MainList.announces_self _, hannounces⟩
  | removeEntry key state =>
    exact ⟨_, _, _, rfl, ⟨h.folder, hsums, h.link⟩, MainList.announces_self _, hannounces⟩
  | unreadStateChanged key wasState nowState =>
    exact ⟨_, _, _, rfl, ⟨h.folder, hsums, h.link⟩, MainList.announces_self _, hannounces⟩
  | updateCloudUnread mutedMessages unmutedMessages mutedPeers unmutedPeers =>
    exact ⟨_, _, _, rfl, ⟨h.folder, hsums, h.link⟩, MainList.announces_self _, hannounces⟩
  | setLoaded loaded =>
    exact ⟨_, _, _, rfl, ⟨h.folder, hsums, h.link⟩, MainList.announces_self _, hannounces⟩
  | setAllAreMuted allAreMuted =>
    exact ⟨_, _, _, rfl, ⟨h.folder, hsums, h.link⟩, MainList.announces_self _, hannounces⟩

omit [DecidableEq ι] in
/-- The folder comes into the parent list or leaves it. -/
theorem step_folderListed {t : FolderTree ι} (h : t.Sums) (added : Bool)
    (hcounted : t.FolderCounted)
    (hpart : ∀ c, t.folderPart c = if added then 0 else t.chatListUnreadState.get c) :
    Sums { t with
        parent := { t.parent with
          list := (t.parent.list.unreadEntryChanged t.chatListUnreadState added).1 }
        inChatList := added
        inParent := added } ∧
      t.parent.list.Announces (t.parent.list.unreadEntryChanged t.chatListUnreadState added).1
        (t.parent.list.unreadEntryChanged t.chatListUnreadState added).2 := by
  refine ⟨⟨h.folder, ⟨?_, fun c => ?_⟩, id⟩,
    MainList.unreadEntryChanged_announces added hcounted.2⟩
  · exact (MainList.unreadEntryChanged_known _ _ added).trans h.parent.known
  · have hown := MainList.unreadEntryChanged_own (s := t.parent.list) hcounted.1 added c
    have hsum := h.parent.get c
    rw [hpart] at hsum
    change (t.parent.list.unreadEntryChanged t.chatListUnreadState added).1.ownUnreadState.get c =
      (t.parent.entries.map fun entry => entry.2.get c).sum +
        if added then t.chatListUnreadState.get c else 0
    rw [hown, hsum]
    cases added with
    | true => simp
    | false => simp

/-- Reached with operations that meet the condition. -/
inductive Reaches : FolderTree ι → Prop
  | start : Reaches {}
  | step {t next : FolderTree ι} (op : FolderOp ι) {folder parent : List UnreadState} :
      Reaches t → t.Enabled op → t.Meets op → t.step op = some (next, folder, parent) →
      Reaches next

theorem step_exact {t : FolderTree ι} (h : t.Sums) {op : FolderOp ι} (henabled : t.Enabled op)
    (hmeets : t.Meets op) : ∃ next folder parent, t.step op = some (next, folder, parent) ∧
      next.Sums ∧ t.Announces next folder parent := by
  cases op with
  | inFolder op => exact step_inFolder h henabled hmeets
  | inParent op => exact step_inParent h henabled hmeets
  | addFolder =>
    rw [step]
    split_ifs with hin
    · exact ⟨t, [], [], rfl, h, MainList.announces_self _, MainList.announces_self _⟩
    · have hrow : t.inParent = false := (Bool.not_eq_true _).mp fun hrow => hin (h.link hrow)
      have hpart : ∀ c, t.folderPart c = 0 := fun c => by rw [folderPart, hrow]; rfl
      obtain ⟨hsums, hannounces⟩ :=
        step_folderListed h true (hmeets ((Bool.not_eq_true _).mp hin)) hpart
      exact ⟨_, _, _, rfl, hsums, MainList.announces_self _, hannounces⟩
  | removeFolder =>
    rw [step]
    split_ifs with hin
    · obtain ⟨hcounted, hleft⟩ := hmeets hin
      have hpart : ∀ c, t.folderPart c = t.chatListUnreadState.get c := by
        intro c
        rw [folderPart]
        cases hrow : t.inParent with
        | true => rfl
        | false => exact (hleft hrow c).symm
      obtain ⟨hsums, hannounces⟩ := step_folderListed h false hcounted hpart
      exact ⟨_, _, _, rfl, hsums, MainList.announces_self _, hannounces⟩
    · exact ⟨t, [], [], rfl, h, MainList.announces_self _, MainList.announces_self _⟩

def threeUnread : UnreadState := { messages := 3, chats := 1, known := true }

theorem mutedWithin_threeUnread : threeUnread.MutedWithin := fun h => absurd h.1 (by decide)

/-- Both lists are cleared, as at the end of a session, the parent first. The folder's link is
still there, so what the folder had is taken from a list that does not count it any more. -/
theorem clear_goes_negative : ∃ t next : FolderTree ℕ, ∃ folder parent, t.Reaches ∧ t.LinkLeft ∧
    t.step (.inFolder .clear) = some (next, folder, parent) ∧ next.parent.entries = [] ∧
    next.inParent = false ∧ next.parent.list.ownUnreadState.messages = -3 := by
  have hadded : FolderTree.Reaches (ι := ℕ) _ :=
    .step (.inFolder (.addEntry 1 threeUnread)) .start List.not_mem_nil
      ⟨⟨mutedWithin_threeUnread, fun h => absurd h Bool.false_ne_true⟩,
        fun hleft => absurd hleft.1 Bool.false_ne_true⟩ rfl
  have hlisted : FolderTree.Reaches (ι := ℕ) _ :=
    .step .addFolder hadded trivial
      (fun _ => ⟨fun h => absurd h.1 (by decide), fun h => absurd h Bool.false_ne_true⟩) rfl
  have hcleared : FolderTree.Reaches (ι := ℕ) _ :=
    .step (.inParent .clear) hlisted trivial trivial rfl
  exact ⟨_, _, _, _, hcleared, ⟨rfl, rfl⟩, rfl, rfl, rfl, rfl⟩

end FolderTree

end TelegramDesktop.Dialogs
