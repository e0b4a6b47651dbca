import TelegramDesktop.Base.FlatSet
import TelegramDesktop.Base.Run
import TelegramDesktop.Data.MsgId

namespace TelegramDesktop.History.UnreadThings

open Base
open Data (MsgId)

inductive Kind
  | mentions
  | reactions
  deriving DecidableEq

inductive AddType
  | new
  | existing
  deriving DecidableEq

/-- One list: its count, when it is known, and the ids that are loaded. -/
structure Ids where
  count : Option ℤ
  messages : FlatSet MsgId

def Ids.loadedCount (list : Ids) : ℤ := list.messages.size

/-- `count(-1)`. -/
def Ids.countOrUnknown (list : Ids) : ℤ := list.count.getD (-1)

def Ids.empty : Ids := ⟨none, ∅⟩

structure All where
  mentions : Ids
  reactions : Ids

def All.list (data : All) : Kind → Ids
  | .mentions => data.mentions
  | .reactions => data.reactions

def All.other (data : All) : Kind → Ids
  | .mentions => data.reactions
  | .reactions => data.mentions

def All.setList (data : All) (kind : Kind) (list : Ids) : All :=
  match kind with
  | .mentions => { data with mentions := list }
  | .reactions => { data with reactions := list }

structure Thread where
  data : Option All
  known : Bool
  inChatList : Bool

/-- A call of `hasUnreadMentionChanged` or of `hasUnreadReactionChanged`. -/
structure Call where
  kind : Kind
  has : Bool
  deriving DecidableEq

/-- `known` is that of the thread when the proxy was made, here and below. -/
def createData (known : Bool) : All :=
  if known then ⟨⟨some 0, ∅⟩, ⟨some 0, ∅⟩⟩ else ⟨.empty, .empty⟩

/-- The end of `setCount`, for the data that there is or was created. -/
def storeCount (t : Thread) (data : All) (kind : Kind) (count : ℤ) : Thread × List Call :=
  let list := data.list kind
  let loaded := list.loadedCount
  let count := if loaded > count then loaded else count
  let had := decide (list.countOrUnknown > 0)
  let stored :=
    if count = 0 ∧ (data.other kind).countOrUnknown = 0 then none
    else some (data.setList kind { list with count := some count })
  let has := decide (count > 0)
  ({ t with data := stored }, if has ≠ had ∧ t.inChatList then [⟨kind, has⟩] else [])

def setCount (t : Thread) (known : Bool) (kind : Kind) (count : ℤ) : Thread × List Call :=
  let t := if !known then { t with known := true } else t
  match t.data with
  | none => if count = 0 then (t, []) else storeCount t (createData known) kind count
  | some data => storeCount t data kind count

def add (isBroadcast : Bool) (t : Thread) (kind : Kind) (msgId : MsgId) (type : AddType) :
    Thread × List Call :=
  if isBroadcast then (t, [])
  else
    let data := t.data.getD (createData t.known)
    let list := data.list kind
    let count := list.countOrUnknown
    let loaded := list.loadedCount
    let inserted := data.setList kind { list with messages := list.messages.insert msgId }
    if count ≥ 0 ∧ loaded ≥ count then
      if type = .new ∨ msgId ∉ list.messages then
        setCount { t with data := some inserted } t.known kind (count + 1)
      else ({ t with data := some data }, [])
    else if loaded > 0 ∧ type ≠ .new then ({ t with data := some inserted }, [])
    else ({ t with data := some data }, [])

def erase (t : Thread) (kind : Kind) (msgId : MsgId) : Thread × List Call :=
  match t.data with
  | none => (t, [])
  | some data =>
    let list := data.list kind
    let erased := { list with messages := list.messages.remove msgId }
    let t := { t with data := some (data.setList kind erased) }
    if erased.countOrUnknown > 0 then setCount t t.known kind (erased.countOrUnknown - 1)
    else (t, [])

def clear (t : Thread) (kind : Kind) : Thread × List Call :=
  match t.data with
  | none => (t, [])
  | some data =>
    let list := data.list kind
    if list.countOrUnknown = 0 then (t, [])
    else
      setCount { t with data := some (data.setList kind { list with messages := ∅ }) }
        t.known kind 0

/-- The messages of the slice with whether each is unread in the way of the list. -/
def addSlice (t : Thread) (kind : Kind) (fullCount : ℤ) (messages : List (MsgId × Bool))
    (alreadyLoaded : ℤ) : Thread × List Call :=
  let data := t.data.map fun data =>
    if alreadyLoaded = 0 then data.setList kind { data.list kind with messages := ∅ } else data
  let data := if messages ≠ [] ∧ data.isNone then some (createData t.known) else data
  let unread := (messages.filter Prod.snd).map Prod.fst
  let data := data.map fun data =>
    data.setList kind { data.list kind with messages := (data.list kind).messages.merge unread }
  -- the list that was there when the proxy was made; a new one has nothing when nothing is added
  let loadedCount := (data.map fun data => (data.list kind).loadedCount).getD 0
  setCount { t with data := data } t.known kind (if unread = [] then loadedCount else fullCount)

inductive Event
  | setCount (kind : Kind) (count : ℕ)
  | add (kind : Kind) (msgId : MsgId) (type : AddType)
  | erase (kind : Kind) (msgId : MsgId)
  | clear (kind : Kind)
  | addSlice (kind : Kind) (fullCount : ℤ) (messages : List (MsgId × Bool)) (alreadyLoaded : ℤ)
  /-- The thread enters or leaves a chats list. -/
  | inChatList (inChatList : Bool)

def step (t : Thread) : Event → Thread × List Call
  | .setCount kind count => UnreadThings.setCount t t.known kind count
  | .add kind msgId type => UnreadThings.add false t kind msgId type
  | .erase kind msgId => UnreadThings.erase t kind msgId
  | .clear kind => UnreadThings.clear t kind
  | .addSlice kind fullCount messages alreadyLoaded =>
    UnreadThings.addSlice t kind fullCount messages alreadyLoaded
  | .inChatList inChatList => ({ t with inChatList := inChatList }, [])

def Thread.count (t : Thread) (kind : Kind) : Option ℤ :=
  match t.data with
  | some data => (data.list kind).count
  | none => if t.known then some 0 else none

def Thread.ids (t : Thread) (kind : Kind) : FlatSet MsgId :=
  match t.data with
  | some data => (data.list kind).messages
  | none => ∅

def Thread.has (t : Thread) (kind : Kind) : Bool :=
  match t.data with
  | some data => decide ((data.list kind).countOrUnknown > 0)
  | none => false

/-- A known count is at least that of the ids that are loaded. -/
def Consistent (t : Thread) : Prop :=
  ∀ kind n, t.count kind = some n → ((t.ids kind).size : ℤ) ≤ n

/-- What each operation promises in a state. -/
structure Promises (t : Thread) : Prop where
  consistent : Consistent t
  addNew : ∀ kind msgId n, t.count kind = some n → msgId ∉ t.ids kind →
    n ≤ (t.ids kind).size → (add false t kind msgId .new).1.count kind = some (n + 1)
  addNewLeft : ∀ kind msgId n, t.count kind = some n → (t.ids kind).size < n →
    (add false t kind msgId .new).1.count kind = some n
  addLoaded : ∀ kind msgId, msgId ∈ t.ids kind →
    (add false t kind msgId .existing).1.count kind = t.count kind
  eraseOther : ∀ kind msgId n, t.count kind = some n → msgId ∉ t.ids kind →
    n ≤ (t.ids kind).size → (erase t kind msgId).1.count kind = some n
  calls : ∀ event kind, (step t event).2.filter (fun call => call.kind = kind) =
    if (step t event).1.has kind ≠ t.has kind ∧ t.inChatList then
      [⟨kind, (step t event).1.has kind⟩] else []

/-- Without data the lists are seen as new ones. -/
def Thread.view (t : Thread) : All := t.data.getD (createData t.known)

def Ids.has (list : Ids) : Bool := decide (list.countOrUnknown > 0)

def Ids.Ok (list : Ids) : Prop := ∀ n, list.count = some n → list.loadedCount ≤ n

section
variable (t : Thread) (kind : Kind)

theorem list_createData (known : Bool) :
    (createData known).list kind = ⟨if known then some 0 else none, ∅⟩ := by
  cases known <;> cases kind <;> rfl

theorem other_createData (known : Bool) :
    (createData known).other kind = ⟨if known then some 0 else none, ∅⟩ := by
  cases known <;> cases kind <;> rfl

theorem count_eq : t.count kind = (t.view.list kind).count := by
  rw [Thread.count, Thread.view]
  cases t.data with
  | none => rw [Option.getD_none, list_createData]
  | some data => rfl

theorem ids_eq : t.ids kind = (t.view.list kind).messages := by
  rw [Thread.ids, Thread.view]
  cases t.data with
  | none => rw [Option.getD_none, list_createData]
  | some data => rfl

theorem has_eq : t.has kind = (t.view.list kind).has := by
  rw [Thread.has, Thread.view]
  cases t.data with
  | none =>
    rw [Option.getD_none, list_createData]
    cases t.known <;> rfl
  | some data => rfl

theorem consistent_iff : Consistent t ↔ ∀ kind, (t.view.list kind).Ok := by
  refine forall_congr' fun kind => forall_congr' fun n => ?_
  rw [count_eq, ids_eq]
  rfl

end

section
variable {data : All} {kind : Kind} {list : Ids}

@[simp] theorem list_setList : (data.setList kind list).list kind = list := by
  cases kind <;> rfl

@[simp] theorem other_setList : (data.setList kind list).other kind = data.other kind := by
  cases kind <;> rfl

theorem size_pos_of_mem {messages : FlatSet MsgId} {msgId : MsgId} (h : msgId ∈ messages) :
    0 < messages.size := List.length_pos_of_mem h

theorem eq_empty_of_size {messages : FlatSet MsgId} (h : messages.size = 0) : messages = ∅ := by
  apply FlatSet.eq_of_mem
  intro msgId
  have hnone : msgId ∉ messages := fun hmem => by
    have hpos := size_pos_of_mem hmem
    omega
  exact iff_of_false hnone (FlatSet.not_mem_empty msgId)

theorem size_insert {messages : FlatSet MsgId} {msgId : MsgId} (h : msgId ∉ messages) :
    (messages.insert msgId).size = messages.size + 1 := by
  have hperm : (messages.insert msgId).elems.Perm (msgId :: messages.elems) := by
    rw [List.perm_ext_iff_of_nodup (FlatSet.nodup _) (List.nodup_cons.mpr ⟨h, FlatSet.nodup _⟩)]
    intro other
    rw [FlatSet.mem_elems, FlatSet.mem_insert, List.mem_cons, FlatSet.mem_elems]
  exact hperm.length_eq

theorem insert_of_mem {messages : FlatSet MsgId} {msgId : MsgId} (h : msgId ∈ messages) :
    messages.insert msgId = messages := by
  apply FlatSet.eq_of_mem
  intro other
  rw [FlatSet.mem_insert]
  refine or_iff_right_of_imp ?_
  rintro rfl
  exact h

theorem remove_of_notMem {messages : FlatSet MsgId} {msgId : MsgId} (h : msgId ∉ messages) :
    messages.remove msgId = messages := by
  apply FlatSet.eq_of_mem
  intro other
  rw [FlatSet.mem_remove]
  refine and_iff_left_of_imp fun hmem => ?_
  rintro rfl
  exact h hmem

theorem size_remove_le (messages : FlatSet MsgId) (msgId : MsgId) :
    (messages.remove msgId).size ≤ messages.size ∧
      messages.size ≤ (messages.remove msgId).size + 1 := by
  by_cases hmem : msgId ∈ messages
  · have hnot : msgId ∉ messages.remove msgId := fun h => (FlatSet.mem_remove.mp h).2 rfl
    have hback : (messages.remove msgId).insert msgId = messages := by
      apply FlatSet.eq_of_mem
      intro other
      rw [FlatSet.mem_insert, FlatSet.mem_remove]
      by_cases heq : other = msgId
      · rw [heq]
        exact iff_of_true (Or.inl rfl) hmem
      · rw [or_iff_right heq, and_iff_left heq]
    have hsize := size_insert hnot
    rw [hback] at hsize
    omega
  · rw [remove_of_notMem hmem]
    omega

end

/-- An operation gives its own list and calls when it starts or stops having unread ones; the
other list is as before, or known to be empty. -/
structure Outcome (t : Thread) (kind : Kind) (own : Ids) (result : Thread × List Call) : Prop where
  ownList : result.1.view.list kind = own
  otherList : result.1.view.other kind = t.view.other kind ∨
    t.view.other kind = .empty ∧ result.1.view.other kind = ⟨some 0, ∅⟩
  calls : result.2 = if own.has ≠ (t.view.list kind).has ∧ t.inChatList then
    [⟨kind, own.has⟩] else []
  inChatList : result.1.inChatList = t.inChatList

section
variable {t : Thread} {kind : Kind}

theorem storeCount_outcome {data : All} (count : ℤ) {own : Ids} (hknown : t.known = true)
    (hother : (data.other kind).Ok)
    (hown : own = ⟨some (max (data.list kind).loadedCount count), (data.list kind).messages⟩) :
    (storeCount t data kind count).1.view.list kind = own ∧
      (storeCount t data kind count).1.view.other kind = data.other kind ∧
      (storeCount t data kind count).2 = (if own.has ≠ (data.list kind).has ∧ t.inChatList then
        [⟨kind, own.has⟩] else []) ∧
      (storeCount t data kind count).1.inChatList = t.inChatList := by
  subst hown
  obtain ⟨total, htotal⟩ : ∃ total, max (data.list kind).loadedCount count = total := ⟨_, rfl⟩
  have hclamp : (if (data.list kind).loadedCount > count then (data.list kind).loadedCount
      else count) = total := by
    rw [← htotal]
    split_ifs <;> omega
  have hloaded : (data.list kind).loadedCount ≤ total := htotal ▸ le_max_left _ _
  rw [storeCount, hclamp, htotal]
  by_cases hzero : total = 0 ∧ (data.other kind).countOrUnknown = 0
  · -- the data goes away, with two lists that have nothing
    rw [if_pos hzero]
    obtain ⟨rfl, hnone⟩ := hzero
    have hempty : (data.list kind).messages = ∅ := by
      apply eq_empty_of_size
      have hsize : ((data.list kind).messages.size : ℤ) ≤ 0 := hloaded
      omega
    have hcount : (data.other kind).count = some 0 := by
      rw [Ids.countOrUnknown] at hnone
      cases hc : (data.other kind).count with
      | none =>
        rw [hc] at hnone
        exact absurd hnone (by decide)
      | some n =>
        rw [hc, Option.getD_some] at hnone
        rw [hnone]
    have hotherEmpty : (data.other kind).messages = ∅ := by
      apply eq_empty_of_size
      have hsize : ((data.other kind).messages.size : ℤ) ≤ 0 := hother 0 hcount
      omega
    refine ⟨?_, ?_, rfl, rfl⟩
    · rw [hempty]
      change (createData t.known).list kind = _
      rw [list_createData, hknown, if_pos rfl]
    · change (createData t.known).other kind = _
      rw [other_createData, hknown, if_pos rfl, ← hcount, ← hotherEmpty]
  · rw [if_neg hzero]
    exact ⟨list_setList, other_setList, rfl, rfl⟩

/-- A count is stored when it is not less than what is loaded. -/
theorem setCount_outcome (count : ℤ) (hother : (t.view.other kind).Ok) :
    Outcome t kind ⟨some (max (t.view.list kind).loadedCount count), (t.view.list kind).messages⟩
      (setCount t t.known kind count) := by
  obtain ⟨known, hknown, hchat, hdata, heq⟩ : ∃ known : Thread, known.known = true ∧
      known.inChatList = t.inChatList ∧ known.data = t.data ∧
      setCount t t.known kind count = (match known.data with
        | none =>
          if count = 0 then (known, []) else storeCount known (createData t.known) kind count
        | some data => storeCount known data kind count) := by
    cases hk : t.known with
    | true => exact ⟨t, hk, rfl, rfl, rfl⟩
    | false => exact ⟨{ t with known := true }, rfl, rfl, rfl, rfl⟩
  rw [heq, hdata]
  cases hsome : t.data with
  | some data =>
    have hview : t.view = data := by rw [Thread.view, hsome, Option.getD_some]
    rw [hview] at hother ⊢
    obtain ⟨hlist, hsame, hcalls, hin⟩ := storeCount_outcome count hknown hother rfl
    rw [hchat] at hcalls hin
    exact ⟨hlist, Or.inl (hsame.trans (by rw [hview])), hcalls.trans (by rw [hview]), hin⟩
  | none =>
    have hview : t.view = createData t.known := by rw [Thread.view, hsome, Option.getD_none]
    rw [hview] at hother ⊢
    dsimp only
    split_ifs with hzero
    · have hknownView : known.view = createData true := by
        rw [Thread.view, hdata, hsome, Option.getD_none, hknown]
      subst hzero
      refine ⟨?_, ?_, ?_, hchat⟩
      · rw [hknownView, list_createData, list_createData]
        rfl
      · rw [hknownView, hview, other_createData, other_createData]
        cases t.known with
        | true => exact Or.inl rfl
        | false => exact Or.inr ⟨rfl, rfl⟩
      · rw [hview, list_createData]
        cases t.known <;> rfl
    · obtain ⟨hlist, hsame, hcalls, hin⟩ := storeCount_outcome count hknown hother rfl
      rw [hchat] at hcalls hin
      exact ⟨hlist, Or.inl (hsame.trans (by rw [hview])), hcalls.trans (by rw [hview]), hin⟩

/-- The count is stored after a change of the ids that are loaded. -/
theorem setCount_changed {data : All} {messages : FlatSet MsgId} {count : ℤ}
    (hdata : data = t.view) (hother : (t.view.other kind).Ok) :
    Outcome t kind ⟨some (max messages.size count), messages⟩
      (setCount { t with data := some (data.setList kind { data.list kind with
        messages := messages }) } t.known kind count) := by
  subst hdata
  obtain ⟨hlist, hsame, hcalls, hin⟩ := setCount_outcome count
    (t := { t with data := some (t.view.setList kind { t.view.list kind with
      messages := messages }) }) (by
        change ((t.view.setList kind _).other kind).Ok
        rwa [other_setList])
  have hview : Thread.view { t with data := some (t.view.setList kind { t.view.list kind with
      messages := messages }) } = t.view.setList kind { t.view.list kind with
        messages := messages } := rfl
  rw [hview] at hlist hsame hcalls
  rw [list_setList] at hlist hcalls
  rw [other_setList] at hsame
  exact ⟨hlist, hsame, hcalls, hin⟩

/-- Ids are loaded, or the data is created, and the count stays. -/
theorem kept_outcome {data : All} {messages : FlatSet MsgId} (hdata : data = t.view) :
    Outcome t kind { t.view.list kind with messages := messages }
      ({ t with data := some (data.setList kind { data.list kind with messages := messages }) },
        []) := by
  subst hdata
  refine ⟨list_setList, Or.inl other_setList, ?_, rfl⟩
  rw [if_neg]
  rintro ⟨hne, -⟩
  exact hne rfl

theorem same_outcome : Outcome t kind (t.view.list kind) (t, []) := by
  refine ⟨rfl, Or.inl rfl, ?_, rfl⟩
  rw [if_neg]
  rintro ⟨hne, -⟩
  exact hne rfl

/-- A known count that is reached by the ids that are loaded is their number. -/
theorem count_eq_size {n : ℤ} (hok : (t.view.list kind).Ok) (hn : (t.view.list kind).count = some n)
    (hle : n ≤ (t.view.list kind).messages.size) :
    n = (t.view.list kind).messages.size ∧ (t.view.list kind).countOrUnknown = n := by
  have hloaded : ((t.view.list kind).messages.size : ℤ) ≤ n := hok n hn
  refine ⟨by omega, ?_⟩
  rw [Ids.countOrUnknown, hn, Option.getD_some]

theorem countOrUnknown_cases (list : Ids) (hok : list.Ok) :
    list.count = none ∧ list.countOrUnknown = -1 ∨
      ∃ n, list.count = some n ∧ list.countOrUnknown = n ∧ (list.messages.size : ℤ) ≤ n := by
  rw [Ids.countOrUnknown]
  cases hcount : list.count with
  | none => exact Or.inl ⟨rfl, rfl⟩
  | some n => exact Or.inr ⟨n, rfl, rfl, hok n hcount⟩

theorem add_outcome (msgId : MsgId) (type : AddType) (hok : (t.view.list kind).Ok)
    (hother : (t.view.other kind).Ok) :
    ∃ own, Outcome t kind own (add false t kind msgId type) ∧ own.Ok ∧
      (type = .existing → msgId ∈ (t.view.list kind).messages →
        own.count = (t.view.list kind).count) ∧
      ∀ n, type = .new → (t.view.list kind).count = some n →
        n ≤ (t.view.list kind).messages.size → msgId ∉ (t.view.list kind).messages →
        own.count = some (n + 1) := by
  have hsame : Outcome t kind (t.view.list kind) ({ t with data := some t.view }, []) := by
    refine ⟨rfl, Or.inl rfl, ?_, rfl⟩
    rw [if_neg]
    rintro ⟨hne, -⟩
    exact hne rfl
  have hunfold : add false t kind msgId type =
      if (t.view.list kind).countOrUnknown ≥ 0 ∧
          (t.view.list kind).loadedCount ≥ (t.view.list kind).countOrUnknown then
        if type = .new ∨ msgId ∉ (t.view.list kind).messages then
          setCount { t with data := some (t.view.setList kind { t.view.list kind with
            messages := (t.view.list kind).messages.insert msgId }) } t.known kind
            ((t.view.list kind).countOrUnknown + 1)
        else ({ t with data := some t.view }, [])
      else if (t.view.list kind).loadedCount > 0 ∧ type ≠ .new then
        ({ t with data := some (t.view.setList kind { t.view.list kind with
          messages := (t.view.list kind).messages.insert msgId }) }, [])
      else ({ t with data := some t.view }, []) := rfl
  rw [hunfold]
  by_cases hall : (t.view.list kind).countOrUnknown ≥ 0 ∧
      (t.view.list kind).loadedCount ≥ (t.view.list kind).countOrUnknown
  · rw [if_pos hall]
    obtain ⟨hnonneg, hloaded⟩ := hall
    obtain ⟨-, hunknown⟩ | ⟨n, hn, hcount, hsize⟩ := countOrUnknown_cases _ hok
    · omega
    have hsizeEq : n = (t.view.list kind).messages.size := by
      rw [hcount] at hloaded
      have hle : n ≤ ((t.view.list kind).messages.size : ℤ) := hloaded
      omega
    by_cases hinsert : type = .new ∨ msgId ∉ (t.view.list kind).messages
    · rw [if_pos hinsert, hcount]
      refine ⟨_, setCount_changed rfl hother, fun m hm => ?_, fun hexisting hmem => ?_, ?_⟩
      · rw [← Option.some.inj hm]
        exact le_max_left _ _
      · obtain hnew | hnot := hinsert
        · rw [hnew] at hexisting
          cases hexisting
        · exact absurd hmem hnot
      · intro m _ hm _ hnot
        rw [hn] at hm
        obtain rfl := Option.some.inj hm
        change some (max (((t.view.list kind).messages.insert msgId).size : ℤ) (n + 1)) = _
        rw [size_insert hnot, hsizeEq]
        push_cast
        rw [max_self]
    · rw [if_neg hinsert]
      rw [not_or, not_not] at hinsert
      refine ⟨_, hsame, hok, fun _ _ => rfl, fun m hnew => ?_⟩
      exact absurd hnew hinsert.1
  · rw [if_neg hall]
    by_cases hinsert : (t.view.list kind).loadedCount > 0 ∧ type ≠ .new
    · rw [if_pos hinsert]
      refine ⟨_, kept_outcome rfl, fun m hm => ?_, fun _ _ => rfl, fun m hnew => ?_⟩
      · -- some of the counted ids are not loaded, so there is room for one more
        have hcount : (t.view.list kind).countOrUnknown = m := by
          rw [Ids.countOrUnknown]
          rw [show (t.view.list kind).count = some m from hm, Option.getD_some]
        have hsize : ((t.view.list kind).messages.size : ℤ) ≤ m := hok m hm
        rw [hcount, not_and_or] at hall
        change (((t.view.list kind).messages.insert msgId).size : ℤ) ≤ m
        by_cases hmem : msgId ∈ (t.view.list kind).messages
        · rwa [insert_of_mem hmem]
        · rw [size_insert hmem]
          have hloaded : (t.view.list kind).loadedCount = (t.view.list kind).messages.size := rfl
          push_cast
          omega
      · exact absurd hnew hinsert.2
    · rw [if_neg hinsert]
      refine ⟨_, hsame, hok, fun _ _ => rfl, fun m _ hm hle _ => ?_⟩
      -- all counted ids are loaded
      obtain ⟨hsize, hcount⟩ := count_eq_size hok hm hle
      refine absurd ⟨?_, ?_⟩ hall
      · omega
      · change (t.view.list kind).countOrUnknown ≤ (t.view.list kind).messages.size
        omega

theorem erase_outcome (msgId : MsgId) (hok : (t.view.list kind).Ok)
    (hother : (t.view.other kind).Ok) :
    ∃ own, Outcome t kind own (erase t kind msgId) ∧ own.Ok ∧
      ∀ n, (t.view.list kind).count = some n → n ≤ (t.view.list kind).messages.size →
        msgId ∉ (t.view.list kind).messages → own.count = some n := by
  rw [erase]
  cases hsome : t.data with
  | none => exact ⟨_, same_outcome, hok, fun n hn _ _ => hn⟩
  | some data =>
    have hview : data = t.view := by rw [Thread.view, hsome, Option.getD_some]
    dsimp only
    have hcountOr : Ids.countOrUnknown { data.list kind with
        messages := (data.list kind).messages.remove msgId } =
          (t.view.list kind).countOrUnknown := by
      rw [hview]
      rfl
    obtain ⟨hle, hge⟩ := size_remove_le (t.view.list kind).messages msgId
    rw [hcountOr]
    by_cases hpos : (t.view.list kind).countOrUnknown > 0
    · rw [if_pos hpos]
      refine ⟨_, setCount_changed hview hother, fun m hm => ?_, fun n hn hsize hnot => ?_⟩
      · rw [← Option.some.inj hm]
        exact le_max_left _ _
      · obtain ⟨heq, hcount⟩ := count_eq_size hok hn hsize
        change some (max (((data.list kind).messages.remove msgId).size : ℤ) _) = _
        rw [hview, remove_of_notMem hnot, hcount, ← heq, max_eq_left (by omega)]
    · rw [if_neg hpos]
      refine ⟨_, kept_outcome hview, fun m hm => ?_, fun n hn _ _ => hn⟩
      have hold : ((t.view.list kind).messages.size : ℤ) ≤ m := hok m hm
      change (((data.list kind).messages.remove msgId).size : ℤ) ≤ m
      rw [hview]
      omega

theorem clear_outcome (hok : (t.view.list kind).Ok) (hother : (t.view.other kind).Ok) :
    ∃ own, Outcome t kind own (clear t kind) ∧ own.Ok := by
  rw [clear]
  cases hsome : t.data with
  | none => exact ⟨_, same_outcome, hok⟩
  | some data =>
    have hview : data = t.view := by rw [Thread.view, hsome, Option.getD_some]
    dsimp only
    split_ifs with hzero
    · exact ⟨_, same_outcome, hok⟩
    · refine ⟨_, setCount_changed hview hother, fun m hm => ?_⟩
      rw [← Option.some.inj hm]
      exact le_max_left _ _

theorem setList_setList (data : All) (list list' : Ids) :
    (data.setList kind list).setList kind list' = data.setList kind list' := by
  cases kind <;> rfl

/-- A slice leaves some ids loaded before the count is set, when there is data at all. -/
theorem addSlice_eq (t : Thread) (kind : Kind) (fullCount : ℤ) (messages : List (MsgId × Bool))
    (alreadyLoaded : ℤ) :
    ∃ count, (t.data = none ∧
        addSlice t kind fullCount messages alreadyLoaded = setCount t t.known kind count) ∨
      ∃ loaded, addSlice t kind fullCount messages alreadyLoaded =
        setCount { t with data := some (t.view.setList kind { t.view.list kind with
          messages := loaded }) } t.known kind count := by
  rw [addSlice]
  cases hsome : t.data with
  | some data =>
    have hview : t.view = data := by rw [Thread.view, hsome, Option.getD_some]
    rw [hview]
    by_cases hclear : alreadyLoaded = 0
    · simp only [Option.map_some, if_pos hclear, Option.isNone_some, Bool.false_eq_true, and_false,
        if_false, list_setList, setList_setList]
      exact ⟨_, Or.inr ⟨_, rfl⟩⟩
    · simp only [Option.map_some, if_neg hclear, Option.isNone_some, Bool.false_eq_true, and_false,
        if_false]
      exact ⟨_, Or.inr ⟨_, rfl⟩⟩
  | none =>
    have hview : t.view = createData t.known := by rw [Thread.view, hsome, Option.getD_none]
    by_cases hmessages : messages = []
    · subst hmessages
      simp only [Option.map_none, ne_eq, not_true_eq_false, false_and, if_false]
      rw [← hsome]
      exact ⟨_, Or.inl ⟨trivial, rfl⟩⟩
    · rw [hview]
      simp only [Option.map_none, Option.isNone_none, ne_eq, hmessages, not_false_eq_true, and_self,
        if_true, Option.map_some]
      exact ⟨_, Or.inr ⟨_, rfl⟩⟩

theorem addSlice_outcome (fullCount : ℤ) (messages : List (MsgId × Bool)) (alreadyLoaded : ℤ)
    (hother : (t.view.other kind).Ok) :
    ∃ own, Outcome t kind own (addSlice t kind fullCount messages alreadyLoaded) ∧ own.Ok := by
  obtain ⟨count, ⟨-, heq⟩ | ⟨loaded, heq⟩⟩ := addSlice_eq t kind fullCount messages alreadyLoaded
  · rw [heq]
    refine ⟨_, setCount_outcome _ hother, fun m hm => ?_⟩
    rw [← Option.some.inj hm]
    exact le_max_left _ _
  · rw [heq]
    refine ⟨_, setCount_changed rfl hother, fun m hm => ?_⟩
    rw [← Option.some.inj hm]
    exact le_max_left _ _

theorem list_of_ne (data : All) {kind' : Kind} (h : kind' ≠ kind) :
    data.list kind' = data.other kind := by
  cases kind <;> cases kind' <;> first | rfl | exact absurd rfl h

theorem other_ok (h : Consistent t) (kind : Kind) : (t.view.other kind).Ok := by
  have hall := (consistent_iff t).mp h
  cases kind with
  | mentions => exact hall .reactions
  | reactions => exact hall .mentions

/-- An operation on one of the lists keeps both consistent, and calls for its own list only. -/
theorem Outcome.keeps {own : Ids} {result : Thread × List Call} (h : Outcome t kind own result)
    (hconsistent : Consistent t) (hown : own.Ok) :
    Consistent result.1 ∧ ∀ kind', result.2.filter (fun call => call.kind = kind') =
      if result.1.has kind' ≠ t.has kind' ∧ t.inChatList then [⟨kind', result.1.has kind'⟩]
      else [] := by
  have hother := other_ok hconsistent kind
  have hotherOk : (result.1.view.other kind).Ok := by
    obtain hsame | ⟨-, hempty⟩ := h.otherList
    · rwa [hsame]
    · rw [hempty]
      intro n hn
      exact (Option.some.inj hn).le
  have hotherHas : (result.1.view.other kind).has = (t.view.other kind).has := by
    obtain hsame | ⟨hnone, hempty⟩ := h.otherList
    · rw [hsame]
    · rw [hempty, hnone]
      rfl
  constructor
  · rw [consistent_iff]
    intro kind'
    by_cases heq : kind' = kind
    · rw [heq, h.ownList]
      exact hown
    · rwa [list_of_ne _ heq]
  · intro kind'
    rw [has_eq, has_eq, h.calls]
    by_cases heq : kind' = kind
    · rw [heq, h.ownList]
      split_ifs
      · simp
      · rfl
    · have hno : ¬ ((t.view.other kind).has ≠ (t.view.other kind).has ∧ t.inChatList = true) :=
        fun hne => hne.1 rfl
      rw [list_of_ne _ heq, list_of_ne _ heq, hotherHas, if_neg hno]
      split_ifs
      · rw [List.filter_cons_of_neg, List.filter_nil]
        exact fun hkind => heq (of_decide_eq_true hkind).symm
      · rfl

theorem step_keeps (h : Consistent t) (event : Event) :
    Consistent (step t event).1 ∧ ∀ kind, (step t event).2.filter (fun call => call.kind = kind) =
      if (step t event).1.has kind ≠ t.has kind ∧ t.inChatList then
        [⟨kind, (step t event).1.has kind⟩] else [] := by
  have hall := (consistent_iff t).mp h
  cases event with
  | setCount kind count =>
    have hout := setCount_outcome count (other_ok h kind)
    refine hout.keeps h fun n hn => ?_
    rw [← Option.some.inj hn]
    exact le_max_left _ _
  | add kind msgId type =>
    obtain ⟨own, hout, hown, -⟩ := add_outcome msgId type (hall kind) (other_ok h kind)
    exact hout.keeps h hown
  | erase kind msgId =>
    obtain ⟨own, hout, hown, -⟩ := erase_outcome msgId (hall kind) (other_ok h kind)
    exact hout.keeps h hown
  | clear kind =>
    obtain ⟨own, hout, hown⟩ := clear_outcome (hall kind) (other_ok h kind)
    exact hout.keeps h hown
  | addSlice kind fullCount messages alreadyLoaded =>
    obtain ⟨own, hout, hown⟩ := addSlice_outcome fullCount messages alreadyLoaded (other_ok h kind)
    exact hout.keeps h hown
  | inChatList inChatList =>
    refine ⟨h, fun kind => ?_⟩
    rw [if_neg (fun hne => hne.1 rfl)]
    rfl

/-- A new id is left out while not all counted ids are loaded. -/
theorem count_add_left (msgId : MsgId) {n : ℤ} (hn : t.count kind = some n)
    (hlt : (t.ids kind).size < n) : (add false t kind msgId .new).1.count kind = some n := by
  rw [count_eq] at hn
  rw [ids_eq] at hlt
  have hcount : (t.view.list kind).countOrUnknown = n := by
    rw [Ids.countOrUnknown, hn, Option.getD_some]
  have hall : ¬ ((t.view.list kind).countOrUnknown ≥ 0 ∧
      (t.view.list kind).loadedCount ≥ (t.view.list kind).countOrUnknown) := by
    rw [hcount]
    rintro ⟨-, hle⟩
    exact absurd hlt (not_lt.mpr hle)
  have hnew : ¬ ((t.view.list kind).loadedCount > 0 ∧ AddType.new ≠ .new) := fun h => h.2 rfl
  have hadd : add false t kind msgId .new = ({ t with data := some t.view }, []) :=
    (if_neg hall).trans (if_neg hnew)
  rw [hadd, count_eq]
  exact hn

theorem promises_of_consistent (h : Consistent t) : Promises t := by
  have hall := (consistent_iff t).mp h
  refine ⟨h, fun kind msgId n hn hnot hle => ?_, fun kind msgId n hn hlt => ?_,
    fun kind msgId hmem => ?_, fun kind msgId n hn hnot hle => ?_,
    fun event => (step_keeps h event).2⟩
  · obtain ⟨own, hout, -, -, hcount⟩ := add_outcome msgId .new (hall kind) (other_ok h kind)
    rw [ids_eq] at hnot hle
    rw [count_eq] at hn ⊢
    rw [hout.ownList]
    exact hcount n rfl hn hle hnot
  · exact count_add_left msgId hn hlt
  · obtain ⟨own, hout, -, hcount, -⟩ := add_outcome msgId .existing (hall kind) (other_ok h kind)
    rw [ids_eq] at hmem
    rw [count_eq, count_eq, hout.ownList]
    exact hcount rfl hmem
  · obtain ⟨own, hout, -, hcount⟩ := erase_outcome msgId (hall kind) (other_ok h kind)
    rw [ids_eq] at hnot hle
    rw [count_eq] at hn ⊢
    rw [hout.ownList]
    exact hcount n hn hle hnot

end

/-- A thread without data. -/
def initial (known inChatList : Bool) : Thread := ⟨none, known, inChatList⟩

theorem initial_consistent (known inChatList : Bool) : Consistent (initial known inChatList) := by
  rw [consistent_iff]
  intro kind n hn
  change ((createData known).list kind).count = some n at hn
  change ((createData known).list kind).loadedCount ≤ n
  rw [list_createData] at hn ⊢
  cases known with
  | true => exact (Option.some.inj hn).le
  | false => cases hn

/-- The counts of a thread are consistent after every run. -/
theorem counts_consistent (known inChatList : Bool) (events : List Event) :
    Promises (run step (initial known inChatList) events).1 := by
  apply promises_of_consistent
  exact run_invariant step (fun _ t _ => Consistent t) (initial_consistent known inChatList)
    (fun _ _ _ event ht => (step_keeps ht event).1) events

/-- A new id is not counted while a counted one is not loaded, and one that is loaded is counted
again. -/
theorem add_new_miscounts :
    ((run step (initial false true) [.setCount .mentions 5]).1.count .mentions = some 5 ∧
      1 ∉ (run step (initial false true) [.setCount .mentions 5]).1.ids .mentions ∧
      (run step (initial false true) [.setCount .mentions 5, .add .mentions 1 .new]).1.count
        .mentions = some 5) ∧
    (1 ∈ (run step (initial true true) [.add .mentions 1 .new]).1.ids .mentions ∧
      (run step (initial true true) [.add .mentions 1 .new]).1.count .mentions = some 1 ∧
      (run step (initial true true) [.add .mentions 1 .new, .add .mentions 1 .new]).1.count
        .mentions = some 2) := by
  decide

end TelegramDesktop.History.UnreadThings
