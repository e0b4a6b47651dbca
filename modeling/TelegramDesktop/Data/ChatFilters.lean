import Mathlib
import TelegramDesktop.Base.FlatSet

/-! The list of chat folders that the server sends. What a change of rules makes of the lists of
chats, and the exceptions to load, are left out; which changes are made is kept. -/

namespace TelegramDesktop.Data

open Base

namespace ChatFilter

abbrev Flags := BitVec 16

def contacts : Flags := 1 <<< 0
def nonContacts : Flags := 1 <<< 1
def groups : Flags := 1 <<< 2
def channels : Flags := 1 <<< 3
def bots : Flags := 1 <<< 4
def noMuted : Flags := 1 <<< 5
def noRead : Flags := 1 <<< 6
def noArchived : Flags := 1 <<< 7
def rulesMask : Flags := 1 <<< 8 - 1
def chatlistFlag : Flags := 1 <<< 8
def hasMyLinksFlag : Flags := 1 <<< 9

end ChatFilter

structure ChatFilter (H : Type*) [LinearOrder H] where
  id : ℤ := 0
  title : String := ""
  iconEmoji : String := ""
  colorIndex : Option (BitVec 8) := none
  flags : ChatFilter.Flags := 0
  always : FlatSet H := ∅
  pinned : List H := []
  never : FlatSet H := ∅
  deriving DecidableEq

/-- `MTPDialogFilter`, with inputs of peers of type `I`. -/
inductive MTPDialogFilter (I : Type*)
  | dialogFilter (id : ℤ) (title : String) (emoticon : Option String) (color : Option ℤ)
      (contacts nonContacts groups broadcasts bots excludeMuted excludeRead excludeArchived : Bool)
      (pinnedPeers includePeers excludePeers : List I)
  | dialogFilterDefault
  | dialogFilterChatlist (id : ℤ) (title : String) (emoticon : Option String) (color : Option ℤ)
      (hasMyInvites : Bool) (pinnedPeers includePeers : List I)

/-- The histories that the owner finds for the peers of a filter, and for those of a chatlist. -/
structure FilterOwner (I H : Type*) where
  fromInputMTP : I → Option H
  fromChatlist : I → Option H

variable {H I : Type*} [LinearOrder H]

namespace ChatFilter

def flagIf (flag : Flags) (is : Bool) : Flags := if is then flag else 0

/-- `ChatFilter::FromTL`. -/
def fromTL (owner : FilterOwner I H) : MTPDialogFilter I → ChatFilter H
  | .dialogFilter id title emoticon color contacts nonContacts groups broadcasts bots excludeMuted
      excludeRead excludeArchived pinnedPeers includePeers excludePeers =>
    let always := includePeers.filterMap owner.fromInputMTP
    let pinned := pinnedPeers.filterMap owner.fromInputMTP
    { id := id
      title := title
      iconEmoji := emoticon.getD ""
      colorIndex := color.map (BitVec.ofInt 8)
      flags := flagIf ChatFilter.contacts contacts ||| flagIf ChatFilter.nonContacts nonContacts |||
        flagIf ChatFilter.groups groups ||| flagIf channels broadcasts |||
        flagIf ChatFilter.bots bots ||| flagIf noMuted excludeMuted |||
        flagIf noRead excludeRead ||| flagIf noArchived excludeArchived
      always := FlatSet.ofList (always ++ pinned)
      pinned := pinned
      never := FlatSet.ofList (excludePeers.filterMap owner.fromInputMTP) }
  | .dialogFilterDefault => {}
  | .dialogFilterChatlist id title emoticon color hasMyInvites pinnedPeers includePeers =>
    let always := includePeers.filterMap owner.fromChatlist
    let pinned := pinnedPeers.filterMap owner.fromChatlist
    { id := id
      title := title
      iconEmoji := emoticon.getD ""
      colorIndex := color.map (BitVec.ofInt 8)
      flags := chatlistFlag ||| flagIf hasMyLinksFlag hasMyInvites
      always := FlatSet.ofList (always ++ pinned)
      pinned := pinned }

def chatlist (filter : ChatFilter H) : Bool := filter.flags &&& chatlistFlag ≠ 0

def hasMyLinks (filter : ChatFilter H) : Bool := filter.flags &&& hasMyLinksFlag ≠ 0

/-- A filter of which only the id is known. -/
def blank (id : ℤ) : ChatFilter H := { id := id }

def rulesChanged (filter updated : ChatFilter H) : Bool :=
  filter.always ≠ updated.always ∨
    filter.flags &&& rulesMask ≠ updated.flags &&& rulesMask ∨ filter.never ≠ updated.never

def chatlistChanged (filter updated : ChatFilter H) : Bool :=
  filter.chatlist ≠ updated.chatlist ∨ filter.hasMyLinks ≠ updated.hasMyLinks

def listUpdated (filter updated : ChatFilter H) : Bool :=
  rulesChanged filter updated ∨ filter.pinned ≠ updated.pinned ∨ filter.title ≠ updated.title ∨
    filter.iconEmoji ≠ updated.iconEmoji

end ChatFilter

/-- `changes` are the arguments of `applyChange`, and `listChanged` counts what is fired. -/
structure ChatFilters (H : Type*) [LinearOrder H] where
  list : List (ChatFilter H) := [{}]
  loaded : Bool := false
  reloading : Bool := false
  listChanged : ℕ := 0
  changes : List (ChatFilter H × ChatFilter H) := []

namespace ChatFilters

open ChatFilter

/-- Whether the list is changed, with the filter at a position for the reference. -/
def applyChange (s : ChatFilters H) (position : ℕ) (updated : ChatFilter H) :
    Bool × ChatFilters H :=
  match s.list[position]? with
  | none => (false, s)
  | some filter =>
    let s := { s with changes := s.changes ++ [(filter, updated)] }
    -- the color is not compared
    if !listUpdated filter updated && !chatlistChanged filter updated then (false, s)
    else (listUpdated filter updated, { s with list := s.list.set position updated })

def applyInsert (s : ChatFilters H) (filter : ChatFilter H) (position : ℕ) : ChatFilters H :=
  let s := { s with list := s.list.insertIdx position (blank filter.id) }
  (s.applyChange position filter).2

def applyRemove (s : ChatFilters H) (position : ℕ) : ChatFilters H :=
  match s.list[position]? with
  | none => s
  | some filter =>
    let s := (s.applyChange position (blank filter.id)).2
    { s with list := s.list.eraseIdx position }

/-- `std::swap` of two places of the list. -/
def swap (s : ChatFilters H) (i b : ℕ) : ChatFilters H :=
  match s.list[i]?, s.list[b]? with
  | some atI, some atB => { s with list := (s.list.set i atB).set b atI }
  | _, _ => s

/-- One filter of `received`. -/
def receive (s : ChatFilters H) (position : ℕ) (parsed : ChatFilter H) : Bool × ChatFilters H :=
  let i := position + (s.list.drop position).findIdx fun filter => filter.id = parsed.id
  if i = s.list.length then (true, s.applyInsert parsed position)
  else if i = position then s.applyChange position parsed
  else (true, ((s.swap i position).applyChange position parsed).2)

def receiveAll (s : ChatFilters H) (position : ℕ) (changed : Bool) :
    List (ChatFilter H) → Bool × ChatFilters H
  | [] => (changed, s)
  | parsed :: rest =>
    let (now, s) := s.receive position parsed
    s.receiveAll (position + 1) (changed || now) rest

/-- What is left from `position` on is removed, at most `n` filters. -/
def trim (s : ChatFilters H) (position : ℕ) (changed : Bool) : ℕ → Bool × ChatFilters H
  | 0 => (changed, s)
  | n + 1 =>
    if position < s.list.length then (s.applyRemove position).trim position true n
    else (changed, s)

def received (s : ChatFilters H) (owner : FilterOwner I H) (list : List (MTPDialogFilter I)) :
    ChatFilters H :=
  let (changed, s) := s.receiveAll 0 false (list.map (fromTL owner))
  let (changed, s) := s.trim list.length changed s.list.length
  let s := if s.list.any fun filter => filter.id = 0 then s else { s with list := {} :: s.list }
  if changed || !s.loaded || s.reloading then
    { s with loaded := true, reloading := false, listChanged := s.listChanged + 1 }
  else s

variable {s : ChatFilters H}

def differs (old updated : ChatFilter H) : Bool :=
  listUpdated old updated || chatlistChanged old updated

/-- What is in the list after `applyChange`. -/
def stored (old updated : ChatFilter H) : ChatFilter H :=
  if differs old updated then updated else old

theorem stored_eq_iff (old updated : ChatFilter H) :
    stored old updated = updated ↔ old = updated ∨ differs old updated = true := by
  unfold stored
  split_ifs with hdiffers
  · exact iff_of_true rfl (.inr hdiffers)
  · exact ⟨.inl, fun h => h.resolve_right hdiffers⟩

theorem id_stored {old updated : ChatFilter H} (hid : old.id = updated.id) :
    (stored old updated).id = updated.id := by
  unfold stored
  split_ifs
  · rfl
  · exact hid

theorem listUpdated_self (filter : ChatFilter H) : listUpdated filter filter = false := by
  simp [listUpdated, rulesChanged]

theorem stored_self (filter : ChatFilter H) : stored filter filter = filter :=
  (stored_eq_iff filter filter).mpr (.inl rfl)

/-- The state after a change that leaves such a list. -/
def logged (s : ChatFilters H) (list : List (ChatFilter H))
    (log : List (ChatFilter H × ChatFilter H)) : ChatFilters H :=
  { s with list := list, changes := s.changes ++ log }

theorem logged_logged (s : ChatFilters H) (list list' : List (ChatFilter H))
    (log log' : List (ChatFilter H × ChatFilter H)) :
    (s.logged list log).logged list' log' = s.logged list' (log ++ log') := by
  unfold logged
  rw [List.append_assoc]

variable {done rest : List (ChatFilter H)}

theorem getElem?_append {filter : ChatFilter H} (h : s.list = done ++ filter :: rest) :
    s.list[done.length]? = some filter := by
  rw [h, List.getElem?_append_right le_rfl, Nat.sub_self, List.getElem?_cons_zero]

theorem applyChange_append {old : ChatFilter H} (h : s.list = done ++ old :: rest)
    (updated : ChatFilter H) :
    s.applyChange done.length updated =
      (listUpdated old updated,
        s.logged (done ++ stored old updated :: rest) [(old, updated)]) := by
  unfold applyChange stored logged
  rw [getElem?_append h]
  simp only [← Bool.not_or]
  cases hdiffers : differs old updated with
  | true =>
    rw [differs] at hdiffers
    rw [hdiffers, if_neg (by decide), if_pos rfl, h, List.set_append_right _ _ le_rfl,
      Nat.sub_self, List.set_cons_zero]
  | false =>
    rw [differs] at hdiffers
    have hlist := (Bool.or_eq_false_iff.mp hdiffers).1
    rw [hdiffers, if_pos (by decide), if_neg Bool.false_ne_true, hlist, ← h]

theorem insertIdx_append (done rest : List (ChatFilter H)) (filter : ChatFilter H) :
    (done ++ rest).insertIdx done.length filter = done ++ filter :: rest := by
  induction done with
  | nil => rfl
  | cons first done ih =>
    rw [List.cons_append, List.length_cons, List.insertIdx_succ_cons, ih, List.cons_append]

theorem applyInsert_append (h : s.list = done ++ rest) (filter : ChatFilter H) :
    s.applyInsert filter done.length =
      s.logged (done ++ stored (blank filter.id) filter :: rest) [(blank filter.id, filter)] := by
  unfold applyInsert
  have hinsert : s.list.insertIdx done.length (blank filter.id) =
      done ++ blank filter.id :: rest := by
    rw [h, insertIdx_append]
  simp only [hinsert]
  rw [applyChange_append rfl]
  rfl

theorem applyRemove_append {filter : ChatFilter H} (h : s.list = done ++ filter :: rest) :
    s.applyRemove done.length = s.logged (done ++ rest) [(filter, blank filter.id)] := by
  unfold applyRemove
  rw [getElem?_append h]
  simp only [applyChange_append h, logged]
  rw [List.eraseIdx_append_of_length_le le_rfl, Nat.sub_self, List.eraseIdx_cons_zero]

theorem swap_append {b found : ChatFilter H} {middle : List (ChatFilter H)}
    (h : s.list = done ++ b :: (middle ++ found :: rest)) :
    s.swap (done.length + (middle.length + 1)) done.length =
      { s with list := done ++ found :: (middle ++ b :: rest) } := by
  have hfound : s.list[done.length + (middle.length + 1)]? = some found := by
    rw [h]
    simp
  unfold swap
  rw [hfound, getElem?_append h]
  simp [h]

/-- The old value of a filter, or the one that it is inserted with. -/
def was (list : List (ChatFilter H)) (id : ℤ) : ChatFilter H :=
  (list.find? fun filter => filter.id = id).getD (blank id)

theorem id_was (list : List (ChatFilter H)) (id : ℤ) : (was list id).id = id := by
  unfold was
  cases hfind : list.find? fun filter => filter.id = id with
  | none => rfl
  | some filter =>
    have hid := List.find?_some hfind
    exact of_decide_eq_true hid

theorem was_perm {l l' : List (ChatFilter H)} (hl : (l.map ChatFilter.id).Nodup) (h : l.Perm l')
    (id : ℤ) : was l id = was l' id := by
  unfold was
  congr 1
  cases hfind : l.find? fun filter => filter.id = id with
  | none =>
    rw [List.find?_eq_none] at hfind
    exact (List.find?_eq_none.mpr fun filter hfilter => hfind filter (h.mem_iff.mpr hfilter)).symm
  | some filter =>
    have hid := List.find?_some hfind
    rw [decide_eq_true_iff] at hid
    have hmem := h.mem_iff.mp (List.mem_of_find?_eq_some hfind)
    cases hfind' : l'.find? fun filter => filter.id = id with
    | none => exact absurd (decide_eq_true hid) (List.find?_eq_none.mp hfind' filter hmem)
    | some other =>
      have hid' := List.find?_some hfind'
      rw [decide_eq_true_iff] at hid'
      have hmem' := h.mem_iff.mpr (List.mem_of_find?_eq_some hfind')
      rw [List.inj_on_of_nodup_map hl (List.mem_of_find?_eq_some hfind) hmem'
        (hid.trans hid'.symm)]

theorem was_filter {l : List (ChatFilter H)} {id other : ℤ} (h : id ≠ other) :
    was (l.filter fun filter => filter.id ≠ other) id = was l id := by
  unfold was
  rw [List.find?_filter]
  congr 2
  funext filter
  by_cases hid : filter.id = id
  · simp [hid, h]
  · simp [hid]

theorem findIdx_append {p : ChatFilter H → Bool} {before after : List (ChatFilter H)}
    {found : ChatFilter H} (hbefore : ∀ filter ∈ before, p filter = false)
    (hfound : p found = true) : (before ++ found :: after).findIdx p = before.length := by
  induction before with
  | nil => simp [List.findIdx_cons, hfound]
  | cons filter before ih =>
    rw [List.cons_append, List.findIdx_cons, hbefore filter List.mem_cons_self, cond_false,
      ih fun other hother => hbefore other (List.mem_cons_of_mem filter hother), List.length_cons]

theorem receive_append (h : s.list = done ++ rest) (hrest : (rest.map ChatFilter.id).Nodup)
    (parsed : ChatFilter H) :
    ∃ now rest', s.receive done.length parsed =
        (now, s.logged (done ++ stored (was rest parsed.id) parsed :: rest')
          [(was rest parsed.id, parsed)]) ∧
      rest'.Perm (rest.filter fun filter => filter.id ≠ parsed.id) := by
  have hdrop : s.list.drop done.length = rest := by
    rw [h, List.drop_left]
  have hlength : s.list.length = done.length + rest.length := by
    rw [h, List.length_append]
  unfold receive
  rw [hdrop]
  cases hfind : rest.find? fun filter => filter.id = parsed.id with
  | none =>
    have habsent := List.find?_eq_none.mp hfind
    have hend : (rest.findIdx fun filter => filter.id = parsed.id) = rest.length := by
      apply List.findIdx_eq_length_of_false
      intro filter hfilter
      exact Bool.eq_false_of_not_eq_true (habsent filter hfilter)
    -- a new filter is inserted with its id alone, and then changed
    have hwas : was rest parsed.id = blank parsed.id := by
      rw [was, hfind, Option.getD_none]
    simp only [hend, hlength, if_true]
    rw [hwas]
    refine ⟨true, rest, by rw [applyInsert_append h], ?_⟩
    rw [List.filter_eq_self.mpr fun filter hfilter => ?_]
    simpa using habsent filter hfilter
  | some found =>
    -- the only filter with the id is changed where it is, or after an exchange with the first
    obtain ⟨hid, before, after, hsplit, hbefore⟩ := List.find?_eq_some_iff_append.mp hfind
    have hfound : found.id = parsed.id := of_decide_eq_true hid
    have hwas : was rest parsed.id = found := by
      rw [was, hfind, Option.getD_some]
    have hbefore' : ∀ filter ∈ before, decide (filter.id ≠ parsed.id) = true := by
      intro filter hfilter
      simpa using hbefore filter hfilter
    have hafter : ∀ filter ∈ after, decide (filter.id ≠ parsed.id) = true := by
      intro filter hfilter
      rw [hsplit, List.map_append, List.map_cons] at hrest
      have hfresh := (List.nodup_cons.mp (List.nodup_append.mp hrest).2.1).1
      rw [decide_eq_true_iff, ← hfound]
      exact fun h => hfresh (h ▸ List.mem_map_of_mem hfilter)
    have hindex : (rest.findIdx fun filter => filter.id = parsed.id) = before.length := by
      rw [hsplit]
      apply findIdx_append _ hid
      intro filter hfilter
      simpa using hbefore filter hfilter
    have hothers : (rest.filter fun filter => filter.id ≠ parsed.id) = before ++ after := by
      rw [hsplit, List.filter_append, List.filter_cons, if_neg (by simp [hfound]),
        List.filter_eq_self.mpr hbefore', List.filter_eq_self.mpr hafter]
    rw [hindex, hwas, hothers]
    have hinside : done.length + before.length ≠ s.list.length := by
      rw [hlength, hsplit, List.length_append, List.length_cons]
      omega
    simp only [if_neg hinside]
    cases before with
    | nil =>
      rw [hsplit, List.nil_append] at h
      simp only [List.length_nil, Nat.add_zero, if_true]
      exact ⟨_, after, applyChange_append h parsed, .refl _⟩
    | cons b middle =>
      rw [hsplit, List.cons_append] at h
      have hlater : done.length + (b :: middle).length ≠ done.length := by
        rw [List.length_cons]
        omega
      simp only [if_neg hlater]
      rw [List.length_cons, swap_append h, applyChange_append rfl]
      exact ⟨true, middle ++ b :: after, rfl, List.perm_middle⟩

theorem filter_not_mem_cons (l : List (ChatFilter H)) (id : ℤ) (ids : List ℤ) :
    ((l.filter fun filter => filter.id ≠ id).filter fun filter => filter.id ∉ ids) =
      l.filter fun filter => filter.id ∉ id :: ids := by
  rw [List.filter_filter]
  congr 1
  funext filter
  simp only [List.mem_cons, not_or, Bool.decide_and, Bool.and_comm]

/-- The boundary moves over one filter at a time, and what is behind it stays the old list without
what is before it, in some order. -/
theorem receiveAll_append {list : List (ChatFilter H)} (h : s.list = done ++ rest)
    (hrest : (rest.map ChatFilter.id).Nodup) (hlist : (list.map ChatFilter.id).Nodup)
    (changed : Bool) :
    ∃ changed' rest', s.receiveAll done.length changed list =
        (changed', s.logged
          (done ++ list.map (fun parsed => stored (was rest parsed.id) parsed) ++ rest')
          (list.map fun parsed => (was rest parsed.id, parsed))) ∧
      rest'.Perm (rest.filter fun filter => filter.id ∉ list.map ChatFilter.id) := by
  induction list generalizing s done rest changed with
  | nil =>
    refine ⟨changed, rest, ?_, ?_⟩
    · rw [receiveAll, logged, List.map_nil, List.map_nil, List.append_nil, List.append_nil, ← h]
    · rw [List.filter_eq_self.mpr fun filter _ => decide_eq_true (by simp)]
  | cons parsed list ih =>
    obtain ⟨now, rest₁, hreceive, hperm⟩ := receive_append h hrest parsed
    obtain ⟨hfresh, hlist'⟩ := List.nodup_cons.mp hlist
    have hrest₁ : (rest₁.map ChatFilter.id).Nodup := by
      rw [(hperm.map ChatFilter.id).nodup_iff]
      exact hrest.sublist (List.filter_sublist.map ChatFilter.id)
    -- what was taken has another id than what is to come
    have hwas : ∀ other ∈ list, was rest₁ other.id = was rest other.id := by
      intro other hother
      have hne : other.id ≠ parsed.id := fun h => hfresh (h ▸ List.mem_map_of_mem hother)
      rw [was_perm hrest₁ hperm, was_filter hne]
    have hsplit : (s.logged (done ++ stored (was rest parsed.id) parsed :: rest₁)
        [(was rest parsed.id, parsed)]).list =
          (done ++ [stored (was rest parsed.id) parsed]) ++ rest₁ := by
      rw [List.append_assoc]
      rfl
    obtain ⟨changed', rest', heq, hperm'⟩ := ih hsplit hrest₁ hlist' (changed || now)
    refine ⟨changed', rest', ?_, ?_⟩
    · rw [List.length_append, List.length_singleton] at heq
      rw [receiveAll, hreceive]
      refine heq.trans ?_
      rw [logged_logged, List.map_congr_left fun other hother => by rw [hwas other hother],
        List.map_congr_left (g := fun other => (was rest other.id, other))
          fun other hother => by rw [hwas other hother]]
      simp
    · refine hperm'.trans ((hperm.filter _).trans ?_)
      rw [filter_not_mem_cons, List.map_cons]

theorem trim_append (h : s.list = done ++ rest) (changed : Bool) {n : ℕ} (hn : rest.length ≤ n) :
    s.trim done.length changed n =
      (changed || !rest.isEmpty,
        s.logged done (rest.map fun filter => (filter, blank filter.id))) := by
  induction n generalizing s rest changed with
  | zero =>
    have hnil : rest = [] := List.length_eq_zero_iff.mp (Nat.le_zero.mp hn)
    rw [hnil, List.append_nil] at h
    rw [hnil, trim, logged, List.map_nil, List.append_nil, ← h, List.isEmpty_nil, Bool.not_true,
      Bool.or_false]
  | succ n ih =>
    cases rest with
    | nil =>
      rw [List.append_nil] at h
      rw [trim, if_neg (by rw [h]; exact lt_irrefl _), logged, List.map_nil, List.append_nil, ← h,
        List.isEmpty_nil, Bool.not_true, Bool.or_false]
    | cons filter rest =>
      have hinside : done.length < s.list.length := by
        rw [h, List.length_append, List.length_cons]
        omega
      rw [trim, if_pos hinside, applyRemove_append h, ih rfl true (Nat.le_of_succ_le_succ hn),
        logged_logged, List.isEmpty_cons, Bool.not_false, Bool.or_true, Bool.true_or]
      rfl

/-- A list with the default filter before it, if it has none with that id. -/
def withDefault (list : List (ChatFilter H)) : List (ChatFilter H) :=
  if list.any fun filter => filter.id = 0 then list else {} :: list

/-- The end of `received`. -/
def finish (changed : Bool) (s : ChatFilters H) : ChatFilters H :=
  if changed || !s.loaded || s.reloading then
    { s with loaded := true, reloading := false, listChanged := s.listChanged + 1 }
  else s

theorem list_finish (changed : Bool) (s : ChatFilters H) : (finish changed s).list = s.list := by
  unfold finish
  split_ifs <;> rfl

theorem changes_finish (changed : Bool) (s : ChatFilters H) :
    (finish changed s).changes = s.changes := by
  unfold finish
  split_ifs <;> rfl

def parsedList (owner : FilterOwner I H) (list : List (MTPDialogFilter I)) :
    List (ChatFilter H) :=
  list.map (fromTL owner)

variable {owner : FilterOwner I H} {list : List (MTPDialogFilter I)}

/-- What is in the list after `received`, but for the default filter. -/
def kept (s : ChatFilters H) (parsed : List (ChatFilter H)) : List (ChatFilter H) :=
  parsed.map fun filter => stored (was s.list filter.id) filter

def addDefault (s : ChatFilters H) : ChatFilters H :=
  if s.list.any fun filter => filter.id = 0 then s else { s with list := {} :: s.list }

theorem addDefault_logged (s : ChatFilters H) (list : List (ChatFilter H))
    (log : List (ChatFilter H × ChatFilter H)) :
    addDefault (s.logged list log) = s.logged (withDefault list) log := by
  unfold addDefault withDefault logged
  dsimp only
  split_ifs <;> rfl

theorem received_def (s : ChatFilters H) (owner : FilterOwner I H)
    (list : List (MTPDialogFilter I)) :
    s.received owner list =
      let all := s.receiveAll 0 false (parsedList owner list)
      let trimmed := all.2.trim list.length all.1 all.2.list.length
      finish trimmed.1 (addDefault trimmed.2) := rfl

/-- The old and new value of each filter of the server. -/
def keptLog (s : ChatFilters H) (parsed : List (ChatFilter H)) :
    List (ChatFilter H × ChatFilter H) :=
  parsed.map fun filter => (was s.list filter.id, filter)

def removedLog (removed : List (ChatFilter H)) : List (ChatFilter H × ChatFilter H) :=
  removed.map fun filter => (filter, blank filter.id)

/-- How `received` ends, once it is known where its loop ends. -/
theorem received_of_receiveAll {changed : Bool} {all removed : List (ChatFilter H)}
    {log : List (ChatFilter H × ChatFilter H)} (hlength : all.length = list.length)
    (hall : s.receiveAll 0 false (parsedList owner list) =
      (changed, s.logged (all ++ removed) log)) :
    s.received owner list = finish (changed || !removed.isEmpty)
      (s.logged (withDefault all) (log ++ removedLog removed)) := by
  have hlist : (s.logged (all ++ removed) log).list = all ++ removed := rfl
  have hremoved : removed.length ≤ (s.logged (all ++ removed) log).list.length := by
    rw [hlist, List.length_append]
    exact Nat.le_add_left _ _
  rw [received_def, hall, ← hlength]
  dsimp only
  rw [trim_append hlist changed hremoved, logged_logged, addDefault_logged]
  rfl

theorem received_eq (hs : (s.list.map ChatFilter.id).Nodup)
    (hlist : ((parsedList owner list).map ChatFilter.id).Nodup) :
    ∃ changed removed, s.received owner list = finish (changed || !removed.isEmpty)
        (s.logged (withDefault (s.kept (parsedList owner list)))
          (s.keptLog (parsedList owner list) ++ removedLog removed)) ∧
      removed.Perm (s.list.filter fun filter =>
        filter.id ∉ (parsedList owner list).map ChatFilter.id) := by
  obtain ⟨changed, removed, hall, hperm⟩ :=
    receiveAll_append (List.nil_append s.list).symm hs hlist false
  refine ⟨changed, removed, received_of_receiveAll ?_ hall, hperm⟩
  rw [kept, parsedList, List.length_map, List.length_map]

/-- Where each filter is at its place already, nothing is changed. -/
theorem receiveAll_same {list : List (ChatFilter H)} (h : s.list = done ++ list) (changed : Bool) :
    s.receiveAll done.length changed list =
      (changed, s.logged s.list (list.map fun filter => (filter, filter))) := by
  induction list generalizing s done with
  | nil => rw [receiveAll, logged, List.map_nil, List.append_nil]
  | cons filter list ih =>
    have hindex : ((filter :: list).findIdx fun other => other.id = filter.id) = 0 := by
      simp [List.findIdx_cons]
    have hinside : done.length ≠ s.list.length := by
      rw [h, List.length_append, List.length_cons]
      omega
    have hreceive : s.receive done.length filter = (false, s.logged s.list [(filter, filter)]) := by
      unfold receive
      rw [h, List.drop_left, hindex, ← h]
      simp only [Nat.add_zero, if_neg hinside, if_true]
      rw [applyChange_append h, listUpdated_self, stored_self, ← h]
    have hsplit : (s.logged s.list [(filter, filter)]).list = (done ++ [filter]) ++ list := by
      rw [List.append_assoc]
      exact h
    have hrest := ih hsplit
    rw [List.length_append, List.length_singleton, logged_logged] at hrest
    rw [receiveAll, hreceive]
    dsimp only
    rw [Bool.or_false]
    exact hrest

/-- Whether `new` takes the place of `old`, and with what it does where one of them is missing. -/
def Succeeds (s : ChatFilters H) (parsed : List (ChatFilter H)) (old new : ChatFilter H) : Prop :=
  (new ∈ parsed ∧ old = was s.list new.id) ∨
    (old ∈ s.list ∧ old.id ∉ parsed.map ChatFilter.id ∧ new = blank old.id)

structure Replaces (s : ChatFilters H) (owner : FilterOwner I H) (list : List (MTPDialogFilter I)) :
    Prop where
  replaced : (s.received owner list).list = withDefault (parsedList owner list)
  changes : ∃ log, (s.received owner list).changes = s.changes ++ log ∧
    ∀ old new, Succeeds s (parsedList owner list) old new → rulesChanged old new = true →
      (old, new) ∈ log
  again : ((s.received owner list).received owner list).list = (s.received owner list).list
  quiet : ((s.received owner list).received owner list).listChanged =
    (s.received owner list).listChanged

/-- The server names the filter of all chats, and each of its filters is the old one or differs
from it in what is compared. -/
def Compared (s : ChatFilters H) (parsed : List (ChatFilter H)) : Prop :=
  (∃ filter ∈ parsed, filter.id = 0) ∧
    ∀ filter ∈ parsed, was s.list filter.id = filter ∨
      differs (was s.list filter.id) filter = true

theorem map_id_kept (s : ChatFilters H) (parsed : List (ChatFilter H)) :
    (s.kept parsed).map ChatFilter.id = parsed.map ChatFilter.id := by
  rw [kept, List.map_map]
  apply List.map_congr_left
  intro filter _
  exact id_stored (id_was s.list filter.id)

theorem any_zero_iff (l : List (ChatFilter H)) :
    (l.any fun filter => filter.id = 0) = true ↔ 0 ∈ l.map ChatFilter.id := by
  rw [List.any_eq_true, List.mem_map]
  simp only [decide_eq_true_eq]

theorem kept_eq_iff (s : ChatFilters H) (parsed : List (ChatFilter H)) :
    withDefault (s.kept parsed) = withDefault parsed ↔
      ∀ filter ∈ parsed, was s.list filter.id = filter ∨
        differs (was s.list filter.id) filter = true := by
  have hany : ((s.kept parsed).any fun filter => filter.id = 0) =
      parsed.any fun filter => filter.id = 0 := by
    rw [Bool.eq_iff_iff, any_zero_iff, any_zero_iff, map_id_kept]
  have hsame : withDefault (s.kept parsed) = withDefault parsed ↔ s.kept parsed = parsed := by
    unfold withDefault
    rw [hany]
    split_ifs
    · rfl
    · exact List.cons_inj_right _
  have hself := List.map_inj_left (l := parsed)
    (f := fun filter => stored (was s.list filter.id) filter) (g := fun filter => filter)
  rw [List.map_id', ← kept] at hself
  rw [hsame, hself]
  exact forall₂_congr fun filter _ => stored_eq_iff _ filter

theorem mem_keptLog {parsed : List (ChatFilter H)} {old new : ChatFilter H} :
    (old, new) ∈ s.keptLog parsed ↔ new ∈ parsed ∧ old = was s.list new.id := by
  rw [keptLog, List.mem_map]
  constructor
  · rintro ⟨filter, hfilter, heq⟩
    obtain ⟨rfl, rfl⟩ := Prod.mk.inj heq
    exact ⟨hfilter, rfl⟩
  · rintro ⟨hnew, rfl⟩
    exact ⟨new, hnew, rfl⟩

/-- A list that has the filter of all chats and is there already. -/
theorem received_same (h : s.list = parsedList owner list)
    (hzero : 0 ∈ (parsedList owner list).map ChatFilter.id) :
    ∃ log, s.received owner list = finish false (s.logged s.list log) := by
  have hall := receiveAll_same (show s.list = [] ++ parsedList owner list from h) false
  have hlength : s.list.length = list.length := by
    rw [h, parsedList, List.length_map]
  have hnil : s.list = s.list ++ [] := (List.append_nil _).symm
  rw [List.length_nil, hnil] at hall
  have hreceived := received_of_receiveAll hlength hall
  rw [h, withDefault, if_pos ((any_zero_iff _).mpr hzero), ← h] at hreceived
  exact ⟨_, hreceived⟩

theorem finish_quiet (changed : Bool) (s : ChatFilters H) (l : List (ChatFilter H))
    (log : List (ChatFilter H × ChatFilter H)) :
    finish false ((finish changed s).logged l log) = (finish changed s).logged l log := by
  unfold finish logged
  split_ifs <;> simp_all

theorem listChanged_finish_true (s : ChatFilters H) :
    (finish true s).listChanged = s.listChanged + 1 := rfl

/-- Without the filter of all chats in its list, the server is always told to have changed it. -/
theorem received_fires (hs : (s.list.map ChatFilter.id).Nodup)
    (hlist : ((parsedList owner list).map ChatFilter.id).Nodup)
    (hzero : 0 ∈ s.list.map ChatFilter.id)
    (hnone : 0 ∉ (parsedList owner list).map ChatFilter.id) :
    (s.received owner list).listChanged = s.listChanged + 1 := by
  obtain ⟨changed, removed, heq, hperm⟩ := received_eq hs hlist
  obtain ⟨filter, hfilter, hid⟩ := List.mem_map.mp hzero
  have hremoved : filter ∈ removed := by
    rw [hperm.mem_iff, List.mem_filter]
    exact ⟨hfilter, decide_eq_true (hid ▸ hnone)⟩
  have hsome : removed.isEmpty = false := by
    rw [List.isEmpty_eq_false_iff]
    exact List.ne_nil_of_mem hremoved
  rw [heq, hsome, Bool.not_false, Bool.or_true, listChanged_finish_true]
  rfl

theorem nodup_withDefault {l : List (ChatFilter H)} (hl : (l.map ChatFilter.id).Nodup) :
    ((withDefault l).map ChatFilter.id).Nodup := by
  unfold withDefault
  split_ifs with hzero
  · exact hl
  · rw [any_zero_iff] at hzero
    exact List.nodup_cons.mpr ⟨hzero, hl⟩

theorem zero_mem_withDefault (l : List (ChatFilter H)) :
    0 ∈ (withDefault l).map ChatFilter.id := by
  unfold withDefault
  split_ifs with hzero
  · exact (any_zero_iff l).mp hzero
  · exact List.mem_cons_self

/-- The old list is replaced, and for good, if and only if the server names the filter of all
chats and each of its filters is the old one or differs from it in what is compared. -/
theorem replaces_iff (hs : (s.list.map ChatFilter.id).Nodup)
    (hlist : ((parsedList owner list).map ChatFilter.id).Nodup) :
    Replaces s owner list ↔ Compared s (parsedList owner list) := by
  obtain ⟨changed, removed, heq, hperm⟩ := received_eq hs hlist
  have hafter : (s.received owner list).list = withDefault (s.kept (parsedList owner list)) := by
    rw [heq, list_finish]
    rfl
  have hstored := kept_eq_iff s (parsedList owner list)
  constructor
  · intro h
    refine ⟨?_, hstored.mp (hafter.symm.trans h.replaced)⟩
    by_contra hnone
    have hzero : 0 ∉ (parsedList owner list).map ChatFilter.id := by
      rintro hmem
      exact hnone (List.mem_map.mp hmem)
    have hagain : (((s.received owner list).list).map ChatFilter.id).Nodup := by
      rw [h.replaced]
      exact nodup_withDefault hlist
    have hdefault : 0 ∈ (s.received owner list).list.map ChatFilter.id := by
      rw [h.replaced]
      exact zero_mem_withDefault _
    have hquiet := h.quiet
    rw [received_fires hagain hlist hdefault hzero] at hquiet
    omega
  · rintro ⟨⟨zero, hmem, hid⟩, hcompared⟩
    have hzero : 0 ∈ (parsedList owner list).map ChatFilter.id := hid ▸ List.mem_map_of_mem hmem
    have hreplaced := hafter.trans (hstored.mpr hcompared)
    have hexact : (s.received owner list).list = parsedList owner list := by
      rw [hreplaced, withDefault, if_pos ((any_zero_iff _).mpr hzero)]
    obtain ⟨log, hsame⟩ := received_same hexact hzero
    refine ⟨hreplaced, ⟨s.keptLog (parsedList owner list) ++ removedLog removed, ?_, ?_⟩, ?_, ?_⟩
    · rw [heq, changes_finish]
      rfl
    · intro old new hsucceeds _
      rw [List.mem_append]
      rcases hsucceeds with hkept | ⟨hold, hgone, rfl⟩
      · exact .inl (mem_keptLog.mpr hkept)
      · right
        rw [removedLog, List.mem_map]
        refine ⟨old, ?_, rfl⟩
        rw [hperm.mem_iff, List.mem_filter]
        exact ⟨hold, decide_eq_true hgone⟩
    · rw [hsame, list_finish]
      rfl
    · rw [hsame, heq, finish_quiet]
      rfl

def inputs : FilterOwner ℕ ℕ where
  fromInputMTP := some
  fromChatlist := some

def folder (color : Option ℤ) : MTPDialogFilter ℕ :=
  .dialogFilter 2 "Work" none color false false true false false false false false [] [7] []

def chatlist (title : String) : MTPDialogFilter ℕ :=
  .dialogFilterChatlist 3 title none none false [] [8, 9]

def twoFolders : ChatFilters ℕ where
  list := [{}, fromTL inputs (folder none), fromTL inputs (chatlist "News")]

/-- A list is renamed and comes before the other folder. -/
theorem replaces_iff_renamed :
    Replaces twoFolders inputs [.dialogFilterDefault, chatlist "Channels", folder none] ↔
      Compared twoFolders
        (parsedList inputs [.dialogFilterDefault, chatlist "Channels", folder none]) :=
  replaces_iff (by decide) (by decide)

/-- A new color alone is not stored. -/
theorem received_color_lost :
    ¬∀ (s : ChatFilters ℕ) (owner : FilterOwner ℕ ℕ) (list : List (MTPDialogFilter ℕ)),
      (s.list.map ChatFilter.id).Nodup → ((parsedList owner list).map ChatFilter.id).Nodup →
        Replaces s owner list := by
  intro h
  have hreplaces := h { list := [{}, fromTL inputs (folder none)] } inputs
    [.dialogFilterDefault, folder (some 3)] (by decide) (by decide)
  exact absurd hreplaces.replaced (by decide)

end ChatFilters

end TelegramDesktop.Data
