import TelegramDesktop.Base.Rotate

namespace TelegramDesktop.Dialogs

namespace Pinned

inductive Key
  | history (peer : ℕ)
  | folder (id : ℤ)
  | sublist (peer : ℕ)
  | topic (id : ℤ)
  deriving DecidableEq

def Key.isHistory : Key → Bool
  | .history _ => true
  | _ => false

/-- A pinned chat as the server names it; a peer that is not known reads as zero. -/
inductive MTPDialogPeer
  | dialogPeer (peer : ℕ)
  | dialogPeerFolder (folderId : ℤ)

end Pinned

open Pinned

/-- The list with the `_pinnedIndex` maps of all entries, where a missing index reads as zero. -/
structure PinnedList where
  filterId : ℕ
  limit : ℕ
  data : List Key := []
  pinnedIndex : Key → ℕ → ℕ := fun _ _ => 0
  folderKnown : Key → Bool := fun _ => true

namespace PinnedList

def cached (s : PinnedList) (key : Key) : ℕ := s.pinnedIndex key s.filterId

def cachePinnedIndex (s : PinnedList) (key : Key) (index : ℕ) : PinnedList :=
  { s with
    pinnedIndex := Function.update s.pinnedIndex key
      (Function.update (s.pinnedIndex key) s.filterId index) }

/-- `_data[i].entry()->cachePinnedIndex(_filterId, i + 1)`. -/
def cacheAt (s : PinnedList) (i : ℕ) : PinnedList :=
  match s.data[i]? with
  | some key => s.cachePinnedIndex key (i + 1)
  | none => s

/-- The same in a loop over `count` positions. -/
def cachePositions (s : PinnedList) (first : ℕ) : ℕ → PinnedList
  | 0 => s
  | count + 1 => (s.cacheAt first).cachePositions (first + 1) count

/-- `setPinned(key, false)` behind its expectation. -/
def unpin (s : PinnedList) (key : Key) : PinnedList :=
  let index := s.data.idxOf key
  if index < s.data.length then
    let erased := { s with data := s.data.eraseIdx index }
    (erased.cachePinnedIndex key 0).cachePositions index (erased.data.length - index)
  else s

@[simp] theorem data_cachePinnedIndex (s : PinnedList) (key : Key) (index : ℕ) :
    (s.cachePinnedIndex key index).data = s.data := rfl

@[simp] theorem data_cacheAt (s : PinnedList) (i : ℕ) : (s.cacheAt i).data = s.data := by
  unfold cacheAt
  split <;> rfl

@[simp] theorem data_cachePositions (s : PinnedList) (first count : ℕ) :
    (s.cachePositions first count).data = s.data := by
  induction count generalizing s first with
  | zero => rfl
  | succ count ih => rw [cachePositions, ih, data_cacheAt]

theorem data_unpin (s : PinnedList) (key : Key) : (s.unpin key).data = s.data.erase key := by
  unfold unpin
  dsimp only
  split_ifs with h
  · rw [data_cachePositions, data_cachePinnedIndex, List.erase_eq_eraseIdx_of_idxOf rfl]
  · rw [List.erase_of_not_mem fun hmem => h (List.idxOf_lt_length_of_mem hmem)]

/-- The loop of `applyLimit`; each round takes the back of the vector out. -/
def applyLimit (s : PinnedList) (limit : ℕ) : Option PinnedList :=
  match hback : s.data.getLast? with
  | some back =>
    if limit < s.data.length then
      if s.folderKnown back || s.filterId != 0 then (s.unpin back).applyLimit limit else none
    else some s
  | none => some s
termination_by s.data.length
decreasing_by
  have hmem := List.mem_of_getLast? hback
  rw [data_unpin, List.length_erase_of_mem hmem]
  have := List.length_pos_of_mem hmem
  omega

def setLimit (s : PinnedList) (limit : ℕ) : Option PinnedList :=
  if 0 < limit then
    if s.limit = limit then some s else { s with limit }.applyLimit limit
  else none

/-- The list after the call and the position it returns. -/
def addPinnedGetPosition (s : PinnedList) (key : Key) : Option (PinnedList × ℕ) :=
  let already := s.data.idxOf key
  if already < s.data.length then some (s, already)
  else
    (s.applyLimit (s.limit - 1)).map fun s =>
      let position := s.data.length
      ({ s with data := s.data ++ [key] }.cachePinnedIndex key (position + 1), position)

def addPinned (s : PinnedList) (key : Key) : Option PinnedList :=
  if s.folderKnown key then (s.addPinnedGetPosition key).map Prod.fst else none

def setPinned (s : PinnedList) (key : Key) (pinned : Bool) : Option PinnedList :=
  if s.folderKnown key || s.filterId != 0 then
    if pinned then
      (s.addPinnedGetPosition key).map fun (s, position) =>
        if position ≠ 0 then
          { s with data := Base.rotateSegment s.data 0 position (position + 1) }.cachePositions
            0 (position + 1)
        else s
    else some (s.unpin key)
  else none

def clear (s : PinnedList) : Option PinnedList := s.applyLimit 0

/-- The loop that the overloads of `applyList` with a list from the server share; a key that
could not be found has no entry to ask. -/
def applyKeys (s : PinnedList) (keys : List (Option Key)) : Option PinnedList :=
  s.clear.bind fun s => keys.foldlM (fun s key => key.bind s.addPinned) s

def applyDialogs (s : PinnedList) (list : List MTPDialogPeer) : Option PinnedList :=
  s.applyKeys <| list.filterMap fun
    | .dialogPeer peer => if peer ≠ 0 then some (some (.history peer)) else none
    | .dialogPeerFolder folderId => some (some (.folder folderId))

def applySublists (s : PinnedList) (list : List MTPDialogPeer) : Option PinnedList :=
  s.applyKeys <| list.filterMap fun
    | .dialogPeer peer => if peer ≠ 0 then some (some (.sublist peer)) else none
    | .dialogPeerFolder _ => none

/-- `known` are the topics the forum has. -/
def applyTopics (s : PinnedList) (known : ℤ → Bool) (list : List ℤ) : Option PinnedList :=
  s.applyKeys <| list.map fun id => if known id then some (.topic id) else none

def applyHistories (s : PinnedList) (list : List ℕ) : Option PinnedList :=
  if s.filterId ≠ 0 then
    let old := s.data
    let taken := { s with data := list.map Key.history }
    let filled := taken.cachePositions 0 list.length
    some <| old.foldl (fun t key =>
      if !key.isHistory || !decide (key ∈ t.data) then t.cachePinnedIndex key 0 else t) filled
  else none

def reorder (s : PinnedList) (key1 key2 : Key) : Option PinnedList :=
  let index1 := s.data.idxOf key1
  let index2 := s.data.idxOf key2
  if index1 < s.data.length ∧ index2 < s.data.length ∧ index1 ≠ index2 then
    let swapped := { s with data := (s.data.set index1 key2).set index2 key1 }
    some ((swapped.cachePinnedIndex key1 (index2 + 1)).cachePinnedIndex key2 (index1 + 1))
  else none

inductive Op
  | setLimit (limit : ℕ)
  | addPinned (key : Key)
  | setPinned (key : Key) (pinned : Bool)
  | clear
  | applyDialogs (list : List MTPDialogPeer)
  | applySublists (list : List MTPDialogPeer)
  | applyTopics (known : ℤ → Bool) (list : List ℤ)
  | applyHistories (list : List ℕ) (nodup : list.Nodup)
  | reorder (key1 key2 : Key)
  /-- An entry learns its folder. -/
  | folderKnown (known : Key → Bool)

def step (s : PinnedList) : Op → Option PinnedList
  | .setLimit limit => s.setLimit limit
  | .addPinned key => s.addPinned key
  | .setPinned key pinned => s.setPinned key pinned
  | .clear => s.clear
  | .applyDialogs list => s.applyDialogs list
  | .applySublists list => s.applySublists list
  | .applyTopics known list => s.applyTopics known list
  | .applyHistories list _ => s.applyHistories list
  | .reorder key1 key2 => s.reorder key1 key2
  | .folderKnown known => some { s with folderKnown := known }

/-- A run that meets every expectation. -/
def run (s : PinnedList) (ops : List Op) : Option PinnedList := ops.foldlM step s

/-- What the index stands for: one more than the position, zero when absent. -/
def position (data : List Key) (key : Key) : ℕ :=
  if key ∈ data then data.idxOf key + 1 else 0

structure Kept (s : PinnedList) : Prop where
  nodup : s.data.Nodup
  cached : ∀ key, s.cached key = position s.data key
  limit : 0 < s.limit

theorem cached_cachePinnedIndex (s : PinnedList) (key other : Key) (index : ℕ) :
    (s.cachePinnedIndex key index).cached other =
      if other = key then index else s.cached other := by
  unfold cached cachePinnedIndex
  dsimp only
  rcases eq_or_ne other key with rfl | hne
  · simp
  · simp [hne]

/-- The loops write to the cache only. -/
theorem cachePositions_eq (s : PinnedList) (first count : ℕ) :
    ∃ pinnedIndex, s.cachePositions first count = { s with pinnedIndex } := by
  induction count generalizing s first with
  | zero => exact ⟨s.pinnedIndex, rfl⟩
  | succ count ih =>
    obtain ⟨pinnedIndex, h⟩ := ih (s.cacheAt first) (first + 1)
    refine ⟨pinnedIndex, h.trans ?_⟩
    unfold cacheAt
    split <;> rfl

theorem position_getElem {data : List Key} (hnodup : data.Nodup) {i : ℕ} {key : Key}
    (h : data[i]? = some key) : position data key = i + 1 := by
  obtain ⟨hi, rfl⟩ := List.getElem?_eq_some_iff.mp h
  rw [position, if_pos (List.getElem_mem hi), hnodup.idxOf_getElem]

/-- After the loop the cache is right when it was right outside the positions of the loop. -/
theorem cached_cachePositions {s : PinnedList} (hnodup : s.data.Nodup) {first count : ℕ}
    {key : Key}
    (h : (∀ i, first ≤ i → i < first + count → s.data[i]? ≠ some key) →
      s.cached key = position s.data key) :
    (s.cachePositions first count).cached key = position s.data key := by
  induction count generalizing s first with
  | zero => exact h fun i hle hlt => absurd hlt (by omega)
  | succ count ih =>
    rw [cachePositions, ih ((data_cacheAt s first).symm ▸ hnodup), data_cacheAt]
    intro hother
    rw [data_cacheAt] at hother ⊢
    unfold cacheAt
    split
    · next first' hfirst =>
      rw [cached_cachePinnedIndex]
      split_ifs with heq
      · rw [heq, position_getElem hnodup hfirst]
      · refine h fun i hle hlt hget => ?_
        rcases hle.eq_or_lt with rfl | hle
        · exact heq (Option.some.inj (hget.symm.trans hfirst))
        · exact hother i hle (by omega) hget
    · next hnone =>
      refine h fun i hle hlt hget => ?_
      rcases hle.eq_or_lt with rfl | hle
      · exact nomatch hnone.symm.trans hget
      · exact hother i hle (by omega) hget

theorem position_append_of_mem {a b : List Key} {key : Key} (h : key ∈ a) :
    position (a ++ b) key = a.idxOf key + 1 := by
  rw [position, if_pos (List.mem_append_left _ h), List.idxOf_append_of_mem h]

theorem position_of_notMem {data : List Key} {key : Key} (h : key ∉ data) :
    position data key = 0 := if_neg h

/-- The other keys keep their order, the ones behind the hole move up. -/
theorem Kept.unpin {s : PinnedList} (h : Kept s) (key : Key) :
    ∃ pinnedIndex, s.unpin key = { s with data := s.data.erase key, pinnedIndex } ∧
      Kept (s.unpin key) := by
  by_cases hmem : key ∈ s.data
  · obtain ⟨a, b, hdata⟩ := List.append_of_mem hmem
    have hnodup := hdata ▸ h.nodup
    obtain ⟨hnodupa, hnodupb, hdisjoint⟩ := List.nodup_append.mp hnodup
    have ha : key ∉ a := fun hkey => hdisjoint key hkey key List.mem_cons_self rfl
    have hindex : s.data.idxOf key = a.length := by
      rw [hdata, List.idxOf_append_of_notMem ha, List.idxOf_cons_self, Nat.add_zero]
    have hlt : a.length < s.data.length := by simp [hdata]
    have herase : s.data.eraseIdx a.length = a ++ b := by
      rw [hdata, List.eraseIdx_append_of_length_le (le_refl _)]
      simp
    have hunpin : s.unpin key =
        (({ s with data := a ++ b }.cachePinnedIndex key 0).cachePositions a.length b.length) := by
      unfold PinnedList.unpin
      simp only [hindex, if_pos hlt, herase]
      simp
    have hcut : (a ++ b).Nodup := hnodup.sublist (by simp)
    have hkey : key ∉ a ++ b := by
      rw [List.mem_append, not_or]
      exact ⟨ha, (List.nodup_cons.mp hnodupb).1⟩
    obtain ⟨pinnedIndex, hloop⟩ := cachePositions_eq
      ({ s with data := a ++ b }.cachePinnedIndex key 0) a.length b.length
    have hdata' : s.data.erase key = a ++ b := by
      rw [List.erase_eq_eraseIdx_of_idxOf hindex, herase]
    refine ⟨pinnedIndex, ?_, ?_, ?_, ?_⟩
    · rw [hunpin, hloop, hdata']
      rfl
    · rw [data_unpin, hdata']
      exact hcut
    · -- before the hole nothing changes, behind it the loop writes
      intro other
      rw [data_unpin, hdata', hunpin]
      refine cached_cachePositions hcut fun hother => ?_
      rw [cached_cachePinnedIndex]
      change _ = position (a ++ b) other
      split_ifs with heq
      · rw [heq, position_of_notMem hkey]
      · change s.cached other = _
        rw [h.cached, hdata]
        by_cases hothera : other ∈ a
        · rw [position_append_of_mem hothera, position_append_of_mem hothera]
        · have hotherb : other ∉ b := by
            intro hmem
            obtain ⟨i, hi⟩ := List.getElem?_of_mem hmem
            have hi' := (List.getElem?_eq_some_iff.mp hi).1
            apply hother (a.length + i) (by omega) (by omega)
            change (a ++ b)[a.length + i]? = _
            rw [List.getElem?_append_right (by omega), Nat.add_sub_cancel_left, hi]
          rw [position_of_notMem (by simp [hothera, hotherb, heq]),
            position_of_notMem (by simp [hothera, hotherb])]
    · rw [hunpin, hloop]
      exact h.limit
  · have hsame : s.unpin key = s := by
      unfold PinnedList.unpin
      exact if_neg fun hlt => hmem (List.idxOf_lt_length_iff.mp hlt)
    refine ⟨s.pinnedIndex, ?_, hsame.symm ▸ h⟩
    rw [hsame, List.erase_of_not_mem hmem]

theorem erase_getLast {data : List Key} (hnodup : data.Nodup) {back : Key}
    (h : data.getLast? = some back) : data.erase back = data.take (data.length - 1) := by
  obtain ⟨front, rfl⟩ := List.getLast?_eq_some_iff.mp h
  have hnot : back ∉ front := fun hmem =>
    (List.nodup_append.mp hnodup).2.2 back hmem back List.mem_cons_self rfl
  rw [List.erase_append_right _ hnot]
  simp

/-- Only the end is dropped. -/
theorem Kept.applyLimit {s t : PinnedList} {limit : ℕ} (h : Kept s)
    (ht : s.applyLimit limit = some t) :
    Kept t ∧ t.data = s.data.take limit ∧ t.limit = s.limit := by
  fun_induction PinnedList.applyLimit s limit with
  | case1 s back hback hlimit hknown ih =>
    obtain ⟨pinnedIndex, hunpin, hkept⟩ := h.unpin back
    obtain ⟨hkept', hdata, hlimit'⟩ := ih hkept ht
    refine ⟨hkept', ?_, hlimit'.trans (hunpin ▸ rfl)⟩
    rw [hdata, data_unpin, erase_getLast h.nodup hback, List.take_take]
    congr 1
    omega
  | case2 => exact nomatch ht
  | case3 s back hback hlimit =>
    obtain rfl := Option.some.inj ht
    exact ⟨h, (List.take_of_length_le (by omega)).symm, rfl⟩
  | case4 s hback =>
    obtain rfl := Option.some.inj ht
    rw [List.getLast?_eq_none_iff.mp hback, List.take_nil]
    exact ⟨h, rfl, rfl⟩

theorem position_append_singleton {data : List Key} {key other : Key} (hkey : key ∉ data) :
    position (data ++ [key]) other =
      if other = key then data.length + 1 else position data other := by
  split_ifs with heq
  · rw [heq, position, if_pos (by simp), List.idxOf_append_of_notMem hkey]
    simp
  · by_cases hmem : other ∈ data
    · rw [position_append_of_mem hmem, position, if_pos hmem]
    · rw [position_of_notMem hmem, position_of_notMem (by simp [hmem, heq])]

/-- A key that is not there yet goes behind those that fit in the limit with it. -/
def withKey (s : PinnedList) (key : Key) : List Key :=
  if key ∈ s.data then s.data else s.data.take (s.limit - 1) ++ [key]

theorem Kept.addPinnedGetPosition {s t : PinnedList} {key : Key} {index : ℕ} (h : Kept s)
    (ht : s.addPinnedGetPosition key = some (t, index)) :
    Kept t ∧ t.data = s.withKey key ∧ t.limit = s.limit ∧ key ∈ t.data ∧
      index = t.data.idxOf key := by
  unfold PinnedList.addPinnedGetPosition at ht
  dsimp only at ht
  split_ifs at ht with halready
  · obtain ⟨rfl, rfl⟩ := Prod.mk.inj (Option.some.inj ht)
    have hmem := List.idxOf_lt_length_iff.mp halready
    exact ⟨h, (if_pos hmem).symm, rfl, hmem, rfl⟩
  · have hmem : key ∉ s.data := fun hmem => halready (List.idxOf_lt_length_iff.mpr hmem)
    obtain ⟨cut, hcut, heq⟩ := Option.map_eq_some_iff.mp ht
    obtain ⟨rfl, rfl⟩ := Prod.mk.inj heq
    obtain ⟨hkept, hdata, hlimit⟩ := h.applyLimit hcut
    have hkey : key ∉ cut.data := fun hmem' => hmem (List.mem_of_mem_take (hdata ▸ hmem'))
    have hindex : (cut.data ++ [key]).idxOf key = cut.data.length := by
      rw [List.idxOf_append_of_notMem hkey]
      simp
    refine ⟨⟨?_, fun other => ?_, hkept.limit⟩, ?_, hlimit, by simp, hindex.symm⟩
    · exact List.nodup_append.mpr ⟨hkept.nodup, List.nodup_singleton _, fun a ha b hb heq =>
        hkey (List.mem_singleton.mp hb ▸ heq ▸ ha)⟩
    · rw [cached_cachePinnedIndex]
      change _ = position (cut.data ++ [key]) other
      rw [position_append_singleton hkey]
      split_ifs with heq
      · rfl
      · exact hkept.cached other
    · rw [withKey, if_neg hmem, ← hdata]
      rfl

theorem Kept.addPinned {s t : PinnedList} {key : Key} (h : Kept s)
    (ht : s.addPinned key = some t) : Kept t ∧ t.data = s.withKey key ∧ t.limit = s.limit := by
  unfold PinnedList.addPinned at ht
  split_ifs at ht
  obtain ⟨⟨added, index⟩, hadded, rfl⟩ := Option.map_eq_some_iff.mp ht
  obtain ⟨hkept, hdata, hlimit, -⟩ := h.addPinnedGetPosition hadded
  exact ⟨hkept, hdata, hlimit⟩

/-- The key comes first and the others keep their order. -/
theorem Kept.setPinned {s t : PinnedList} {key : Key} (h : Kept s)
    (ht : s.setPinned key true = some t) :
    Kept t ∧ t.data = key :: (s.withKey key).erase key ∧ t.limit = s.limit := by
  unfold PinnedList.setPinned at ht
  simp only [if_true] at ht
  split_ifs at ht
  obtain ⟨⟨added, index⟩, hadded, hmoved⟩ := Option.map_eq_some_iff.mp ht
  obtain ⟨hkept, hdata, hlimit, hmem, hindex⟩ := h.addPinnedGetPosition hadded
  obtain ⟨a, b, hsplit⟩ := List.append_of_mem hmem
  have hnodup := hsplit ▸ hkept.nodup
  have ha : key ∉ a := fun hkey =>
    (List.nodup_append.mp hnodup).2.2 key hkey key List.mem_cons_self rfl
  have hlength : index = a.length := by
    rw [hindex, hsplit, List.idxOf_append_of_notMem ha, List.idxOf_cons_self, Nat.add_zero]
  have herase : added.data.erase key = a ++ b := by
    rw [hsplit, List.erase_append_right _ ha, List.erase_cons_head]
  rw [← hdata, herase, ← hlimit]
  dsimp only at hmoved
  split_ifs at hmoved with hfirst
  rotate_left
  · obtain rfl := List.length_eq_zero_iff.mp (hlength.symm.trans (not_not.mp hfirst))
    rw [← hmoved]
    exact ⟨hkept, hsplit, rfl⟩
  · have hrotated : Base.rotateSegment added.data 0 index (index + 1) = key :: (a ++ b) := by
      have hlast := Base.rotateSegment_last [] a b key
      rw [hsplit, hlength]
      simpa using hlast
    rw [hrotated] at hmoved
    have hperm : (key :: (a ++ b)).Perm added.data := hsplit ▸ List.perm_middle.symm
    have hfirstNodup : (key :: (a ++ b)).Nodup := hperm.nodup_iff.mpr hkept.nodup
    obtain ⟨pinnedIndex, hloop⟩ := cachePositions_eq
      { added with data := key :: (a ++ b) } 0 (index + 1)
    refine ⟨⟨?_, fun other => ?_, ?_⟩, ?_, ?_⟩
    · rw [← hmoved, data_cachePositions]
      exact hfirstNodup
    · rw [← hmoved, data_cachePositions]
      refine cached_cachePositions hfirstNodup fun hother => ?_
      change added.cached other = position (key :: a ++ b) other
      have hnot : other ∉ key :: a := by
        intro hmem
        obtain ⟨i, hi⟩ := List.getElem?_of_mem hmem
        have hi' := (List.getElem?_eq_some_iff.mp hi).1
        rw [List.length_cons] at hi'
        apply hother i (Nat.zero_le i) (by omega)
        change (key :: a ++ b)[i]? = some other
        rw [List.getElem?_append_left (by simpa using hi'), hi]
      have hkey : other ≠ key := fun heq => hnot (heq ▸ List.mem_cons_self)
      have hothera : other ∉ a := fun hmem => hnot (List.mem_cons_of_mem _ hmem)
      rw [hkept.cached, hsplit]
      by_cases hotherb : other ∈ b
      · rw [position, position, if_pos (by simp [hotherb]), if_pos (by simp [hotherb]),
          List.idxOf_append_of_notMem hothera, List.idxOf_append_of_notMem hnot,
          List.idxOf_cons_ne _ hkey.symm, List.length_cons]
        omega
      · rw [position_of_notMem (by simp [hothera, hotherb, hkey]),
          position_of_notMem (by simp [hothera, hotherb, hkey])]
    · rw [← hmoved, hloop]
      exact hkept.limit
    · rw [← hmoved, data_cachePositions]
    · rw [← hmoved, hloop]

theorem Kept.clear {s t : PinnedList} (h : Kept s) (ht : s.clear = some t) :
    Kept t ∧ t.data = [] ∧ t.limit = s.limit := h.applyLimit ht

theorem Kept.setLimit {s t : PinnedList} {limit : ℕ} (h : Kept s)
    (ht : s.setLimit limit = some t) :
    Kept t ∧ t.data = (if s.limit = limit then s.data else s.data.take limit) ∧
      t.limit = limit := by
  unfold PinnedList.setLimit at ht
  split_ifs at ht with hpos hsame
  · obtain rfl := Option.some.inj ht
    exact ⟨h, (if_pos hsame).symm, hsame⟩
  · rw [if_neg hsame]
    exact Kept.applyLimit (s := { s with limit }) ⟨h.nodup, h.cached, hpos⟩ ht

theorem length_withKey_le {s : PinnedList} (h : Kept s) (hsize : s.data.length ≤ s.limit)
    (key : Key) : (s.withKey key).length ≤ s.limit := by
  have hlimit := h.limit
  unfold withKey
  split_ifs
  · exact hsize
  · rw [List.length_append, List.length_take, List.length_singleton]
    omega

theorem Kept.addKeys {keys : List (Option Key)} {s t : PinnedList} (h : Kept s)
    (hsize : s.data.length ≤ s.limit)
    (ht : keys.foldlM (fun s key => key.bind s.addPinned) s = some t) :
    Kept t ∧ t.data.length ≤ t.limit ∧ t.limit = s.limit := by
  induction keys generalizing s with
  | nil =>
    obtain rfl := Option.some.inj ht
    exact ⟨h, hsize, rfl⟩
  | cons key keys ih =>
    obtain ⟨added, hadded, hrest⟩ := Option.bind_eq_some_iff.mp ht
    obtain ⟨key, -, hadded⟩ := Option.bind_eq_some_iff.mp hadded
    obtain ⟨hkept, hdata, hlimit⟩ := h.addPinned hadded
    have hsize' : added.data.length ≤ added.limit := by
      rw [hdata, hlimit]
      exact length_withKey_le h hsize key
    obtain ⟨hkept', hsize', hlimit'⟩ := ih hkept hsize' hrest
    exact ⟨hkept', hsize', hlimit'.trans hlimit⟩

theorem Kept.applyKeys {keys : List (Option Key)} {s t : PinnedList} (h : Kept s)
    (ht : s.applyKeys keys = some t) : Kept t ∧ t.data.length ≤ t.limit := by
  obtain ⟨cleared, hcleared, hkeys⟩ := Option.bind_eq_some_iff.mp ht
  obtain ⟨hkept, hdata, -⟩ := h.clear hcleared
  have hsize : cleared.data.length ≤ cleared.limit := by simp [hdata]
  obtain ⟨hkept', hsize', -⟩ := hkept.addKeys hsize hkeys
  exact ⟨hkept', hsize'⟩

/-- Writing positions leaves the keys that are not in the list. -/
theorem cached_cachePositions_of_notMem {s : PinnedList} {key : Key} (h : key ∉ s.data)
    (first count : ℕ) : (s.cachePositions first count).cached key = s.cached key := by
  induction count generalizing s first with
  | zero => rfl
  | succ count ih =>
    rw [cachePositions, ih ((data_cacheAt s first).symm ▸ h)]
    unfold cacheAt
    split
    · next other hother =>
      have hne : key ≠ other := by
        rintro rfl
        exact h (List.mem_of_getElem? hother)
      rw [cached_cachePinnedIndex, if_neg hne]
    · rfl

/-- The loop over the old list forgets the keys that the new one does not have. -/
theorem forget_eq (old : List Key) (t : PinnedList) :
    ∃ pinnedIndex, (old.foldl (fun t key =>
        if !key.isHistory || !decide (key ∈ t.data) then t.cachePinnedIndex key 0 else t) t) =
      { t with pinnedIndex } ∧
      ∀ key, pinnedIndex key t.filterId =
        if key ∈ old ∧ (key.isHistory = false ∨ key ∉ t.data) then 0 else t.cached key := by
  induction old generalizing t with
  | nil => exact ⟨t.pinnedIndex, rfl, fun key => by simp [cached]⟩
  | cons first old ih =>
    rw [List.foldl_cons]
    split_ifs with hgone
    · obtain ⟨pinnedIndex, hrest, hcached⟩ := ih (t.cachePinnedIndex first 0)
      refine ⟨pinnedIndex, hrest, fun key => (hcached key).trans ?_⟩
      rw [cached_cachePinnedIndex, data_cachePinnedIndex]
      by_cases hkey : key = first
      · subst hkey
        simp [show key.isHistory = false ∨ key ∉ t.data by simpa using hgone]
      · simp [hkey]
    · obtain ⟨pinnedIndex, hrest, hcached⟩ := ih t
      refine ⟨pinnedIndex, hrest, fun key => (hcached key).trans ?_⟩
      by_cases hkey : key = first
      · subst hkey
        have hstays : ¬(key.isHistory = false ∨ key ∉ t.data) := by simpa using hgone
        simp [hstays]
      · simp [hkey]

theorem Kept.applyHistories {s t : PinnedList} {list : List ℕ} (h : Kept s)
    (hlist : list.Nodup) (ht : s.applyHistories list = some t) :
    Kept t ∧ t.data = list.map Key.history ∧ t.limit = s.limit := by
  unfold PinnedList.applyHistories at ht
  dsimp only at ht
  split_ifs at ht
  have hnodup : (list.map Key.history).Nodup :=
    hlist.map fun a b heq => Key.history.inj heq
  let taken : PinnedList := { s with data := list.map Key.history }
  obtain ⟨filledIndex, hfilled⟩ := cachePositions_eq taken 0 list.length
  obtain ⟨pinnedIndex, hrest, hcached⟩ :=
    forget_eq s.data (taken.cachePositions 0 list.length)
  obtain rfl := (Option.some.inj ht).symm.trans hrest
  have hdata : (taken.cachePositions 0 list.length).data = list.map Key.history :=
    data_cachePositions taken 0 list.length
  refine ⟨⟨hdata.symm ▸ hnodup, fun key => (hcached key).trans ?_, ?_⟩, hdata, ?_⟩
  · change _ = position (taken.cachePositions 0 list.length).data key
    rw [hdata]
    by_cases hmem : key ∈ list.map Key.history
    · have hhistory : key.isHistory = true := by
        obtain ⟨peer, -, rfl⟩ := List.mem_map.mp hmem
        rfl
      rw [if_neg (by simp [hmem, hhistory])]
      refine cached_cachePositions (s := taken) hnodup fun houtside => ?_
      obtain ⟨i, hi⟩ := List.getElem?_of_mem hmem
      have hlt := (List.getElem?_eq_some_iff.mp hi).1
      rw [List.length_map] at hlt
      exact absurd hi (houtside i (Nat.zero_le i) (by omega))
    · rw [position_of_notMem hmem, cached_cachePositions_of_notMem (s := taken) hmem]
      change (if _ then 0 else s.cached key) = 0
      rw [h.cached, position]
      split_ifs with hold hwas
      · rfl
      · exact absurd ⟨hwas, Or.inr hmem⟩ hold
      · rfl
  · change 0 < (taken.cachePositions 0 list.length).limit
    rw [hfilled]
    exact h.limit
  · change (taken.cachePositions 0 list.length).limit = s.limit
    rw [hfilled]

/-- Two keys of a list without repetitions change places. -/
theorem set_set_eq_map {data : List Key} (hnodup : data.Nodup) {i j : ℕ} {key1 key2 : Key}
    (hi : data[i]? = some key1) (hj : data[j]? = some key2) :
    (data.set i key2).set j key1 = data.map (Equiv.swap key1 key2) := by
  apply List.ext_getElem?
  intro m
  obtain ⟨hil, rfl⟩ := List.getElem?_eq_some_iff.mp hi
  obtain ⟨hjl, rfl⟩ := List.getElem?_eq_some_iff.mp hj
  rw [List.getElem?_map]
  rcases eq_or_ne j m with rfl | hjm
  · rw [List.getElem?_set_self (by simpa using hjl), hj, Option.map_some, Equiv.swap_apply_right]
  rw [List.getElem?_set_ne hjm]
  rcases eq_or_ne i m with rfl | him
  · rw [List.getElem?_set_self hil, hi, Option.map_some, Equiv.swap_apply_left]
  rw [List.getElem?_set_ne him]
  rcases Nat.lt_or_ge m data.length with hm | hm
  · have hswap : Equiv.swap data[i] data[j] data[m] = data[m] := by
      apply Equiv.swap_apply_of_ne_of_ne
      · exact fun heq => him ((hnodup.getElem_inj_iff).mp heq).symm
      · exact fun heq => hjm ((hnodup.getElem_inj_iff).mp heq).symm
    rw [List.getElem?_eq_getElem hm, Option.map_some, hswap]
  · rw [List.getElem?_eq_none hm]
    rfl

theorem Kept.reorder {s t : PinnedList} {key1 key2 : Key} (h : Kept s)
    (ht : s.reorder key1 key2 = some t) :
    Kept t ∧ t.data = s.data.map (Equiv.swap key1 key2) ∧ t.limit = s.limit := by
  unfold PinnedList.reorder at ht
  dsimp only at ht
  split_ifs at ht with hindexes
  obtain ⟨hlt1, hlt2, hne⟩ := hindexes
  obtain rfl := Option.some.inj ht
  have hget1 : s.data[s.data.idxOf key1]? = some key1 :=
    List.getElem?_idxOf (List.idxOf_lt_length_iff.mp hlt1)
  have hget2 : s.data[s.data.idxOf key2]? = some key2 :=
    List.getElem?_idxOf (List.idxOf_lt_length_iff.mp hlt2)
  have hmap := set_set_eq_map h.nodup hget1 hget2
  have hnodup : (s.data.map (Equiv.swap key1 key2)).Nodup :=
    h.nodup.map (Equiv.swap key1 key2).injective
  have hswapped : ∀ i key, s.data[i]? = some key →
      position (s.data.map (Equiv.swap key1 key2)) (Equiv.swap key1 key2 key) = i + 1 := by
    intro i key hget
    apply position_getElem hnodup
    rw [List.getElem?_map, hget, Option.map_some]
  refine ⟨⟨hmap.symm ▸ hnodup, fun key => ?_, h.limit⟩, hmap, rfl⟩
  -- the two indices are exchanged, and the list is that of the exchanged keys
  rw [cached_cachePinnedIndex, cached_cachePinnedIndex]
  change _ = position ((s.data.set (s.data.idxOf key1) key2).set (s.data.idxOf key2) key1) key
  rw [hmap]
  split_ifs with hkey2 hkey1
  · have hfirst := hswapped _ _ hget1
    rw [Equiv.swap_apply_left] at hfirst
    rw [hkey2, hfirst]
  · have hsecond := hswapped _ _ hget2
    rw [Equiv.swap_apply_right] at hsecond
    rw [hkey1, hsecond]
  · change s.cached key = _
    rw [h.cached]
    have hfixed := Equiv.swap_apply_of_ne_of_ne hkey1 hkey2
    by_cases hmem : key ∈ s.data
    · obtain ⟨i, hi⟩ := List.getElem?_of_mem hmem
      have := hswapped i key hi
      rw [hfixed] at this
      rw [position_getElem h.nodup hi, this]
    · rw [position_of_notMem hmem, position_of_notMem]
      rintro hmem'
      obtain ⟨other, hother, heq⟩ := List.mem_map.mp hmem'
      rw [← hfixed] at heq
      exact hmem ((Equiv.swap key1 key2).injective heq ▸ hother)

theorem setPinned_false {s t : PinnedList} {key : Key} (h : s.setPinned key false = some t) :
    t = s.unpin key := by
  unfold PinnedList.setPinned at h
  simp only [Bool.false_eq_true, if_false] at h
  split_ifs at h
  exact (Option.some.inj h).symm

theorem Kept.step {s t : PinnedList} (h : Kept s) {op : Op} (ht : s.step op = some t) :
    Kept t := by
  cases op with
  | setLimit limit => exact (h.setLimit ht).1
  | addPinned key => exact (h.addPinned ht).1
  | setPinned key pinned =>
    cases pinned with
    | true => exact (h.setPinned ht).1
    | false =>
      obtain ⟨-, -, hkept⟩ := h.unpin key
      exact setPinned_false ht ▸ hkept
  | clear => exact (h.clear ht).1
  | applyDialogs list => exact (h.applyKeys ht).1
  | applySublists list => exact (h.applyKeys ht).1
  | applyTopics known list => exact (h.applyKeys ht).1
  | applyHistories list nodup => exact (h.applyHistories nodup ht).1
  | reorder key1 key2 => exact (h.reorder ht).1
  | folderKnown known => exact Option.some.inj ht ▸ ⟨h.nodup, h.cached, h.limit⟩

def Op.isHistories : Op → Bool
  | .applyHistories _ _ => true
  | _ => false

/-- Every other operation keeps to the limit. -/
theorem Kept.step_size {s t : PinnedList} (h : Kept s) {op : Op} (hop : op.isHistories = false)
    (ht : s.step op = some t) (hsize : s.data.length ≤ s.limit) : t.data.length ≤ t.limit := by
  cases op with
  | setLimit limit =>
    obtain ⟨-, hdata, hlimit⟩ := h.setLimit ht
    rw [hdata, hlimit]
    split_ifs with hsame
    · exact hsame ▸ hsize
    · exact List.length_take_le ..
  | addPinned key =>
    obtain ⟨-, hdata, hlimit⟩ := h.addPinned ht
    rw [hdata, hlimit]
    exact length_withKey_le h hsize key
  | setPinned key pinned =>
    cases pinned with
    | true =>
      obtain ⟨-, hdata, hlimit⟩ := h.setPinned ht
      have hmem : key ∈ s.withKey key := by
        unfold withKey
        split_ifs with hmem
        · exact hmem
        · simp
      rw [hdata, hlimit, List.length_cons, List.length_erase_of_mem hmem]
      have hpos := List.length_pos_of_mem hmem
      have hle := length_withKey_le h hsize key
      omega
    | false =>
      obtain ⟨pinnedIndex, hunpin, -⟩ := h.unpin key
      obtain rfl := (setPinned_false ht).trans hunpin
      exact (List.length_erase_le ..).trans hsize
  | clear => simp [(h.clear ht).2.1]
  | applyDialogs list => exact (h.applyKeys ht).2
  | applySublists list => exact (h.applyKeys ht).2
  | applyTopics known list => exact (h.applyKeys ht).2
  | applyHistories list nodup => exact nomatch hop
  | reorder key1 key2 =>
    obtain ⟨-, hdata, hlimit⟩ := h.reorder ht
    rw [hdata, hlimit, List.length_map]
    exact hsize
  | folderKnown known => exact Option.some.inj ht ▸ hsize

theorem Kept.run {ops : List Op} {s t : PinnedList} (h : Kept s) (ht : s.run ops = some t) :
    Kept t := by
  induction ops generalizing s with
  | nil => exact Option.some.inj ht ▸ h
  | cons op ops ih =>
    obtain ⟨next, hnext, hrest⟩ := Option.bind_eq_some_iff.mp ht
    exact ih (h.step hnext) hrest

theorem Kept.run_size {ops : List Op} {s t : PinnedList} (h : Kept s)
    (hops : ∀ op ∈ ops, op.isHistories = false) (ht : s.run ops = some t)
    (hsize : s.data.length ≤ s.limit) : t.data.length ≤ t.limit := by
  induction ops generalizing s with
  | nil => exact Option.some.inj ht ▸ hsize
  | cons op ops ih =>
    obtain ⟨next, hnext, hrest⟩ := Option.bind_eq_some_iff.mp ht
    exact ih (h.step hnext) (fun op hop => hops op (List.mem_cons_of_mem _ hop)) hrest
      (h.step_size (hops op List.mem_cons_self) hnext hsize)

def start (filterId limit : ℕ) (folderKnown : Key → Bool) : PinnedList :=
  { filterId, limit, folderKnown }

theorem Kept.start {filterId limit : ℕ} {folderKnown : Key → Bool} (h : 0 < limit) :
    Kept (start filterId limit folderKnown) := ⟨List.nodup_nil, fun _ => rfl, h⟩

/-- In every run the keys do not repeat and each entry caches its place; a pinned key goes first,
and only histories that are applied as a whole may go over the limit. -/
theorem pinned_agree {filterId limit : ℕ} {folderKnown : Key → Bool} (hlimit : 0 < limit)
    {ops : List Op} {s : PinnedList} (h : (start filterId limit folderKnown).run ops = some s) :
    s.data.Nodup ∧
    (∀ key, s.cached key = if key ∈ s.data then s.data.idxOf key + 1 else 0) ∧
    (∀ key t, s.setPinned key true = some t →
      t.data = key ::
        if key ∈ s.data then s.data.erase key else s.data.take (s.limit - 1)) ∧
    (∀ ops' t, (∀ op ∈ ops', op.isHistories = false) → s.run ops' = some t →
      s.data.length ≤ s.limit → t.data.length ≤ t.limit) ∧
    ((∀ op ∈ ops, op.isHistories = false) → s.data.length ≤ s.limit) := by
  have hs := (Kept.start hlimit).run h
  refine ⟨hs.nodup, hs.cached, ?_, ?_, ?_⟩
  · intro key t ht
    obtain ⟨-, hdata, -⟩ := hs.setPinned ht
    rw [hdata, withKey]
    split_ifs with hmem
    · rfl
    · have hnot : key ∉ s.data.take (s.limit - 1) := fun h => hmem (List.mem_of_mem_take h)
      rw [List.erase_append_right _ hnot]
      simp
  · intro ops' t hops ht hsize
    exact hs.run_size hops ht hsize
  · intro hops
    exact (Kept.start hlimit).run_size hops h (Nat.zero_le _)

/-- An order from another device, over the limit; then a key goes up, two change places and one
is taken out. -/
theorem pinned_agree_histories : ∃ s, (start 1 2 fun _ => true).run
      [.applyHistories [4, 3, 2, 1] (by decide), .setPinned (.history 2) true,
        .reorder (.history 1) (.history 4), .setPinned (.history 3) false] = some s ∧
    s.data = [.history 2, .history 1, .history 4] ∧ s.data.Nodup ∧
    ∀ key, s.cached key = if key ∈ s.data then s.data.idxOf key + 1 else 0 := by
  have hrun : ∃ s, (start 1 2 fun _ => true).run
      [.applyHistories [4, 3, 2, 1] (by decide), .setPinned (.history 2) true,
        .reorder (.history 1) (.history 4), .setPinned (.history 3) false] = some s ∧
      s.data = [.history 2, .history 1, .history 4] := ⟨_, rfl, by decide⟩
  obtain ⟨s, h, hdata⟩ := hrun
  obtain ⟨hnodup, hcached, -⟩ := pinned_agree (by decide) h
  exact ⟨s, h, hdata, hnodup, hcached⟩

end PinnedList

end TelegramDesktop.Dialogs
