import Mathlib
import TelegramDesktop.Base.FlatSet
import TelegramDesktop.Dialogs.RowList

/-! The list of chats with a list for each first letter, and the search by words in it. Which row
takes the place of a removed one, and the links that entries keep, are left out. -/

namespace TelegramDesktop.Dialogs

open Base

/-- `chatListNameWords` and `chatListFirstLetters` of an entry. -/
structure EntryNames (C : Type*) [LinearOrder C] where
  nameWords : FlatSet (List C)
  firstLetters : FlatSet C

/-- `PeerData::fillNames`, from the words that it prepares. -/
def fillNames {C : Type*} [LinearOrder C] (namesList : List (List C)) : EntryNames C where
  nameWords := FlatSet.ofList namesList
  firstLetters := FlatSet.ofList (namesList.filterMap List.head?)

/-- `narrowRatio` is the one that a list is created with. -/
structure IndexedList (K C ρ : Type*) where
  sortMode : SortMode
  narrowRatio : ρ
  list : RowList K ρ
  index : C → Option (RowList K ρ) := fun _ => none

variable {K C N ρ : Type*} [DecidableEq K] [LinearOrder C] [LinearOrder N]

namespace IndexedList

def created (sortMode : SortMode) (narrowRatio : ρ) : IndexedList K C ρ where
  sortMode := sortMode
  narrowRatio := narrowRatio
  list := { sortMode := sortMode, narrowRatio := narrowRatio }

/-- What `_index.emplace` puts in for a letter. -/
def emptyList (s : IndexedList K C ρ) : RowList K ρ :=
  { sortMode := s.sortMode, narrowRatio := s.narrowRatio }

/-- A call to the list of a letter, where `fresh` is put in if there is none. -/
def editLetter (fresh : Option (RowList K ρ)) (f : RowList K ρ → RowList K ρ)
    (index : C → Option (RowList K ρ)) (ch : C) : C → Option (RowList K ρ) :=
  match (index ch).or fresh with
  | none => index
  | some list => Function.update index ch (some (f list))

/-- The same call to the lists of letters that have one. -/
def editFound (s : IndexedList K C ρ) (letters : List C) (f : RowList K ρ → RowList K ρ) :
    IndexedList K C ρ :=
  { s with index := letters.foldl (editLetter none f) s.index }

def editEmplaced (s : IndexedList K C ρ) (letters : List C) (f : RowList K ρ → RowList K ρ) :
    IndexedList K C ρ :=
  { s with index := letters.foldl (editLetter (some s.emptyList) f) s.index }

def addToEnd (s : IndexedList K C ρ) (e : Entries K N ρ) (names : K → EntryNames C) (key : K) :
    IndexedList K C ρ :=
  match s.list.getRow key with
  | some _ => s
  | none =>
    { s with list := s.list.addToEnd e key }.editEmplaced (names key).firstLetters.elems
      fun list => list.addToEnd e key

def addByName (s : IndexedList K C ρ) (e : Entries K N ρ) (names : K → EntryNames C) (key : K) :
    IndexedList K C ρ :=
  match s.list.getRow key with
  | some _ => s
  | none =>
    { s with list := s.list.addByName e key }.editEmplaced (names key).firstLetters.elems
      fun list => list.addByName e key

/-- `letters` are those of the links. -/
def adjustByDate (s : IndexedList K C ρ) (e : Entries K N ρ) (key : K) (letters : List C) :
    IndexedList K C ρ :=
  { s with list := s.list.adjustByDate e key }.editFound letters fun list => list.adjustByDate e key

def moveToTop (s : IndexedList K C ρ) (names : K → EntryNames C) (key : K) : IndexedList K C ρ :=
  match s.list.getRow key with
  | none => s
  | some _ =>
    { s with list := s.list.moveToTop key }.editFound (names key).firstLetters.elems
      fun list => list.moveToTop key

/-- What the loop over the letters leaves in `toRemove`. -/
def toRemove (oldLetters letters : FlatSet C) : List C :=
  oldLetters.elems.filter fun ch => ch ∉ letters

def toAdd (oldLetters letters : FlatSet C) : List C :=
  letters.elems.filter fun ch => ch ∉ oldLetters

def inBoth (oldLetters letters : FlatSet C) : List C :=
  letters.elems.filter fun ch => ch ∈ oldLetters

def adjustByName (s : IndexedList K C ρ) (e : Entries K N ρ) (names : K → EntryNames C) (key : K)
    (oldLetters : FlatSet C) : IndexedList K C ρ :=
  match s.list.getRow key with
  | none => s
  | some _ =>
    let letters := (names key).firstLetters
    -- letters of both names keep the row, the old ones lose it, the new ones get it
    let s := { s with list := s.list.adjustByName e key }
    let s := s.editFound (inBoth oldLetters letters) fun list => list.adjustByName e key
    let s := s.editFound (toRemove oldLetters letters) fun list => list.remove key
    s.editEmplaced (toAdd oldLetters letters) fun list => list.addByName e key

def adjustNames (s : IndexedList K C ρ) (e : Entries K N ρ) (names : K → EntryNames C) (key : K)
    (oldLetters : FlatSet C) : IndexedList K C ρ :=
  match s.list.getRow key with
  | none => s
  | some _ =>
    let letters := (names key).firstLetters
    let s := s.editFound (toRemove oldLetters letters) fun list => list.remove key
    s.editEmplaced (toAdd oldLetters letters) fun list => list.addToEnd e key

def peerNameChanged (s : IndexedList K C ρ) (e : Entries K N ρ) (names : K → EntryNames C)
    (key : K) (oldLetters : FlatSet C) : IndexedList K C ρ :=
  if s.sortMode = .name then s.adjustByName e names key oldLetters
  else s.adjustNames e names key oldLetters

def remove (s : IndexedList K C ρ) (names : K → EntryNames C) (key : K) : IndexedList K C ρ :=
  match s.list.getRow key with
  | none => s
  | some _ =>
    { s with list := s.list.remove key }.editFound (names key).firstLetters.elems
      fun list => list.remove key

def clear (s : IndexedList K C ρ) : IndexedList K C ρ :=
  { s with list := s.list.clear, index := fun _ => none }

/-- The loop over the words: the shortest list of their first letters. -/
def minimalOf (s : IndexedList K C ρ) : List (List C) → Option (RowList K ρ) → Option (RowList K ρ)
  | [], result => result
  | [] :: words, result => s.minimalOf words result
  | (ch :: _) :: words, result =>
    match s.index ch with
    | none => none
    | some found =>
      -- a word whose letter has no rows ends the search
      if found.rows.isEmpty then none
      else
        match result with
        | none => s.minimalOf words (some found)
        | some list =>
          s.minimalOf words (some (if list.rows.length > found.rows.length then found else list))

def minimal (s : IndexedList K C ρ) (words : List (List C)) : Option (RowList K ρ) :=
  if s.list.rows.isEmpty then none else s.minimalOf words none

def wordFound (names : EntryNames C) (word : List C) : Bool :=
  names.nameWords.elems.any fun name => word.isPrefixOf name

def filtered (s : IndexedList K C ρ) (names : K → EntryNames C) (words : List (List C)) : List K :=
  match s.minimal words with
  | none => []
  | some list => list.rows.filter fun key => words.all (wordFound (names key))

/-- `peerNameChanged` comes with the words that the entry gets right before it. -/
inductive Op (K C : Type*)
  | addToEnd (key : K)
  | addByName (key : K)
  | adjustByDate (key : K) (letters : List C)
  | moveToTop (key : K)
  | remove (key : K)
  | peerNameChanged (key : K) (namesList : List (List C))
  | clear

/-- A list, and the names of the entries. -/
structure State (K C ρ : Type*) [LinearOrder C] where
  indexed : IndexedList K C ρ
  names : K → EntryNames C

/-- The rows of the links are rows of the lists. -/
def hasRows (s : IndexedList K C ρ) (key : K) (letters : List C) : Bool :=
  (s.list.getRow key).isSome &&
    letters.all fun ch => (s.index ch).all fun list => (list.getRow key).isSome

/-- There is no state after a call when an expectation fails. -/
def step (s : State K C ρ) (e : Entries K N ρ) : Op K C → Option (State K C ρ)
  | .addToEnd key => some { s with indexed := s.indexed.addToEnd e s.names key }
  | .addByName key =>
    if s.indexed.sortMode = .name then some { s with indexed := s.indexed.addByName e s.names key }
    else none
  | .adjustByDate key letters =>
    if s.indexed.sortMode = .date ∧ s.indexed.hasRows key letters then
      some { s with indexed := s.indexed.adjustByDate e key letters }
    else none
  | .moveToTop key => some { s with indexed := s.indexed.moveToTop s.names key }
  | .remove key => some { s with indexed := s.indexed.remove s.names key }
  | .peerNameChanged key namesList =>
    let oldLetters := (s.names key).firstLetters
    let names := Function.update s.names key (fillNames namesList)
    some ⟨s.indexed.peerNameChanged e names key oldLetters, names⟩
  | .clear => some { s with indexed := s.indexed.clear }

/-- Each call finds the sort keys and the heights as they are then. -/
def run (s : State K C ρ) : List (Entries K N ρ × Op K C) → Option (State K C ρ)
  | [] => some s
  | (e, op) :: calls => (step s e op).bind fun s => run s calls

section Rows

variable {list : RowList K ρ}

/-- A row that looks for its place from where it is, in whatever order the others are. -/
theorem adjust_at (h : list.Kept) {a b : List K} {key x : K} (hindex : list.indexOf key = a.length)
    (hrows : list.rows = a ++ x :: b) (ahead behind : K → Bool) :
    (list.adjust key ahead behind).Kept ∧ (list.adjust key ahead behind).rows.Perm list.rows := by
  have hdrop : list.rows.drop (a.length + 1) = b := by
    rw [hrows, ← List.singleton_append, ← List.append_assoc]
    exact List.drop_left' (by simp)
  have htake : list.rows.take a.length = a := by
    rw [hrows, List.take_left]
  obtain ⟨passed, b', hb, hpassed, -, -⟩ := Base.exists_append_findIdx ahead b
  obtain ⟨front, back, ha, hfront, -, -⟩ := Base.exists_append_findIdx behind a.reverse
  have ha' : a = back.reverse ++ front.reverse := by
    rw [← List.reverse_append, ← ha, List.reverse_reverse]
  have hlength : a.length = back.reverse.length + front.reverse.length := by
    rw [ha', List.length_append]
  unfold RowList.adjust
  simp only [hindex, hdrop, htake, hpassed, hfront]
  split_ifs with hforward hbackward
  · have hsplit : list.rows = a ++ [x] ++ passed ++ b' := by
      rw [hrows, hb]
      simp
    obtain ⟨hkept, hrotated⟩ := h.rotate hsplit (by simp)
    rw [List.length_singleton] at hkept hrotated
    refine ⟨hkept, ?_⟩
    rw [hrotated, hsplit]
    exact Base.perm_segments a [x] passed b'
  · have hsplit : list.rows = back.reverse ++ front.reverse ++ [x] ++ b := by
      rw [hrows, ← ha']
      simp
    obtain ⟨hkept, hrotated⟩ := h.rotate hsplit (by simp)
    rw [List.length_singleton, ← hlength] at hkept hrotated
    have hafter : a.length - front.length = back.reverse.length := by
      have hfront' : front.reverse.length = front.length := List.length_reverse
      omega
    rw [hafter]
    refine ⟨hkept, ?_⟩
    rw [hrotated, hsplit]
    exact Base.perm_segments back.reverse front.reverse [x] b
  · exact ⟨h, .refl _⟩

theorem adjust_perm (h : list.Kept) (key : K) (ahead behind : K → Bool) :
    (list.adjust key ahead behind).Kept ∧ (list.adjust key ahead behind).rows.Perm list.rows := by
  by_cases hmem : key ∈ list.rows
  · obtain ⟨a, b, hrows⟩ := List.append_of_mem hmem
    exact adjust_at h (h.indexOf hrows) hrows ahead behind
  · have hnone : list.rowByKey key = none := by
      rw [← Option.not_isSome_iff_eq_none]
      exact fun hsome => hmem (h.registered key hsome)
    have hindex : list.indexOf key = 0 := by
      rw [RowList.indexOf, hnone, Option.elim_none]
    cases hrows : list.rows with
    | nil =>
      have hsame : list.adjust key ahead behind = list := by
        unfold RowList.adjust
        rw [hindex, hrows]
        rfl
      rw [hsame, hrows]
      exact ⟨h, .refl _⟩
    | cons x b =>
      rw [← hrows]
      exact adjust_at (a := []) h hindex hrows ahead behind

/-- A call that keeps a list, and what it makes of its keys. -/
def Edits (f : RowList K ρ → RowList K ρ) (g : K → Prop → Prop) : Prop :=
  ∀ list, list.Kept → (f list).Kept ∧ ∀ key, key ∈ (f list).rows ↔ g key (key ∈ list.rows)

def adds (key : K) (other : K) (was : Prop) : Prop := other = key ∨ was

def removes (key : K) (other : K) (was : Prop) : Prop := other ≠ key ∧ was

def keeps (_ : K) (was : Prop) : Prop := was

omit [LinearOrder N] in
theorem edits_adjustByDate (e : Entries K N ρ) (key : K) :
    Edits (fun list : RowList K ρ => list.adjustByDate e key) keeps := by
  intro list hlist
  obtain ⟨hkept, hperm⟩ := adjust_perm hlist key _ _
  exact ⟨hkept, fun other => hperm.mem_iff⟩

theorem edits_adjustByName (e : Entries K N ρ) (key : K) :
    Edits (fun list : RowList K ρ => list.adjustByName e key) keeps := by
  intro list hlist
  dsimp only
  unfold RowList.adjustByName
  cases list.getRow key with
  | none => exact ⟨hlist, fun other => Iff.rfl⟩
  | some row =>
    obtain ⟨hkept, hperm⟩ := adjust_perm hlist key _ _
    exact ⟨hkept, fun other => hperm.mem_iff⟩

omit [LinearOrder N] in
theorem edits_addToEnd (e : Entries K N ρ) (key : K) :
    Edits (fun list : RowList K ρ => list.addToEnd e key) (adds key) := by
  intro list hlist
  dsimp only
  unfold RowList.addToEnd
  cases hrow : list.getRow key with
  | some row =>
    have hmem : key ∈ list.rows := hlist.registered key (by rw [hrow, Option.isSome_some])
    refine ⟨hlist, fun other => (or_iff_right_of_imp ?_).symm⟩
    rintro rfl
    exact hmem
  | none =>
    have hpushed := hlist.pushBack e (hlist.notMem_of_none hrow)
    have hrows : ∀ other, other ∈ (list.pushBack e key).rows ↔ adds key other (other ∈ list.rows) :=
      fun other => by
        rw [RowList.pushBack, List.mem_append, List.mem_singleton, or_comm]
        rfl
    dsimp only
    split_ifs with hmode
    · obtain ⟨hkept, hmem⟩ := edits_adjustByDate e key _ hpushed
      exact ⟨hkept, fun other => (hmem other).trans (hrows other)⟩
    · exact ⟨hpushed, hrows⟩

theorem edits_addByName (e : Entries K N ρ) (key : K) :
    Edits (fun list : RowList K ρ => list.addByName e key) (adds key) := by
  intro list hlist
  obtain ⟨hadded, hmem⟩ := edits_addToEnd e key list hlist
  obtain ⟨hkept, hmem'⟩ := edits_adjustByName e key _ hadded
  exact ⟨hkept, fun other => (hmem' other).trans (hmem other)⟩

theorem edits_remove (key : K) :
    Edits (fun list : RowList K ρ => list.remove key) (removes key) := by
  intro list hlist
  obtain ⟨hkept, hrows⟩ := hlist.remove key
  refine ⟨hkept, fun other => ?_⟩
  dsimp only
  rw [hrows, hlist.nodup.mem_erase_iff]
  rfl

theorem edits_moveToTop (key : K) : Edits (fun list : RowList K ρ => list.moveToTop key) keeps := by
  intro list hlist
  refine ⟨hlist.moveToTop key, fun other => ?_⟩
  dsimp only
  unfold RowList.moveToTop
  cases hrow : list.getRow key with
  | none => rfl
  | some row =>
    obtain ⟨a, b, hrows⟩ := List.append_of_mem
      (hlist.registered key (by rw [hrow, Option.isSome_some]))
    obtain ⟨height, hrow'⟩ := hlist.getRow hrows
    obtain rfl := Option.some.inj (hrow.symm.trans hrow')
    have hsplit : list.rows = [] ++ a ++ [key] ++ b := by
      rw [hrows]
      simp
    have hrotated := (hlist.rotate hsplit (by simp)).2
    rw [List.length_nil, Nat.zero_add, List.length_singleton] at hrotated
    dsimp only
    rw [hrotated, hsplit]
    exact (Base.perm_segments [] a [key] b).mem_iff

end Rows

variable {s : IndexedList K C ρ} {index : C → Option (RowList K ρ)}

def rowsAt (index : C → Option (RowList K ρ)) (ch : C) : List K := (index ch).elim [] RowList.rows

def AllKept (index : C → Option (RowList K ρ)) : Prop := ∀ ch list, index ch = some list → list.Kept

omit [DecidableEq K] [LinearOrder C] in
theorem nodup_rowsAt (hindex : AllKept index) (ch : C) : (rowsAt index ch).Nodup := by
  unfold rowsAt
  cases hlist : index ch with
  | none => exact .nil
  | some list => exact (hindex ch list hlist).nodup

/-- A list that may be put in for a letter, and what a call makes of the keys then. -/
structure Fits (fresh : Option (RowList K ρ)) (g : K → Prop → Prop) : Prop where
  empty : ∀ list, fresh = some list → list.Kept ∧ list.rows = []
  absent : fresh = none → ∀ key, ¬g key False
  again : ∀ key was, g key (g key was) ↔ g key was
  congr : ∀ key was now, (was ↔ now) → (g key was ↔ g key now)

omit [DecidableEq K] in
theorem editLetter_spec {fresh : Option (RowList K ρ)} {f : RowList K ρ → RowList K ρ}
    {g : K → Prop → Prop} (hf : Edits f g) (hg : Fits fresh g) (hindex : AllKept index) (ch : C) :
    AllKept (editLetter fresh f index ch) ∧
      ∀ other key, key ∈ rowsAt (editLetter fresh f index ch) other ↔
        if other = ch then g key (key ∈ rowsAt index other) else key ∈ rowsAt index other := by
  unfold editLetter
  cases hlist : (index ch).or fresh with
  | none =>
    obtain ⟨hnone, hfresh⟩ := Option.or_eq_none_iff.mp hlist
    refine ⟨hindex, fun other key => ?_⟩
    split_ifs with hother
    · have hnil : rowsAt index other = [] := by
        rw [rowsAt, hother, hnone, Option.elim_none]
      rw [hnil]
      refine iff_of_false List.not_mem_nil ?_
      rw [hg.congr key _ _ (iff_false_intro List.not_mem_nil)]
      exact hg.absent hfresh key
    · rfl
  | some list =>
    have hwas : list.Kept ∧ list.rows = rowsAt index ch := by
      unfold rowsAt
      cases hat : index ch with
      | none =>
        rw [hat, Option.none_or] at hlist
        exact hg.empty list hlist
      | some found =>
        rw [hat, Option.some_or] at hlist
        obtain rfl := Option.some.inj hlist
        exact ⟨hindex ch found hat, rfl⟩
    -- the list is the one of the letter, or the empty one that is put in
    obtain ⟨hkept, hmem⟩ := hf list hwas.1
    dsimp only
    constructor
    · intro other found hfound
      rcases eq_or_ne other ch with rfl | hne
      · rw [Function.update_self] at hfound
        obtain rfl := Option.some.inj hfound
        exact hkept
      · rw [Function.update_of_ne hne] at hfound
        exact hindex other found hfound
    · intro other key
      split_ifs with hother
      · rw [hother, ← hwas.2, ← hmem, rowsAt, Function.update_self, Option.elim_some]
      · rw [rowsAt, Function.update_of_ne hother, rowsAt]

omit [DecidableEq K] in
theorem foldl_editLetter {fresh : Option (RowList K ρ)} {f : RowList K ρ → RowList K ρ}
    {g : K → Prop → Prop} (hf : Edits f g) (hg : Fits fresh g) (hindex : AllKept index)
    (letters : List C) :
    AllKept (letters.foldl (editLetter fresh f) index) ∧
      ∀ ch key, key ∈ rowsAt (letters.foldl (editLetter fresh f) index) ch ↔
        if ch ∈ letters then g key (key ∈ rowsAt index ch) else key ∈ rowsAt index ch := by
  induction letters generalizing index with
  | nil => exact ⟨hindex, fun ch key => by rw [if_neg List.not_mem_nil, List.foldl_nil]⟩
  | cons first letters ih =>
    obtain ⟨hkept, hfirst⟩ := editLetter_spec hf hg hindex first
    obtain ⟨hall, hrest⟩ := ih hkept
    refine ⟨hall, fun ch key => (hrest ch key).trans ?_⟩
    have hch := hfirst ch key
    -- a letter that comes again is edited again, which changes nothing
    by_cases heq : ch = first
    · rw [if_pos heq] at hch
      have hcons : ch ∈ first :: letters := by
        rw [heq]
        exact List.mem_cons_self
      rw [if_pos hcons]
      split_ifs with hmem
      · rw [hg.congr key _ _ hch]
        exact hg.again key _
      · exact hch
    · rw [if_neg heq] at hch
      have hcons : ch ∈ first :: letters ↔ ch ∈ letters := by
        rw [List.mem_cons, or_iff_right heq]
      simp only [hcons]
      split_ifs with hmem
      · exact hg.congr key _ _ hch
      · exact hch

omit [DecidableEq K] in
theorem fits_keeps : Fits (none : Option (RowList K ρ)) keeps where
  empty _ h := nomatch h
  absent _ _ h := h
  again _ _ := Iff.rfl
  congr _ _ _ h := h

omit [DecidableEq K] in
theorem fits_removes (key : K) : Fits (none : Option (RowList K ρ)) (removes key) where
  empty _ h := nomatch h
  absent _ _ h := h.2
  again _ _ := ⟨And.right, fun h => ⟨h.1, h⟩⟩
  congr _ _ _ h := and_congr_right fun _ => h

omit [DecidableEq K] [LinearOrder C] in
theorem fits_adds (s : IndexedList K C ρ) (key : K) : Fits (some s.emptyList) (adds key) where
  empty list h := by
    obtain rfl := Option.some.inj h
    exact ⟨⟨.nil, fun _ h => (nomatch h), trivial⟩, rfl⟩
  absent h := nomatch h
  again _ _ := ⟨fun h => h.elim .inl id, .inr⟩
  congr _ _ _ h := or_congr_right h

/-- Each list of a letter has the keys whose entry has that first letter. -/
structure Indexed (s : IndexedList K C ρ) (names : K → EntryNames C) : Prop where
  list : s.list.Kept
  lists : AllKept s.index
  mem : ∀ ch key, key ∈ rowsAt s.index ch ↔ key ∈ s.list.rows ∧ ch ∈ (names key).firstLetters

variable {names : K → EntryNames C}

omit [DecidableEq K] in
theorem indexed_created (sortMode : SortMode) (narrowRatio : ρ) (names : K → EntryNames C) :
    Indexed (created sortMode narrowRatio) names where
  list := ⟨.nil, fun _ h => (nomatch h), trivial⟩
  lists _ _ h := nomatch h
  mem _ _ := iff_of_false List.not_mem_nil fun h => List.not_mem_nil h.1

omit [DecidableEq K] in
theorem Indexed.clear (s : IndexedList K C ρ) (names : K → EntryNames C) :
    Indexed s.clear names where
  list := .clear s.list
  lists _ _ h := nomatch h
  mem _ _ := iff_of_false List.not_mem_nil fun h => List.not_mem_nil h.1

/-- A call that adds the key to the main list and to the lists of its letters. -/
theorem Indexed.adds (hs : Indexed s names) {f : RowList K ρ → RowList K ρ} {key : K}
    (hf : Edits f (adds key)) :
    Indexed ({ s with list := f s.list }.editEmplaced (names key).firstLetters.elems f) names := by
  obtain ⟨hlist, hrows⟩ := hf s.list hs.list
  obtain ⟨hlists, hmem⟩ := foldl_editLetter hf (fits_adds s key) hs.lists
    (names key).firstLetters.elems
  refine ⟨hlist, hlists, fun ch other => (hmem ch other).trans ?_⟩
  show _ ↔ other ∈ (f s.list).rows ∧ _
  simp only [hrows, hs.mem, FlatSet.mem_elems]
  unfold IndexedList.adds
  by_cases hother : other = key
  · subst hother
    split_ifs with hch
    · simp [hch]
    · simp [hch]
  · split_ifs
    · simp [hother]
    · simp [hother]

omit [DecidableEq K] in
/-- A call that moves rows of the main list and of some others. -/
theorem Indexed.keeps (hs : Indexed s names) {f : RowList K ρ → RowList K ρ}
    (hf : Edits f keeps) (letters : List C) :
    Indexed ({ s with list := f s.list }.editFound letters f) names := by
  obtain ⟨hlist, hrows⟩ := hf s.list hs.list
  obtain ⟨hlists, hmem⟩ := foldl_editLetter hf fits_keeps hs.lists letters
  refine ⟨hlist, hlists, fun ch other => (hmem ch other).trans ?_⟩
  show _ ↔ other ∈ (f s.list).rows ∧ _
  rw [hrows]
  unfold IndexedList.keeps
  rw [ite_self]
  exact hs.mem ch other

omit [LinearOrder N] in
theorem Indexed.addToEnd (hs : Indexed s names) (e : Entries K N ρ) (key : K) :
    Indexed (s.addToEnd e names key) names := by
  unfold IndexedList.addToEnd
  cases s.list.getRow key with
  | some row => exact hs
  | none => exact hs.adds (edits_addToEnd e key)

theorem Indexed.addByName (hs : Indexed s names) (e : Entries K N ρ) (key : K) :
    Indexed (s.addByName e names key) names := by
  unfold IndexedList.addByName
  cases s.list.getRow key with
  | some row => exact hs
  | none => exact hs.adds (edits_addByName e key)

omit [LinearOrder N] in
theorem Indexed.adjustByDate (hs : Indexed s names) (e : Entries K N ρ) (key : K)
    (letters : List C) : Indexed (s.adjustByDate e key letters) names :=
  hs.keeps (edits_adjustByDate e key) letters

theorem Indexed.moveToTop (hs : Indexed s names) (key : K) :
    Indexed (s.moveToTop names key) names := by
  unfold IndexedList.moveToTop
  cases s.list.getRow key with
  | none => exact hs
  | some row => exact hs.keeps (edits_moveToTop key) (names key).firstLetters.elems

theorem Indexed.remove (hs : Indexed s names) (key : K) : Indexed (s.remove names key) names := by
  unfold IndexedList.remove
  cases s.list.getRow key with
  | none => exact hs
  | some row =>
    obtain ⟨hlist, hrows⟩ := edits_remove key s.list hs.list
    obtain ⟨hlists, hmem⟩ := foldl_editLetter (edits_remove key) (fits_removes key) hs.lists
      (names key).firstLetters.elems
    refine ⟨hlist, hlists, fun ch other => (hmem ch other).trans ?_⟩
    show _ ↔ other ∈ (s.list.remove key).rows ∧ _
    simp only [hrows, hs.mem, FlatSet.mem_elems]
    unfold removes
    by_cases hother : other = key
    · subst hother
      split_ifs with hch
      · simp
      · simp [hch]
    · split_ifs
      · simp [hother]
      · simp [hother]

/-- The letters that an entry had and has not, and those that it has and had not, change places. -/
theorem Indexed.patched (hs : Indexed s names) {list : RowList K ρ} (hlist : list.Kept)
    (hrows : ∀ key, key ∈ list.rows ↔ key ∈ s.list.rows) {f : RowList K ρ → RowList K ρ} {key : K}
    (hf : Edits f (IndexedList.adds key)) (hkey : key ∈ s.list.rows) (now : EntryNames C) :
    let oldLetters := (names key).firstLetters
    Indexed (({ s with list := list }.editFound (toRemove oldLetters now.firstLetters)
        fun list => list.remove key).editEmplaced (toAdd oldLetters now.firstLetters) f)
      (Function.update names key now) := by
  intro oldLetters
  obtain ⟨hremoved, hgone⟩ := foldl_editLetter (edits_remove key) (fits_removes key) hs.lists
    (toRemove oldLetters now.firstLetters)
  obtain ⟨hadded, hmem⟩ := foldl_editLetter hf (fits_adds s key) hremoved
    (toAdd oldLetters now.firstLetters)
  refine ⟨hlist, hadded, fun ch other => (hmem ch other).trans ?_⟩
  show _ ↔ other ∈ list.rows ∧ _
  have hrest := hgone ch other
  rw [hs.mem] at hrest
  have htoRemove : ch ∈ toRemove oldLetters now.firstLetters ↔
      ch ∈ oldLetters ∧ ch ∉ now.firstLetters := by
    rw [toRemove, List.mem_filter, decide_eq_true_iff, FlatSet.mem_elems]
  have htoAdd : ch ∈ toAdd oldLetters now.firstLetters ↔
      ch ∈ now.firstLetters ∧ ch ∉ oldLetters := by
    rw [toAdd, List.mem_filter, decide_eq_true_iff, FlatSet.mem_elems]
  rw [hrows]
  -- the key has its new names, and every other key the ones it had
  by_cases hother : other = key
  · subst hother
    rw [Function.update_self]
    have hold : ch ∈ (names other).firstLetters ↔ ch ∈ oldLetters := Iff.rfl
    rw [hold] at hrest
    simp only [hrest, htoRemove, htoAdd, IndexedList.adds, removes, true_or, hkey, true_and]
    by_cases hbefore : ch ∈ oldLetters
    · by_cases hnow : ch ∈ now.firstLetters
      · simp [hbefore, hnow]
      · simp [hbefore, hnow]
    · by_cases hnow : ch ∈ now.firstLetters
      · simp [hbefore, hnow]
      · simp [hbefore, hnow]
  · rw [Function.update_of_ne hother]
    have hsame : (if ch ∈ toRemove oldLetters now.firstLetters then
        removes key other (other ∈ s.list.rows ∧ ch ∈ (names other).firstLetters)
        else other ∈ s.list.rows ∧ ch ∈ (names other).firstLetters) ↔
          other ∈ s.list.rows ∧ ch ∈ (names other).firstLetters := by
      unfold removes
      split_ifs
      · exact and_iff_right hother
      · rfl
    rw [hsame] at hrest
    unfold IndexedList.adds
    split_ifs
    · rw [or_iff_right hother]
      exact hrest
    · exact hrest

/-- An entry that is not in the list may have any names. -/
theorem Indexed.absent (hs : Indexed s names) {key : K} (hkey : key ∉ s.list.rows)
    (now : EntryNames C) : Indexed s (Function.update names key now) := by
  refine ⟨hs.list, hs.lists, fun ch other => ?_⟩
  rw [hs.mem]
  by_cases hother : other = key
  · subst hother
    simp [hkey]
  · rw [Function.update_of_ne hother]

theorem Indexed.peerNameChanged (hs : Indexed s names) (e : Entries K N ρ) (key : K)
    (now : EntryNames C) :
    Indexed (s.peerNameChanged e (Function.update names key now) key (names key).firstLetters)
      (Function.update names key now) := by
  unfold IndexedList.peerNameChanged
  split_ifs with hmode
  · unfold IndexedList.adjustByName
    cases hrow : s.list.getRow key with
    | none => exact hs.absent (hs.list.notMem_of_none hrow) now
    | some row =>
      have hkey : key ∈ s.list.rows := hs.list.registered key (by rw [hrow, Option.isSome_some])
      have hkeeps := hs.keeps (edits_adjustByName e key)
        (inBoth (names key).firstLetters (Function.update names key now key).firstLetters)
      have hmem := (edits_adjustByName e key s.list hs.list).2
      have hpatched := hkeeps.patched hkeeps.list (fun _ => Iff.rfl) (edits_addByName e key)
        ((hmem key).mpr hkey) now
      dsimp only
      rw [Function.update_self] at hpatched ⊢
      exact hpatched
  · unfold IndexedList.adjustNames
    cases hrow : s.list.getRow key with
    | none => exact hs.absent (hs.list.notMem_of_none hrow) now
    | some row =>
      have hkey : key ∈ s.list.rows := hs.list.registered key (by rw [hrow, Option.isSome_some])
      have hpatched := hs.patched hs.list (fun _ => Iff.rfl) (edits_addToEnd e key) hkey now
      dsimp only
      rw [Function.update_self]
      exact hpatched

/-- The first letters are those of the words. -/
def Filled (names : EntryNames C) : Prop :=
  ∀ ch, ch ∈ names.firstLetters ↔ ∃ name ∈ names.nameWords, name.head? = some ch

theorem filled_fillNames (namesList : List (List C)) : Filled (fillNames namesList) := by
  intro ch
  rw [fillNames, FlatSet.mem_ofList, List.mem_filterMap]
  exact exists_congr fun name => and_congr_left fun _ => FlatSet.mem_ofList.symm

/-- What holds of every state. -/
structure Good (s : State K C ρ) : Prop where
  indexed : Indexed s.indexed s.names
  filled : ∀ key, Filled (s.names key)

theorem Good.step {s s' : State K C ρ} (hs : Good s) {e : Entries K N ρ} {op : Op K C}
    (h : step s e op = some s') : Good s' := by
  cases op with
  | addToEnd key =>
    obtain rfl := Option.some.inj h
    exact ⟨hs.indexed.addToEnd e key, hs.filled⟩
  | addByName key =>
    rw [IndexedList.step] at h
    obtain ⟨-, heq⟩ := Option.ite_none_right_eq_some.mp h
    obtain rfl := Option.some.inj heq
    exact ⟨hs.indexed.addByName e key, hs.filled⟩
  | adjustByDate key letters =>
    rw [IndexedList.step] at h
    obtain ⟨-, heq⟩ := Option.ite_none_right_eq_some.mp h
    obtain rfl := Option.some.inj heq
    exact ⟨hs.indexed.adjustByDate e key letters, hs.filled⟩
  | moveToTop key =>
    obtain rfl := Option.some.inj h
    exact ⟨hs.indexed.moveToTop key, hs.filled⟩
  | remove key =>
    obtain rfl := Option.some.inj h
    exact ⟨hs.indexed.remove key, hs.filled⟩
  | peerNameChanged key namesList =>
    obtain rfl := Option.some.inj h
    refine ⟨hs.indexed.peerNameChanged e key (fillNames namesList), fun other => ?_⟩
    dsimp only
    rcases eq_or_ne other key with rfl | hne
    · rw [Function.update_self]
      exact filled_fillNames namesList
    · rw [Function.update_of_ne hne]
      exact hs.filled other
  | clear =>
    obtain rfl := Option.some.inj h
    exact ⟨.clear _ _, hs.filled⟩

theorem Good.run {s s' : State K C ρ} (hs : Good s) {calls : List (Entries K N ρ × Op K C)}
    (h : run s calls = some s') : Good s' := by
  induction calls generalizing s with
  | nil =>
    obtain rfl := Option.some.inj h
    exact hs
  | cons call calls ih =>
    obtain ⟨e, op⟩ := call
    obtain ⟨next, hnext, hrest⟩ := Option.bind_eq_some_iff.mp h
    exact ih (hs.step hnext) hrest

omit [DecidableEq K] [LinearOrder C] in
/-- No list is found only where there is nothing to find. -/
theorem minimalOf_none {words : List (List C)} {result : Option (RowList K ρ)}
    (h : s.minimalOf words result = none) :
    (result = none ∧ ∀ word ∈ words, word = []) ∨
      ∃ ch rest, (ch :: rest) ∈ words ∧ rowsAt s.index ch = [] := by
  induction words generalizing result with
  | nil => exact .inl ⟨h, fun _ h => nomatch h⟩
  | cons word words ih =>
    cases word with
    | nil =>
      rcases ih h with ⟨hnone, hempty⟩ | ⟨ch, rest, hword, hnil⟩
      · exact .inl ⟨hnone, List.forall_mem_cons.mpr ⟨rfl, hempty⟩⟩
      · exact .inr ⟨ch, rest, List.mem_cons_of_mem _ hword, hnil⟩
    | cons ch rest =>
      right
      rw [minimalOf] at h
      cases hfound : s.index ch with
      | none => exact ⟨ch, rest, List.mem_cons_self, by rw [rowsAt, hfound, Option.elim_none]⟩
      | some found =>
        rw [hfound] at h
        dsimp only at h
        split_ifs at h with hempty
        · refine ⟨ch, rest, List.mem_cons_self, ?_⟩
          rw [rowsAt, hfound, Option.elim_some]
          exact List.isEmpty_iff.mp hempty
        · cases result with
          | none =>
            rcases ih h with ⟨hnone, -⟩ | ⟨ch', rest', hword, hnil⟩
            · exact nomatch hnone
            · exact ⟨ch', rest', List.mem_cons_of_mem _ hword, hnil⟩
          | some list =>
            rcases ih h with ⟨hnone, -⟩ | ⟨ch', rest', hword, hnil⟩
            · exact nomatch hnone
            · exact ⟨ch', rest', List.mem_cons_of_mem _ hword, hnil⟩

omit [DecidableEq K] [LinearOrder C] in
/-- A list that is found is the list of the first letter of one of the words. -/
theorem minimalOf_some {words : List (List C)} {result : Option (RowList K ρ)} {list : RowList K ρ}
    (h : s.minimalOf words result = some list) :
    result = some list ∨ ∃ ch rest, (ch :: rest) ∈ words ∧ s.index ch = some list := by
  induction words generalizing result with
  | nil => exact .inl h
  | cons word words ih =>
    cases word with
    | nil =>
      rcases ih h with hresult | ⟨ch, rest, hword, hlist⟩
      · exact .inl hresult
      · exact .inr ⟨ch, rest, List.mem_cons_of_mem _ hword, hlist⟩
    | cons ch rest =>
      rw [minimalOf] at h
      cases hfound : s.index ch with
      | none =>
        rw [hfound] at h
        exact nomatch h
      | some found =>
        have hfirst : ∃ ch' rest', (ch' :: rest') ∈ (ch :: rest) :: words ∧
            s.index ch' = some found := ⟨ch, rest, List.mem_cons_self, hfound⟩
        rw [hfound] at h
        dsimp only at h
        split_ifs at h with hempty
        cases result with
        | none =>
          rcases ih h with hresult | ⟨ch', rest', hword, hlist⟩
          · obtain rfl := Option.some.inj hresult
            exact .inr hfirst
          · exact .inr ⟨ch', rest', List.mem_cons_of_mem _ hword, hlist⟩
        | some old =>
          rcases ih h with hresult | ⟨ch', rest', hword, hlist⟩
          · split_ifs at hresult with hshorter
            · obtain rfl := Option.some.inj hresult
              exact .inr hfirst
            · exact .inl hresult
          · exact .inr ⟨ch', rest', List.mem_cons_of_mem _ hword, hlist⟩

/-- An entry has a name word that starts with each of the words. -/
def Matches (names : EntryNames C) (words : List (List C)) : Prop :=
  ∀ word ∈ words, ∃ name ∈ names.nameWords, word <+: name

theorem wordsFound_iff (names : EntryNames C) (words : List (List C)) :
    words.all (wordFound names) = true ↔ Matches names words := by
  rw [List.all_eq_true]
  refine forall₂_congr fun word _ => ?_
  rw [wordFound, List.any_eq_true]
  exact exists_congr fun name => and_congr_right fun _ => List.isPrefixOf_iff_prefix

theorem Filled.first_letter {names : EntryNames C} (hnames : Filled names) {words : List (List C)}
    (hmatches : Matches names words) {ch : C} {rest : List C} (hword : (ch :: rest) ∈ words) :
    ch ∈ names.firstLetters := by
  obtain ⟨name, hname, tail, rfl⟩ := hmatches _ hword
  exact (hnames ch).mpr ⟨_, hname, rfl⟩

omit [DecidableEq K] in
/-- The index finds what a full scan of the main list would. -/
theorem mem_filtered {s : State K C ρ} (hs : Good s) {words : List (List C)}
    (hwords : ∃ word ∈ words, word ≠ []) (key : K) :
    key ∈ s.indexed.filtered s.names words ↔
      key ∈ s.indexed.list.rows ∧ Matches (s.names key) words := by
  unfold filtered
  cases hminimal : s.indexed.minimal words with
  | none =>
    refine iff_of_false List.not_mem_nil ?_
    rintro ⟨hkey, hmatches⟩
    unfold minimal at hminimal
    split_ifs at hminimal with hempty
    · rw [List.isEmpty_iff.mp hempty] at hkey
      exact nomatch hkey
    · rcases minimalOf_none hminimal with ⟨-, hnone⟩ | ⟨ch, rest, hword, hnil⟩
      · obtain ⟨word, hword, hne⟩ := hwords
        exact hne (hnone word hword)
      -- a match has the first letter of each word, so its list is not empty
      · have hmem := (hs.indexed.mem ch key).mpr
          ⟨hkey, (hs.filled key).first_letter hmatches hword⟩
        rw [hnil] at hmem
        exact nomatch hmem
  | some list =>
    unfold minimal at hminimal
    split_ifs at hminimal with hempty
    rcases minimalOf_some hminimal with hnone | ⟨ch, rest, hword, hlist⟩
    · exact nomatch hnone
    · have hrows : rowsAt s.indexed.index ch = list.rows := by
        rw [rowsAt, hlist, Option.elim_some]
      dsimp only
      rw [List.mem_filter, wordsFound_iff, ← hrows, hs.indexed.mem]
      refine and_congr_left fun hmatches => and_iff_left ?_
      exact (hs.filled key).first_letter hmatches hword

omit [DecidableEq K] in
theorem nodup_filtered {s : State K C ρ} (hs : Good s) (words : List (List C)) :
    (s.indexed.filtered s.names words).Nodup := by
  unfold filtered
  cases hminimal : s.indexed.minimal words with
  | none => exact .nil
  | some list =>
    unfold minimal at hminimal
    split_ifs at hminimal with hempty
    rcases minimalOf_some hminimal with hnone | ⟨ch, rest, hword, hlist⟩
    · exact nomatch hnone
    · exact (hs.indexed.lists ch list hlist).nodup.filter _

/-- After every run, each list of a letter has the keys that belong to it, each once, and the
search by words finds what a full scan would, each once. -/
theorem filtered_like_scan (sortMode : SortMode) (narrowRatio : ρ) (words : K → List (List C))
    (calls : List (Entries K N ρ × Op K C)) {s : State K C ρ}
    (h : run ⟨created sortMode narrowRatio, fun key => fillNames (words key)⟩ calls = some s) :
    (∀ ch, (rowsAt s.indexed.index ch).Nodup ∧ ∀ key, key ∈ rowsAt s.indexed.index ch ↔
        key ∈ s.indexed.list.rows ∧ ch ∈ (s.names key).firstLetters) ∧
      ∀ search : List (List C), (∃ word ∈ search, word ≠ []) →
        (s.indexed.filtered s.names search).Nodup ∧
          ∀ key, key ∈ s.indexed.filtered s.names search ↔
            key ∈ s.indexed.list.rows ∧ Matches (s.names key) search := by
  have hstart : Good (⟨created sortMode narrowRatio, fun key => fillNames (words key)⟩ :
      State K C ρ) :=
    ⟨indexed_created sortMode narrowRatio _, fun key => filled_fillNames (words key)⟩
  have hs := hstart.run h
  refine ⟨fun ch => ⟨nodup_rowsAt hs.indexed.lists ch, hs.indexed.mem ch⟩, fun search hsearch => ?_⟩
  exact ⟨nodup_filtered hs search, mem_filtered hs hsearch⟩

def plain : Entries ℕ ℕ Unit where
  sortKey key := key
  chatListNameSortKey key := key
  recountHeight _ _ := 1

def renamed : List (Entries ℕ ℕ Unit × Op ℕ ℕ) :=
  [(plain, .addToEnd 0), (plain, .addToEnd 1), (plain, .peerNameChanged 0 [[2, 5]])]

theorem filtered_like_scan_renamed :
    ∃ s : State ℕ ℕ Unit,
      run ⟨created .date (), fun _ => fillNames [[1, 5]]⟩ renamed = some s ∧
        ∀ key, key ∈ s.indexed.filtered s.names [[2]] ↔
          key ∈ s.indexed.list.rows ∧ Matches (s.names key) [[2]] := by
  refine ⟨_, rfl, ?_⟩
  have hscan := filtered_like_scan .date () (fun _ => [[1, 5]]) renamed rfl
  exact (hscan.2 [[2]] ⟨[2], List.mem_singleton_self _, List.cons_ne_nil _ _⟩).2

end IndexedList

end TelegramDesktop.Dialogs
