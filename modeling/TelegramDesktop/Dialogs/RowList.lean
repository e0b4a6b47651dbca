import TelegramDesktop.Base.Rotate

namespace TelegramDesktop.Dialogs

inductive SortMode
  | date
  | name
  | add
  deriving DecidableEq

structure Row where
  index : ℕ
  top : ℕ
  height : ℕ
  deriving DecidableEq

/-- What the rows read from their entries when they are asked to. -/
structure Entries (K N ρ : Type*) where
  sortKey : K → ℕ
  chatListNameSortKey : K → N
  recountHeight : K → ρ → ℕ

/-- `Dialogs::List`; the keys stand for the pointers in `_rows`. -/
structure RowList (K ρ : Type*) where
  sortMode : SortMode
  narrowRatio : ρ
  rows : List K := []
  rowByKey : K → Option Row := fun _ => none

namespace RowList

variable {K N ρ : Type*} [DecidableEq K]

def getRow (s : RowList K ρ) (key : K) : Option Row := s.rowByKey key

def indexOf (s : RowList K ρ) (key : K) : ℕ := (s.rowByKey key).elim 0 Row.index

def topOf (s : RowList K ρ) (key : K) : ℕ := (s.rowByKey key).elim 0 Row.top

def heightOf (rowByKey : K → Option Row) (key : K) : ℕ := (rowByKey key).elim 0 Row.height

def bottomOf (s : RowList K ρ) (key : K) : ℕ := s.topOf key + heightOf s.rowByKey key

def height (s : RowList K ρ) : ℕ := s.rows.getLast?.elim 0 s.bottomOf

/-- The loops that write to the rows of a segment and count the index and the top on. -/
def restack (write : K → ℕ → ℕ → Row → Row) (rowByKey : K → Option Row) :
    List K → ℕ → ℕ → K → Option Row
  | [], _, _ => rowByKey
  | key :: keys, index, top =>
    match rowByKey key with
    | some row =>
      let row := write key index top row
      restack write (Function.update rowByKey key (some row)) keys (index + 1) (top + row.height)
    | none => restack write rowByKey keys (index + 1) top

def place (_ : K) (index top : ℕ) (row : Row) : Row := { row with index, top }

def rotate (s : RowList K ρ) (first middle last : ℕ) : RowList K ρ :=
  let top := s.rows[first]?.elim 0 s.topOf
  let rows := Base.rotateSegment s.rows first middle last
  let segment := (rows.drop first).take (last - first)
  { s with rows, rowByKey := restack place s.rowByKey segment first top }

/-- The body of `adjustByName` and `adjustByDate`. The former asks for `i != _rows.begin()` before
the reverse search, which finds nothing to pass in front of the first row. -/
def adjust (s : RowList K ρ) (key : K) (ahead behind : K → Bool) : RowList K ρ :=
  let index := s.indexOf key
  let before := index + 1 + (s.rows.drop (index + 1)).findIdx ahead
  if before ≠ index + 1 then s.rotate index (index + 1) before
  else
    let after := index - (s.rows.take index).reverse.findIdx behind
    if after ≠ index then s.rotate after index (index + 1) else s

def adjustByDate (s : RowList K ρ) (e : Entries K N ρ) (key : K) : RowList K ρ :=
  s.adjust key (fun other => e.sortKey other ≤ e.sortKey key)
    (fun other => e.sortKey other ≥ e.sortKey key)

def adjustRowByName [LinearOrder N] (s : RowList K ρ) (e : Entries K N ρ) (key : K) :
    RowList K ρ :=
  s.adjust key (fun other => e.chatListNameSortKey other ≥ e.chatListNameSortKey key)
    (fun other => e.chatListNameSortKey other ≤ e.chatListNameSortKey key)

def adjustByName [LinearOrder N] (s : RowList K ρ) (e : Entries K N ρ) (key : K) :
    RowList K ρ :=
  match s.getRow key with
  | some _ => s.adjustRowByName e key
  | none => s

/-- The new row before the list is put in order. -/
def pushBack (s : RowList K ρ) (e : Entries K N ρ) (key : K) : RowList K ρ :=
  let row := ⟨s.rows.length, s.height, e.recountHeight key s.narrowRatio⟩
  { s with rows := s.rows ++ [key], rowByKey := Function.update s.rowByKey key (some row) }

def addToEnd (s : RowList K ρ) (e : Entries K N ρ) (key : K) : RowList K ρ :=
  match s.getRow key with
  | some _ => s
  | none =>
    let pushed := s.pushBack e key
    if s.sortMode = .date then pushed.adjustByDate e key else pushed

def addByName [LinearOrder N] (s : RowList K ρ) (e : Entries K N ρ) (key : K) : RowList K ρ :=
  (s.addToEnd e key).adjustByName e key

def updateHeight (s : RowList K ρ) (e : Entries K N ρ) (key : K) (narrowRatio : ρ) :
    RowList K ρ :=
  match s.getRow key with
  | none => s
  | some row =>
    let height := e.recountHeight key narrowRatio
    if height = row.height then s
    else
      let recounted := Function.update s.rowByKey key (some { row with height })
      { s with
        rowByKey := restack (fun _ _ top row => { row with top }) recounted
          (s.rows.drop row.index) row.index row.top }

def updateHeights (s : RowList K ρ) (e : Entries K N ρ) (narrowRatio : ρ) : RowList K ρ :=
  { s with
    narrowRatio
    rowByKey := restack
      (fun key _ top row => { row with top, height := e.recountHeight key narrowRatio })
      s.rowByKey s.rows 0 0 }

def moveToTop (s : RowList K ρ) (key : K) : RowList K ρ :=
  match s.getRow key with
  | none => s
  | some row => s.rotate 0 row.index (row.index + 1)

def remove (s : RowList K ρ) (key : K) : RowList K ρ :=
  match s.getRow key with
  | none => s
  | some row =>
    let rows := s.rows.eraseIdx row.index
    { s with
      rows
      rowByKey := Function.update
        (restack place s.rowByKey (rows.drop row.index) row.index row.top) key none }

def clear (s : RowList K ρ) : RowList K ρ := { s with rows := [], rowByKey := fun _ => none }

/-- `ranges::lower_bound` by the bottoms of the rows. -/
def findByY (s : RowList K ρ) (y : ℤ) : Option K := s.rows.find? fun key => y ≤ s.bottomOf key

def rowAtY (s : RowList K ρ) (y : ℤ) : Option K :=
  match s.findByY y with
  | none => none
  | some key => if s.topOf key ≤ y ∧ (s.bottomOf key : ℤ) > y then some key else none

inductive Op (K ρ : Type*)
  | addToEnd (key : K)
  | addByName (key : K)
  | adjustByName (key : K)
  | adjustByDate (key : K)
  | remove (key : K)
  | updateHeight (key : K) (narrowRatio : ρ)
  | updateHeights (narrowRatio : ρ)
  | clear

/-- One call; there is no state after it when an expectation fails. -/
def step [LinearOrder N] (s : RowList K ρ) (e : Entries K N ρ) : Op K ρ → Option (RowList K ρ)
  | .addToEnd key => some (s.addToEnd e key)
  | .addByName key => if s.sortMode = .name then some (s.addByName e key) else none
  | .adjustByName key => if s.sortMode = .name then some (s.adjustByName e key) else none
  | .adjustByDate key =>
    if s.sortMode = .date ∧ (s.getRow key).isSome then some (s.adjustByDate e key) else none
  | .remove key => some (s.remove key)
  | .updateHeight key narrowRatio => some (s.updateHeight e key narrowRatio)
  | .updateHeights narrowRatio => some (s.updateHeights e narrowRatio)
  | .clear => some s.clear

section Laid

omit [DecidableEq K]

/-- The rows of the keys count on from `index` and fill the space from `top` on. -/
def Laid (rowByKey : K → Option Row) : List K → ℕ → ℕ → Prop
  | [], _, _ => True
  | key :: keys, index, top =>
    ∃ height, rowByKey key = some ⟨index, top, height⟩ ∧
      Laid rowByKey keys (index + 1) (top + height)

def total (rowByKey : K → Option Row) (keys : List K) : ℕ := (keys.map (heightOf rowByKey)).sum

theorem heightOf_eq {rowByKey : K → Option Row} {key : K} {row : Row}
    (h : rowByKey key = some row) : heightOf rowByKey key = row.height := by
  rw [heightOf, h, Option.elim_some]

@[simp] theorem total_nil (rowByKey : K → Option Row) : total rowByKey ([] : List K) = 0 := rfl

@[simp] theorem total_cons (rowByKey : K → Option Row) (key : K) (keys : List K) :
    total rowByKey (key :: keys) = heightOf rowByKey key + total rowByKey keys := by
  simp [total]

@[simp] theorem total_append (rowByKey : K → Option Row) (a b : List K) :
    total rowByKey (a ++ b) = total rowByKey a + total rowByKey b := by
  simp [total]

theorem total_congr {m m' : K → Option Row} {keys : List K}
    (h : ∀ key ∈ keys, heightOf m' key = heightOf m key) : total m' keys = total m keys := by
  rw [total, total, List.map_congr_left h]

theorem total_eq {m m' : K → Option Row} {keys : List K}
    (hsame : ∀ key ∈ keys, m' key = m key) : total m' keys = total m keys :=
  total_congr fun key hkey => by rw [heightOf, hsame key hkey, heightOf]

theorem laid_append {m : K → Option Row} {a b : List K} {index top : ℕ} :
    Laid m (a ++ b) index top ↔
      Laid m a index top ∧ Laid m b (index + a.length) (top + total m a) := by
  induction a generalizing index top with
  | nil => simp [Laid]
  | cons key a ih =>
    have hlength : index + 1 + a.length = index + (key :: a).length := by
      rw [List.length_cons]
      omega
    constructor
    · rintro ⟨height, hrow, hrest⟩
      obtain ⟨ha, hb⟩ := ih.mp hrest
      rw [hlength] at hb
      refine ⟨⟨height, hrow, ha⟩, ?_⟩
      rw [total_cons, heightOf_eq hrow, ← Nat.add_assoc]
      exact hb
    · rintro ⟨⟨height, hrow, ha⟩, hb⟩
      rw [total_cons, heightOf_eq hrow, ← Nat.add_assoc] at hb
      exact ⟨height, hrow, ih.mpr ⟨ha, hlength ▸ hb⟩⟩

theorem Laid.congr {m m' : K → Option Row} {keys : List K} {index top : ℕ}
    (h : Laid m keys index top) (hsame : ∀ key ∈ keys, m' key = m key) :
    Laid m' keys index top := by
  induction keys generalizing index top with
  | nil => trivial
  | cons key keys ih =>
    obtain ⟨height, hrow, hrest⟩ := h
    exact ⟨height, (hsame key List.mem_cons_self).trans hrow,
      ih hrest fun other hother => hsame other (List.mem_cons_of_mem _ hother)⟩

theorem Laid.isSome {m : K → Option Row} {keys : List K} {index top : ℕ}
    (h : Laid m keys index top) : ∀ key ∈ keys, (m key).isSome := by
  induction keys generalizing index top with
  | nil => simp
  | cons key keys ih =>
    obtain ⟨height, hrow, hrest⟩ := h
    intro other hother
    rcases List.mem_cons.mp hother with rfl | hother
    · rw [hrow, Option.isSome_some]
    · exact ih hrest other hother

/-- One row, by what stands before it. -/
theorem Laid.row {m : K → Option Row} {a b : List K} {key : K} {index top : ℕ}
    (h : Laid m (a ++ key :: b) index top) :
    ∃ height, m key = some ⟨index + a.length, top + total m a, height⟩ := by
  obtain ⟨height, hrow, -⟩ := (laid_append.mp h).2
  exact ⟨height, hrow⟩

/-- The vector and the map have the same keys, each once, and the rows are laid out. -/
structure Kept (s : RowList K ρ) : Prop where
  nodup : s.rows.Nodup
  registered : ∀ key, (s.getRow key).isSome → key ∈ s.rows
  laid : Laid s.rowByKey s.rows 0 0

theorem Kept.isSome_iff {s : RowList K ρ} (h : Kept s) (key : K) :
    (s.getRow key).isSome ↔ key ∈ s.rows := ⟨h.registered key, h.laid.isSome key⟩

theorem Kept.getRow {s : RowList K ρ} (h : Kept s) {a b : List K} {key : K}
    (hrows : s.rows = a ++ key :: b) :
    ∃ height, s.getRow key = some ⟨a.length, total s.rowByKey a, height⟩ := by
  have hlaid := h.laid
  rw [hrows] at hlaid
  obtain ⟨height, hrow⟩ := hlaid.row
  rw [Nat.zero_add, Nat.zero_add] at hrow
  exact ⟨height, hrow⟩

theorem Kept.indexOf {s : RowList K ρ} (h : Kept s) {a b : List K} {key : K}
    (hrows : s.rows = a ++ key :: b) : s.indexOf key = a.length := by
  obtain ⟨height, hrow⟩ := h.getRow hrows
  rw [RowList.getRow] at hrow
  rw [RowList.indexOf, hrow, Option.elim_some]

theorem Kept.topOf {s : RowList K ρ} (h : Kept s) {a b : List K} {key : K}
    (hrows : s.rows = a ++ key :: b) : s.topOf key = total s.rowByKey a := by
  obtain ⟨height, hrow⟩ := h.getRow hrows
  rw [RowList.getRow] at hrow
  rw [RowList.topOf, hrow, Option.elim_some]

theorem Kept.height_eq {s : RowList K ρ} (h : Kept s) : s.height = total s.rowByKey s.rows := by
  unfold RowList.height
  rcases List.eq_nil_or_concat s.rows with hnil | ⟨a, last, hlast⟩
  · rw [hnil]
    rfl
  · rw [List.concat_eq_append] at hlast
    rw [hlast, List.getLast?_append, List.getLast?_singleton, Option.some_or, Option.elim_some,
      bottomOf, h.topOf hlast, total_append, total_cons, total_nil, Nat.add_zero]

/-- What is true of the keys of a list where one key stands. -/
theorem Kept.notMem {s : RowList K ρ} (h : Kept s) {a b : List K} {key : K}
    (hrows : s.rows = a ++ key :: b) :
    key ∉ a ∧ key ∉ b ∧ (∀ other ∈ a, other ∉ b) ∧ (a ++ b).Nodup := by
  have hnodup := hrows ▸ h.nodup
  obtain ⟨-, hb, hdisj⟩ := List.nodup_append.mp hnodup
  refine ⟨fun hmem => hdisj key hmem key List.mem_cons_self rfl, (List.nodup_cons.mp hb).1,
    fun other ha hb => hdisj other ha other (List.mem_cons_of_mem _ hb) rfl, ?_⟩
  exact hnodup.sublist (by simp)

end Laid

theorem restack_some {write : K → ℕ → ℕ → Row → Row} {m : K → Option Row} {key : K} {row : Row}
    (h : m key = some row) (keys : List K) (index top : ℕ) :
    restack write m (key :: keys) index top =
      restack write (Function.update m key (some (write key index top row))) keys (index + 1)
        (top + (write key index top row).height) := by
  rw [restack, h]

theorem restack_none {write : K → ℕ → ℕ → Row → Row} {m : K → Option Row} {key : K}
    (h : m key = none) (keys : List K) (index top : ℕ) :
    restack write m (key :: keys) index top = restack write m keys (index + 1) top := by
  rw [restack, h]

theorem restack_of_notMem {write : K → ℕ → ℕ → Row → Row} {m : K → Option Row} {keys : List K}
    {index top : ℕ} {key : K} (h : key ∉ keys) : restack write m keys index top key = m key := by
  induction keys generalizing m index top with
  | nil => rfl
  | cons first keys ih =>
    obtain ⟨hne, hrest⟩ := not_or.mp (List.mem_cons.not.mp h)
    cases hrow : m first with
    | some row => rw [restack_some hrow, ih hrest, Function.update_of_ne hne]
    | none => rw [restack_none hrow, ih hrest]

theorem isSome_restack (write : K → ℕ → ℕ → Row → Row) (m : K → Option Row) (keys : List K)
    (index top : ℕ) (key : K) : (restack write m keys index top key).isSome = (m key).isSome := by
  induction keys generalizing m index top with
  | nil => rfl
  | cons first keys ih =>
    cases hrow : m first with
    | some row =>
      rw [restack_some hrow, ih]
      rcases eq_or_ne key first with rfl | hne
      · rw [Function.update_self, hrow, Option.isSome_some, Option.isSome_some]
      · rw [Function.update_of_ne hne]
    | none => rw [restack_none hrow, ih]

theorem heightOf_restack {write : K → ℕ → ℕ → Row → Row}
    (hwrite : ∀ key index top row, (write key index top row).height = row.height)
    (m : K → Option Row) (keys : List K) (index top : ℕ) (key : K) :
    heightOf (restack write m keys index top) key = heightOf m key := by
  induction keys generalizing m index top with
  | nil => rfl
  | cons first keys ih =>
    cases hrow : m first with
    | some row =>
      rw [restack_some hrow, ih]
      rcases eq_or_ne key first with rfl | hne
      · rw [heightOf, Function.update_self, Option.elim_some, hwrite, heightOf_eq hrow]
      · rw [heightOf, Function.update_of_ne hne, heightOf]
    | none => rw [restack_none hrow, ih]

omit [DecidableEq K] in
theorem height_place (key : K) (index top : ℕ) (row : Row) :
    (place key index top row).height = row.height := rfl

/-- A loop whose body leaves each row at the index and the top it has counted lays them out. -/
theorem laid_restack {write : K → ℕ → ℕ → Row → Row} {m : K → Option Row} {keys : List K}
    (hnodup : keys.Nodup) {index : ℕ} (top : ℕ)
    (h : ∀ a key b, keys = a ++ key :: b → ∃ row, m key = some row ∧
      ∀ top, (write key (index + a.length) top row).index = index + a.length ∧
        (write key (index + a.length) top row).top = top) :
    Laid (restack write m keys index top) keys index top := by
  induction keys generalizing m index top with
  | nil => trivial
  | cons key keys ih =>
    obtain ⟨hkey, hnodup⟩ := List.nodup_cons.mp hnodup
    obtain ⟨row, hrow, hwrite⟩ := h [] key keys rfl
    obtain ⟨hindex, htop⟩ := hwrite top
    rw [List.length_nil, Nat.add_zero] at hindex htop
    rw [restack_some hrow]
    -- the key occurs once, so no later round writes to the first row again
    refine ⟨(write key index top row).height, ?_, ih hnodup _ ?_⟩
    · rw [restack_of_notMem hkey, Function.update_self]
      exact congrArg some (by rw [Row.mk.injEq]; exact ⟨hindex, htop, rfl⟩)
    · rintro a other b rfl
      have hne : other ≠ key := by
        rintro rfl
        exact hkey (by simp)
      obtain ⟨row', hrow', hwrite'⟩ := h (key :: a) other b rfl
      have hlength : index + (key :: a).length = index + 1 + a.length := by
        rw [List.length_cons]
        omega
      rw [hlength] at hwrite'
      exact ⟨row', by rw [Function.update_of_ne hne, hrow'], hwrite'⟩

/-- The segment trades places inside, and what is behind it stays where it was. -/
theorem Kept.rotate {s : RowList K ρ} (h : Kept s) {a b c d : List K}
    (hrows : s.rows = a ++ b ++ c ++ d) (hne : b ++ c ≠ []) :
    Kept (s.rotate a.length (a.length + b.length) (a.length + b.length + c.length)) ∧
      (s.rotate a.length (a.length + b.length) (a.length + b.length + c.length)).rows =
        a ++ c ++ b ++ d := by
  have hrotated := Base.rotateSegment_append a b c d
  have hsegment : ((a ++ c ++ b ++ d).drop a.length).take
      (a.length + b.length + c.length - a.length) = c ++ b := by
    rw [List.append_assoc a, List.append_assoc a, List.drop_left]
    exact List.take_left' (by rw [List.length_append]; omega)
  have htop : s.rows[a.length]?.elim 0 s.topOf = total s.rowByKey a := by
    obtain ⟨front, rest, hfront⟩ := List.exists_cons_of_ne_nil hne
    have hrows' : s.rows = a ++ front :: (rest ++ d) := by
      rw [hrows, List.append_assoc a b c, hfront]
      simp
    rw [hrows', List.getElem?_append_right (le_refl _), Nat.sub_self, List.getElem?_cons_zero,
      Option.elim_some, h.topOf hrows']
  have hstate : s.rotate a.length (a.length + b.length) (a.length + b.length + c.length) =
      { s with
        rows := a ++ c ++ b ++ d
        rowByKey := restack place s.rowByKey (c ++ b) a.length (total s.rowByKey a) } := by
    unfold RowList.rotate
    dsimp only
    rw [htop, hrows, hrotated, hsegment]
  rw [hstate]
  have hperm : (a ++ c ++ b ++ d).Perm s.rows := by
    rw [hrows]
    exact Base.perm_segments a b c d
  have hnodup : (a ++ c ++ b ++ d).Nodup := hperm.nodup_iff.mpr h.nodup
  refine ⟨⟨hnodup, fun key hkey => ?_, ?_⟩, rfl⟩
  · rw [RowList.getRow, isSome_restack] at hkey
    exact hperm.mem_iff.mpr (h.registered key hkey)
  · have hlaid := h.laid
    rw [hrows, List.append_assoc a b c] at hlaid
    obtain ⟨hlaid', hd⟩ := laid_append.mp hlaid
    obtain ⟨ha, -⟩ := laid_append.mp hlaid'
    rw [List.append_assoc a c b] at hnodup ⊢
    obtain ⟨hacb, -, hdisjd⟩ := List.nodup_append.mp hnodup
    obtain ⟨-, hcb, hdisja⟩ := List.nodup_append.mp hacb
    have htotal : ∀ keys,
        total (restack place s.rowByKey (c ++ b) a.length (total s.rowByKey a)) keys =
          total s.rowByKey keys := fun keys =>
      total_congr fun key _ => heightOf_restack height_place ..
    refine laid_append.mpr ⟨laid_append.mpr ⟨ha.congr fun key hkey => ?_, ?_⟩, ?_⟩
    · exact restack_of_notMem fun hmem => hdisja key hkey key hmem rfl
    · rw [htotal, Nat.zero_add, Nat.zero_add]
      refine laid_restack hcb _ fun a' key b' hkey => ?_
      have hmem : key ∈ s.rows := by
        rw [← hperm.mem_iff, List.append_assoc a c b, hkey]
        simp
      obtain ⟨row, hrow⟩ := Option.isSome_iff_exists.mp ((h.isSome_iff key).mpr hmem)
      exact ⟨row, hrow, fun _ => ⟨rfl, rfl⟩⟩
    · -- what is behind the segment has the same rows and the same space before it
      have hsum : total s.rowByKey (a ++ (c ++ b)) = total s.rowByKey (a ++ (b ++ c)) := by
        simp only [total_append]
        omega
      have hlength : (a ++ (c ++ b)).length = (a ++ (b ++ c)).length := by
        simp only [List.length_append]
        omega
      rw [htotal, hsum, hlength]
      refine hd.congr fun key hkey => restack_of_notMem fun hmem => ?_
      exact hdisjd key (List.mem_append_right _ hmem) key hkey rfl

/-- Only the row of `key` may be out of order; `ahead` and `behind` are what the two searches
stop at. -/
theorem Kept.adjust {s : RowList K ρ} (h : Kept s) {r : K → K → Prop}
    (htrans : ∀ {x y z}, r x y → r y z → r x z) (htotal : ∀ x y, r x y ∨ r y x)
    {a b : List K} {key : K} (hrows : s.rows = a ++ key :: b) (hsorted : (a ++ b).Pairwise r)
    {ahead behind : K → Bool} (hahead : ∀ other, ahead other = true ↔ r key other)
    (hbehind : ∀ other, behind other = true ↔ r other key) :
    Kept (s.adjust key ahead behind) ∧ (s.adjust key ahead behind).rows.Perm s.rows ∧
      (s.adjust key ahead behind).rows.Pairwise r := by
  have hindex := h.indexOf hrows
  have hdrop : s.rows.drop (a.length + 1) = b := by
    rw [hrows, ← List.singleton_append, ← List.append_assoc]
    exact List.drop_left' (by simp)
  have htake : s.rows.take a.length = a := by rw [hrows, List.take_left]
  obtain ⟨passed, b', hb, hpassed, hnotAhead, hstop⟩ := Base.exists_append_findIdx ahead b
  obtain ⟨front, back, ha, hfront, hnotBehind, hstop'⟩ :=
    Base.exists_append_findIdx behind a.reverse
  have ha' : a = back.reverse ++ front.reverse := by
    rw [← List.reverse_append, ← ha, List.reverse_reverse]
  unfold RowList.adjust
  simp only [hindex, hdrop, htake, hpassed, hfront]
  have hlast : ∀ other ∈ back.reverse.getLast?, r other key := by
    intro other hother
    rw [List.getLast?_reverse] at hother
    exact (hbehind other).mp (hstop' other hother)
  have hnotBehind' : ∀ other ∈ front, ¬ r other key := fun other hmem hr => by
    have hpast := hnotBehind other hmem
    rw [(hbehind other).mpr hr] at hpast
    exact nomatch hpast
  have hnotAhead' : ∀ other ∈ passed, ¬ r key other := fun other hmem hr => by
    have hpast := hnotAhead other hmem
    rw [(hahead other).mpr hr] at hpast
    exact nomatch hpast
  split_ifs with hforward hbackward
  · -- the row goes behind the rows that it has to follow
    have hne : passed ≠ [] := by
      rintro rfl
      exact hforward rfl
    have hsplit : s.rows = a ++ [key] ++ passed ++ b' := by
      rw [hrows, hb]
      simp
    obtain ⟨hkept, hrotated⟩ := h.rotate hsplit (by simp)
    rw [List.length_singleton] at hkept hrotated
    refine ⟨hkept, ?_, ?_⟩
    · rw [hrotated, hsplit]
      exact Base.perm_segments a [key] passed b'
    · rw [hrotated, List.append_assoc _ [key], List.singleton_append]
      rw [hb, ← List.append_assoc] at hsorted
      refine Base.pairwise_insert (r := r) htrans hsorted (fun other hother => ?_)
        fun other hother => (hahead other).mp (hstop other hother)
      rw [List.getLast?_append_of_ne_nil _ hne] at hother
      exact (htotal other key).resolve_right (hnotAhead' other (List.mem_of_getLast? hother))
  -- there are none, so it fits before the next row
  all_goals
    have hpassed' : passed = [] := by
      rw [← List.length_eq_zero_iff]
      omega
    rw [hpassed', List.nil_append] at hb
    have hnext : ∀ other ∈ b.head?, r key other := fun other hother =>
      (hahead other).mp (hstop other (hb ▸ hother))
  · -- the rows it has to precede end right before it
    have hlength : a.length = back.reverse.length + front.reverse.length := by
      rw [ha', List.length_append]
    have hsplit : s.rows = back.reverse ++ front.reverse ++ [key] ++ b := by
      rw [hrows, ← ha']
      simp
    obtain ⟨hkept, hrotated⟩ := h.rotate hsplit (by simp)
    rw [List.length_singleton, ← hlength] at hkept hrotated
    have hafter : a.length - front.length = back.reverse.length := by
      have hfront' : front.reverse.length = front.length := List.length_reverse
      omega
    rw [hafter]
    refine ⟨hkept, ?_, ?_⟩
    · rw [hrotated, hsplit]
      exact Base.perm_segments back.reverse front.reverse [key] b
    · rw [hrotated, List.append_assoc _ front.reverse, List.append_assoc, List.singleton_append]
      rw [ha', List.append_assoc] at hsorted
      refine Base.pairwise_insert (r := r) htrans hsorted hlast fun other hother => ?_
      cases hfirst : front.reverse with
      | nil =>
        rw [hfirst, List.nil_append] at hother
        exact hnext other hother
      | cons first rest =>
        rw [hfirst, List.cons_append, List.head?_cons] at hother
        obtain rfl := Option.some.inj hother
        have hmem : first ∈ front := by
          rw [← List.mem_reverse, hfirst]
          exact List.mem_cons_self
        exact (htotal first key).resolve_left (hnotBehind' first hmem)
  · have hnil : front = [] := by
      have hle : front.length ≤ a.length := by
        rw [← a.length_reverse, ha, List.length_append]
        omega
      exact List.length_eq_zero_iff.mp (by omega)
    rw [hnil, List.reverse_nil, List.append_nil] at ha'
    refine ⟨h, List.Perm.refl _, ?_⟩
    rw [hrows]
    exact Base.pairwise_insert (r := r) htrans hsorted (ha' ▸ hlast) hnext

theorem Kept.pushBack {s : RowList K ρ} (h : Kept s) (e : Entries K N ρ) {key : K}
    (hkey : key ∉ s.rows) : Kept (s.pushBack e key) := by
  have hother : ∀ other ∈ s.rows, (s.pushBack e key).rowByKey other = s.rowByKey other := by
    intro other hmem
    refine Function.update_of_ne ?_ ..
    rintro rfl
    exact hkey hmem
  have htotal : total (s.pushBack e key).rowByKey s.rows = s.height := by
    rw [h.height_eq]
    exact total_eq hother
  refine ⟨?_, fun other hsome => ?_, ?_⟩
  · refine List.nodup_append.mpr ⟨h.nodup, List.nodup_singleton key, ?_⟩
    rintro x hx y hy rfl
    exact hkey (List.mem_singleton.mp hy ▸ hx)
  · rcases eq_or_ne other key with rfl | hne
    · exact List.mem_append_right _ (List.mem_singleton_self other)
    · have hsame : (s.pushBack e key).getRow other = s.getRow other :=
        Function.update_of_ne hne ..
      exact List.mem_append_left _ (h.registered other (hsame ▸ hsome))
  · refine laid_append.mpr ⟨h.laid.congr hother, ?_⟩
    rw [htotal, Nat.zero_add, Nat.zero_add]
    exact ⟨_, Function.update_self .., trivial⟩

theorem Kept.remove {s : RowList K ρ} (h : Kept s) (key : K) :
    Kept (s.remove key) ∧ (s.remove key).rows = s.rows.erase key := by
  by_cases hmem : key ∈ s.rows
  · obtain ⟨a, b, hrows⟩ := List.append_of_mem hmem
    obtain ⟨height, hrow⟩ := h.getRow hrows
    obtain ⟨ha, hb, hdisj, hnodup⟩ := h.notMem hrows
    have herase : s.rows.eraseIdx a.length = a ++ b := by
      rw [hrows, List.eraseIdx_append_of_length_le (le_refl _), Nat.sub_self, List.eraseIdx_zero,
        List.tail_cons]
    have hstate : s.remove key =
        { s with
          rows := a ++ b
          rowByKey := Function.update
            (restack place s.rowByKey b a.length (total s.rowByKey a)) key none } := by
      unfold RowList.remove
      rw [hrow]
      dsimp only
      rw [herase, List.drop_left]
    have hkept : ∀ other ∈ a ++ b, (s.remove key).rowByKey other =
        restack place s.rowByKey b a.length (total s.rowByKey a) other := by
      intro other hother
      rw [hstate]
      refine Function.update_of_ne ?_ ..
      rintro rfl
      exact (List.mem_append.mp hother).elim ha hb
    have hbefore : ∀ other ∈ a, (s.remove key).rowByKey other = s.rowByKey other := by
      intro other hother
      rw [hkept other (List.mem_append_left _ hother), restack_of_notMem (hdisj other hother)]
    have hlaid := h.laid
    rw [hrows] at hlaid
    have hrows' : (s.remove key).rows = a ++ b := by rw [hstate]
    refine ⟨⟨hrows' ▸ hnodup, fun other hsome => ?_, ?_⟩, ?_⟩
    · rw [hrows']
      have hne : other ≠ key := by
        rintro rfl
        rw [RowList.getRow, hstate] at hsome
        simp at hsome
      rw [RowList.getRow, hstate] at hsome
      dsimp only at hsome
      rw [Function.update_of_ne hne, isSome_restack] at hsome
      have hold := h.registered other hsome
      rw [hrows] at hold
      simpa [hne] using hold
    · rw [hrows', laid_append, total_eq hbefore, Nat.zero_add, Nat.zero_add]
      constructor
      · exact (laid_append.mp hlaid).1.congr hbefore
      · refine Laid.congr (laid_restack (List.nodup_append.mp hnodup).2.1 _ ?_)
          fun other hother => hkept other (List.mem_append_right _ hother)
        rintro a' other b' rfl
        have hold : other ∈ s.rows := by simp [hrows]
        obtain ⟨row, hrow'⟩ := Option.isSome_iff_exists.mp ((h.isSome_iff other).mpr hold)
        exact ⟨row, hrow', fun _ => ⟨rfl, rfl⟩⟩
    · rw [hrows', hrows, List.erase_append_right _ ha, List.erase_cons_head]
  · have hnone : s.getRow key = none := by
      rw [← Option.not_isSome_iff_eq_none, h.isSome_iff]
      exact hmem
    have hsame : s.remove key = s := by
      rw [RowList.remove, hnone]
    rw [hsame, List.erase_of_not_mem hmem]
    exact ⟨h, rfl⟩

theorem Kept.updateHeight {s : RowList K ρ} (h : Kept s) (e : Entries K N ρ) (key : K)
    (narrowRatio : ρ) :
    Kept (s.updateHeight e key narrowRatio) ∧
      (s.updateHeight e key narrowRatio).rows = s.rows := by
  unfold RowList.updateHeight
  split
  · exact ⟨h, rfl⟩
  · next row hrow =>
    dsimp only
    split_ifs with hsame
    · exact ⟨h, rfl⟩
    obtain ⟨a, b, hrows⟩ := List.append_of_mem (h.registered key (hrow ▸ rfl))
    obtain ⟨height, hrow'⟩ := h.getRow hrows
    obtain rfl := Option.some.inj (hrow.symm.trans hrow')
    obtain ⟨ha, hb, hdisj, -⟩ := h.notMem hrows
    rw [show s.rows.drop a.length = key :: b by rw [hrows, List.drop_left]]
    have hnodup := hrows ▸ h.nodup
    have hother : ∀ other ∈ a, restack (fun _ _ top row => { row with top })
        (Function.update s.rowByKey key
          (some ⟨a.length, total s.rowByKey a, e.recountHeight key narrowRatio⟩))
        (key :: b) a.length (total s.rowByKey a) other = s.rowByKey other := by
      intro other hmem
      have hne : other ≠ key := by
        rintro rfl
        exact ha hmem
      rw [restack_of_notMem (by simp [hne, hdisj other hmem]), Function.update_of_ne hne]
    refine ⟨⟨h.nodup, fun other hsome => ?_, ?_⟩, rfl⟩
    · rw [RowList.getRow, isSome_restack] at hsome
      rcases eq_or_ne other key with rfl | hne
      · exact h.registered other (hrow ▸ rfl)
      · rw [Function.update_of_ne hne] at hsome
        exact h.registered other hsome
    · have hlaid := h.laid
      dsimp only
      rw [hrows] at hlaid ⊢
      refine laid_append.mpr ⟨(laid_append.mp hlaid).1.congr hother, ?_⟩
      rw [total_eq hother, Nat.zero_add, Nat.zero_add]
      refine laid_restack (List.nodup_append.mp hnodup).2.1 _ fun a' other b' hsplit => ?_
      rcases List.cons_eq_append_iff.mp hsplit with ⟨rfl, hfirst⟩ | ⟨a'', rfl, rfl⟩
      · obtain ⟨rfl, rfl⟩ := List.cons.inj hfirst
        exact ⟨_, Function.update_self .., fun top => ⟨rfl, rfl⟩⟩
      · have hne : other ≠ key := by
          rintro rfl
          exact hb (by simp)
        have hrows' : s.rows = (a ++ key :: a'') ++ other :: b' := by
          rw [hrows]
          simp
        obtain ⟨height', hrow'⟩ := h.getRow hrows'
        refine ⟨_, (Function.update_of_ne hne ..).trans hrow', fun top => ⟨?_, rfl⟩⟩
        rw [List.length_append]

theorem Kept.updateHeights {s : RowList K ρ} (h : Kept s) (e : Entries K N ρ)
    (narrowRatio : ρ) : Kept (s.updateHeights e narrowRatio) := by
  have hlaid : Laid (s.updateHeights e narrowRatio).rowByKey s.rows 0 0 := by
    refine laid_restack h.nodup 0 fun a key b hrows => ?_
    obtain ⟨height, hrow⟩ := h.getRow hrows
    exact ⟨_, hrow, fun top => ⟨(Nat.zero_add _).symm, rfl⟩⟩
  refine ⟨h.nodup, fun key hkey => ?_, hlaid⟩
  rw [RowList.getRow, RowList.updateHeights, isSome_restack] at hkey
  exact h.registered key hkey

omit [DecidableEq K] in
theorem Kept.clear (s : RowList K ρ) : Kept s.clear where
  nodup := List.nodup_nil
  registered _ hkey := nomatch hkey
  laid := trivial

theorem Kept.moveToTop {s : RowList K ρ} (h : Kept s) (key : K) : Kept (s.moveToTop key) := by
  unfold RowList.moveToTop
  split
  · exact h
  · next row hrow =>
    have hmem : key ∈ s.rows := h.registered key (by rw [hrow, Option.isSome_some])
    obtain ⟨a, b, hrows⟩ := List.append_of_mem hmem
    obtain ⟨height, hrow'⟩ := h.getRow hrows
    obtain rfl := Option.some.inj (hrow.symm.trans hrow')
    have hsplit : s.rows = [] ++ a ++ [key] ++ b := by
      rw [hrows]
      simp
    have hkept := (h.rotate hsplit (by simp)).1
    rw [List.length_nil, Nat.zero_add] at hkept
    exact hkept

section Order

variable [LinearOrder N]

/-- What the sort mode asks of a row and one behind it. -/
def InOrder (mode : SortMode) (e : Entries K N ρ) (a b : K) : Prop :=
  match mode with
  | .date => e.sortKey b ≤ e.sortKey a
  | .name => e.chatListNameSortKey a ≤ e.chatListNameSortKey b
  | .add => True

def SameKey (mode : SortMode) (e e' : Entries K N ρ) (key : K) : Prop :=
  match mode with
  | .date => e'.sortKey key = e.sortKey key
  | .name => e'.chatListNameSortKey key = e.chatListNameSortKey key
  | .add => True

omit [DecidableEq K] in
theorem inOrder_of_sameKey {mode : SortMode} {e e' : Entries K N ρ} {keys : List K}
    (h : keys.Pairwise (InOrder mode e)) (hsame : ∀ key ∈ keys, SameKey mode e e' key) :
    keys.Pairwise (InOrder mode e') := by
  refine h.imp_of_mem fun {a b} ha hb hab => ?_
  have ha' := hsame a ha
  have hb' := hsame b hb
  cases mode with
  | date =>
    rw [SameKey] at ha' hb'
    rw [InOrder] at hab ⊢
    rw [ha', hb']
    exact hab
  | name =>
    rw [SameKey] at ha' hb'
    rw [InOrder] at hab ⊢
    rw [ha', hb']
    exact hab
  | add => trivial

theorem Kept.adjustByDate {s : RowList K ρ} (h : Kept s) {e : Entries K N ρ} {a b : List K}
    {key : K} (hrows : s.rows = a ++ key :: b) (hsorted : (a ++ b).Pairwise (InOrder .date e)) :
    Kept (s.adjustByDate e key) ∧
      (s.adjustByDate e key).rows.Pairwise (InOrder .date e) := by
  obtain ⟨hkept, -, hsorted'⟩ := h.adjust (r := InOrder .date e)
    (fun hxy hyz => le_trans hyz hxy) (fun x y => le_total _ _) hrows hsorted
    (fun other => decide_eq_true_iff (p := e.sortKey other ≤ e.sortKey key))
    fun other => decide_eq_true_iff (p := e.sortKey other ≥ e.sortKey key)
  exact ⟨hkept, hsorted'⟩

theorem Kept.adjustRowByName {s : RowList K ρ} (h : Kept s) {e : Entries K N ρ} {a b : List K}
    {key : K} (hrows : s.rows = a ++ key :: b) (hsorted : (a ++ b).Pairwise (InOrder .name e)) :
    Kept (s.adjustRowByName e key) ∧
      (s.adjustRowByName e key).rows.Pairwise (InOrder .name e) := by
  obtain ⟨hkept, -, hsorted'⟩ := h.adjust (r := InOrder .name e)
    (fun hxy hyz => le_trans hxy hyz) (fun x y => le_total _ _) hrows hsorted
    (fun other => decide_eq_true_iff
      (p := e.chatListNameSortKey other ≥ e.chatListNameSortKey key))
    fun other => decide_eq_true_iff (p := e.chatListNameSortKey other ≤ e.chatListNameSortKey key)
  exact ⟨hkept, hsorted'⟩

omit [LinearOrder N] [DecidableEq K] in
theorem Kept.notMem_of_none {s : RowList K ρ} (h : Kept s) {key : K}
    (hrow : s.getRow key = none) : key ∉ s.rows := by
  rw [← h.isSome_iff, hrow]
  simp

theorem Kept.addToEnd {s : RowList K ρ} (h : Kept s) {e : Entries K N ρ} (key : K)
    (hmode : s.sortMode ≠ .name) (hsorted : s.rows.Pairwise (InOrder s.sortMode e)) :
    Kept (s.addToEnd e key) ∧ (s.addToEnd e key).rows.Pairwise (InOrder s.sortMode e) := by
  unfold RowList.addToEnd
  split
  · exact ⟨h, hsorted⟩
  · next hrow =>
    have hpushed := h.pushBack e (h.notMem_of_none hrow)
    dsimp only
    cases hdate : s.sortMode with
    | date =>
      rw [if_pos rfl]
      rw [hdate] at hsorted
      exact hpushed.adjustByDate (a := s.rows) (b := []) rfl (by rwa [List.append_nil])
    | name => exact absurd hdate hmode
    | add =>
      rw [if_neg (by simp)]
      exact ⟨hpushed, List.pairwise_of_forall fun _ _ => trivial⟩

/-- The rows other than the one of `key` are in order already. -/
theorem Kept.adjustByName {s : RowList K ρ} (h : Kept s) {e : Entries K N ρ} (key : K)
    (hsorted : (s.rows.erase key).Pairwise (InOrder .name e)) :
    Kept (s.adjustByName e key) ∧ (s.adjustByName e key).rows.Pairwise (InOrder .name e) := by
  unfold RowList.adjustByName
  split
  · next row hrow =>
    obtain ⟨a, b, hrows⟩ := List.append_of_mem (h.registered key (hrow ▸ rfl))
    rw [hrows, List.erase_append_right _ (h.notMem hrows).1, List.erase_cons_head] at hsorted
    exact h.adjustRowByName hrows hsorted
  · next hrow =>
    rw [List.erase_of_not_mem (h.notMem_of_none hrow)] at hsorted
    exact ⟨h, hsorted⟩

theorem Kept.addByName {s : RowList K ρ} (h : Kept s) {e : Entries K N ρ} (key : K)
    (hmode : s.sortMode = .name) (hsorted : (s.rows.erase key).Pairwise (InOrder .name e)) :
    Kept (s.addByName e key) ∧ (s.addByName e key).rows.Pairwise (InOrder .name e) := by
  unfold RowList.addByName
  cases hrow : s.getRow key with
  | some row =>
    have hsame : s.addToEnd e key = s := by
      rw [RowList.addToEnd, hrow]
    rw [hsame]
    exact h.adjustByName key hsorted
  | none =>
    have hmem := h.notMem_of_none hrow
    have hpushed : s.addToEnd e key = s.pushBack e key := by
      rw [RowList.addToEnd, hrow]
      exact if_neg (by rw [hmode]; decide)
    rw [hpushed]
    refine (h.pushBack e hmem).adjustByName key ?_
    have herase : (s.pushBack e key).rows.erase key = s.rows.erase key := by
      rw [RowList.pushBack, List.erase_append_right _ hmem, List.erase_cons_head,
        List.append_nil, List.erase_of_not_mem hmem]
    exact herase ▸ hsorted

/-- The row that a call puts in order again. -/
def Op.adjusted : Op K ρ → Option K
  | .addByName key | .adjustByName key | .adjustByDate key => some key
  | _ => none

/-- A run in which only the row that the next call adjusts may get another sort key. The height of
an entry may change at any time. -/
inductive Reaches (mode : SortMode) (allowed : Op K ρ → Prop) :
    Entries K N ρ → RowList K ρ → Prop
  | start (e : Entries K N ρ) (narrowRatio : ρ) :
    Reaches mode allowed e { sortMode := mode, narrowRatio }
  | call {e e' : Entries K N ρ} {s t : RowList K ρ} {op : Op K ρ} (h : Reaches mode allowed e s)
    (hop : allowed op)
    (hkeys : ∀ key ∈ s.rows, op.adjusted ≠ some key → SameKey mode e e' key)
    (ht : s.step e' op = some t) : Reaches mode allowed e' t

theorem Kept.step {s t : RowList K ρ} (h : Kept s) {e e' : Entries K N ρ} {op : Op K ρ}
    (hsorted : s.rows.Pairwise (InOrder s.sortMode e))
    (hop : s.sortMode = .name → ∀ key, op ≠ .addToEnd key)
    (hkeys : ∀ key ∈ s.rows, op.adjusted ≠ some key → SameKey s.sortMode e e' key)
    (ht : s.step e' op = some t) :
    Kept t ∧ t.rows.Pairwise (InOrder s.sortMode e') := by
  have hothers : ∀ key, op.adjusted = some key →
      (s.rows.erase key).Pairwise (InOrder s.sortMode e') := by
    intro key hkey
    refine inOrder_of_sameKey (hsorted.sublist List.erase_sublist) fun other hother => ?_
    obtain ⟨hne, hmem⟩ := h.nodup.mem_erase_iff.mp hother
    exact hkeys other hmem fun heq => hne (Option.some.inj (heq.symm.trans hkey))
  have hall : op.adjusted = none → s.rows.Pairwise (InOrder s.sortMode e') := fun hnone =>
    inOrder_of_sameKey hsorted fun key hmem => hkeys key hmem (by rw [hnone]; simp)
  cases op with
  | addToEnd key =>
    obtain rfl := Option.some.inj ht
    exact h.addToEnd key (fun hmode => hop hmode key rfl) (hall rfl)
  | addByName key =>
    rw [RowList.step] at ht
    split_ifs at ht with hmode
    obtain rfl := Option.some.inj ht
    have hsorted' := hothers key rfl
    rw [hmode] at hsorted' ⊢
    exact h.addByName key hmode hsorted'
  | adjustByName key =>
    rw [RowList.step] at ht
    split_ifs at ht with hmode
    obtain rfl := Option.some.inj ht
    have hsorted' := hothers key rfl
    rw [hmode] at hsorted' ⊢
    exact h.adjustByName key hsorted'
  | adjustByDate key =>
    rw [RowList.step] at ht
    split_ifs at ht with hdate
    obtain rfl := Option.some.inj ht
    obtain ⟨a, b, hrows⟩ := List.append_of_mem (h.registered key hdate.2)
    have hsorted' := hothers key rfl
    rw [hrows, List.erase_append_right _ (h.notMem hrows).1, List.erase_cons_head,
      hdate.1] at hsorted'
    rw [hdate.1]
    exact h.adjustByDate hrows hsorted'
  | remove key =>
    obtain rfl := Option.some.inj ht
    obtain ⟨hkept, hrows⟩ := h.remove key
    rw [hrows]
    exact ⟨hkept, (hall rfl).sublist List.erase_sublist⟩
  | updateHeight key narrowRatio =>
    obtain rfl := Option.some.inj ht
    obtain ⟨hkept, hrows⟩ := h.updateHeight e' key narrowRatio
    rw [hrows]
    exact ⟨hkept, hall rfl⟩
  | updateHeights narrowRatio =>
    obtain rfl := Option.some.inj ht
    exact ⟨h.updateHeights e' narrowRatio, hall rfl⟩
  | clear =>
    obtain rfl := Option.some.inj ht
    exact ⟨Kept.clear s, List.Pairwise.nil⟩

omit [LinearOrder N] in
theorem sortMode_adjust (s : RowList K ρ) (key : K) (ahead behind : K → Bool) :
    (s.adjust key ahead behind).sortMode = s.sortMode := by
  unfold RowList.adjust
  dsimp only
  split_ifs <;> rfl

omit [LinearOrder N] in
theorem sortMode_addToEnd (s : RowList K ρ) (e : Entries K N ρ) (key : K) :
    (s.addToEnd e key).sortMode = s.sortMode := by
  unfold RowList.addToEnd
  split
  · rfl
  · dsimp only
    split_ifs
    · exact sortMode_adjust ..
    · rfl

theorem sortMode_adjustByName (s : RowList K ρ) (e : Entries K N ρ) (key : K) :
    (s.adjustByName e key).sortMode = s.sortMode := by
  unfold RowList.adjustByName
  split
  · exact sortMode_adjust ..
  · rfl

theorem sortMode_step {s t : RowList K ρ} {e : Entries K N ρ} {op : Op K ρ}
    (ht : s.step e op = some t) : t.sortMode = s.sortMode := by
  cases op with
  | addToEnd key =>
    obtain rfl := Option.some.inj ht
    exact sortMode_addToEnd ..
  | addByName key =>
    rw [RowList.step] at ht
    split_ifs at ht
    obtain rfl := Option.some.inj ht
    exact (sortMode_adjustByName ..).trans (sortMode_addToEnd ..)
  | adjustByName key =>
    rw [RowList.step] at ht
    split_ifs at ht
    obtain rfl := Option.some.inj ht
    exact sortMode_adjustByName ..
  | adjustByDate key =>
    rw [RowList.step] at ht
    split_ifs at ht
    obtain rfl := Option.some.inj ht
    exact sortMode_adjust ..
  | remove key =>
    obtain rfl := Option.some.inj ht
    unfold RowList.remove
    split <;> rfl
  | updateHeight key narrowRatio =>
    obtain rfl := Option.some.inj ht
    unfold RowList.updateHeight
    split
    · rfl
    · dsimp only
      split_ifs <;> rfl
  | updateHeights narrowRatio => exact Option.some.inj ht ▸ rfl
  | clear => exact Option.some.inj ht ▸ rfl

/-- `IndexedList` adds to a list that is sorted by name through `addByName` only. -/
def AddedByName (mode : SortMode) (op : Op K ρ) : Prop :=
  mode = .name → ∀ key, op ≠ .addToEnd key

theorem Reaches.kept {mode : SortMode} {e : Entries K N ρ} {s : RowList K ρ}
    (h : Reaches mode (AddedByName mode) e s) :
    s.sortMode = mode ∧ Kept s ∧ s.rows.Pairwise (InOrder mode e) := by
  induction h with
  | start e narrowRatio =>
    exact ⟨rfl, Kept.clear { sortMode := mode, narrowRatio }, List.Pairwise.nil⟩
  | call h hop hkeys ht ih =>
    obtain ⟨rfl, hkept, hsorted⟩ := ih
    exact ⟨sortMode_step ht, hkept.step hsorted hop hkeys ht⟩

/-- Calls that follow each other under the same entries. -/
theorem Reaches.calls {mode : SortMode} {allowed : Op K ρ → Prop} {e : Entries K N ρ}
    {s t : RowList K ρ} (h : Reaches mode allowed e s) (ops : List (Op K ρ))
    (hops : ∀ op ∈ ops, allowed op) (ht : ops.foldlM (fun s op => s.step e op) s = some t) :
    Reaches mode allowed e t := by
  induction ops generalizing s with
  | nil => exact Option.some.inj ht ▸ h
  | cons op ops ih =>
    obtain ⟨next, hnext, hrest⟩ := Option.bind_eq_some_iff.mp ht
    refine ih (h.call (hops op List.mem_cons_self) (fun key _ _ => ?_) hnext)
      (fun op hop => hops op (List.mem_cons_of_mem _ hop)) hrest
    cases mode with
    | date => exact rfl
    | name => exact rfl
    | add => trivial

omit [LinearOrder N] [DecidableEq K] in
theorem Kept.bottomOf_le {s : RowList K ρ} (h : Kept s) {a b : List K} {key other : K}
    (hrows : s.rows = a ++ key :: b) (hother : other ∈ a) :
    s.bottomOf other ≤ s.topOf key := by
  obtain ⟨front, back, rfl⟩ := List.append_of_mem hother
  have hrows' : s.rows = front ++ other :: (back ++ key :: b) := by
    rw [hrows]
    simp
  rw [bottomOf, h.topOf hrows', h.topOf hrows, total_append, total_cons]
  omega

omit [DecidableEq K] in
/-- The search stops one row early where a row ends and another one begins. -/
theorem Kept.rowAtY {s : RowList K ρ} (h : Kept s) {y : ℤ}
    (hy : ∀ key ∈ s.rows.dropLast, (s.bottomOf key : ℤ) ≠ y) (key : K) :
    s.rowAtY y = some key ↔ key ∈ s.rows ∧ s.topOf key ≤ y ∧ y < s.bottomOf key := by
  constructor
  · intro hfound
    unfold RowList.rowAtY at hfound
    split at hfound
    · exact nomatch hfound
    · next other hother =>
      split_ifs at hfound with hinside
      obtain rfl := Option.some.inj hfound
      exact ⟨List.mem_of_find?_eq_some hother, hinside⟩
  · rintro ⟨hmem, htop, hbottom⟩
    obtain ⟨a, b, hrows⟩ := List.append_of_mem hmem
    have hfind : s.findByY y = some key := by
      refine List.find?_eq_some_iff_append.mpr ⟨by simpa using hbottom.le, a, b, hrows, ?_⟩
      intro other hother
      have hle := h.bottomOf_le hrows hother
      have hne := hy other (by
        rw [hrows, List.dropLast_append_of_ne_nil (by simp)]
        exact List.mem_append_left _ hother)
      have hlt : (s.bottomOf other : ℤ) < y := by omega
      simpa using hlt
    unfold RowList.rowAtY
    rw [hfind]
    exact if_pos ⟨htop, hbottom⟩

/-- In every run the keys do not repeat, each row knows its place, the rows are in order, and a
point finds the row it is in unless it is where a row ends and another one begins. -/
theorem rows_ordered_and_laid {mode : SortMode} {e : Entries K N ρ} {s : RowList K ρ}
    (h : Reaches mode (AddedByName mode) e s) :
    s.rows.Nodup ∧ (∀ key, (s.getRow key).isSome ↔ key ∈ s.rows) ∧
    (∀ (i : ℕ) key, s.rows[i]? = some key → s.indexOf key = i ∧
      s.topOf key = ((s.rows.take i).map (heightOf s.rowByKey)).sum) ∧
    (mode = .date → s.rows.Pairwise fun a b => e.sortKey a ≥ e.sortKey b) ∧
    (mode = .name →
      s.rows.Pairwise fun a b => e.chatListNameSortKey a ≤ e.chatListNameSortKey b) ∧
    ∀ y : ℤ, (∀ key ∈ s.rows.dropLast, (s.bottomOf key : ℤ) ≠ y) →
      ∀ key, s.rowAtY y = some key ↔ key ∈ s.rows ∧ s.topOf key ≤ y ∧ y < s.bottomOf key := by
  obtain ⟨-, hkept, hsorted⟩ := h.kept
  refine ⟨hkept.nodup, hkept.isSome_iff, ?_, ?_, ?_, fun y hy key => hkept.rowAtY hy key⟩
  · intro i key hget
    obtain ⟨hi, rfl⟩ := List.getElem?_eq_some_iff.mp hget
    have hrows : s.rows = s.rows.take i ++ s.rows[i] :: s.rows.drop (i + 1) := by
      rw [← List.drop_eq_getElem_cons hi, List.take_append_drop]
    refine ⟨(hkept.indexOf hrows).trans ?_, hkept.topOf hrows⟩
    exact List.length_take_of_le hi.le
  · rintro rfl
    exact hsorted
  · rintro rfl
    exact hsorted

/-- Chats that are their own keys, all of one height. -/
def sampleEntries : Entries ℕ ℕ Unit where
  sortKey key := key
  chatListNameSortKey key := key
  recountHeight _ _ := 10

/-- Three chats come in, the last one gets a message and goes up, the first one is removed. -/
theorem rows_ordered_and_laid_message : ∃ (e : Entries ℕ ℕ Unit) (s : RowList ℕ Unit),
    Reaches .date (AddedByName .date) e s ∧ s.rows = [1, 2] ∧ s.rowAtY 13 = some 2 ∧
    s.rows.Pairwise fun a b => e.sortKey a ≥ e.sortKey b := by
  let e : Entries ℕ ℕ Unit :=
    { sampleEntries with sortKey := fun key => if key = 1 then 9 else key }
  have hallowed : ∀ op : Op ℕ Unit, AddedByName .date op := fun op hmode => nomatch hmode
  have hrun : ∃ s, Reaches .date (AddedByName .date) e s ∧ s.rows = [1, 2] ∧
      (∀ key ∈ s.rows.dropLast, (s.bottomOf key : ℤ) ≠ 13) ∧
      2 ∈ s.rows ∧ s.topOf 2 ≤ 13 ∧ 13 < s.bottomOf 2 := by
    have hstart : Reaches .date (AddedByName .date) sampleEntries _ := .start sampleEntries ()
    have hadded := hstart.calls [.addToEnd 1, .addToEnd 2, .addToEnd 3]
      (fun op _ => hallowed op) rfl
    have hkeys : ∀ key, (Op.adjustByDate 1 : Op ℕ Unit).adjusted ≠ some key →
        SameKey .date sampleEntries e key := fun key hne =>
      if_neg fun heq : key = 1 => hne (heq ▸ rfl)
    have hmoved : Reaches .date (AddedByName .date) e _ :=
      hadded.call (hallowed (.adjustByDate 1)) (fun key _ => hkeys key) rfl
    exact ⟨_, hmoved.calls [.remove 3] (fun op _ => hallowed op) rfl, by decide⟩
  obtain ⟨s, hs, hrows, hy, hinside⟩ := hrun
  obtain ⟨-, -, -, hsorted, -, hrowAtY⟩ := rows_ordered_and_laid hs
  exact ⟨e, s, hs, hrows, (hrowAtY 13 hy 2).mpr (by exact_mod_cast hinside), hsorted rfl⟩

/-- In a list sorted by name a row that is only added to the end stays there, and a point on the
edge between two rows finds none. -/
theorem addToEnd_unsorted_and_edge_misses :
    (∃ s : RowList ℕ Unit, Reaches .name (fun _ => True) sampleEntries s ∧
      ¬ s.rows.Pairwise fun a b =>
        sampleEntries.chatListNameSortKey a ≤ sampleEntries.chatListNameSortKey b) ∧
    ∃ s : RowList ℕ Unit, Reaches .date (fun _ => True) sampleEntries s ∧
      s.rowAtY 10 = none ∧ 1 ∈ s.rows ∧ s.topOf 1 ≤ 10 ∧ 10 < s.bottomOf 1 := by
  have hname : Reaches .name (fun _ => True) sampleEntries _ := .start sampleEntries ()
  have hdate : Reaches .date (fun _ => True) sampleEntries _ := .start sampleEntries ()
  have hname' := hname.calls [.addToEnd 2, .addToEnd 1] (fun _ _ => trivial) rfl
  have hdate' := hdate.calls [.addToEnd 2, .addToEnd 1] (fun _ _ => trivial) rfl
  exact ⟨⟨_, hname', by decide⟩, _, hdate', by decide⟩

end Order

end RowList

end TelegramDesktop.Dialogs
