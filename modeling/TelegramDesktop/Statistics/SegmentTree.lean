import Mathlib

namespace TelegramDesktop.Statistics

variable {α : Type*}

structure Node (α : Type*) where
  max : α
  min : α
  pendingVal : Option α
  start : ℕ
  stop : ℕ

structure SegmentTree (α : Type*) where
  array : List α
  heap : List (Node α)

namespace SegmentTree

def kMinArraySize : ℕ := 30

/-- Writing a node; `none` is an index outside the heap. -/
def write (heap : List (Node α)) (v : ℕ) (f : Node α → Node α) : Option (List (Node α)) :=
  heap[v]?.map fun n => heap.set v (f n)

/-- Building of nothing does not end. -/
def build [LinearOrder α] (array : List α) (v start size : ℕ) (heap : List (Node α)) :
    Option (List (Node α)) :=
  if size = 0 then none
  else do
    let heap ← write heap v fun n => { n with start := start, stop := start + size - 1 }
    if size = 1 then
      let value ← array[start]?
      write heap v fun n => { n with max := value, min := value }
    else
      let heap ← build array (2 * v) start (size / 2) heap
      let heap ← build array (2 * v + 1) (start + size / 2) (size - size / 2) heap
      let left ← heap[2 * v]?
      let right ← heap[2 * v + 1]?
      write heap v fun n =>
        { n with max := Max.max left.max right.max, min := Min.min left.min right.min }
termination_by size

/-- The capacity is that of the exact logarithm. -/
def construct [LinearOrder α] [Zero α] (array : List α) : Option (SegmentTree α) :=
  if array.length < kMinArraySize then some ⟨array, []⟩
  else
    let size := 2 * 2 ^ (Nat.log 2 array.length + 1)
    (build array 1 0 array.length (List.replicate size ⟨0, 0, none, 0, 0⟩)).map fun heap =>
      ⟨array, heap⟩

def contains (from1 to1 from2 to2 : ℤ) : Bool := from2 ≥ from1 && to2 ≤ to1

def intersects (from1 to1 from2 to2 : ℤ) : Bool :=
  (from1 ≤ from2 && to1 ≥ from2) || (from1 ≥ from2 && from1 ≤ to2)

def change (tree : SegmentTree α) (v : ℕ) (value : α) : Option (SegmentTree α) := do
  let n ← tree.heap[v]?
  let heap ← write tree.heap v fun n =>
    { n with pendingVal := some value, max := value, min := value }
  if n.start < tree.array.length then some ⟨tree.array.set n.start value, heap⟩ else none

def propagate (tree : SegmentTree α) (v : ℕ) : Option (SegmentTree α) := do
  let n ← tree.heap[v]?
  match n.pendingVal with
  | none => some tree
  | some value =>
    let heap ← write tree.heap v fun n => { n with pendingVal := none }
    let tree ← change ⟨tree.array, heap⟩ (2 * v) value
    change tree (2 * v + 1) value

/-- A value, the indexes of the heap that were used for it and the tree left. -/
structure Found (α : Type*) where
  value : α
  used : List ℕ
  tree : SegmentTree α

/-- The recursion of both queries, by what a node gives, what a node outside gives and how the
children are joined; the fuel bounds its depth. -/
def query (pick : Node α → α) (outside : α) (join : α → α → α) :
    ℕ → SegmentTree α → ℕ → ℤ → ℤ → Option (Found α)
  | 0, _, _, _, _ => none
  | fuel + 1, tree, v, first, last => do
    let n ← tree.heap[v]?
    match if contains n.start n.stop first last then n.pendingVal else none with
    | some value => some ⟨value, [v], tree⟩
    | none =>
      if contains first last n.start n.stop then some ⟨pick n, [v], tree⟩
      else if intersects first last n.start n.stop then
        let tree ← propagate tree v
        let left ← query pick outside join fuel tree (2 * v) first last
        let right ← query pick outside join fuel left.tree (2 * v + 1) first last
        some ⟨join left.value right.value, v :: left.used ++ right.used, right.tree⟩
      else some ⟨outside, [v], tree⟩

/-- The loop over a small array, for so many more elements. -/
def scan (join : α → α → α) (array : List α) : ℕ → ℕ → α → Option α
  | 0, _, value => some value
  | count + 1, i, value => do scan join array count (i + 1) (join value (← array[i]?))

def scanRange (join : α → α → α) (array : List α) (value : α) (first last : ℤ) : Option α :=
  let first := max first 0
  let last := min last (array.length - 1)
  scan join array (last + 1 - first).toNat first.toNat value

section
variable [LinearOrder α]

def rMaxQ [Zero α] (tree : SegmentTree α) (first last : ℤ) : Option (Found α) :=
  if tree.array.length < kMinArraySize then
    (scanRange max tree.array 0 first last).map fun value => ⟨value, [], tree⟩
  else query Node.max 0 max tree.heap.length tree 1 first last

def rMinQ [OrderTop α] (tree : SegmentTree α) (first last : ℤ) : Option (Found α) :=
  if tree.array.length < kMinArraySize then
    (scanRange min tree.array ⊤ first last).map fun value => ⟨value, [], tree⟩
  else query Node.min ⊤ min tree.heap.length tree 1 first last

end

/-- A node of the tree under `v`. -/
def Below (v u : ℕ) : Prop := ∃ k, u / 2 ^ k = v

theorem below_self (v : ℕ) : Below v v := ⟨0, by rw [pow_zero, Nat.div_one]⟩

theorem Below.half {v w u : ℕ} (h : Below w u) (hw : w / 2 = v) : Below v u := by
  obtain ⟨k, hk⟩ := h
  refine ⟨k + 1, ?_⟩
  rw [pow_succ, ← Nat.div_div_eq_div_mul, hk, hw]

theorem Below.left {v u : ℕ} (h : Below (2 * v) u) : Below v u := h.half (by omega)

theorem Below.right {v u : ℕ} (h : Below (2 * v + 1) u) : Below v u := h.half (by omega)

theorem not_below_of_lt {v u : ℕ} (h : u < v) : ¬ Below v u := by
  rintro ⟨k, hk⟩
  have hle := Nat.div_le_self u (2 ^ k)
  omega

/-- The two trees under a node have nothing in common. -/
theorem Below.disjoint {v u : ℕ} (hleft : Below (2 * v) u) (hv : 0 < v) :
    ¬ Below (2 * v + 1) u := by
  rintro ⟨l, hl⟩
  obtain ⟨k, hk⟩ := hleft
  obtain hlt | heq | hgt := lt_trichotomy k l
  · obtain ⟨d, rfl⟩ := Nat.exists_eq_add_of_lt hlt
    rw [Nat.add_assoc, pow_add, ← Nat.div_div_eq_div_mul, hk] at hl
    have hle := Nat.div_le_self (2 * v) (2 ^ (d + 1))
    omega
  · rw [heq, hl] at hk
    omega
  · obtain ⟨d, rfl⟩ := Nat.exists_eq_add_of_lt hgt
    rw [Nat.add_assoc, pow_add, ← Nat.div_div_eq_div_mul, hl] at hk
    have htwo : 2 ≤ 2 ^ (d + 1) := Nat.le_self_pow (Nat.succ_ne_zero d) 2
    have hle : (2 * v + 1) / 2 ^ (d + 1) ≤ (2 * v + 1) / 2 := Nat.div_le_div_left htwo (by decide)
    omega

theorem write_eq {heap : List (Node α)} {v : ℕ} {n : Node α} (h : heap[v]? = some n)
    (f : Node α → Node α) : write heap v f = some (heap.set v (f n)) := by
  rw [write, h, Option.map_some]

/-- The elements at the indexes of a range that are inside the array. -/
def elements (array : List α) (first last : ℤ) : Set α :=
  {y | ∃ i : ℕ, first ≤ i ∧ i ≤ last ∧ array[i]? = some y}

theorem elements_self {array : List α} {i : ℕ} {value : α} (h : array[i]? = some value) :
    elements array i i = {value} := by
  ext y
  constructor
  · rintro ⟨j, hij, hji, hy⟩
    obtain rfl : i = j := by omega
    rw [h] at hy
    exact (Option.some.inj hy).symm
  · rintro rfl
    exact ⟨i, le_rfl, le_rfl, h⟩

theorem elements_union (array : List α) {first middle last : ℤ} (h1 : first ≤ middle)
    (h2 : middle ≤ last + 1) :
    elements array first (middle - 1) ∪ elements array middle last = elements array first last := by
  ext y
  constructor
  · rintro (⟨i, hi, hi', hy⟩ | ⟨i, hi, hi', hy⟩)
    · exact ⟨i, hi, by omega, hy⟩
    · exact ⟨i, by omega, hi', hy⟩
  · rintro ⟨i, hi, hi', hy⟩
    by_cases hm : (i : ℤ) < middle
    · exact Or.inl ⟨i, hi, by omega, hy⟩
    · exact Or.inr ⟨i, by omega, hi', hy⟩

theorem elements_empty (array : List α) {first last : ℤ} (h : last < first) :
    elements array first last = ∅ := by
  rw [Set.eq_empty_iff_forall_notMem]
  rintro y ⟨i, hi, hi', -⟩
  omega

section
variable [LinearOrder α]

/-- What is said of a node of so many elements from `start` on. -/
structure Holds (array : List α) (start size : ℕ) (n : Node α) : Prop where
  startsAt : n.start = start
  stopsAt : n.stop + 1 = start + size
  noPending : n.pendingVal = none
  isGreatest : IsGreatest (elements array start (start + size - 1)) n.max
  isLeast : IsLeast (elements array start (start + size - 1)) n.min

/-- The tree under `v` is built for so many elements from `start` on. -/
inductive Built (array : List α) (heap : List (Node α)) : ℕ → ℕ → ℕ → Prop
  | leaf {v start : ℕ} {n : Node α} : heap[v]? = some n → Holds array start 1 n →
      Built array heap v start 1
  | node {v start size : ℕ} {n : Node α} : heap[v]? = some n → Holds array start size n →
      2 ≤ size → Built array heap (2 * v) start (size / 2) →
      Built array heap (2 * v + 1) (start + size / 2) (size - size / 2) →
      Built array heap v start size

variable {array : List α} {heap heap' : List (Node α)} {v start size : ℕ}

theorem Built.congr (h : Built array heap v start size)
    (hsame : ∀ u, Below v u → heap'[u]? = heap[u]?) : Built array heap' v start size := by
  induction h with
  | leaf hn hholds => exact .leaf ((hsame _ (below_self _)).trans hn) hholds
  | node hn hholds hsize _ _ ihleft ihright =>
    refine .node ((hsame _ (below_self _)).trans hn) hholds hsize ?_ ?_
    · exact ihleft fun u hu => hsame u hu.left
    · exact ihright fun u hu => hsame u hu.right

theorem Built.holds (h : Built array heap v start size) :
    ∃ n, heap[v]? = some n ∧ Holds array start size n := by
  cases h with
  | leaf hn hholds => exact ⟨_, hn, hholds⟩
  | node hn hholds _ _ _ => exact ⟨_, hn, hholds⟩

/-- The node over two built ones. -/
theorem Holds.node {left right n : Node α} {half : ℕ} (hleft : Holds array start half left)
    (hright : Holds array (start + half) (size - half) right) (hhalf : half ≤ size)
    (hstart : n.start = start) (hstop : n.stop + 1 = start + size) (hpending : n.pendingVal = none)
    (hmax : n.max = Max.max left.max right.max) (hmin : n.min = Min.min left.min right.min) :
    Holds array start size n := by
  have hcut : elements array start (start + half - 1) ∪
      elements array (start + half : ℕ) ((start + half : ℕ) + (size - half : ℕ) - 1) =
        elements array start (start + size - 1) := by
    have hend : ((start + half : ℕ) : ℤ) + (size - half : ℕ) - 1 = start + size - 1 := by omega
    rw [hend, Nat.cast_add]
    exact elements_union array (by omega) (by omega)
  refine ⟨hstart, hstop, hpending, ?_, ?_⟩
  · rw [hmax, ← hcut]
    exact hleft.isGreatest.union hright.isGreatest
  · rw [hmin, ← hcut]
    exact hleft.isLeast.union hright.isLeast

def NoPending (heap : List (Node α)) : Prop := ∀ n ∈ heap, n.pendingVal = none

omit [LinearOrder α] in
theorem NoPending.set (h : NoPending heap) (v : ℕ) {n : Node α} (hn : n.pendingVal = none) :
    NoPending (heap.set v n) := by
  intro m hm
  obtain hm | rfl := List.mem_or_eq_of_mem_set hm
  · exact h m hm
  · exact hn

/-- All nodes are inside the heap, and those of other trees stay. -/
theorem build_built {depth : ℕ} (hv : 0 < v) (hsize : 0 < size) (hdepth : size ≤ 2 ^ depth)
    (hheap : (v + 1) * 2 ^ depth ≤ heap.length) (harray : start + size ≤ array.length)
    (hpending : NoPending heap) :
    ∃ heap', build array v start size heap = some heap' ∧ heap'.length = heap.length ∧
      (∀ u, ¬ Below v u → heap'[u]? = heap[u]?) ∧
      NoPending heap' ∧ Built array heap' v start size := by
  induction size using Nat.strong_induction_on generalizing v start depth heap with
  | _ size ih =>
    have hfits : v < heap.length := by
      have hpow : 1 ≤ 2 ^ depth := Nat.one_le_two_pow
      have hle := Nat.mul_le_mul_left (v + 1) hpow
      omega
    obtain ⟨n, hn⟩ : ∃ n, heap[v]? = some n := ⟨_, List.getElem?_eq_getElem hfits⟩
    obtain ⟨fresh, hfresh⟩ : ∃ fresh : Node α,
        fresh = { n with start := start, stop := start + size - 1 } := ⟨_, rfl⟩
    have hset : ∀ m : Node α, (heap.set v m)[v]? = some m := fun m =>
      List.getElem?_set_self hfits
    have hother : ∀ (m : Node α) u, ¬ Below v u → (heap.set v m)[u]? = heap[u]? := by
      intro m u hu
      apply List.getElem?_set_ne
      rintro rfl
      exact hu (below_self v)
    rw [build, if_neg (by omega), write_eq hn, ← hfresh, Option.bind_eq_bind, Option.bind_some]
    by_cases hone : size = 1
    · obtain ⟨value, hvalue⟩ : ∃ value, array[start]? = some value :=
        ⟨_, List.getElem?_eq_getElem (by omega)⟩
      rw [if_pos hone, hvalue, Option.bind_eq_bind, Option.bind_some, write_eq (hset fresh),
        List.set_set]
      have hnone : n.pendingVal = none := hpending n (List.mem_of_getElem? hn)
      refine ⟨_, rfl, List.length_set, hother _, hpending.set v ?_, ?_⟩
      · rw [hfresh]
        exact hnone
      · have hrange : elements array start (start + (1 : ℕ) - 1) = {value} := by
          rw [Nat.cast_one, add_sub_cancel_right]
          exact elements_self hvalue
        subst hone
        refine .leaf (hset _) ⟨?_, ?_, ?_, ?_, ?_⟩
        · rw [hfresh]
        · rw [hfresh]
          rfl
        · rw [hfresh]
          exact hnone
        · rw [hrange]
          exact isGreatest_singleton
        · rw [hrange]
          exact isLeast_singleton
    · obtain ⟨depth, rfl⟩ : ∃ d, depth = d + 1 := by
        refine ⟨depth - 1, (Nat.sub_add_cancel ?_).symm⟩
        by_contra hzero
        have hdepth0 : depth = 0 := by omega
        rw [hdepth0, pow_zero] at hdepth
        omega
      rw [pow_succ] at hdepth hheap
      have hnone : n.pendingVal = none := hpending n (List.mem_of_getElem? hn)
      have hpending0 : NoPending (heap.set v fresh) :=
        hpending.set v (by rw [hfresh]; exact hnone)
      -- the left tree, then the right one, then the node over them
      obtain ⟨heap1, hbuild1, hlength1, hother1, hpending1, hleft⟩ :=
        @ih (size / 2) (by omega) (heap.set v fresh) (2 * v) start depth (by omega) (by omega)
          (by omega) (by rw [List.length_set]; nlinarith) (by omega) hpending0
      rw [List.length_set] at hlength1
      obtain ⟨heap2, hbuild2, hlength2, hother2, hpending2, hright⟩ :=
        @ih (size - size / 2) (by omega) heap1 (2 * v + 1) (start + size / 2) depth (by omega)
          (by omega) (by omega) (by rw [hlength1]; nlinarith) (by omega) hpending1
      have hleft2 : Built array heap2 (2 * v) start (size / 2) :=
        hleft.congr fun u hu => hother2 u (hu.disjoint hv)
      obtain ⟨left, hleftn, hleftholds⟩ := hleft2.holds
      obtain ⟨right, hrightn, hrightholds⟩ := hright.holds
      have hv1 : ¬ Below (2 * v) v := not_below_of_lt (by omega)
      have hv2 : ¬ Below (2 * v + 1) v := not_below_of_lt (by omega)
      have hn2 : heap2[v]? = some fresh := by rw [hother2 v hv2, hother1 v hv1, hset]
      have hset2 : ∀ m : Node α, (heap2.set v m)[v]? = some m := fun m =>
        List.getElem?_set_self (by omega)
      have hkept : ∀ (m : Node α) w, v < w → ∀ u, Below w u → (heap2.set v m)[u]? = heap2[u]? := by
        intro m w hw u hu
        apply List.getElem?_set_ne
        rintro rfl
        exact not_below_of_lt hw hu
      rw [if_neg hone, hbuild1, Option.bind_eq_bind, Option.bind_some, hbuild2, Option.bind_some,
        hleftn, Option.bind_some, hrightn, Option.bind_some, write_eq hn2]
      refine ⟨_, rfl, ?_, ?_, hpending2.set v ?_, ?_⟩
      · rw [List.length_set, hlength2, hlength1]
      · intro u hu
        have hne : v ≠ u := by
          rintro rfl
          exact hu (below_self v)
        rw [List.getElem?_set_ne hne, hother2 u fun h => hu h.right, hother1 u fun h => hu h.left,
          hother fresh u hu]
      · rw [hfresh]
        exact hnone
      · refine .node (hset2 _) ?_ (by omega) (hleft2.congr (hkept _ _ (by omega)))
          (hright.congr (hkept _ _ (by omega)))
        refine hleftholds.node hrightholds (by omega) ?_ ?_ ?_ rfl rfl
        · rw [hfresh]
        · rw [hfresh]
          change start + size - 1 + 1 = start + size
          omega
        · rw [hfresh]
          exact hnone

/-- The capacity is enough for the whole tree. -/
theorem construct_built [Zero α] (h : kMinArraySize ≤ array.length) :
    ∃ heap, construct array = some ⟨array, heap⟩ ∧ Built array heap 1 0 array.length ∧
      array.length ≤ heap.length := by
  have hsize : 30 ≤ array.length := h
  have hlog : array.length < 2 ^ (Nat.log 2 array.length + 1) :=
    Nat.lt_pow_succ_log_self (by decide) _
  have hpending : NoPending (List.replicate (2 * 2 ^ (Nat.log 2 array.length + 1))
      (⟨0, 0, none, 0, 0⟩ : Node α)) := fun n hn => by rw [List.eq_of_mem_replicate hn]
  have hfits : 0 + array.length ≤ array.length := (Nat.zero_add _).le
  obtain ⟨heap, hbuild, hlength, -, -, hbuilt⟩ := build_built (Nat.zero_lt_one) (by omega)
    hlog.le (by rw [List.length_replicate]) hfits hpending
  rw [List.length_replicate] at hlength
  refine ⟨heap, ?_, hbuilt, by omega⟩
  rw [construct, if_neg (by omega)]
  dsimp only
  rw [hbuild, Option.map_some]

/-- An index is the root, or the child of a node of more than one element. -/
def NotBelowLeaf (tree : SegmentTree α) (v : ℕ) : Prop :=
  v < tree.heap.length ∧ (v = 1 ∨ ∃ n, tree.heap[v / 2]? = some n ∧ n.start < n.stop)

/-- Answers for two sets are joined to one for both. -/
structure Answers (P : Set α → α → Prop) (outside : α) (join : α → α → α) : Prop where
  outside : P {outside} outside
  union : ∀ s t a b, P s a → P t b → P (s ∪ t) (join a b)

theorem answers_max (zero : α) : Answers IsGreatest zero Max.max where
  outside := isGreatest_singleton
  union _ _ _ _ hs ht := hs.union ht

theorem answers_min (top : α) : Answers IsLeast top Min.min where
  outside := isLeast_singleton
  union _ _ _ _ hs ht := hs.union ht

variable {tree : SegmentTree α} {pick : Node α → α} {outside : α} {join : α → α → α}
  {P : Set α → α → Prop} {first last : ℤ}

theorem contains_iff {a b c d : ℤ} : contains a b c d = true ↔ a ≤ c ∧ d ≤ b := by
  rw [contains, Bool.and_eq_true, decide_eq_true_iff, decide_eq_true_iff]

theorem intersects_iff {a b c d : ℤ} (hab : a ≤ b) (hcd : c ≤ d) :
    intersects a b c d = true ↔ a ≤ d ∧ c ≤ b := by
  simp only [intersects, Bool.or_eq_true, Bool.and_eq_true, decide_eq_true_iff]
  omega

/-- The elements of a node that are inside the range. -/
def inside (array : List α) (first last : ℤ) (start size : ℕ) : Set α :=
  elements array (max first start) (min last (start + size - 1))

omit [LinearOrder α] in
theorem inside_union (array : List α) (first last : ℤ) {start size half : ℕ} (h : half ≤ size) :
    inside array first last start half ∪ inside array first last (start + half) (size - half) =
      inside array first last start size := by
  ext y
  constructor
  · rintro (⟨i, hi, hi', hy⟩ | ⟨i, hi, hi', hy⟩)
    · exact ⟨i, hi, by omega, hy⟩
    · exact ⟨i, by omega, by omega, hy⟩
  · rintro ⟨i, hi, hi', hy⟩
    by_cases hm : i < start + half
    · exact Or.inl ⟨i, hi, by omega, hy⟩
    · exact Or.inr ⟨i, by omega, by omega, hy⟩

def Covers (first last : ℤ) (start size : ℕ) : Prop :=
  first ≤ start ∧ (start + size - 1 : ℤ) ≤ last

/-- A node covered by the range gives its own value; otherwise some node outside the range takes
part in the answer. -/
structure NodeAnswer (P : Set α → α → Prop) (outside : α) (array : List α) (first last : ℤ)
    (start size : ℕ) (value : α) : Prop where
  covered : Covers first last start size → P (inside array first last start size) value
  cut : ¬ Covers first last start size →
    P (insert outside (inside array first last start size)) value

omit [LinearOrder α] in
theorem NodeAnswer.joined (hP : Answers P outside join) {array : List α} {half : ℕ} {a b : α}
    (hhalf : half ≤ size) (hcut : ¬ Covers first last start size)
    (hleft : NodeAnswer P outside array first last start half a)
    (hright : NodeAnswer P outside array first last (start + half) (size - half) b) :
    NodeAnswer P outside array first last start size (join a b) := by
  refine ⟨fun h => absurd h hcut, fun _ => ?_⟩
  rw [← inside_union array first last hhalf]
  by_cases hl : Covers first last start half
  · by_cases hr : Covers first last (start + half) (size - half)
    · exact absurd ⟨hl.1, by have hlast := hr.2; omega⟩ hcut
    · rw [← Set.union_insert]
      exact hP.union _ _ _ _ (hleft.covered hl) (hright.cut hr)
  · by_cases hr : Covers first last (start + half) (size - half)
    · rw [← Set.insert_union]
      exact hP.union _ _ _ _ (hleft.cut hl) (hright.covered hr)
    · rw [Set.insert_union_distrib]
      exact hP.union _ _ _ _ (hleft.cut hl) (hright.cut hr)

theorem query_answers (hP : Answers P outside join)
    (hpick : ∀ start size n, Holds tree.array start size n →
      P (elements tree.array start (start + size - 1)) (pick n))
    (hle : first ≤ last) (hv : 0 < v) (hbuilt : Built tree.array tree.heap v start size)
    (hlive : NotBelowLeaf tree v) {fuel : ℕ} (hfuel : size ≤ fuel) :
    ∃ value used, query pick outside join fuel tree v first last = some ⟨value, used, tree⟩ ∧
      (∀ u ∈ used, NotBelowLeaf tree u) ∧
      NodeAnswer P outside tree.array first last start size value := by
  induction size using Nat.strong_induction_on generalizing v start fuel with
  | _ size ih =>
    obtain ⟨n, hn, hholds⟩ := hbuilt.holds
    have hsize : 0 < size := by
      cases hbuilt with
      | leaf => decide
      | node _ _ htwo => omega
    obtain ⟨fuel, rfl⟩ : ∃ f, fuel = f + 1 := ⟨fuel - 1, by omega⟩
    have hstop : (n.stop : ℤ) = start + size - 1 := by
      have hcast := hholds.stopsAt
      omega
    have hpending : (if contains n.start n.stop first last then n.pendingVal else none) = none := by
      rw [hholds.noPending, ite_self]
    rw [query, hn, Option.bind_eq_bind, Option.bind_some, hpending]
    dsimp only
    rw [hholds.startsAt, hstop]
    by_cases hcovered : first ≤ start ∧ (start + size - 1 : ℤ) ≤ last
    · rw [if_pos (contains_iff.mpr hcovered)]
      refine ⟨_, _, rfl, fun u hu => ?_, fun _ => ?_, fun h => absurd hcovered h⟩
      · rw [List.mem_singleton.mp hu]
        exact hlive
      · rw [inside, max_eq_right hcovered.1, min_eq_right hcovered.2]
        exact hpick start size n hholds
    rw [if_neg (by rwa [contains_iff])]
    by_cases hmeets : first ≤ (start + size - 1 : ℤ) ∧ (start : ℤ) ≤ last
    · rw [if_pos ((intersects_iff hle (by omega)).mpr hmeets)]
      have hpropagate : propagate tree v = some tree := by
        rw [propagate, hn, Option.bind_eq_bind, Option.bind_some, hholds.noPending]
      rw [hpropagate, Option.bind_eq_bind, Option.bind_some]
      cases hbuilt with
      -- a range that meets one element covers it
      | leaf => omega
      | node _ _ htwo hleft hright =>
        have hparent : n.start < n.stop := by
          have hcast := hholds.startsAt
          omega
        have hliveleft : NotBelowLeaf tree (2 * v) := by
          obtain ⟨m, hm, -⟩ := hleft.holds
          refine ⟨(List.getElem?_eq_some_iff.mp hm).1, Or.inr ⟨n, ?_, hparent⟩⟩
          rwa [Nat.mul_div_cancel_left v (by decide)]
        have hliveright : NotBelowLeaf tree (2 * v + 1) := by
          obtain ⟨m, hm, -⟩ := hright.holds
          refine ⟨(List.getElem?_eq_some_iff.mp hm).1, Or.inr ⟨n, ?_, hparent⟩⟩
          rwa [show (2 * v + 1) / 2 = v by omega]
        obtain ⟨a, usedleft, hqueryleft, huleft, hanswerleft⟩ :=
          ih (size / 2) (by omega) (by omega) hleft hliveleft (by omega : size / 2 ≤ fuel)
        obtain ⟨b, usedright, hqueryright, huright, hanswerright⟩ :=
          ih (size - size / 2) (by omega) (by omega) hright hliveright
            (by omega : size - size / 2 ≤ fuel)
        rw [hqueryleft, Option.bind_eq_bind, Option.bind_some]
        dsimp only
        rw [hqueryright, Option.bind_some]
        refine ⟨_, _, rfl, fun u hu => ?_, ?_⟩
        · rw [List.cons_append, List.mem_cons, List.mem_append] at hu
          obtain rfl | hu | hu := hu
          · exact hlive
          · exact huleft u hu
          · exact huright u hu
        · exact NodeAnswer.joined hP (Nat.div_le_self size 2) hcovered hanswerleft hanswerright
    · rw [if_neg (by rwa [intersects_iff hle (by omega)])]
      refine ⟨_, _, rfl, fun u hu => ?_, fun h => absurd h hcovered, fun _ => ?_⟩
      · rw [List.mem_singleton.mp hu]
        exact hlive
      · have hempty : inside tree.array first last start size = ∅ := elements_empty _ (by omega)
        rw [hempty, insert_empty_eq]
        exact hP.outside

omit [LinearOrder α] in
/-- The loop joins what it has with the elements that it goes over. -/
theorem scan_answers (hP : Answers P outside join) {array : List α}
    (hsingle : ∀ value : α, P {value} value) {count i : ℕ} {s : Set α} {value : α}
    (hfits : i + count ≤ array.length) (hvalue : P s value) :
    ∃ result, scan join array count i value = some result ∧
      P (s ∪ elements array i (i + count - 1)) result := by
  induction count generalizing i s value with
  | zero =>
    refine ⟨value, rfl, ?_⟩
    rw [elements_empty array (by omega), Set.union_empty]
    exact hvalue
  | succ count ih =>
    obtain ⟨element, helement⟩ : ∃ element, array[i]? = some element :=
      ⟨_, List.getElem?_eq_getElem (by omega)⟩
    have hstep := hP.union s {element} value element hvalue (hsingle element)
    obtain ⟨result, hresult, hanswer⟩ := ih (i := i + 1) (by omega) hstep
    refine ⟨result, ?_, ?_⟩
    · rw [scan, helement, Option.bind_eq_bind, Option.bind_some, hresult]
    · have hmiddle : ((i + 1 : ℕ) : ℤ) ≤ (i : ℤ) + (count + 1 : ℕ) - 1 + 1 := by omega
      have hcut := elements_union array (by omega : (i : ℤ) ≤ (i + 1 : ℕ)) hmiddle
      rw [show (((i + 1 : ℕ) : ℤ) - 1) = i by omega, elements_self helement] at hcut
      rw [← hcut, ← Set.union_assoc]
      rwa [show (i : ℤ) + (count + 1 : ℕ) - 1 = (i + 1 : ℕ) + count - 1 by omega]

omit [LinearOrder α] in
/-- Only the indexes of the array matter. -/
theorem elements_clamp (array : List α) (first last : ℤ) :
    elements array (max first 0) (min last (array.length - 1)) = elements array first last := by
  ext y
  constructor
  · rintro ⟨i, hi, hi', hy⟩
    exact ⟨i, by omega, by omega, hy⟩
  · rintro ⟨i, hi, hi', hy⟩
    have hlt := (List.getElem?_eq_some_iff.mp hy).1
    exact ⟨i, by omega, by omega, hy⟩

omit [LinearOrder α] in
theorem scanRange_answers (hP : Answers P outside join) (array : List α)
    (hsingle : ∀ value : α, P {value} value) (first last : ℤ) :
    ∃ result, scanRange join array outside first last = some result ∧
      P (insert outside (elements array first last)) result := by
  rw [scanRange]
  obtain ⟨count, hcount⟩ :
      ∃ count, (min last (array.length - 1 : ℤ) + 1 - max first 0).toNat = count := ⟨_, rfl⟩
  obtain ⟨i, hi⟩ : ∃ i, (max first 0).toNat = i := ⟨_, rfl⟩
  rw [hcount, hi]
  by_cases hzero : count = 0
  · refine ⟨outside, by rw [hzero]; rfl, ?_⟩
    rw [← elements_clamp, elements_empty array (by omega), insert_empty_eq]
    exact hP.outside
  · have hfits : i + count ≤ array.length := by omega
    obtain ⟨result, hresult, hanswer⟩ := scan_answers hP hsingle hfits hP.outside
    refine ⟨result, hresult, ?_⟩
    rwa [← elements_clamp, show max first 0 = i by omega,
      show min last (array.length - 1 : ℤ) = i + count - 1 by omega, Set.insert_eq]

end

inductive Kind where
  | max
  | min
deriving DecidableEq

/-- A query for a range. -/
structure Query where
  kind : Kind
  first : ℤ
  last : ℤ
  le : first ≤ last

section
variable [LinearOrder α] [OrderTop α] [Zero α]

def answer (tree : SegmentTree α) (q : Query) : Option (Found α) :=
  match q.kind with
  | .max => rMaxQ tree q.first q.last
  | .min => rMinQ tree q.first q.last

/-- The queries one after another, each on the tree that the one before it left. -/
def answerAll : SegmentTree α → List Query → Option (List (Query × Found α))
  | _, [] => some []
  | tree, q :: queries => do
    let found ← answer tree q
    let rest ← answerAll found.tree queries
    some ((q, found) :: rest)

/-- What a linear scan says of a range. -/
def Scanned (array : List α) (q : Query) (value : α) : Prop :=
  match q.kind with
  | .max => IsGreatest (insert 0 (elements array q.first q.last)) value
  | .min => IsLeast (insert ⊤ (elements array q.first q.last)) value

/-- The tree is built, and all the queries on it answer like a scan, by indexes of the heap that
are never below a leaf. -/
def AnswersLikeScan (array : List α) (queries : List Query) : Prop :=
  ∃ tree, construct array = some tree ∧ ∃ found, answerAll tree queries = some found ∧
    ∀ f ∈ found, Scanned array f.1 f.2.value ∧ ∀ v ∈ f.2.used, NotBelowLeaf tree v

/-- The values of the whole array are joined with nothing outside it. -/
def Meets (array : List α) (q : Query) : Prop :=
  q.kind = .max → array.length < kMinArraySize ∨ 0 < q.first ∨ q.last < array.length - 1 ∨
    ∃ value ∈ array, 0 ≤ value

omit [LinearOrder α] [OrderTop α] [Zero α] in
theorem inside_whole (array : List α) (first last : ℤ) :
    inside array first last 0 array.length = elements array first last := by
  have hclamp := elements_clamp array first last
  rwa [← zero_add (array.length : ℤ), ← Nat.cast_zero] at hclamp

omit [OrderTop α] in
/-- A whole array gives its greatest element, that of the scan only if it is not negative. -/
theorem isGreatest_insert_iff {array : List α} {first last : ℤ} {value : α}
    (hcovers : Covers first last 0 array.length)
    (h : IsGreatest (elements array first last) value) :
    IsGreatest (insert 0 (elements array first last)) value ↔ ∃ y ∈ array, 0 ≤ y := by
  constructor
  · intro hscan
    obtain ⟨i, -, -, hvalue⟩ := h.1
    exact ⟨value, List.mem_of_getElem? hvalue, hscan.2 (Set.mem_insert 0 _)⟩
  · rintro ⟨y, hy, hnonneg⟩
    obtain ⟨i, hi⟩ := List.mem_iff_getElem?.mp hy
    have hlt := (List.getElem?_eq_some_iff.mp hi).1
    obtain ⟨hfirst, hlast⟩ := hcovers
    have hyv : y ≤ value := h.2 ⟨i, by omega, by omega, hi⟩
    refine ⟨Set.mem_insert_of_mem 0 h.1, ?_⟩
    rintro z (rfl | hz)
    · exact hnonneg.trans hyv
    · exact h.2 hz

section
variable {array : List α} (q : Query)

theorem answer_small (h : array.length < kMinArraySize) :
    ∃ value used, answer ⟨array, []⟩ q = some ⟨value, used, ⟨array, []⟩⟩ ∧
      (∀ v ∈ used, NotBelowLeaf ⟨array, []⟩ v) ∧ Scanned array q value := by
  have hnone : ∀ v ∈ ([] : List ℕ), NotBelowLeaf ⟨array, []⟩ v := fun v hv =>
    absurd hv List.not_mem_nil
  obtain ⟨kind, first, last, hle⟩ := q
  cases kind with
  | max =>
    obtain ⟨value, hvalue, hanswer⟩ := scanRange_answers (answers_max 0) array
      (fun _ => isGreatest_singleton) first last
    refine ⟨value, [], ?_, hnone, hanswer⟩
    change rMaxQ ⟨array, []⟩ first last = _
    rw [rMaxQ, if_pos h, hvalue, Option.map_some]
  | min =>
    obtain ⟨value, hvalue, hanswer⟩ := scanRange_answers (answers_min ⊤) array
      (fun _ => isLeast_singleton) first last
    refine ⟨value, [], ?_, hnone, hanswer⟩
    change rMinQ ⟨array, []⟩ first last = _
    rw [rMinQ, if_pos h, hvalue, Option.map_some]

theorem answer_large {heap : List (Node α)} (h : ¬ array.length < kMinArraySize)
    (hbuilt : Built array heap 1 0 array.length) (hheap : array.length ≤ heap.length) :
    ∃ value used, answer ⟨array, heap⟩ q = some ⟨value, used, ⟨array, heap⟩⟩ ∧
      (∀ v ∈ used, NotBelowLeaf ⟨array, heap⟩ v) ∧ (Scanned array q value ↔ Meets array q) := by
  have hsize : 30 ≤ array.length := not_lt.mp h
  have hlive : NotBelowLeaf ⟨array, heap⟩ 1 := ⟨(by omega : 1 < heap.length), Or.inl rfl⟩
  obtain ⟨kind, first, last, hle⟩ := q
  cases kind with
  | max =>
    obtain ⟨value, used, hquery, hused, hanswer⟩ := query_answers
      (answers_max 0) (fun _ _ _ hn => hn.isGreatest) hle (by decide) hbuilt hlive hheap
    refine ⟨value, used, ?_, hused, ?_⟩
    · change rMaxQ ⟨array, heap⟩ first last = _
      rw [rMaxQ, if_neg h, hquery]
    change IsGreatest (insert 0 (elements array first last)) value ↔
      (Kind.max = Kind.max → array.length < kMinArraySize ∨ 0 < first ∨ last < array.length - 1 ∨
        ∃ value ∈ array, 0 ≤ value)
    by_cases hcovers : Covers first last 0 array.length
    · have hwhole := hanswer.covered hcovers
      rw [inside_whole] at hwhole
      rw [isGreatest_insert_iff hcovers hwhole]
      obtain ⟨hfirst, hlast⟩ := hcovers
      constructor
      · exact fun hnonneg _ => Or.inr (Or.inr (Or.inr hnonneg))
      · intro hmeets
        obtain hsmall | hcut | hcut | hnonneg := hmeets rfl
        · exact absurd hsmall h
        · omega
        · omega
        · exact hnonneg
    · have hscan := hanswer.cut hcovers
      rw [inside_whole] at hscan
      refine ⟨fun _ _ => ?_, fun _ => hscan⟩
      rw [Covers, not_and_or] at hcovers
      omega
  | min =>
    obtain ⟨value, used, hquery, hused, hanswer⟩ := query_answers
      (answers_min ⊤) (fun _ _ _ hn => hn.isLeast) hle (by decide) hbuilt hlive hheap
    refine ⟨value, used, ?_, hused, ?_⟩
    · change rMinQ ⟨array, heap⟩ first last = _
      rw [rMinQ, if_neg h, hquery]
    refine ⟨fun _ (hmax : Kind.min = Kind.max) => absurd hmax (by decide), fun _ => ?_⟩
    change IsLeast (insert ⊤ (elements array first last)) value
    by_cases hcovers : Covers first last 0 array.length
    · have hwhole := hanswer.covered hcovers
      rw [inside_whole] at hwhole
      refine ⟨Set.mem_insert_of_mem ⊤ hwhole.1, ?_⟩
      rintro z (rfl | hz)
      · exact le_top
      · exact hwhole.2 hz
    · have hscan := hanswer.cut hcovers
      rwa [inside_whole] at hscan

end

/-- A query leaves the tree as it was. -/
theorem answer_eq {array : List α} {tree : SegmentTree α} (htree : construct array = some tree)
    (q : Query) :
    ∃ value used, answer tree q = some ⟨value, used, tree⟩ ∧
      (∀ v ∈ used, NotBelowLeaf tree v) ∧ (Scanned array q value ↔ Meets array q) := by
  by_cases hsmall : array.length < kMinArraySize
  · rw [construct, if_pos hsmall] at htree
    obtain rfl := Option.some.inj htree
    obtain ⟨value, used, hanswer, hused, hscanned⟩ := answer_small q hsmall
    exact ⟨value, used, hanswer, hused, fun _ _ => Or.inl hsmall, fun _ => hscanned⟩
  · obtain ⟨heap, hconstruct, hbuilt, hheap⟩ := construct_built (not_lt.mp hsmall)
    rw [hconstruct] at htree
    obtain rfl := Option.some.inj htree
    exact answer_large q hsmall hbuilt hheap

theorem answerAll_iff {array : List α} {tree : SegmentTree α} (htree : construct array = some tree)
    (queries : List Query) :
    ∃ found, answerAll tree queries = some found ∧
      (∀ f ∈ found, ∀ v ∈ f.2.used, NotBelowLeaf tree v) ∧
      ((∀ f ∈ found, Scanned array f.1 f.2.value) ↔ ∀ q ∈ queries, Meets array q) := by
  induction queries with
  | nil => exact ⟨[], rfl, by simp, by simp⟩
  | cons q queries ih =>
    obtain ⟨value, used, hanswer, hused, hscanned⟩ := answer_eq htree q
    obtain ⟨rest, hrest, husedrest, hiff⟩ := ih
    refine ⟨(q, ⟨value, used, tree⟩) :: rest, ?_, ?_, ?_⟩
    · rw [answerAll, hanswer, Option.bind_eq_bind, Option.bind_some, hrest, Option.bind_eq_bind,
        Option.bind_some]
    · intro f hf
      obtain rfl | hf := List.mem_cons.mp hf
      · exact hused
      · exact husedrest f hf
    · rw [List.forall_mem_cons, List.forall_mem_cons, hscanned, hiff]

/-- The queries answer like a scan exactly when each largest value asked of a whole large array
is not negative. -/
theorem answersLikeScan_iff (array : List α) (queries : List Query) :
    AnswersLikeScan array queries ↔ ∀ q ∈ queries, Meets array q := by
  constructor
  · rintro ⟨tree, htree, found, hfound, hall⟩
    obtain ⟨found', hfound', -, hiff⟩ := answerAll_iff htree queries
    rw [hfound] at hfound'
    obtain rfl := Option.some.inj hfound'
    exact hiff.mp fun f hf => (hall f hf).1
  · intro hmeets
    obtain ⟨tree, htree⟩ : ∃ tree, construct array = some tree := by
      by_cases hsmall : array.length < kMinArraySize
      · exact ⟨_, if_pos hsmall⟩
      · obtain ⟨heap, hconstruct, -⟩ := construct_built (not_lt.mp hsmall)
        exact ⟨_, hconstruct⟩
    obtain ⟨found, hfound, hused, hiff⟩ := answerAll_iff htree queries
    exact ⟨tree, htree, found, hfound, fun f hf => ⟨hiff.mpr hmeets f hf, hused f hf⟩⟩

end

abbrev ChartValue := Set.Icc (-2 ^ 63 : ℤ) (2 ^ 63 - 1)

instance : OrderTop ChartValue where
  top := ⟨2 ^ 63 - 1, by norm_num⟩
  le_top value := value.2.2

instance : Zero ChartValue := ⟨⟨0, by norm_num⟩⟩

def belowZero : ChartValue := ⟨-1, by norm_num⟩

theorem rMaxQ_negative_whole :
    ¬ AnswersLikeScan (List.replicate 30 belowZero) [⟨.max, 0, 29, by decide⟩] := by
  rintro ⟨tree, htree, found, hfound, hall⟩
  obtain ⟨found', hfound', -, hiff⟩ := answerAll_iff htree [⟨.max, 0, 29, by decide⟩]
  rw [hfound] at hfound'
  obtain rfl := Option.some.inj hfound'
  have hmeets := hiff.mp (fun f hf => (hall f hf).1) _ (List.mem_singleton.mpr rfl) rfl
  rw [List.length_replicate] at hmeets
  obtain hsmall | hcut | hcut | ⟨value, hvalue, hnonneg⟩ := hmeets
  · exact absurd hsmall (by decide)
  · exact absurd hcut (by decide)
  · exact absurd hcut (by decide)
  · rw [List.eq_of_mem_replicate hvalue] at hnonneg
    exact absurd hnonneg (by decide)

end SegmentTree

end TelegramDesktop.Statistics
