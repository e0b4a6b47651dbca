import TelegramDesktop.Base.Slice

namespace Base.Vectors

def ofNat : ℕ → ℕ → List UInt8
  | 0, _ => []
  | width + 1, n => ofNat width (n / 256) ++ [.ofNat n]

def toNat (l : List UInt8) : ℕ := l.foldl (fun n byte => 256 * n + byte.toNat) 0

@[simp] theorem length_ofNat (width n : ℕ) : (ofNat width n).length = width := by
  induction width generalizing n with
  | zero => rfl
  | succ width ih => rw [ofNat, List.length_append, ih, List.length_singleton]

/-- A number that fits the width is read back. -/
theorem toNat_ofNat {width n : ℕ} (h : n < 256 ^ width) : toNat (ofNat width n) = n := by
  induction width generalizing n with
  | zero =>
    rw [pow_zero] at h
    change 0 = n
    omega
  | succ width ih =>
    rw [pow_succ] at h
    have hdiv : n / 256 < 256 ^ width := Nat.div_lt_of_lt_mul (by omega)
    have hbyte : (UInt8.ofNat n).toNat = n % 256 := UInt8.toNat_ofNat'
    have hfold := ih hdiv
    rw [toNat] at hfold
    rw [toNat, ofNat, List.foldl_append, hfold, List.foldl_cons, List.foldl_nil, hbyte]
    omega

/-- The body behind its length. -/
def vec (width : ℕ) (body : List UInt8) : List UInt8 := ofNat width body.length ++ body

def readVec (width : ℕ) (l : List UInt8) : Option (List UInt8 × List UInt8) :=
  let n := toNat (l.take width)
  if width + n ≤ l.length then some (slice l width n, l.drop (width + n)) else none

theorem length_vec (width : ℕ) (body : List UInt8) :
    (vec width body).length = width + body.length := by
  rw [vec, List.length_append, length_ofNat]

theorem readVec_vec {width : ℕ} {body : List UInt8} (h : body.length < 256 ^ width)
    (rest : List UInt8) : readVec width (vec width body ++ rest) = some (body, rest) := by
  have hwidth := length_ofNat width body.length
  have htake : (vec width body ++ rest).take width = ofNat width body.length := by
    rw [vec, List.append_assoc, List.take_left' hwidth]
  have hdrop : (vec width body ++ rest).drop (width + body.length) = rest :=
    List.drop_left' (length_vec width body)
  have hslice : slice (vec width body ++ rest) width body.length = body := by
    rw [slice, vec, List.append_assoc, List.drop_left' hwidth, List.take_left]
  have hlen : (vec width body ++ rest).length = width + body.length + rest.length := by
    rw [List.length_append, length_vec]
  rw [readVec]
  simp only [htake, toNat_ofNat h, hdrop, hslice]
  exact if_pos (by omega)

/-- A tag of a fixed size before a vector with a two-byte length. -/
def tagged (item : List UInt8 × List UInt8) : List UInt8 := item.1 ++ vec 2 item.2

def readTagged (size : ℕ) (l : List UInt8) : Option ((List UInt8 × List UInt8) × List UInt8) :=
  if size ≤ l.length then
    (readVec 2 (l.drop size)).map fun x => ((l.take size, x.1), x.2)
  else none

theorem readTagged_tagged {item : List UInt8 × List UInt8} (h : item.2.length < 256 ^ 2)
    (rest : List UInt8) :
    readTagged item.1.length (tagged item ++ rest) = some (item, rest) := by
  rw [readTagged, if_pos (by simp [tagged]), tagged, List.append_assoc, List.drop_left,
    List.take_left, readVec_vec h]
  rfl

section Items

variable {α : Type*} (read : List UInt8 → Option (α × List UInt8))

/-- Items one after another, at most `fuel` of them, up to the end of the input. -/
def readItems : ℕ → List UInt8 → Option (List α)
  | _, [] => some []
  | 0, _ :: _ => none
  | fuel + 1, l =>
    (read l).bind fun x => (readItems fuel x.2).map (x.1 :: ·)

/-- What is written item by item is read back, with nothing left over. -/
theorem readItems_flatMap {write : α → List UInt8} {items : List α}
    (hread : ∀ item ∈ items, ∀ rest, read (write item ++ rest) = some (item, rest))
    (hne : ∀ item ∈ items, write item ≠ []) {fuel : ℕ} (hfuel : items.length ≤ fuel) :
    readItems read fuel (items.flatMap write) = some items := by
  induction items generalizing fuel with
  | nil => cases fuel <;> rfl
  | cons item items ih =>
    cases fuel with
    | zero => simp at hfuel
    | succ fuel =>
      have hitem := hread item (List.mem_cons_self ..) (items.flatMap write)
      have hrest := ih (fun a ha => hread a (List.mem_cons_of_mem _ ha))
        (fun a ha => hne a (List.mem_cons_of_mem _ ha)) (by simpa using hfuel)
      have hcons : write item ++ items.flatMap write ≠ [] := by
        simp [hne item (List.mem_cons_self ..)]
      rw [List.flatMap_cons]
      cases hl : write item ++ items.flatMap write with
      | nil => exact absurd hl hcons
      | cons byte l =>
        rw [readItems, ← hl, hitem, Option.bind_some, hrest]
        · rfl
        · simp

end Items

end Base.Vectors
