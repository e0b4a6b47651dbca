import Mathlib

namespace Base.Words

def ofWord (x : UInt32) : List UInt8 :=
  [x.toUInt8, (x >>> 8).toUInt8, (x >>> 16).toUInt8, (x >>> 24).toUInt8]

def word (b₀ b₁ b₂ b₃ : UInt8) : UInt32 :=
  .ofNat (b₀.toNat + 2 ^ 8 * b₁.toNat + 2 ^ 16 * b₂.toNat + 2 ^ 24 * b₃.toNat)

theorem word_toNat (b₀ b₁ b₂ b₃ : UInt8) :
    (word b₀ b₁ b₂ b₃).toNat =
      b₀.toNat + 2 ^ 8 * b₁.toNat + 2 ^ 16 * b₂.toNat + 2 ^ 24 * b₃.toNat := by
  have h₀ := b₀.toNat_lt
  have h₁ := b₁.toNat_lt
  have h₂ := b₂.toNat_lt
  have h₃ := b₃.toNat_lt
  rw [word, UInt32.toNat_ofNat']
  omega

theorem word_ofWord (x : UInt32) :
    word x.toUInt8 (x >>> 8).toUInt8 (x >>> 16).toUInt8 (x >>> 24).toUInt8 = x := by
  apply UInt32.toNat_inj.mp
  have hx := x.toNat_lt
  have h8 : (8 : UInt32).toNat % 32 = 8 := rfl
  have h16 : (16 : UInt32).toNat % 32 = 16 := rfl
  have h24 : (24 : UInt32).toNat % 32 = 24 := rfl
  rw [word_toNat]
  simp only [UInt32.toNat_toUInt8, UInt32.toNat_shiftRight, Nat.shiftRight_eq_div_pow, h8, h16,
    h24]
  omega

/-- The bytes of a buffer of words. -/
def bytes (xs : List UInt32) : List UInt8 := xs.flatMap ofWord

/-- The whole words at the start of a byte list; up to three bytes may be left over. -/
def words : List UInt8 → List UInt32
  | b₀ :: b₁ :: b₂ :: b₃ :: rest => word b₀ b₁ b₂ b₃ :: words rest
  | _ => []

@[simp] theorem bytes_nil : bytes [] = [] := rfl

@[simp] theorem bytes_cons (x : UInt32) (xs : List UInt32) :
    bytes (x :: xs) = ofWord x ++ bytes xs := rfl

@[simp] theorem bytes_append (xs ys : List UInt32) : bytes (xs ++ ys) = bytes xs ++ bytes ys := by
  simp [bytes]

@[simp] theorem length_ofWord (x : UInt32) : (ofWord x).length = 4 := rfl

@[simp] theorem length_bytes (xs : List UInt32) : (bytes xs).length = 4 * xs.length := by
  induction xs with
  | nil => rfl
  | cons x xs ih =>
    rw [bytes_cons, List.length_append, ih, length_ofWord, List.length_cons]
    omega

/-- Reading words back gives the words written, then those of what follows. -/
theorem words_bytes_append (xs : List UInt32) (rest : List UInt8) :
    words (bytes xs ++ rest) = xs ++ words rest := by
  induction xs with
  | nil => rfl
  | cons x xs ih => simp [ofWord, words, word_ofWord, ih]

@[simp] theorem words_bytes (xs : List UInt32) : words (bytes xs) = xs := by
  simpa [words] using words_bytes_append xs []

def ofLong (x : Fin (2 ^ 64)) : List UInt32 := [.ofNat x, .ofNat (x / 2 ^ 32)]

def long (lo hi : UInt32) : Fin (2 ^ 64) :=
  ⟨lo.toNat + 2 ^ 32 * hi.toNat, by
    have hlo := lo.toNat_lt
    have hhi := hi.toNat_lt
    omega⟩

@[simp] theorem length_ofLong (x : Fin (2 ^ 64)) : (ofLong x).length = 2 := rfl

theorem long_ofLong (x : Fin (2 ^ 64)) : long (.ofNat x) (.ofNat (x / 2 ^ 32)) = x := by
  apply Fin.ext
  have hx := x.isLt
  have hlo : (UInt32.ofNat x).toNat = x % 2 ^ 32 := UInt32.toNat_ofNat'
  have hhi : (UInt32.ofNat (x / 2 ^ 32)).toNat = x / 2 ^ 32 % 2 ^ 32 := UInt32.toNat_ofNat'
  change (UInt32.ofNat x).toNat + 2 ^ 32 * (UInt32.ofNat (x / 2 ^ 32)).toNat = (x : ℕ)
  rw [hlo, hhi]
  omega

end Base.Words
