import TelegramDesktop.Base.Loop

namespace TelegramDesktop.Mtproto.DcKeyCreator
open Base

/-- Take the factors of two out; for zero this would not end. -/
def dropTwos (fuel : ℕ) (a : UInt64) : Option UInt64 :=
  loop (fun a : UInt64 => some (if a &&& 1 = 0 then .inl (a >>> 1) else .inr a)) fuel a

/-- Take the factors of two out that both have, counting them. -/
def dropShared (fuel : ℕ) (a b : UInt64) : Option ((UInt64 × UInt64) × ℕ) :=
  loop (fun s : (UInt64 × UInt64) × ℕ => some (if s.1.1 &&& 1 = 0 ∧ s.1.2 &&& 1 = 0
    then .inl ((s.1.1 >>> 1, s.1.2 >>> 1), s.2 + 1) else .inr s)) fuel ((a, b), 0)

/-- One round of the loop of `gcd`. -/
def gcdRound (fuel shift : ℕ) (s : UInt64 × UInt64) : Option (UInt64 × UInt64 ⊕ UInt64) :=
  (dropTwos fuel s.1).bind fun a => (dropTwos fuel s.2).bind fun b =>
    some (if a > b then .inl (a - b, b)
      else if b > a then .inl (a, b - a)
      else .inr (a <<< .ofNat shift))

def gcd (fuel : ℕ) (a b : UInt64) : Option UInt64 :=
  if a = 0 then some b
  else if b = 0 then some a
  else (dropShared fuel a b).bind fun s => loop (gcdRound fuel s.2) fuel s.1

/-- The sum of two rests as a rest again. -/
def reduce (pq sum : UInt64) : UInt64 := if sum ≥ pq then sum - pq else sum

/-- The loop that adds `x * x` to `q`. -/
def addSquare (fuel : ℕ) (pq q x : UInt64) : Option UInt64 :=
  loop (fun s : UInt64 × UInt64 × UInt64 => some (if s.2.1 ≠ 0
    then .inl (reduce pq (s.1 + s.1), s.2.1 >>> 1,
      if s.2.1 &&& 1 ≠ 0 then reduce pq (s.2.2 + s.1) else s.2.2)
    else .inr s.2.2)) fuel (x, x, q)

structure Search where
  x : UInt64
  y : UInt64
  g : UInt64
  iter : ℕ
  j : ℕ

/-- One step of the search for a factor; its result is `g` with the count of steps. -/
def searchStep (fuel : ℕ) (pq q : UInt64) (lim : ℕ) (s : Search) :
    Option (Search ⊕ UInt64 × ℕ) :=
  if s.j < lim then
    (addSquare fuel pq q s.x).bind fun x =>
      (gcd fuel (if x < s.y then pq + x - s.y else x - s.y) pq).bind fun g =>
        some (if g ≠ 1 then .inr (g, s.iter + 1)
          else .inl ⟨x, if s.j &&& (s.j - 1) = 0 then x else s.y, g, s.iter + 1, s.j + 1⟩)
  else some (.inr (s.g, s.iter))

structure Attempts where
  i : ℕ := 0
  iter : ℕ := 0
  g : UInt64 := 0

/-- One search, with its two random numbers. -/
def attempt (fuel : ℕ) (random : ℕ → Fin 16 × UInt64) (pq : UInt64) (s : Attempts) :
    Option (Attempts ⊕ UInt64) :=
  if s.i < 3 ∨ s.iter < 1000 then
    let q := (17 + .ofNat (random s.i).1.val) % (pq - 1)
    let x := (random s.i).2 % (pq - 1) + 1
    let lim := 2 ^ (min 5 s.i + 18)
    (loop (searchStep fuel pq q lim) fuel ⟨x, x, s.g, s.iter, 1⟩).bind fun r =>
      some (if r.1 > 1 ∧ r.1 < pq then .inr r.1 else .inl ⟨s.i + 1, r.2, r.1⟩)
  else some (.inr s.g)

def factorizeSmallPQ (fuel : ℕ) (random : ℕ → Fin 16 × UInt64) (pq : UInt64) : Option UInt64 :=
  if pq < 2 ∨ pq > (1 : UInt64) <<< 63 then some 1
  else (loop (attempt fuel random pq) fuel {}).bind fun g =>
    some (if g ≠ 0 then (let other := pq / g; if other < g then other else g) else g)

structure ParsedPQ where
  p : List UInt8 := []
  q : List UInt8 := []

structure BigSearch where
  a : ℕ
  b : ℕ
  iter : ℕ
  j : ℕ

/-- One step of the search for a factor; its result is the factor, if any, with the count of
steps. The numbers are of any size. -/
def bigSearchStep (pq t lim : ℕ) (s : BigSearch) : Option (BigSearch ⊕ Option ℕ × ℕ) :=
  if s.j < lim then
    let sum := s.a * s.a % pq + t
    let a := if sum ≥ pq then sum - pq else sum
    let q := if a > s.b then a - s.b else s.b - a
    let p := Nat.gcd q pq
    some (if p ≠ 1 then .inr (some p, s.iter + 1)
      else .inl ⟨a, if s.j &&& (s.j - 1) = 0 then a else s.b, s.iter + 1, s.j + 1⟩)
  else some (.inr (none, s.iter))

/-- One search for a factor of a big number; the state is `i` and `iter`. -/
def bigAttempt (fuel : ℕ) (random : ℕ → Fin 16 × UInt32) (pq : ℕ) (s : ℕ × ℕ) :
    Option (ℕ × ℕ ⊕ Option ℕ) :=
  if s.1 < 3 ∨ s.2 < 1000 then
    let t := 17 + (random s.1).1.val
    let a := (random s.1).2.toNat
    let lim := 2 ^ (s.1 + 23)
    (loop (bigSearchStep pq t lim) fuel ⟨a, a, s.2, 1⟩).bind fun r =>
      some (if r.1.isSome then .inr r.1 else .inl (s.1 + 1, r.2))
  else some (.inr none)

/-- The bytes of a big number, the low one last and no zero first. -/
def getBytes (x : ℕ) : List UInt8 := (Nat.digits 256 x).reverse.map .ofNat

/-- The number of some bytes, the low one last. -/
def bigEndian (bytes : List UInt8) : ℕ := bytes.foldl (fun n byte => 256 * n + byte.toNat) 0

def factorizeBigPQ (fuel : ℕ) (random : ℕ → Fin 16 × UInt32) (pqStr : List UInt8) :
    Option ParsedPQ :=
  let pq := bigEndian pqStr
  (loop (bigAttempt fuel random pq) fuel (0, 0)).map fun found =>
    found.elim {} fun p =>
      let q := pq / p
      if p > q then { p := getBytes q, q := getBytes p } else { p := getBytes p, q := getBytes q }

/-- Four bytes of a number, the low one last. -/
def fourBytes (x : UInt64) : List UInt8 :=
  [(x >>> 24).toUInt8, (x >>> 16).toUInt8, (x >>> 8).toUInt8, x.toUInt8]

def wordOf (pqStr : List UInt8) : UInt64 :=
  pqStr.foldl (fun pq byte => (pq <<< 8) ||| byte.toUInt64) 0

def isBig (pqStr : List UInt8) : Bool :=
  pqStr.length > 8 || (pqStr.length == 8 && pqStr.headD 0 &&& 128 != 0)

structure Random where
  small : ℕ → Fin 16 × UInt64
  big : ℕ → Fin 16 × UInt32

def factorizePQ (fuel : ℕ) (random : Random) (pqStr : List UInt8) : Option ParsedPQ :=
  if isBig pqStr then factorizeBigPQ fuel random.big pqStr
  else
    let pq := wordOf pqStr
    (factorizeSmallPQ fuel random.small pq).map fun p =>
      if p = 0 ∨ pq % p ≠ 0 then {} else { p := fourBytes p, q := fourBytes (pq / p) }

end TelegramDesktop.Mtproto.DcKeyCreator
