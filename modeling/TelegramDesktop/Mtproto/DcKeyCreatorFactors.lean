import TelegramDesktop.Mtproto.DcKeyCreator

namespace TelegramDesktop.Mtproto.DcKeyCreator
open Base

variable {fuel : ℕ} {a b pq : UInt64}

theorem and_one_iff (a : UInt64) : a &&& 1 = 0 ↔ a.toNat % 2 = 0 := by
  rw [← UInt64.toNat_inj, UInt64.toNat_and]
  show a.toNat &&& 1 = 0 ↔ a.toNat % 2 = 0
  rw [Nat.and_one_is_mod]

theorem toNat_half (a : UInt64) : (a >>> 1).toNat = a.toNat / 2 := by
  rw [UInt64.toNat_shiftRight]
  exact Nat.shiftRight_eq_div_pow a.toNat 1

theorem toNat_pos (h : a ≠ 0) : 0 < a.toNat :=
  Nat.pos_of_ne_zero fun heq => h (UInt64.toNat_inj.mp heq)

/-- A factor of two does not count against an odd number. -/
theorem gcd_half {x m : ℕ} (hx : x % 2 = 0) (hm : m % 2 = 1) : Nat.gcd (x / 2) m = Nat.gcd x m := by
  have hcoprime : Nat.Coprime 2 m := Nat.coprime_two_left.mpr (Nat.odd_iff.mpr hm)
  have hdouble : 2 * (x / 2) = x := Nat.mul_div_cancel' (Nat.dvd_of_mod_eq_zero hx)
  rw [← Nat.Coprime.gcd_mul_left_cancel (x / 2) hcoprime, hdouble]

/-- What is left of a number when factors of two are taken out. -/
structure Halved (a t : UInt64) : Prop where
  pos : 0 < t.toNat
  le : t.toNat ≤ a.toNat
  odd : a.toNat % 2 = 1 → t = a
  gcd : ∀ m, m % 2 = 1 → Nat.gcd t.toNat m = Nat.gcd a.toNat m

theorem dropTwos_total (ha : 0 < a.toNat) (hfuel : a.toNat < fuel) :
    ∃ r, dropTwos fuel a = some r ∧ Halved a r ∧ r.toNat % 2 = 1 := by
  refine loop_total (I := Halved a) UInt64.toNat (fun t ht => ?_)
    ⟨ha, le_rfl, fun _ => rfl, fun _ _ => rfl⟩ hfuel
  apply loop_step_ite
  · intro heven
    rw [and_one_iff] at heven
    have hpos := ht.pos
    have hle := ht.le
    rw [toNat_half]
    refine ⟨⟨?_, ?_, fun ha => ?_, fun m hm => ?_⟩, by omega⟩
    · rw [toNat_half]
      omega
    · rw [toNat_half]
      omega
    · have hsame := ht.odd ha
      rw [hsame] at heven
      omega
    · rw [toNat_half, gcd_half heven hm, ht.gcd m hm]
  · intro hno
    rw [and_one_iff] at hno
    exact ⟨ht, by omega⟩

/-- What is left of two numbers when shared factors of two are taken out. -/
structure Shared (a b : UInt64) (s : (UInt64 × UInt64) × ℕ) : Prop where
  left : 0 < s.1.1.toNat
  right : 0 < s.1.2.toNat
  leftLe : s.1.1.toNat ≤ a.toNat
  rightLe : s.1.2.toNat ≤ b.toNat
  gcd : 2 ^ s.2 * Nat.gcd s.1.1.toNat s.1.2.toNat = Nat.gcd a.toNat b.toNat

theorem dropShared_total (ha : 0 < a.toNat) (hb : 0 < b.toNat) (hfuel : a.toNat < fuel) :
    ∃ s, dropShared fuel a b = some s ∧ Shared a b s ∧
      (s.1.1.toNat % 2 = 1 ∨ s.1.2.toNat % 2 = 1) := by
  refine loop_total (I := Shared a b) (fun s => s.1.1.toNat) (fun s hs => ?_)
    ⟨ha, hb, le_rfl, le_rfl, ?_⟩ hfuel
  · apply loop_step_ite
    · intro heven
      rw [and_one_iff, and_one_iff] at heven
      have hleft := hs.left
      have hright := hs.right
      have hleftLe := hs.leftLe
      have hrightLe := hs.rightLe
      have hshared : 2 * Nat.gcd (s.1.1.toNat / 2) (s.1.2.toNat / 2) =
          Nat.gcd s.1.1.toNat s.1.2.toNat := by
        rw [← Nat.gcd_mul_left, Nat.mul_div_cancel' (Nat.dvd_of_mod_eq_zero heven.1),
          Nat.mul_div_cancel' (Nat.dvd_of_mod_eq_zero heven.2)]
      dsimp only
      rw [toNat_half]
      refine ⟨⟨?_, ?_, ?_, ?_, ?_⟩, by omega⟩ <;> dsimp only <;> rw [toNat_half]
      · omega
      · omega
      · omega
      · omega
      · rw [toNat_half, pow_succ, mul_assoc, hshared]
        exact hs.gcd
    · intro hno
      rw [and_one_iff, and_one_iff] at hno
      exact ⟨hs, by omega⟩
  · show 2 ^ 0 * _ = _
    rw [pow_zero, one_mul]

/-- The greatest common divisor of one number that is odd and another one. -/
structure OneOdd (d : ℕ) (s : UInt64 × UInt64) : Prop where
  left : 0 < s.1.toNat
  right : 0 < s.2.toNat
  odd : s.1.toNat % 2 = 1 ∨ s.2.toNat % 2 = 1
  gcd : Nat.gcd s.1.toNat s.2.toNat = d

/-- Two odd numbers with the same greatest common divisor. -/
theorem OneOdd.halved {d : ℕ} {s : UInt64 × UInt64} (hs : OneOdd d s) {x y : UInt64}
    (hx : Halved s.1 x) (hxodd : x.toNat % 2 = 1) (hy : Halved s.2 y) (hyodd : y.toNat % 2 = 1) :
    Nat.gcd x.toNat y.toNat = d := by
  rw [← hs.gcd]
  rcases hs.odd with hodd | hodd
  · rw [Nat.gcd_comm, hy.gcd _ hxodd, hx.odd hodd, Nat.gcd_comm]
  · rw [hx.gcd _ hyodd, hy.odd hodd]

theorem toNat_sub_of_lt (h : b < a) : (a - b).toNat = a.toNat - b.toNat :=
  UInt64.toNat_sub_of_le a b (UInt64.le_of_lt h)

theorem gcdRound_total {d shift : ℕ} (hd : 0 < d) (hshift : 2 ^ shift * d < 2 ^ 64)
    {s : UInt64 × UInt64} (hs : OneOdd d s) (hfuel : s.1.toNat + s.2.toNat < fuel) :
    ∃ next, gcdRound fuel shift s = some next ∧ next.elim
      (fun t => (OneOdd d t ∧ t.1.toNat + t.2.toNat < fuel) ∧
        t.1.toNat + t.2.toNat < s.1.toNat + s.2.toNat)
      fun r => r.toNat = 2 ^ shift * d := by
  obtain ⟨x, hx, hxhalved, hxodd⟩ := dropTwos_total hs.left (by omega : s.1.toNat < fuel)
  obtain ⟨y, hy, hyhalved, hyodd⟩ := dropTwos_total hs.right (by omega : s.2.toNat < fuel)
  have hgcd := hs.halved hxhalved hxodd hyhalved hyodd
  have hxle := hxhalved.le
  have hyle := hyhalved.le
  rw [gcdRound, hx, hy, Option.bind_some, Option.bind_some]
  refine ⟨_, rfl, ?_⟩
  by_cases hgt : x > y
  · rw [if_pos hgt]
    have hlt := UInt64.lt_iff_toNat_lt.mp hgt
    have hsub := toNat_sub_of_lt hgt
    have hypos := hyhalved.pos
    refine ⟨⟨⟨by dsimp only; omega, hypos, .inr hyodd, ?_⟩, by dsimp only; omega⟩,
      by dsimp only; omega⟩
    dsimp only
    rw [hsub, Nat.gcd_sub_self_left hlt.le]
    exact hgcd
  · rw [if_neg hgt]
    by_cases hlt : y > x
    · rw [if_pos hlt]
      have hlt' := UInt64.lt_iff_toNat_lt.mp hlt
      have hsub := toNat_sub_of_lt hlt
      have hxpos := hxhalved.pos
      refine ⟨⟨⟨hxpos, by dsimp only; omega, .inl hxodd, ?_⟩, by dsimp only; omega⟩,
        by dsimp only; omega⟩
      dsimp only
      rw [hsub, Nat.gcd_sub_self_right hlt'.le]
      exact hgcd
    · rw [if_neg hlt]
      have heq : x = y := UInt64.le_antisymm (UInt64.not_lt.mp hgt) (UInt64.not_lt.mp hlt)
      rw [heq, Nat.gcd_self] at hgcd
      have hsmall : shift < 64 := by
        by_contra hlarge
        have hpow : 2 ^ 64 ≤ 2 ^ shift := Nat.pow_le_pow_right (by omega) (by omega)
        have hmul : 2 ^ shift * 1 ≤ 2 ^ shift * d := Nat.mul_le_mul_left _ hd
        omega
      show (x <<< UInt64.ofNat shift).toNat = 2 ^ shift * d
      rw [UInt64.toNat_shiftLeft, UInt64.toNat_ofNat', Nat.mod_eq_of_lt (by omega : shift < 2 ^ 64),
        Nat.mod_eq_of_lt hsmall, Nat.shiftLeft_eq, heq, hgcd, mul_comm, Nat.mod_eq_of_lt hshift]

/-- The loop of `gcd` ends, with the greatest common divisor. -/
theorem gcd_total (hb : 0 < b.toNat) (hfuel : a.toNat + b.toNat < fuel) :
    ∃ r, gcd fuel a b = some r ∧ r.toNat = Nat.gcd a.toNat b.toNat := by
  rw [gcd]
  by_cases ha : a = 0
  · rw [if_pos ha, ha]
    exact ⟨b, rfl, (Nat.gcd_zero_left _).symm⟩
  have hbne : b ≠ 0 := fun heq => by
    rw [heq] at hb
    exact absurd hb (lt_irrefl 0)
  rw [if_neg ha, if_neg hbne]
  obtain ⟨s, hs, hshared, hodd⟩ := dropShared_total (toNat_pos ha) hb (by omega : a.toNat < fuel)
  rw [hs, Option.bind_some]
  have hd : 0 < Nat.gcd s.1.1.toNat s.1.2.toNat := Nat.gcd_pos_of_pos_left _ hshared.left
  have hleft := hshared.leftLe
  have hright := hshared.rightLe
  have hshift : 2 ^ s.2 * Nat.gcd s.1.1.toNat s.1.2.toNat < 2 ^ 64 := by
    rw [hshared.gcd]
    exact (Nat.gcd_le_left _ (toNat_pos ha)).trans_lt a.toNat_lt
  rw [← hshared.gcd]
  exact loop_total
    (I := fun t => OneOdd (Nat.gcd s.1.1.toNat s.1.2.toNat) t ∧ t.1.toNat + t.2.toNat < fuel)
    (fun t => t.1.toNat + t.2.toNat)
    (fun t ht => gcdRound_total hd hshift ht.1 ht.2)
    ⟨⟨hshared.left, hshared.right, hodd, rfl⟩, by omega⟩ (by omega)

/-- The sum of two rests, which has place in a word. -/
theorem reduce_sum (hpq : pq.toNat ≤ 2 ^ 63) (ha : a.toNat < pq.toNat) (hb : b.toNat < pq.toNat) :
    (reduce pq (a + b)).toNat = (a.toNat + b.toNat) % pq.toNat := by
  have hsum : (a + b).toNat = a.toNat + b.toNat := by
    rw [UInt64.toNat_add]
    exact Nat.mod_eq_of_lt (by omega)
  rw [reduce]
  by_cases hlarge : a + b ≥ pq
  · have hle := UInt64.le_iff_toNat_le.mp hlarge
    rw [if_pos hlarge, UInt64.toNat_sub_of_le _ _ hlarge, hsum, Nat.mod_eq_sub_mod (by omega),
      Nat.mod_eq_of_lt (by omega)]
  · have hlt : a.toNat + b.toNat < pq.toNat := by
      rw [← hsum]
      exact UInt64.lt_iff_toNat_lt.mp (UInt64.not_le.mp hlarge)
    rw [if_neg hlarge, hsum, Nat.mod_eq_of_lt hlt]

/-- What the loop of the square keeps: the rests, and the sum that is left to do. -/
structure Adds (pq : UInt64) (total : ℕ) (s : UInt64 × UInt64 × UInt64) : Prop where
  a : s.1.toNat < pq.toNat
  c : s.2.2.toNat < pq.toNat
  sum : s.2.2.toNat + s.1.toNat * s.2.1.toNat ≡ total [MOD pq.toNat]

theorem addSquare_total (hpq : pq.toNat ≤ 2 ^ 63) {q x : UInt64} (hq : q.toNat < pq.toNat)
    (hx : x.toNat < pq.toNat) (hfuel : x.toNat < fuel) :
    ∃ r, addSquare fuel pq q x = some r ∧
      r.toNat = (q.toNat + x.toNat * x.toNat) % pq.toNat := by
  refine loop_total (I := Adds pq (q.toNat + x.toNat * x.toNat)) (fun s => s.2.1.toNat)
    (fun s hs => ?_) (s := (x, x, q)) ⟨hx, hq, Nat.ModEq.refl _⟩ hfuel
  have hdouble := reduce_sum hpq hs.a hs.a
  have hadd := reduce_sum hpq hs.c hs.a
  have hpos : 0 < pq.toNat := by omega
  have hhalf := toNat_half s.2.1
  apply loop_step_ite
  · intro hne
    have hb := toNat_pos hne
    refine ⟨⟨?_, ?_, ?_⟩, by dsimp only; omega⟩
    · show (reduce pq (s.1 + s.1)).toNat < pq.toNat
      rw [hdouble]
      exact Nat.mod_lt _ hpos
    · dsimp only
      split
      · rw [hadd]
        exact Nat.mod_lt _ hpos
      · exact hs.c
    · dsimp only
      refine Nat.ModEq.trans ?_ hs.sum
      rw [hdouble, hhalf]
      have htwice : (s.1.toNat + s.1.toNat) % pq.toNat * (s.2.1.toNat / 2) ≡
          s.1.toNat * (2 * (s.2.1.toNat / 2)) [MOD pq.toNat] := by
        have h := (Nat.mod_modEq (s.1.toNat + s.1.toNat) pq.toNat).mul_right (s.2.1.toNat / 2)
        rw [← two_mul, mul_comm 2 s.1.toNat, mul_assoc] at h
        rw [← two_mul, mul_comm 2 s.1.toNat]
        exact h
      by_cases hodd : s.2.1 &&& 1 ≠ 0
      · rw [if_pos hodd, hadd]
        rw [ne_eq, and_one_iff] at hodd
        have hsplit : s.2.1.toNat = 2 * (s.2.1.toNat / 2) + 1 := by omega
        have hsum := (Nat.mod_modEq (s.2.2.toNat + s.1.toNat) pq.toNat).add htwice
        have hwhole : s.2.2.toNat + s.1.toNat + s.1.toNat * (2 * (s.2.1.toNat / 2)) =
            s.2.2.toNat + s.1.toNat * s.2.1.toNat := by
          rw [add_assoc, ← mul_one_add, add_comm 1, ← hsplit]
        rw [hwhole] at hsum
        exact hsum
      · rw [if_neg hodd]
        rw [ne_eq, and_one_iff, not_not] at hodd
        have hsplit : 2 * (s.2.1.toNat / 2) = s.2.1.toNat := by omega
        rw [hsplit] at htwice
        exact htwice.add_left _
  · intro hzero
    have hb : s.2.1.toNat = 0 := by
      rw [not_not.mp hzero]
      rfl
    have hsum := hs.sum
    rw [hb, mul_zero, add_zero] at hsum
    exact (Nat.mod_eq_of_lt hs.c).symm.trans hsum

structure Factor (pq g : ℕ) : Prop where
  pos : 0 < g
  dvd : g ∣ pq

/-- What one search keeps: a rest, a factor since the first step, and the count of steps. -/
structure Searching (pq : UInt64) (iter : ℕ) (s : Search) : Prop where
  x : s.x.toNat < pq.toNat
  started : 0 < s.j
  g : 1 < s.j → Factor pq.toNat s.g.toNat ∧ iter < s.iter
  iter : iter ≤ s.iter

theorem searchStep_total (hpq : pq.toNat ≤ 2 ^ 63) {q : UInt64} (hq : q.toNat < pq.toNat)
    {iter lim : ℕ} (hlim : 1 < lim) (hfuel : 2 ^ 65 ≤ fuel) {s : Search}
    (hs : Searching pq iter s) :
    ∃ next, searchStep fuel pq q lim s = some next ∧ next.elim
      (fun t => Searching pq iter t ∧ lim - t.j < lim - s.j)
      fun r => Factor pq.toNat r.1.toNat ∧ iter < r.2 := by
  rw [searchStep]
  by_cases hj : s.j < lim
  · rw [if_pos hj]
    have hsmall := s.x.toNat_lt
    obtain ⟨x, hx, hxval⟩ := addSquare_total hpq hq hs.x (by omega : s.x.toNat < fuel)
    rw [hx, Option.bind_some]
    generalize (if x < s.y then pq + x - s.y else x - s.y) = z
    have hz := z.toNat_lt
    obtain ⟨g, hg, hgval⟩ := gcd_total (a := z) (by omega : 0 < pq.toNat)
      (by omega : z.toNat + pq.toNat < fuel)
    rw [hg, Option.bind_some]
    have hiter := hs.iter
    have hfactor : Factor pq.toNat g.toNat := by
      rw [hgval]
      exact ⟨Nat.gcd_pos_of_pos_right _ (by omega), Nat.gcd_dvd_right _ _⟩
    refine ⟨_, rfl, ?_⟩
    by_cases hone : g ≠ 1
    · rw [if_pos hone]
      exact ⟨hfactor, Nat.lt_succ_of_le hiter⟩
    · rw [if_neg hone]
      refine ⟨⟨?_, Nat.succ_pos _, fun _ => ⟨hfactor, Nat.lt_succ_of_le hiter⟩,
        Nat.le_succ_of_le hiter⟩, ?_⟩
      · show x.toNat < pq.toNat
        rw [hxval]
        exact Nat.mod_lt _ (by omega)
      · dsimp only
        omega
  · rw [if_neg hj]
    exact ⟨_, rfl, hs.g (by omega)⟩

/-- Before the first search there is no factor. -/
def Attempting (pq : UInt64) (s : Attempts) : Prop :=
  (s.i = 0 ∧ s.iter = 0) ∨ Factor pq.toNat s.g.toNat

theorem attempt_total (hpq : pq.toNat ≤ 2 ^ 63) (htwo : 2 ≤ pq.toNat) (hfuel : 2 ^ 65 ≤ fuel)
    (random : ℕ → Fin 16 × UInt64) {s : Attempts} (hs : Attempting pq s) :
    ∃ next, attempt fuel random pq s = some next ∧ next.elim
      (fun t => Attempting pq t ∧ (3 - t.i) + (1000 - t.iter) < (3 - s.i) + (1000 - s.iter))
      fun g => Factor pq.toNat g.toNat := by
  rw [attempt]
  by_cases hmore : s.i < 3 ∨ s.iter < 1000
  · rw [if_pos hmore]
    have hone : (pq - 1).toNat = pq.toNat - 1 :=
      UInt64.toNat_sub_of_le _ _ (UInt64.le_iff_toNat_le.mpr (by show 1 ≤ pq.toNat; omega))
    have hrest (v : UInt64) : (v % (pq - 1)).toNat < pq.toNat - 1 := by
      rw [UInt64.toNat_mod, hone]
      exact Nat.mod_lt _ (by omega)
    have hq := hrest (17 + .ofNat (random s.i).1.val)
    have hx : ((random s.i).2 % (pq - 1) + 1).toNat < pq.toNat := by
      have hv := hrest (random s.i).2
      have hsum : ((random s.i).2 % (pq - 1)).toNat + 1 < 2 ^ 64 := by omega
      rw [UInt64.toNat_add, UInt64.toNat_one, Nat.mod_eq_of_lt hsum]
      omega
    dsimp only
    generalize (17 + .ofNat (random s.i).1.val) % (pq - 1) = q at hq ⊢
    generalize (random s.i).2 % (pq - 1) + 1 = x at hx ⊢
    have hpow : 2 ^ (min 5 s.i + 18) ≤ 2 ^ 23 := Nat.pow_le_pow_right (by omega) (by omega)
    have hlim : 1 < 2 ^ (min 5 s.i + 18) := Nat.one_lt_two_pow (by omega)
    generalize 2 ^ (min 5 s.i + 18) = lim at hpow hlim ⊢
    have hstart : Searching pq s.iter ⟨x, x, s.g, s.iter, 1⟩ :=
      ⟨hx, Nat.one_pos, fun h => absurd h (lt_irrefl 1), le_rfl⟩
    obtain ⟨r, hr, hfactor, hiter⟩ := loop_total (fun t : Search => lim - t.j)
      (fun t ht => searchStep_total hpq (by omega : q.toNat < pq.toNat) hlim hfuel ht) hstart
      (by dsimp only; omega : _ < fuel)
    rw [hr, Option.bind_some]
    refine ⟨_, rfl, ?_⟩
    by_cases hproper : r.1 > 1 ∧ r.1 < pq
    · rw [if_pos hproper]
      exact hfactor
    · rw [if_neg hproper]
      refine ⟨.inr hfactor, ?_⟩
      dsimp only
      omega
  · rw [if_neg hmore]
    refine ⟨_, rfl, ?_⟩
    rcases hs with hfirst | hfactor
    · omega
    · exact hfactor

/-- The smaller of two factors. -/
theorem smaller_factor {pq g : ℕ} (h : Factor pq g) (hpq : 0 < pq) :
    Factor pq (if pq / g < g then pq / g else g) ∧
      (if pq / g < g then pq / g else g) * (if pq / g < g then pq / g else g) ≤ pq := by
  have hproduct := Nat.div_mul_cancel h.dvd
  split
  · next hlt =>
    refine ⟨⟨Nat.div_pos (Nat.le_of_dvd hpq h.dvd) h.pos, Nat.div_dvd_of_dvd h.dvd⟩, ?_⟩
    calc pq / g * (pq / g) ≤ pq / g * g := Nat.mul_le_mul_left _ hlt.le
      _ = pq := hproduct
  · next hle =>
    refine ⟨h, ?_⟩
    calc g * g ≤ pq / g * g := Nat.mul_le_mul_right _ (not_lt.mp hle)
      _ = pq := hproduct

/-- Whatever the random numbers are, the search ends, with the smaller of two factors. -/
theorem factorizeSmallPQ_total (hfuel : 2 ^ 65 ≤ fuel) (random : ℕ → Fin 16 × UInt64)
    (pq : UInt64) :
    ∃ g, factorizeSmallPQ fuel random pq = some g ∧ Factor pq.toNat g.toNat ∧
      (0 < pq.toNat → g.toNat * g.toNat ≤ pq.toNat) := by
  rw [factorizeSmallPQ]
  have hmax : ((1 : UInt64) <<< 63).toNat = 2 ^ 63 := by decide
  by_cases hout : pq < 2 ∨ pq > (1 : UInt64) <<< 63
  · rw [if_pos hout]
    exact ⟨1, rfl, ⟨Nat.one_pos, one_dvd _⟩, id⟩
  · rw [if_neg hout]
    rw [not_or, UInt64.lt_iff_toNat_lt, gt_iff_lt, UInt64.lt_iff_toNat_lt, hmax] at hout
    have htwo : 2 ≤ pq.toNat := not_lt.mp hout.1
    have hstart : Attempting pq {} := .inl ⟨rfl, rfl⟩
    obtain ⟨g, hg, hfactor⟩ := loop_total
      (fun t : Attempts => (3 - t.i) + (1000 - t.iter))
      (fun t ht => attempt_total (by omega) htwo hfuel random ht) hstart
      (by show 3 - 0 + (1000 - 0) < fuel; omega)
    rw [hg, Option.bind_some]
    have hne : g ≠ 0 := by
      intro hzero
      rw [hzero] at hfactor
      exact absurd hfactor.pos (lt_irrefl 0)
    rw [if_pos hne]
    refine ⟨_, rfl, ?_⟩
    have hvalue : (if pq / g < g then pq / g else g).toNat =
        if pq.toNat / g.toNat < g.toNat then pq.toNat / g.toNat else g.toNat := by
      rw [← UInt64.toNat_div, apply_ite UInt64.toNat]
      exact if_congr UInt64.lt_iff_toNat_lt rfl rfl
    dsimp only
    rw [hvalue]
    have hsmaller := smaller_factor hfactor (by omega)
    exact ⟨hsmaller.1, fun _ => hsmaller.2⟩

theorem bigEndian_append (bytes : List UInt8) (byte : UInt8) :
    bigEndian (bytes ++ [byte]) = 256 * bigEndian bytes + byte.toNat := by
  rw [bigEndian, List.foldl_append]
  rfl

theorem bigEndian_lt (bytes : List UInt8) : bigEndian bytes < 256 ^ bytes.length := by
  induction bytes using List.reverseRecOn with
  | nil => exact Nat.one_pos
  | append_singleton bytes byte ih =>
    have hbyte := byte.toNat_lt
    rw [bigEndian_append, List.length_append, List.length_singleton, pow_succ]
    omega

theorem wordOf_append (bytes : List UInt8) (byte : UInt8) :
    wordOf (bytes ++ [byte]) = (wordOf bytes <<< 8) ||| byte.toUInt64 := by
  rw [wordOf, List.foldl_append]
  rfl

/-- Eight bytes have place in a word. -/
theorem toNat_wordOf {bytes : List UInt8} (h : bytes.length ≤ 8) :
    (wordOf bytes).toNat = bigEndian bytes := by
  induction bytes using List.reverseRecOn with
  | nil => rfl
  | append_singleton bytes byte ih =>
    rw [List.length_append, List.length_singleton] at h
    have hlt := bigEndian_lt bytes
    have hpow : 256 ^ bytes.length ≤ 256 ^ 7 := Nat.pow_le_pow_right (by omega) (by omega)
    have hshift : (wordOf bytes <<< 8).toNat = 2 ^ 8 * bigEndian bytes := by
      rw [UInt64.toNat_shiftLeft, ih (by omega)]
      show bigEndian bytes <<< 8 % 2 ^ 64 = _
      rw [Nat.shiftLeft_eq, Nat.mod_eq_of_lt (by omega), mul_comm]
    rw [wordOf_append, bigEndian_append, UInt64.toNat_or, hshift, UInt8.toNat_toUInt64,
      ← Nat.two_pow_add_eq_or_of_lt byte.toNat_lt]

theorem toNat_byte (x : UInt64) (k : ℕ) (hk : k < 64) :
    (x >>> UInt64.ofNat k).toUInt8.toNat = x.toNat / 2 ^ k % 256 := by
  rw [UInt64.toNat_toUInt8, UInt64.toNat_shiftRight, UInt64.toNat_ofNat',
    Nat.mod_eq_of_lt (by omega : k < 2 ^ 64), Nat.mod_eq_of_lt hk, Nat.shiftRight_eq_div_pow]

/-- Four bytes hold the low half. -/
theorem bigEndian_fourBytes (x : UInt64) : bigEndian (fourBytes x) = x.toNat % 2 ^ 32 := by
  have h₃ := toNat_byte x 24 (by omega)
  have h₂ := toNat_byte x 16 (by omega)
  have h₁ := toNat_byte x 8 (by omega)
  have h₀ : x.toUInt8.toNat = x.toNat % 256 := UInt64.toNat_toUInt8 x
  show 256 * (256 * (256 * (256 * 0 + (x >>> UInt64.ofNat 24).toUInt8.toNat) +
    (x >>> UInt64.ofNat 16).toUInt8.toNat) + (x >>> UInt64.ofNat 8).toUInt8.toNat) +
    x.toUInt8.toNat = _
  rw [h₃, h₂, h₁, h₀]
  omega

/-- The bytes of a big number are those of the number. -/
theorem bigEndian_getBytes (x : ℕ) : bigEndian (getBytes x) = x := by
  have hfold (digits : List ℕ) (h : ∀ d ∈ digits, d < 256) :
      bigEndian (digits.reverse.map .ofNat) = Nat.ofDigits 256 digits := by
    induction digits with
    | nil => rfl
    | cons first rest ih =>
      rw [List.forall_mem_cons] at h
      rw [List.reverse_cons, List.map_append, List.map_singleton, bigEndian_append, ih h.2,
        Nat.ofDigits_cons, UInt8.toNat_ofNat', Nat.mod_eq_of_lt h.1]
      exact Nat.add_comm _ _
  rw [getBytes, hfold _ fun d => Nat.digits_lt_base (by omega), Nat.ofDigits_digits]

/-- A factor of a big number that was found is one. -/
def Found (pq : ℕ) (found : Option ℕ) : Prop := ∀ p ∈ found, Factor pq p

theorem bigSearchStep_total {pq : ℕ} (hpq : 0 < pq) (t : ℕ) {iter lim : ℕ}
    {s : BigSearch} (hs : 0 < s.j ∧ iter + s.j ≤ s.iter + 1) :
    ∃ next, bigSearchStep pq t lim s = some next ∧ next.elim
      (fun u => (0 < u.j ∧ iter + u.j ≤ u.iter + 1) ∧ lim - u.j < lim - s.j)
      fun r => Found pq r.1 ∧ (r.1 = none → iter + lim ≤ r.2 + 1) := by
  rw [bigSearchStep]
  by_cases hj : s.j < lim
  · rw [if_pos hj]
    dsimp only
    generalize (if s.a * s.a % pq + t ≥ pq then s.a * s.a % pq + t - pq
      else s.a * s.a % pq + t) = a
    generalize (if a > s.b then a - s.b else s.b - a) = q
    refine ⟨_, rfl, ?_⟩
    by_cases hone : Nat.gcd q pq ≠ 1
    · rw [if_pos hone]
      refine ⟨fun p hp => ?_, fun hnone => absurd hnone (Option.some_ne_none _)⟩
      rw [← Option.some.inj hp]
      exact ⟨Nat.gcd_pos_of_pos_right _ hpq, Nat.gcd_dvd_right _ _⟩
    · rw [if_neg hone]
      refine ⟨⟨Nat.succ_pos _, ?_⟩, ?_⟩
      · dsimp only
        omega
      · dsimp only
        omega
  · rw [if_neg hj]
    exact ⟨_, rfl, fun p hp => absurd hp (Option.not_mem_none p), fun _ => by dsimp only; omega⟩

/-- A search that finds nothing takes all of its steps, so there are at most three. -/
theorem bigAttempt_total {pq : ℕ} (hpq : 0 < pq) (hfuel : 2 ^ 65 ≤ fuel)
    (random : ℕ → Fin 16 × UInt32) {s : ℕ × ℕ} (hs : 0 < s.1 → 1000 ≤ s.2) :
    ∃ next, bigAttempt fuel random pq s = some next ∧ next.elim
      (fun u => (0 < u.1 → 1000 ≤ u.2) ∧ 3 - u.1 < 3 - s.1) (Found pq) := by
  rw [bigAttempt]
  by_cases hmore : s.1 < 3 ∨ s.2 < 1000
  · rw [if_pos hmore]
    have hfew : s.1 < 3 := by omega
    have hpow : 2 ^ (s.1 + 23) ≤ 2 ^ 25 := Nat.pow_le_pow_right (by omega) (by omega)
    have hlim : 2 ^ 23 ≤ 2 ^ (s.1 + 23) := Nat.pow_le_pow_right (by omega) (by omega)
    dsimp only
    generalize 2 ^ (s.1 + 23) = lim at hpow hlim ⊢
    generalize 17 + (random s.1).1.val = t
    generalize (random s.1).2.toNat = a
    have hstart : 0 < (⟨a, a, s.2, 1⟩ : BigSearch).j ∧
        s.2 + (⟨a, a, s.2, 1⟩ : BigSearch).j ≤ (⟨a, a, s.2, 1⟩ : BigSearch).iter + 1 :=
      ⟨Nat.one_pos, le_rfl⟩
    obtain ⟨r, hr, hfound, hnone⟩ := loop_total (fun u : BigSearch => lim - u.j)
      (fun u hu => bigSearchStep_total hpq t hu) hstart (by dsimp only; omega : _ < fuel)
    rw [hr, Option.bind_some]
    refine ⟨_, rfl, ?_⟩
    cases hfirst : r.1 with
    | none =>
      rw [Option.isSome_none, if_neg Bool.false_ne_true]
      have hsteps := hnone hfirst
      refine ⟨fun _ => ?_, ?_⟩
      · dsimp only
        omega
      · dsimp only
        omega
    | some p =>
      rw [Option.isSome_some, if_pos rfl]
      rw [hfirst] at hfound
      exact hfound
  · rw [if_neg hmore]
    exact ⟨_, rfl, fun p hp => absurd hp (Option.not_mem_none p)⟩

/-- What is said of a result: nothing was found, or two factors in order, of which the second is
cut when it is written with four bytes. -/
def Factors (pqStr : List UInt8) (result : ParsedPQ) : Prop :=
  ∃ p q, p * q = bigEndian pqStr ∧ p ≤ q ∧ bigEndian result.p = p ∧
    bigEndian result.q = if isBig pqStr then q else q % 2 ^ 32

theorem factorizeBigPQ_total (hfuel : 2 ^ 65 ≤ fuel) (random : ℕ → Fin 16 × UInt32)
    {pqStr : List UInt8} (hpq : 0 < bigEndian pqStr) (hbig : isBig pqStr = true) :
    ∃ result, factorizeBigPQ fuel random pqStr = some result ∧
      (result = {} ∨ Factors pqStr result) := by
  obtain ⟨found, hfound, hfactor⟩ := loop_total (fun u : ℕ × ℕ => 3 - u.1)
    (fun u hu => bigAttempt_total hpq hfuel random hu)
    (fun h => absurd h (lt_irrefl 0) : 0 < ((0, 0) : ℕ × ℕ).1 → 1000 ≤ ((0, 0) : ℕ × ℕ).2)
    (by show 3 - 0 < fuel; omega)
  rw [factorizeBigPQ]
  dsimp only
  rw [hfound, Option.map_some]
  refine ⟨_, rfl, ?_⟩
  cases found with
  | none => exact .inl rfl
  | some p =>
    right
    have hp := hfactor p rfl
    have hproduct := Nat.mul_div_cancel' hp.dvd
    rw [Option.elim_some]
    by_cases hswap : p > bigEndian pqStr / p
    · rw [if_pos hswap]
      refine ⟨bigEndian pqStr / p, p, ?_, hswap.le, bigEndian_getBytes _, ?_⟩
      · rw [mul_comm, hproduct]
      · rw [hbig, if_pos rfl, bigEndian_getBytes]
    · rw [if_neg hswap]
      refine ⟨p, bigEndian pqStr / p, hproduct, not_lt.mp hswap, bigEndian_getBytes _, ?_⟩
      rw [hbig, if_pos rfl, bigEndian_getBytes]

/-- For every number but zero and whatever the random numbers are, the search ends, with two
factors or, for a number of more than 63 bits, maybe with none. -/
theorem factorizePQ_total (hfuel : 2 ^ 65 ≤ fuel) (random : Random) {pqStr : List UInt8}
    (hpq : 0 < bigEndian pqStr) :
    ∃ result, factorizePQ fuel random pqStr = some result ∧
      (isBig pqStr = true ∧ result = {} ∨ Factors pqStr result) := by
  rw [factorizePQ]
  cases hbig : isBig pqStr with
  | true =>
    rw [if_pos rfl]
    obtain ⟨result, hresult, hfactors⟩ := factorizeBigPQ_total hfuel random.big hpq hbig
    exact ⟨result, hresult, hfactors.imp_left fun hnone => ⟨rfl, hnone⟩⟩
  | false =>
    rw [if_neg Bool.false_ne_true]
    have hlength : pqStr.length ≤ 8 := by
      by_contra hlong
      rw [isBig, decide_eq_true (by omega : pqStr.length > 8)] at hbig
      exact Bool.noConfusion hbig
    have hword := toNat_wordOf hlength
    obtain ⟨p, hp, hfactor, hsquare⟩ := factorizeSmallPQ_total hfuel random.small (wordOf pqStr)
    rw [hword] at hfactor hsquare
    have hsmall := hsquare hpq
    have hdvd : ¬ (p = 0 ∨ wordOf pqStr % p ≠ 0) := by
      rw [not_or, not_not]
      constructor
      · intro hzero
        rw [hzero] at hfactor
        exact absurd hfactor.pos (lt_irrefl 0)
      · apply UInt64.toNat_inj.mp
        rw [UInt64.toNat_mod, hword]
        exact Nat.mod_eq_zero_of_dvd hfactor.dvd
    dsimp only
    rw [hp, Option.map_some, if_neg hdvd]
    refine ⟨_, rfl, .inr ⟨p.toNat, bigEndian pqStr / p.toNat, Nat.mul_div_cancel' hfactor.dvd,
      ?_, ?_, ?_⟩⟩
    · exact (Nat.le_div_iff_mul_le hfactor.pos).mpr hsmall
    · have hfits : p.toNat < 2 ^ 32 := by
        by_contra hlarge
        have hlt := p.toNat_lt
        have hvalue := (wordOf pqStr).toNat_lt
        have hmul : 2 ^ 32 * 2 ^ 32 ≤ p.toNat * p.toNat := Nat.mul_le_mul (by omega) (by omega)
        omega
      rw [bigEndian_fourBytes, Nat.mod_eq_of_lt hfits]
    · rw [bigEndian_fourBytes, UInt64.toNat_div, hword, hbig, if_neg Bool.false_ne_true]

theorem sample_lt : 5 < 16 := by decide

/-- The same two random numbers in each search. -/
def sameRandom : Random where
  small _ := (⟨5, sample_lt⟩, 7)
  big _ := (⟨5, sample_lt⟩, 7)

theorem factorizePQ_total_sample :
    ∃ result, factorizePQ (2 ^ 65) sameRandom [0x17, 0xED, 0x48, 0x94, 0x1A, 0x08, 0xF9, 0x81] =
        some result ∧
      (isBig [0x17, 0xED, 0x48, 0x94, 0x1A, 0x08, 0xF9, 0x81] = true ∧ result = {} ∨
        Factors [0x17, 0xED, 0x48, 0x94, 0x1A, 0x08, 0xF9, 0x81] result) :=
  factorizePQ_total le_rfl sameRandom (by decide)

end TelegramDesktop.Mtproto.DcKeyCreator
