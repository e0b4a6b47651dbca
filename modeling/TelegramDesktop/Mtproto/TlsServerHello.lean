import TelegramDesktop.Mtproto.TlsSocket

namespace TelegramDesktop.Mtproto.TlsSocket
open Base

theorem int16_of_lt {n : ℤ} (h0 : 0 ≤ n) (h : n < 2 ^ 15) : int16 n = n := by
  rw [int16, Int.bmod_def]
  have : n % (2 ^ 16 : ℕ) = n := Int.emod_eq_of_lt h0 (by norm_num; omega)
  rw [this, if_pos (by norm_num; omega)]

/-- A size of two parts is kept or is off by `2 ^ 16`. -/
theorem int16_of_ge {n : ℤ} (h : 2 ^ 15 ≤ n) (hlt : n < 3 * 2 ^ 15) : int16 n = n - 2 ^ 16 := by
  rw [int16, Int.bmod_def]
  norm_num
  split_ifs <;> omega

theorem subspan_of_le {data : List UInt8} {i n : ℕ} (h : i + n ≤ data.length) :
    subspan data i n = some (slice data i n) := by
  rw [subspan, if_pos (by omega), if_neg (by omega), if_pos (by omega)]
  simp

theorem subspan_eq_none {data : List UInt8} {i : ℕ} {n : ℤ} (hn : n ≠ -1)
    (h : n < 0 ∨ (data.length : ℤ) < i + n) : subspan data i n = none := by
  rw [subspan]
  split_ifs <;> first | rfl | omega

theorem subspan_rest {data : List UInt8} {i : ℕ} (h : i ≤ data.length) :
    subspan data i (-1) = some (data.drop i) := by
  rw [subspan, if_pos (by omega), if_pos rfl]
  simp

theorem checkPart_iff {data check : List UInt8} :
    checkPart data check = true ↔ data.take check.length = check := by
  rw [checkPart]
  split_ifs with h
  · constructor
    · intro hfalse
      exact absurd hfalse (by decide)
    · intro heq
      have := congrArg List.length heq
      rw [List.length_take] at this
      omega
  · exact beq_iff_eq

def part2Size (received : List UInt8) : ℕ := Vectors.toNat (slice received 3 2)

def parts123Size (received : List UInt8) : ℕ := 16 + part2Size received

def part4Size (received : List UInt8) : ℕ :=
  Vectors.toNat (slice received (parts123Size received - 2) 2)

def helloSize (received : List UInt8) : ℕ := parts123Size received + part4Size received

def Part1Good (received : List UInt8) : Prop := received.take 3 = kServerHelloPart1

def Part3Good (received : List UInt8) : Prop :=
  slice received (parts123Size received - 11) 9 = kServerHelloPart3

instance (received : List UInt8) : Decidable (Part1Good received) := by
  unfold Part1Good
  infer_instance

instance (received : List UInt8) : Decidable (Part3Good received) := by
  unfold Part3Good
  infer_instance

theorem toNat_pair_lt (l : List UInt8) (h : l.length ≤ 2) : Vectors.toNat l < 2 ^ 16 := by
  match l, h with
  | [], _ => decide
  | [a], _ =>
    have := a.toNat_lt
    simp only [Vectors.toNat, List.foldl_cons, List.foldl_nil]
    omega
  | [a, b], _ =>
    have := a.toNat_lt
    have := b.toNat_lt
    simp only [Vectors.toNat, List.foldl_cons, List.foldl_nil]
    omega

theorem length_slice_le (l : List UInt8) (i n : ℕ) : (slice l i n).length ≤ n :=
  List.length_take_le ..

theorem part2Size_lt (received : List UInt8) : part2Size received < 2 ^ 16 :=
  toNat_pair_lt _ (length_slice_le ..)

theorem part4Size_lt (received : List UInt8) : part4Size received < 2 ^ 16 :=
  toNat_pair_lt _ (length_slice_le ..)

section Prefix

variable {p x : List UInt8}

theorem slice_append_left {i n : ℕ} (h : i + n ≤ p.length) :
    slice (p ++ x) i n = slice p i n := by
  rw [slice, slice, List.drop_append_of_le_length (by omega), List.take_append_of_le_length]
  rw [List.length_drop]
  omega

theorem parts123Size_append (h : 5 ≤ p.length) : parts123Size (p ++ x) = parts123Size p := by
  rw [parts123Size, part2Size, slice_append_left h]
  rfl

theorem part1Good_append (h : 5 ≤ p.length) : Part1Good (p ++ x) ↔ Part1Good p := by
  rw [Part1Good, Part1Good, List.take_append_of_le_length (by omega)]

theorem part3Good_append (h : 5 ≤ p.length) (h3 : parts123Size p ≤ p.length) :
    Part3Good (p ++ x) ↔ Part3Good p := by
  have h16 : 16 ≤ parts123Size p := Nat.le_add_right ..
  rw [Part3Good, Part3Good, parts123Size_append h, slice_append_left (by omega)]

theorem helloSize_append (h : 5 ≤ p.length) (h3 : parts123Size p ≤ p.length) :
    helloSize (p ++ x) = helloSize p := by
  have h16 : 16 ≤ parts123Size p := Nat.le_add_right ..
  rw [helloSize, helloSize, part4Size, part4Size, parts123Size_append h,
    slice_append_left (by omega)]

end Prefix

section Hello

variable (hmacSha256 : List UInt8 → List UInt8 → Vector UInt8 32) (secret : Secret)
  (digest : Vector UInt8 32)

/-- The socket after `plainConnected`, with the digest of the hello it sent. -/
def waiting : Socket := { secret, state := .waitingHello, incoming := digest.toList }

def holding (received : List UInt8) (length : ℤ) : Socket :=
  { waiting secret digest with
    incoming := digest.toList ++ received, serverHelloLength := length }

/-- The digest field holds the HMAC over `digest ++ hello` with the field zeroed. -/
def DigestGood (hello : List UInt8) : Prop :=
  slice hello 11 32 = (hmacSha256 secret.keyFromSecret
    (splice (digest.toList ++ hello) 43 (List.replicate 32 0))).toList

instance (hello : List UInt8) : Decidable (DigestGood hmacSha256 secret digest hello) := by
  unfold DigestGood
  infer_instance

inductive Verdict
  | wait (length : ℤ)
  | stop (outcome : Option State)

def digestState (hello : List UInt8) : State :=
  if DigestGood hmacSha256 secret digest hello then .connected else .error

def digestOutcome (received : List UInt8) (length : ℤ) : Option State :=
  if length = -33 then
    if 43 ≤ received.length then some (digestState hmacSha256 secret digest received) else none
  else if length < 43 then none
  else some (digestState hmacSha256 secret digest (received.take length.toNat))

/-- What the checks make of all that was received. -/
def verdict (received : List UInt8) : Verdict :=
  let parts123 := int16 (parts123Size received)
  let full := int16 (helloSize received)
  if received.length < 5 then .wait 5
  else if ¬ Part1Good received then .stop (some .error)
  else if received.length < parts123 then .wait parts123
  else if received.length < parts123Size received then .stop none
  else if parts123 ≠ parts123Size received then
    .stop (digestOutcome hmacSha256 secret digest received parts123)
  else if ¬ Part3Good received then .stop (some .error)
  else if received.length < full then .wait full
  else .stop (digestOutcome hmacSha256 secret digest received full)

variable {hmacSha256 secret digest}

variable (digest) in
theorem length_incoming (received : List UInt8) :
    (digest.toList ++ received).length = 32 + received.length := by
  rw [List.length_append, Vector.length_toList]

theorem slice_digest_append (received : List UInt8) (i n : ℕ) :
    slice (digest.toList ++ received) (32 + i) n = slice received i n := by
  have hdrop : (digest.toList ++ received).drop (32 + i) = received.drop i := by
    rw [← List.drop_drop, List.drop_left' (Vector.length_toList ..)]
  rw [slice, hdrop, slice]

theorem compareDigest_state (received hello : List UInt8) (length : ℤ) :
    ∃ s, (holding secret digest received length).compareDigest hmacSha256
        (digest.toList ++ hello) (slice hello 11 32) = some s ∧
      s.state = digestState hmacSha256 secret digest hello := by
  rw [Socket.compareDigest, digestState]
  by_cases hgood : DigestGood hmacSha256 secret digest hello
  · rw [if_pos hgood]
    exact ⟨_, if_pos hgood, rfl⟩
  · rw [if_neg hgood]
    exact ⟨_, if_neg hgood, rfl⟩

theorem checkHelloDigest_eq (received : List UInt8) (length : ℤ) :
    (holding secret digest received length).checkHelloDigest hmacSha256 =
      (subspan (digest.toList ++ received) 0 (32 + length)).bind fun fulldata =>
        (subspan fulldata (32 + 11 : ℕ) (32 : ℕ)).bind fun digestCopy =>
          (holding secret digest received length).compareDigest hmacSha256 fulldata digestCopy :=
  rfl

/-- The digest check decides by the bytes it takes for the hello. -/
theorem checkHelloDigest_spec {received hello : List UInt8} {length : ℤ}
    (hfull : subspan (digest.toList ++ received) 0 (32 + length) = some (digest.toList ++ hello)) :
    (hello.length < 43 →
      (holding secret digest received length).checkHelloDigest hmacSha256 = none) ∧
    (43 ≤ hello.length →
      ∃ s, (holding secret digest received length).checkHelloDigest hmacSha256 = some s ∧
        s.state = digestState hmacSha256 secret digest hello) := by
  have hlen := length_incoming digest hello
  rw [checkHelloDigest_eq, hfull, Option.bind_some]
  constructor
  · intro hshort
    rw [subspan_eq_none (by omega) (by omega)]
    rfl
  · intro hlong
    rw [subspan_of_le (by omega), slice_digest_append]
    exact compareDigest_state received hello length

variable (digest) in
theorem subspan_fulldata {received : List UInt8} {n : ℕ} (h : n ≤ received.length) :
    subspan (digest.toList ++ received) 0 (32 + n) =
      some (digest.toList ++ received.take n) := by
  have hlen := length_incoming digest received
  have hspan : subspan (digest.toList ++ received) (0 : ℕ) (32 + n : ℕ) = _ :=
    subspan_of_le (by omega)
  push_cast at hspan
  rw [hspan, slice, List.drop_zero, List.take_append]
  simp

variable (secret digest) in
/-- What the checks make of a socket that has read the whole of its current part. -/
def Follows (received : List UInt8) (result : Option (Socket × Bool)) : Verdict → Prop
  | .wait length => result = some (holding secret digest received length, true)
  | .stop none => result = none
  | .stop (some outcome) => ∃ s, result = some (s, false) ∧ s.state = outcome

variable (hmacSha256 secret digest) in
theorem checkHelloDigest_follows {received : List UInt8} {length : ℤ}
    (h : length ≤ received.length) :
    Follows secret digest received
      ((holding secret digest received length).checkHelloDigest hmacSha256 >>=
        fun s => some (s, false))
      (.stop (digestOutcome hmacSha256 secret digest received length)) := by
  have hlen := length_incoming digest received
  rw [digestOutcome]
  split_ifs with hrest hlong hshort
  · have hfull : subspan (digest.toList ++ received) 0 (32 + length) =
        some (digest.toList ++ received) := by
      rw [hrest]
      exact subspan_rest (i := 0) (Nat.zero_le _)
    obtain ⟨s, hs, hstate⟩ := (checkHelloDigest_spec hfull).2 hlong
    exact ⟨s, by rw [hs]; rfl, hstate⟩
  · have hfull : subspan (digest.toList ++ received) 0 (32 + length) =
        some (digest.toList ++ received) := by
      rw [hrest]
      exact subspan_rest (i := 0) (Nat.zero_le _)
    have hnone : (holding secret digest received length).checkHelloDigest hmacSha256 = none :=
      (checkHelloDigest_spec hfull).1 (by omega)
    rw [Follows, hnone]
    rfl
  · by_cases hneg : 32 + length < 0
    · have hnone : subspan (digest.toList ++ received) (0 : ℕ) (32 + length) = none :=
        subspan_eq_none (by omega) (.inl hneg)
      rw [Follows, checkHelloDigest_eq, ← Nat.cast_zero, hnone]
      rfl
    · have hnat : 32 + length = ((32 + length).toNat : ℕ) := by omega
      have hspan : subspan (digest.toList ++ received) (0 : ℕ) (32 + length) =
          some ((digest.toList ++ received).take (32 + length).toNat) := by
        rw [hnat, subspan_of_le (by omega)]
        rfl
      have hshortdata : ((digest.toList ++ received).take (32 + length).toNat).length < 75 := by
        rw [List.length_take]
        omega
      have hnone : subspan ((digest.toList ++ received).take (32 + length).toNat)
          (32 + 11 : ℕ) (32 : ℕ) = none := subspan_eq_none (by omega) (by omega)
      rw [Follows, checkHelloDigest_eq, ← Nat.cast_zero, hspan, Option.bind_some, hnone]
      rfl
  · have hnat : ((length.toNat : ℕ) : ℤ) = length := by omega
    have hfull := subspan_fulldata digest (show length.toNat ≤ received.length by omega)
    rw [hnat] at hfull
    obtain ⟨s, hs, hstate⟩ := (checkHelloDigest_spec hfull).2
      (by rw [List.length_take]; omega)
    exact ⟨s, by rw [hs]; rfl, hstate⟩

variable (secret digest) in
theorem requiredHelloPartReady_iff (received : List UInt8) (length : ℤ) :
    (holding secret digest received length).requiredHelloPartReady = true ↔
      length ≤ received.length := by
  have hlen := length_incoming digest received
  rw [Socket.requiredHelloPartReady, decide_eq_true_iff]
  change (32 : ℕ) + length ≤ ((digest.toList ++ received).length : ℤ) ↔ _
  omega

theorem readPartLength_eq {data : List UInt8} {i : ℕ} (h : i + 2 ≤ data.length) :
    readPartLength data i = some (Vectors.toNat (slice data i 2) : ℤ) := by
  have hspan := subspan_of_le (n := 2) h
  rw [readPartLength]
  change (subspan data i (2 : ℕ)).map _ = _
  rw [hspan]
  rfl

theorem checkPart_slice {received check : List UInt8} {i n : ℕ} (h : check.length ≤ n - i) :
    checkPart ((slice received 0 n).drop i) check = true ↔
      slice received i check.length = check := by
  rw [checkPart_iff, drop_slice, Nat.zero_add, take_slice h]

theorem subspan_holding {received : List UInt8} {size : ℕ} (h : size ≤ received.length) :
    subspan (digest.toList ++ received) (32 : ℕ) size = some (slice received 0 size) := by
  have hlen := length_incoming digest received
  rw [subspan_of_le (by omega)]
  exact congrArg some (slice_digest_append received 0 size)

theorem readPartLength_slice {received : List UInt8} {i size : ℕ} (hi : i + 2 ≤ size)
    (h : size ≤ received.length) :
    readPartLength (slice received 0 size) i = some (Vectors.toNat (slice received i 2) : ℤ) := by
  have hsliced : (slice received 0 size).length = size := length_slice (by omega)
  rw [readPartLength_eq (by omega), slice, drop_slice, Nat.zero_add, take_slice (by omega)]

/-- What a check does once its part is found good, by whether the next part is there. -/
theorem ready_cases {α : Type*} {received : List UInt8} {length : ℤ} {x y : α} :
    (if (!(holding secret digest received length).requiredHelloPartReady) = true then x else y) =
      if ¬ length ≤ received.length then x else y := by
  have hiff := requiredHelloPartReady_iff secret digest received length
  apply if_congr _ rfl rfl
  rw [Bool.not_eq_true', ← Bool.not_eq_true]
  exact not_congr hiff

theorem checkPart_cases {α : Type*} {received : List UInt8} (check : List UInt8) {i n : ℕ}
    (h : check.length ≤ n - i) {x y : α} :
    (if (!checkPart ((slice received 0 n).drop i) check) = true then x else y) =
      if slice received i check.length ≠ check then x else y := by
  apply if_congr _ rfl rfl
  rw [Bool.not_eq_true', ← Bool.not_eq_true]
  exact not_congr (checkPart_slice h)

theorem checkHelloParts34_eq {received : List UInt8} {length : ℤ}
    (h : parts123Size received ≤ received.length) :
    (holding secret digest received length).checkHelloParts34 hmacSha256
        (parts123Size received) =
      if length = parts123Size received then
        if ¬ Part3Good received then
          some ((holding secret digest received length).handleError, false)
        else if ¬ int16 (helloSize received) ≤ received.length then
          some (holding secret digest received (int16 (helloSize received)), true)
        else
          (holding secret digest received (int16 (helloSize received))).checkHelloDigest
            hmacSha256 >>= fun s => some (s, false)
      else (holding secret digest received length).checkHelloDigest hmacSha256 >>=
        fun s => some (s, false) := by
  have hfull : ((parts123Size received : ℕ) : ℤ) + (part4Size received : ℕ) =
      helloSize received := (Nat.cast_add ..).symm
  have h16 : 16 ≤ parts123Size received := Nat.le_add_right ..
  obtain ⟨size, hsize⟩ : ∃ size, parts123Size received = size := ⟨_, rfl⟩
  have hpart3good : Part3Good received ↔ slice received (size - 11) 9 = kServerHelloPart3 := by
    rw [Part3Good, hsize]
  rw [hsize] at h h16 hfull ⊢
  have hsliced : (slice received 0 size).length = size := length_slice (by omega)
  have hpart4 : readPartLength (slice received 0 size) (size - (2 : ℕ)) =
      some (part4Size received : ℤ) := by
    rw [← Nat.cast_sub (by omega), readPartLength_slice (by omega) h, part4Size, hsize]
  have hpart3 : subspan (slice received 0 size) (size - (2 : ℕ) - (9 : ℕ)) (-1) =
      some ((slice received 0 size).drop (size - 11)) := by
    have hcast : (size : ℤ) - (2 : ℕ) - (9 : ℕ) = (size - 11 : ℕ) := by omega
    rw [hcast, subspan_rest (by omega)]
  change (subspan (digest.toList ++ received) (32 : ℕ) size).bind _ = _
  rw [subspan_holding h, Option.bind_some]
  change (readPartLength (slice received 0 size) (size - (2 : ℕ))).bind _ = _
  rw [hpart4, Option.bind_some, hfull]
  apply if_congr Iff.rfl _ rfl
  change (subspan (slice received 0 size) (size - (2 : ℕ) - (9 : ℕ)) (-1)).bind _ = _
  rw [hpart3, Option.bind_some]
  refine (checkPart_cases kServerHelloPart3 (by change 9 ≤ _; omega)).trans ?_
  apply if_congr (not_congr hpart3good).symm rfl
  exact ready_cases

theorem checkHelloParts12_eq {received : List UInt8} {length : ℤ} (h : 5 ≤ received.length) :
    (holding secret digest received length).checkHelloParts12 hmacSha256 =
      if length = 5 then
        if ¬ Part1Good received then
          some ((holding secret digest received length).handleError, false)
        else
          let length := int16 (parts123Size received)
          if ¬ length ≤ received.length then some (holding secret digest received length, true)
          else (holding secret digest received length).checkHelloParts34 hmacSha256
            (parts123Size received)
      else (holding secret digest received length).checkHelloParts34 hmacSha256
        (parts123Size received) := by
  have hsliced : (slice received 0 5).length = 5 := length_slice (by omega)
  have hpart2 : readPartLength (slice received 0 5) (3 : ℕ) = some (part2Size received : ℤ) :=
    readPartLength_slice (by omega) h
  have hpart1 : subspan (slice received 0 5) (0 : ℕ) (-1) = some ((slice received 0 5).drop 0) :=
    subspan_rest (by omega)
  have hsize : (5 : ℤ) + part2Size received + 9 + 2 = parts123Size received := by
    rw [parts123Size]
    omega
  change (subspan (digest.toList ++ received) (32 : ℕ) (5 : ℕ)).bind _ = _
  rw [subspan_holding h, Option.bind_some]
  change (readPartLength (slice received 0 5) (3 : ℕ)).bind _ = _
  rw [hpart2, Option.bind_some, ← hsize]
  apply if_congr Iff.rfl _ rfl
  change (subspan (slice received 0 5) (0 : ℕ) (-1)).bind _ = _
  rw [hpart1, Option.bind_some]
  refine (checkPart_cases kServerHelloPart1 (by decide)).trans ?_
  apply if_congr Iff.rfl rfl
  exact ready_cases

theorem checkHelloParts34_eq_none {received : List UInt8} {length : ℤ} {size : ℕ}
    (h : received.length < size) :
    (holding secret digest received length).checkHelloParts34 hmacSha256 size = none := by
  have hlen := length_incoming digest received
  have hspan : subspan (digest.toList ++ received) (32 : ℕ) size = none :=
    subspan_eq_none (by omega) (by omega)
  change (subspan (digest.toList ++ received) (32 : ℕ) size).bind _ = _
  rw [hspan]
  rfl

/-- A length the socket waits for was taken from the parts that are there. -/
def Resumes (received : List UInt8) (length : ℤ) : Prop :=
  length = 5 ∨
    Part1Good received ∧
      (length = int16 (parts123Size received) ∨
        int16 (parts123Size received) = parts123Size received ∧
          parts123Size received ≤ received.length ∧ Part3Good received ∧
          length = int16 (helloSize received))

theorem checkHelloParts34_follows {received : List UInt8} {length : ℤ}
    (h5 : 5 ≤ received.length) (h1 : Part1Good received)
    (hlength : length = int16 (parts123Size received)) (hready : length ≤ received.length) :
    Follows secret digest received
      ((holding secret digest received length).checkHelloParts34 hmacSha256
        (parts123Size received))
      (verdict hmacSha256 secret digest received) := by
  rw [verdict, if_neg (by omega), if_neg (not_not.mpr h1), if_neg (by omega)]
  by_cases hthere : received.length < parts123Size received
  · rw [if_pos hthere]
    exact checkHelloParts34_eq_none hthere
  · rw [if_neg hthere, checkHelloParts34_eq (by omega), ← hlength]
    by_cases hfits : length = parts123Size received
    · rw [if_pos hfits, if_neg (not_not.mpr hfits)]
      by_cases h3 : Part3Good received
      · generalize int16 (helloSize received) = full
        rw [if_neg (not_not.mpr h3), if_neg (not_not.mpr h3)]
        by_cases hwait : received.length < full
        · rw [if_pos hwait, if_pos (by omega)]
          rfl
        · rw [if_neg hwait, if_neg (by omega)]
          exact checkHelloDigest_follows hmacSha256 secret digest (by omega)
      · rw [if_pos h3, if_pos h3]
        exact ⟨_, rfl, rfl⟩
    · rw [if_neg hfits, if_pos hfits]
      exact checkHelloDigest_follows hmacSha256 secret digest hready

variable (hmacSha256 secret digest) in
/-- Wherever the checks were left, they are taken up as if from the start. -/
theorem checkHelloParts12_follows {received : List UInt8} {length : ℤ}
    (h5 : 5 ≤ received.length) (hresumes : Resumes received length)
    (hready : length ≤ received.length) :
    Follows secret digest received
      ((holding secret digest received length).checkHelloParts12 hmacSha256)
      (verdict hmacSha256 secret digest received) := by
  rw [checkHelloParts12_eq h5]
  by_cases hfirst : length = 5
  · rw [if_pos hfirst]
    by_cases h1 : Part1Good received
    · rw [if_neg (not_not.mpr h1)]
      dsimp only
      by_cases hthere : int16 (parts123Size received) ≤ received.length
      · rw [if_neg (not_not.mpr hthere)]
        exact checkHelloParts34_follows h5 h1 rfl hthere
      · rw [if_pos hthere, verdict, if_neg (by omega), if_neg (not_not.mpr h1),
          if_pos (by omega)]
        rfl
    · rw [if_pos h1, verdict, if_neg (by omega), if_pos h1]
      exact ⟨_, rfl, rfl⟩
  · rw [if_neg hfirst]
    rcases hresumes with hresumes | ⟨h1, hlength | ⟨hfits, hthere, h3, hlength⟩⟩
    · exact absurd hresumes hfirst
    · exact checkHelloParts34_follows h5 h1 hlength hready
    · -- The checks before the digest were passed already, or are passed once more.
      have hdigest := checkHelloDigest_follows hmacSha256 secret digest hready
      have hverdict : verdict hmacSha256 secret digest received =
          .stop (digestOutcome hmacSha256 secret digest received length) := by
        rw [verdict, if_neg (by omega), if_neg (not_not.mpr h1), if_neg (by omega),
          if_neg (by omega), if_neg (not_not.mpr hfits), if_neg (not_not.mpr h3), ← hlength,
          if_neg (by omega)]
      rw [hverdict, checkHelloParts34_eq hthere]
      by_cases hsame : length = parts123Size received
      · rw [if_pos hsame, if_neg (not_not.mpr h3), ← hlength, if_neg (not_not.mpr hready)]
        exact hdigest
      · rw [if_neg hsame]
        exact hdigest

theorem Resumes.append {p : List UInt8} {length : ℤ} (h5 : 5 ≤ p.length) (h : Resumes p length)
    (x : List UInt8) : Resumes (p ++ x) length := by
  apply Or.imp_right _ h
  intro ⟨h1, hlength⟩
  rw [part1Good_append h5, parts123Size_append h5]
  apply And.intro h1
  apply Or.imp_right _ hlength
  intro ⟨hfits, hthere, h3, hfull⟩
  rw [part3Good_append h5 hthere, helloSize_append h5 hthere, List.length_append]
  exact ⟨hfits, by omega, h3, hfull⟩

variable (hmacSha256 secret digest) in
/-- What the checks wait for is more than what is there. -/
theorem verdict_wait {received : List UInt8} {length : ℤ}
    (h : verdict hmacSha256 secret digest received = .wait length) :
    received.length < length ∧ ∀ x, Resumes (received ++ x) length := by
  rw [verdict] at h
  split_ifs at h with h5 h1 h2 h3 h4 h6 h7
  · have heq : length = 5 := (Verdict.wait.inj h).symm
    exact ⟨by omega, fun x => .inl heq⟩
  · have heq := Verdict.wait.inj h
    exact ⟨by omega, Resumes.append (by omega) (.inr ⟨h1, .inl heq.symm⟩)⟩
  · have heq := Verdict.wait.inj h
    exact ⟨by omega, Resumes.append (by omega)
      (.inr ⟨h1, .inr ⟨not_not.mp h4, by omega, h6, heq.symm⟩⟩)⟩

variable (hmacSha256 secret digest) in
/-- The first verdict that is not to wait, as the chunks come in. -/
def settle (received : List UInt8) : List (List UInt8) → Verdict
  | [] => verdict hmacSha256 secret digest received
  | chunk :: chunks =>
    match verdict hmacSha256 secret digest received with
    | .wait _ => settle (received ++ chunk) chunks
    | .stop outcome => .stop outcome

variable (hmacSha256 secret digest) in
theorem settle_append (received : List UInt8) (chunks more : List (List UInt8)) :
    settle hmacSha256 secret digest received (chunks ++ more) =
      match settle hmacSha256 secret digest received chunks with
      | .wait _ => settle hmacSha256 secret digest (received ++ chunks.flatten) more
      | .stop outcome => .stop outcome := by
  induction chunks generalizing received with
  | nil =>
    rw [List.nil_append, List.flatten_nil, List.append_nil, settle]
    cases more <;> cases hverdict : verdict hmacSha256 secret digest received <;>
      simp only [settle, hverdict]
  | cons chunk chunks ih =>
    rw [List.cons_append, settle, settle]
    cases verdict hmacSha256 secret digest received with
    | wait length =>
      dsimp only
      rw [ih, List.flatten_cons, List.append_assoc]
    | stop outcome => rfl

variable (hmacSha256 secret digest) in
theorem settle_wait {received : List UInt8} {chunks : List (List UInt8)} {length : ℤ}
    (h : settle hmacSha256 secret digest received chunks = .wait length) :
    verdict hmacSha256 secret digest (received ++ chunks.flatten) = .wait length := by
  have happend := settle_append hmacSha256 secret digest received chunks []
  rw [List.append_nil, h] at happend
  exact happend.symm

variable (secret digest) in
def Settles (received : List UInt8) (result : Option Socket) : Verdict → Prop
  | .wait length => result = some (holding secret digest received length)
  | .stop none => result = none
  | .stop (some outcome) => ∃ s, result = some s ∧ s.state = outcome

theorem startHello_holding {received : List UInt8} {length : ℤ} (h : 0 < length) :
    (holding secret digest received length).startHello = holding secret digest received length :=
  if_neg h.ne'

variable (hmacSha256 secret digest) in
theorem verdict_of_resumes {received : List UInt8} {length : ℤ}
    (hresumes : Resumes received length) (hfirst : received.length < 5 → length = 5)
    (h : received.length < length) :
    verdict hmacSha256 secret digest received = .wait length := by
  by_cases h5 : received.length < 5
  · rw [verdict, if_pos h5, hfirst h5]
  · rcases hresumes with hresumes | ⟨h1, hlength | ⟨hfits, hthere, h3, hlength⟩⟩
    · omega
    · rw [verdict, if_neg h5, if_neg (not_not.mpr h1), ← hlength, if_pos h]
    · rw [verdict, if_neg h5, if_neg (not_not.mpr h1), if_neg (by omega), if_neg (by omega),
        if_neg (not_not.mpr hfits), if_neg (not_not.mpr h3), ← hlength, if_pos h]

variable (hmacSha256 secret digest) in
/-- One call of `readHello`, whatever it was left with, settles as the bytes do. -/
theorem readHello_settles (chunks : List (List UInt8)) {received : List UInt8} {length : ℤ}
    (hresumes : Resumes received length) (hpos : 0 < length)
    (hfirst : received.length < 5 → length = 5) :
    Settles secret digest (received ++ chunks.flatten)
      ((holding secret digest received length).readHello hmacSha256 chunks)
      (settle hmacSha256 secret digest received chunks) := by
  induction chunks generalizing received length with
  | nil =>
    have hready := requiredHelloPartReady_iff secret digest received length
    rw [Socket.readHello, startHello_holding hpos, settle, List.flatten_nil, List.append_nil]
    by_cases hthere : length ≤ received.length
    · have hfollows := checkHelloParts12_follows hmacSha256 secret digest (by omega) hresumes hthere
      rw [if_pos (hready.mpr hthere)]
      match verdict hmacSha256 secret digest received, hfollows with
      | .wait _, hfollows => exact congrArg (Option.map Prod.fst) hfollows
      | .stop none, hfollows => exact congrArg (Option.map Prod.fst) hfollows
      | .stop (some _), ⟨s, hs, hstate⟩ => exact ⟨s, congrArg (Option.map Prod.fst) hs, hstate⟩
    · rw [if_neg (mt hready.mp hthere),
        verdict_of_resumes hmacSha256 secret digest hresumes hfirst (by omega)]
      rfl
  | cons chunk chunks ih =>
    have hready := requiredHelloPartReady_iff secret digest received length
    have happend : ∀ l : ℤ, (holding secret digest received l).append chunk =
        holding secret digest (received ++ chunk) l := by
      intro l
      rw [Socket.append, holding, holding]
      dsimp only
      rw [List.append_assoc]
    rw [Socket.readHello, startHello_holding hpos, settle, List.flatten_cons, ← List.append_assoc]
    by_cases hthere : length ≤ received.length
    · have hfollows := checkHelloParts12_follows hmacSha256 secret digest (by omega) hresumes hthere
      rw [if_pos (hready.mpr hthere)]
      cases hverdict : verdict hmacSha256 secret digest received with
      | wait next =>
        have hwait := verdict_wait hmacSha256 secret digest hverdict
        rw [hverdict] at hfollows
        rw [show _ = some _ from hfollows]
        dsimp only
        rw [startHello_holding (by omega), happend]
        apply ih (hwait.2 chunk) (by omega)
        intro h5
        rw [List.length_append] at h5
        omega
      | stop outcome =>
        rw [hverdict] at hfollows
        match outcome, hfollows with
        | none, hfollows =>
          rw [show _ = none from hfollows]
          rfl
        | some _, ⟨s, hs, hstate⟩ =>
          rw [hs]
          exact ⟨s, rfl, hstate⟩
    · have hverdict := verdict_of_resumes hmacSha256 secret digest hresumes hfirst (by omega)
      have hwait := verdict_wait hmacSha256 secret digest hverdict
      rw [if_neg (mt hready.mp hthere), hverdict, happend]
      apply ih (hwait.2 chunk) hpos
      intro h5
      rw [List.length_append] at h5
      exact hfirst (by omega)

def Verdict.outcome : Verdict → Option State
  | .wait _ => some .waitingHello
  | .stop outcome => outcome

def Decided (outcome : Option State) : Prop :=
  outcome = none ∨ outcome = some .error ∨ outcome = some .connected

theorem Decided.ne {outcome : Option State} (h : Decided outcome) :
    outcome ≠ some .waitingHello := by
  rcases h with h | h | h <;> rw [h] <;> decide

theorem digestState_decided (hello : List UInt8) :
    Decided (some (digestState hmacSha256 secret digest hello)) := by
  rw [digestState]
  split_ifs
  · exact .inr (.inr rfl)
  · exact .inr (.inl rfl)

theorem digestOutcome_decided (received : List UInt8) (length : ℤ) :
    Decided (digestOutcome hmacSha256 secret digest received length) := by
  rw [digestOutcome]
  split_ifs
  · apply digestState_decided
  · exact .inl rfl
  · exact .inl rfl
  · apply digestState_decided

theorem verdict_decided {received : List UInt8} {outcome : Option State}
    (h : verdict hmacSha256 secret digest received = .stop outcome) : Decided outcome := by
  rw [verdict] at h
  split_ifs at h with h5 h1 h2 h3 h4 h6 h7 <;> rw [← Verdict.stop.inj h]
  · exact .inl rfl
  · apply digestOutcome_decided
  · apply digestOutcome_decided
  · exact .inr (.inl rfl)
  · exact .inr (.inl rfl)

theorem settle_stop_ne {received : List UInt8} {chunks : List (List UInt8)}
    {outcome : Option State}
    (h : settle hmacSha256 secret digest received chunks = .stop outcome) :
    outcome ≠ some .waitingHello := by
  induction chunks generalizing received with
  | nil => exact (verdict_decided h).ne
  | cons chunk chunks ih =>
    rw [settle] at h
    cases hverdict : verdict hmacSha256 secret digest received with
    | wait length =>
      rw [hverdict] at h
      exact ih h
    | stop o =>
      rw [hverdict] at h
      exact Verdict.stop.inj h ▸ (verdict_decided hverdict).ne

/-- One call after another settles as the bytes do, however they are split. -/
theorem waitHello_holding (events : List (List (List UInt8))) {received : List UInt8}
    {length : ℤ} (hverdict : verdict hmacSha256 secret digest received = .wait length) :
    ((holding secret digest received length).waitHello hmacSha256 events).map Socket.state =
      (settle hmacSha256 secret digest received events.flatten).outcome := by
  induction events generalizing received length with
  | nil =>
    rw [List.flatten_nil, settle, hverdict]
    rfl
  | cons chunks events ih =>
    have hwait := verdict_wait hmacSha256 secret digest hverdict
    have hresumes := hwait.2 []
    rw [List.append_nil] at hresumes
    have hfirst : received.length < 5 → length = 5 := by
      intro h5
      rw [verdict, if_pos h5] at hverdict
      exact (Verdict.wait.inj hverdict).symm
    have hread := readHello_settles hmacSha256 secret digest chunks hresumes (by omega) hfirst
    rw [List.flatten_cons, settle_append, Socket.waitHello]
    cases hsettle : settle hmacSha256 secret digest received chunks with
    | wait next =>
      rw [hsettle] at hread
      rw [show _ = some _ from hread]
      exact ih (settle_wait hmacSha256 secret digest hsettle)
    | stop outcome =>
      have hne := settle_stop_ne hsettle
      rw [hsettle] at hread
      match outcome, hread, hne with
      | none, hread, _ =>
        rw [show _ = none from hread]
        rfl
      | some state, ⟨s, hs, hstate⟩, hne =>
        have hleft : s.state ≠ .waitingHello := by
          intro heq
          exact hne (congrArg some (hstate.symm.trans heq))
        rw [hs, Option.bind_eq_bind, Option.bind_some, if_neg hleft]
        exact congrArg some hstate

theorem readHello_waiting (chunks : List (List UInt8)) :
    (waiting secret digest).readHello hmacSha256 chunks =
      (holding secret digest [] 5).readHello hmacSha256 chunks := by
  have hstart : (waiting secret digest).startHello = (holding secret digest [] 5).startHello := by
    rw [startHello_holding (by decide), holding, List.append_nil]
    rfl
  cases chunks with
  | nil => rw [Socket.readHello, Socket.readHello, hstart]
  | cons chunk chunks => rw [Socket.readHello, Socket.readHello, hstart]

theorem waitHello_waiting (events : List (List (List UInt8))) :
    ((waiting secret digest).waitHello hmacSha256 events).map Socket.state =
      (settle hmacSha256 secret digest [] events.flatten).outcome := by
  rw [← waitHello_holding events (show verdict hmacSha256 secret digest [] = .wait 5 from rfl)]
  cases events with
  | nil => rfl
  | cons chunks events => rw [Socket.waitHello, Socket.waitHello, readHello_waiting]

variable (hmacSha256 secret digest)

/-- The digest of the hello whose parts were received is there and good. -/
def HelloGood (received : List UInt8) : Prop :=
  helloSize received ≤ received.length ∧
    DigestGood hmacSha256 secret digest (received.take (helloSize received))

/-- Every splitting keeps to the spans and ends in one and the same state. -/
def HelloSafe (received : List UInt8) : Prop :=
  ∃ outcome,
    (outcome = .waitingHello ∨ outcome = .error ∨
      outcome = .connected ∧ HelloGood hmacSha256 secret digest received) ∧
    ∀ events : List (List (List UInt8)), events.flatten.flatten = received →
      ((waiting secret digest).waitHello hmacSha256 events).map Socket.state = some outcome

/-- The lengths of the hello fit an `int16` and leave room for the digest. Where they do not,
the bytes at hand get what they need by chance. -/
def HelloFits (received : List UInt8) : Prop :=
  let parts123 := parts123Size received
  let full := helloSize received
  5 ≤ received.length → Part1Good received →
    (2 ^ 15 ≤ parts123 → received.length < int16 parts123) ∧
    (parts123 < 2 ^ 15 → parts123 ≤ received.length → Part3Good received →
      (full < 2 ^ 15 → full ≤ received.length → 43 ≤ full) ∧
      (2 ^ 15 ≤ full →
        43 ≤ int16 full ∧
          (DigestGood hmacSha256 secret digest (received.take (int16 full).toNat) →
            HelloGood hmacSha256 secret digest received) ∨
        int16 full = -33 ∧ 43 ≤ parts123 ∧
          ∀ n, parts123 ≤ n → n ≤ received.length →
            (DigestGood hmacSha256 secret digest (received.take n) ↔
              DigestGood hmacSha256 secret digest (received.take parts123)) ∧
            (DigestGood hmacSha256 secret digest (received.take n) →
              HelloGood hmacSha256 secret digest received)))

variable {hmacSha256 secret digest}

/-- When no prefix is judged otherwise, no splitting is. -/
theorem settle_of_stable {received : List UInt8}
    (h : ∀ p x outcome, p ++ x = received →
      verdict hmacSha256 secret digest p = .stop outcome →
        verdict hmacSha256 secret digest received = .stop outcome)
    (chunks : List (List UInt8)) {p : List UInt8} (hp : p ++ chunks.flatten = received) :
    settle hmacSha256 secret digest p chunks = verdict hmacSha256 secret digest received := by
  induction chunks generalizing p with
  | nil =>
    rw [List.flatten_nil, List.append_nil] at hp
    rw [settle, hp]
  | cons chunk chunks ih =>
    rw [settle]
    cases hverdict : verdict hmacSha256 secret digest p with
    | wait length =>
      apply ih
      rwa [List.append_assoc, ← List.flatten_cons]
    | stop outcome => exact (h p _ outcome hp hverdict).symm

theorem settle_whole (received : List UInt8) :
    settle hmacSha256 secret digest [] [received] =
      verdict hmacSha256 secret digest received := by
  have hnil : verdict hmacSha256 secret digest [] = .wait 5 := rfl
  rw [settle, hnil]
  rfl

theorem settle_split {p x : List UInt8} {outcome : Option State}
    (h : verdict hmacSha256 secret digest p = .stop outcome) :
    settle hmacSha256 secret digest [] [p, x] = .stop outcome := by
  have hnil : verdict hmacSha256 secret digest [] = .wait 5 := rfl
  rw [settle, hnil]
  dsimp only
  rw [List.nil_append, settle, h]

/-- A safe hello is one whose verdict is one state and is that of every prefix that has one. -/
theorem helloSafe_iff_stable {received : List UInt8} :
    HelloSafe hmacSha256 secret digest received ↔
      (∀ p x outcome, p ++ x = received →
        verdict hmacSha256 secret digest p = .stop outcome →
          outcome ≠ none ∧ verdict hmacSha256 secret digest received = .stop outcome) ∧
      (verdict hmacSha256 secret digest received = .stop (some .connected) →
        HelloGood hmacSha256 secret digest received) := by
  constructor
  · intro ⟨outcome, hkind, hall⟩
    have hrun : ∀ chunks : List (List UInt8), chunks.flatten = received →
        (settle hmacSha256 secret digest [] chunks).outcome = some outcome := by
      intro chunks hchunks
      have h := hall [chunks] (by simpa using hchunks)
      rwa [waitHello_waiting, List.flatten_cons, List.flatten_nil, List.append_nil] at h
    have hwhole := hrun [received] (by simp)
    rw [settle_whole] at hwhole
    constructor
    · intro p x o hp hstop
      have hsplit := hrun [p, x] (by simpa using hp)
      rw [settle_split hstop] at hsplit
      have ho : o = some outcome := hsplit
      have hleft := (verdict_decided hstop).ne
      refine ⟨by rw [ho]; exact Option.some_ne_none _, ?_⟩
      cases hverdict : verdict hmacSha256 secret digest received with
      | wait length =>
        rw [hverdict] at hwhole
        exact absurd (ho.trans hwhole.symm) hleft
      | stop o' =>
        rw [hverdict] at hwhole
        rw [ho]
        exact congrArg Verdict.stop hwhole
    · intro hconnected
      rw [hconnected] at hwhole
      have heq : State.connected = outcome := Option.some.inj hwhole
      rw [← heq] at hkind
      rcases hkind with h | h | h
      · exact absurd h (by decide)
      · exact absurd h (by decide)
      · exact h.2
  · intro ⟨hstable, hgood⟩
    have hall : ∀ events : List (List (List UInt8)), events.flatten.flatten = received →
        ((waiting secret digest).waitHello hmacSha256 events).map Socket.state =
          (verdict hmacSha256 secret digest received).outcome := by
      intro events hevents
      rw [waitHello_waiting,
        settle_of_stable (fun p x o hpx h => (hstable p x o hpx h).2) _ (p := []) hevents]
    cases hverdict : verdict hmacSha256 secret digest received with
    | wait length =>
      rw [hverdict] at hall
      exact ⟨.waitingHello, .inl rfl, hall⟩
    | stop outcome =>
      have hsome := (hstable received [] outcome (List.append_nil _) hverdict).1
      rw [hverdict] at hall hgood
      rcases verdict_decided hverdict with h | h | h
      · exact absurd h hsome
      · exact ⟨.error, .inr (.inl rfl), fun events hevents => (hall events hevents).trans h⟩
      · exact ⟨.connected, .inr (.inr ⟨rfl, hgood (congrArg Verdict.stop h)⟩),
          fun events hevents => (hall events hevents).trans h⟩

theorem int16_parts123Size {received : List UInt8} (h : parts123Size received < 2 ^ 15) :
    int16 (parts123Size received) = parts123Size received :=
  int16_of_lt (by omega) (by omega)

theorem int16_parts123Size_of_ge {received : List UInt8} (h : 2 ^ 15 ≤ parts123Size received) :
    int16 (parts123Size received) = parts123Size received - 2 ^ 16 := by
  have := part2Size_lt received
  apply int16_of_ge (by omega)
  rw [parts123Size]
  omega

theorem int16_helloSize_of_ge {received : List UInt8} (h : 2 ^ 15 ≤ helloSize received)
    (h123 : parts123Size received < 2 ^ 15) :
    int16 (helloSize received) = helloSize received - 2 ^ 16 := by
  have := part4Size_lt received
  apply int16_of_ge (by omega)
  rw [helloSize]
  omega

variable (hmacSha256 secret digest) in
theorem verdict_full {received : List UInt8} (h5 : 5 ≤ received.length)
    (h1 : Part1Good received) (h123 : parts123Size received < 2 ^ 15)
    (hthere : parts123Size received ≤ received.length) (h3 : Part3Good received)
    (hfull : int16 (helloSize received) ≤ received.length) :
    verdict hmacSha256 secret digest received =
      .stop (digestOutcome hmacSha256 secret digest received (int16 (helloSize received))) := by
  have hint := int16_parts123Size h123
  rw [verdict]
  generalize int16 (helloSize received) = full at hfull
  rw [if_neg (by omega), if_neg (not_not.mpr h1), if_neg (by omega), if_neg (by omega),
    if_neg (not_not.mpr hint), if_neg (not_not.mpr h3), if_neg (by omega)]

theorem digestOutcome_of_le {received : List UInt8} {length : ℤ} (h : 43 ≤ length) :
    digestOutcome hmacSha256 secret digest received length =
      some (digestState hmacSha256 secret digest (received.take length.toNat)) := by
  rw [digestOutcome, if_neg (by omega), if_neg (by omega)]

theorem digestState_eq_connected {hello : List UInt8} :
    digestState hmacSha256 secret digest hello = .connected ↔
      DigestGood hmacSha256 secret digest hello := by
  rw [digestState]
  split_ifs with h
  · exact iff_of_true rfl h
  · exact iff_of_false (by decide) h

theorem digestState_congr {hello hello' : List UInt8} :
    digestState hmacSha256 secret digest hello = digestState hmacSha256 secret digest hello' ↔
      (DigestGood hmacSha256 secret digest hello ↔ DigestGood hmacSha256 secret digest hello') := by
  constructor
  · intro h
    rw [← digestState_eq_connected, ← digestState_eq_connected, h]
  · intro h
    rw [digestState, digestState]
    exact if_congr h rfl rfl

/-- Where the hello fits, no prefix is judged otherwise than the whole. -/
theorem HelloFits.stable {p x : List UInt8} {outcome : Option State}
    (hfits : HelloFits hmacSha256 secret digest (p ++ x))
    (hstop : verdict hmacSha256 secret digest p = .stop outcome) :
    outcome ≠ none ∧ verdict hmacSha256 secret digest (p ++ x) = .stop outcome ∧
      (outcome = some .connected → HelloGood hmacSha256 secret digest (p ++ x)) := by
  have hlen : (p ++ x).length = p.length + x.length := List.length_append
  by_cases h5 : p.length < 5
  · rw [verdict, if_pos h5] at hstop
    exact Verdict.noConfusion hstop
  have h5' : 5 ≤ p.length := by omega
  have h123 : parts123Size (p ++ x) = parts123Size p := parts123Size_append h5'
  by_cases h1 : Part1Good p
  · have h1' : Part1Good (p ++ x) := (part1Good_append h5').mpr h1
    obtain ⟨hlarge, hsmall⟩ := hfits (by omega) h1'
    rw [h123] at hlarge hsmall
    have hready : int16 (parts123Size p) ≤ p.length := by
      by_contra hwait
      rw [verdict, if_neg h5, if_neg (not_not.mpr h1), if_pos (by omega)] at hstop
      exact Verdict.noConfusion hstop
    -- The first length is kept, or the hello would not fit.
    have hlt : parts123Size p < 2 ^ 15 := by
      by_contra hge
      have := hlarge (by omega)
      omega
    have hint := int16_parts123Size hlt
    have hthere : parts123Size p ≤ p.length := by omega
    by_cases h3 : Part3Good p
    · have h3' : Part3Good (p ++ x) := (part3Good_append h5' hthere).mpr h3
      have hsize : helloSize (p ++ x) = helloSize p := helloSize_append h5' hthere
      obtain ⟨hexact, hchance⟩ := hsmall hlt (by omega) h3'
      rw [hsize] at hexact hchance
      have hfull : int16 (helloSize p) ≤ p.length := by
        by_contra hwait
        have hverdict := verdict_of_resumes hmacSha256 secret digest
          (.inr ⟨h1, .inr ⟨hint, hthere, h3, rfl⟩⟩) (by omega)
          (not_le.mp hwait)
        rw [hverdict] at hstop
        exact Verdict.noConfusion hstop
      rw [verdict_full hmacSha256 secret digest h5' h1 hlt hthere h3 hfull] at hstop
      have houtcome := Verdict.stop.inj hstop
      have hwhole := verdict_full hmacSha256 secret digest
        (show 5 ≤ (p ++ x).length by omega) h1' (by omega) (by omega) h3' (by rw [hsize]; omega)
      rw [hsize] at hwhole
      rw [hwhole]
      have hexactly : 43 ≤ int16 (helloSize p) →
          (DigestGood hmacSha256 secret digest ((p ++ x).take (int16 (helloSize p)).toNat) →
            HelloGood hmacSha256 secret digest (p ++ x)) →
          outcome ≠ none ∧ Verdict.stop (digestOutcome hmacSha256 secret digest (p ++ x)
            (int16 (helloSize p))) = .stop outcome ∧
            (outcome = some .connected → HelloGood hmacSha256 secret digest (p ++ x)) := by
        intro h43 hgood
        have htake : (p ++ x).take (int16 (helloSize p)).toNat =
            p.take (int16 (helloSize p)).toNat := List.take_append_of_le_length (by omega)
        rw [← houtcome, digestOutcome_of_le h43, digestOutcome_of_le h43, htake]
        refine ⟨Option.some_ne_none _, rfl, fun hconnected => hgood ?_⟩
        rw [htake]
        exact digestState_eq_connected.mp (Option.some.inj hconnected)
      by_cases hfit : helloSize p < 2 ^ 15
      · have hsame : int16 (helloSize p) = helloSize p := int16_of_lt (by omega) (by omega)
        have h43 := hexact hfit (by omega)
        apply hexactly (by omega)
        rw [hsame, Int.toNat_natCast]
        intro hgood
        refine ⟨by omega, ?_⟩
        rwa [hsize]
      · rcases hchance (by omega) with ⟨h43, hgood⟩ | ⟨hrest, h43, hall⟩
        · exact hexactly h43 hgood
        · have hhere := hall p.length hthere (by omega)
          have hend := hall (p ++ x).length (by omega) le_rfl
          rw [List.take_left] at hhere
          rw [List.take_length] at hend
          have hstate : digestState hmacSha256 secret digest (p ++ x) =
              digestState hmacSha256 secret digest p :=
            digestState_congr.mpr (hend.1.trans hhere.1.symm)
          rw [digestOutcome, if_pos hrest, if_pos (by omega)] at houtcome
          rw [digestOutcome, if_pos hrest, if_pos (by omega), hstate, houtcome]
          refine ⟨by rw [← houtcome]; exact Option.some_ne_none _, rfl, fun hconnected => ?_⟩
          rw [← houtcome] at hconnected
          exact hhere.2 (digestState_eq_connected.mp (Option.some.inj hconnected))
    · have h3' : ¬ Part3Good (p ++ x) := mt (part3Good_append h5' hthere).mp h3
      rw [verdict, if_neg h5, if_neg (not_not.mpr h1), if_neg (by omega), if_neg (by omega),
        if_neg (not_not.mpr hint), if_pos h3] at hstop
      have hint' : int16 (parts123Size (p ++ x)) = parts123Size (p ++ x) := by rwa [h123]
      rw [← Verdict.stop.inj hstop, verdict, if_neg (by omega), if_neg (not_not.mpr h1'),
        if_neg (by omega), if_neg (by omega), if_neg (not_not.mpr hint'), if_pos h3']
      exact ⟨Option.some_ne_none _, rfl, fun h => absurd h (by decide)⟩
  · have h1' : ¬ Part1Good (p ++ x) := mt (part1Good_append h5').mp h1
    rw [verdict, if_neg h5, if_pos h1] at hstop
    rw [← Verdict.stop.inj hstop, verdict, if_neg (by omega), if_pos h1']
    exact ⟨Option.some_ne_none _, rfl, fun h => absurd h (by decide)⟩

theorem helloFits_of_stable {received : List UInt8}
    (hstable : ∀ p x outcome, p ++ x = received →
      verdict hmacSha256 secret digest p = .stop outcome →
        outcome ≠ none ∧ verdict hmacSha256 secret digest received = .stop outcome)
    (hgood : verdict hmacSha256 secret digest received = .stop (some .connected) →
      HelloGood hmacSha256 secret digest received) :
    HelloFits hmacSha256 secret digest received := by
  intro h5 h1
  have hself : verdict hmacSha256 secret digest received ≠ .stop none := fun h =>
    (hstable received [] none (List.append_nil _) h).1 rfl
  constructor
  · -- The few bytes that the kept length asks for are too few for the third part.
    intro hge
    by_contra hready
    have hint := int16_parts123Size_of_ge hge
    have hlt := part2Size_lt received
    have h123 : parts123Size received = 16 + part2Size received := rfl
    obtain ⟨n, hn⟩ : ∃ n, max 5 (int16 (parts123Size received)).toNat = n := ⟨_, rfl⟩
    have hsplit := List.take_append_drop n received
    have hlen : (received.take n).length = n := List.length_take_of_le (by omega)
    have hparts : parts123Size (received.take n) = parts123Size received := by
      rw [← parts123Size_append (x := received.drop n) (by omega), hsplit]
    have hpart1 : Part1Good (received.take n) := by
      apply (part1Good_append (x := received.drop n) (by omega)).mp
      rw [hsplit]
      exact h1
    have hverdict : verdict hmacSha256 secret digest (received.take n) = .stop none := by
      rw [verdict, hparts, if_neg (by omega), if_neg (not_not.mpr hpart1), if_neg (by omega),
        if_pos (by omega)]
    exact (hstable _ _ none hsplit hverdict).1 rfl
  · intro hlt hthere h3
    have h123 := part4Size_lt received
    have hsize : helloSize received = parts123Size received + part4Size received := rfl
    constructor
    · intro hfit hall
      by_contra h43
      have hsame : int16 (helloSize received) = helloSize received :=
        int16_of_lt (by omega) (by omega)
      have hverdict := verdict_full hmacSha256 secret digest h5 h1 hlt hthere h3 (by omega)
      rw [digestOutcome, if_neg (by omega), if_pos (by omega)] at hverdict
      exact hself hverdict
    · intro hge
      have hint := int16_helloSize_of_ge hge hlt
      have hverdict := verdict_full hmacSha256 secret digest h5 h1 hlt hthere h3 (by omega)
      by_cases h43 : 43 ≤ int16 (helloSize received)
      · refine .inl ⟨h43, fun hdigest => hgood ?_⟩
        rw [hverdict, digestOutcome_of_le h43, digestState_eq_connected.mpr hdigest]
      · have hrest : int16 (helloSize received) = -33 := by
          by_contra hrest
          rw [digestOutcome, if_neg hrest, if_pos (by omega)] at hverdict
          exact hself hverdict
        -- The digest is taken of all that was read so far.
        have hread : ∀ n, parts123Size received ≤ n → n ≤ received.length →
            verdict hmacSha256 secret digest (received.take n) =
              .stop (if 43 ≤ n then some (digestState hmacSha256 secret digest (received.take n))
                else none) := by
          intro n hn hle
          have hsplit := List.take_append_drop n received
          have hlen : (received.take n).length = n := List.length_take_of_le hle
          have h16 : 16 ≤ parts123Size received := Nat.le_add_right ..
          have hparts : parts123Size (received.take n) = parts123Size received := by
            rw [← parts123Size_append (x := received.drop n) (by omega), hsplit]
          have hpart1 : Part1Good (received.take n) := by
            apply (part1Good_append (x := received.drop n) (by omega)).mp
            rw [hsplit]
            exact h1
          have hpart3 : Part3Good (received.take n) := by
            apply (part3Good_append (x := received.drop n) (by omega) (by omega)).mp
            rw [hsplit]
            exact h3
          have hfull : helloSize (received.take n) = helloSize received := by
            rw [← helloSize_append (x := received.drop n) (by omega) (by omega), hsplit]
          rw [verdict_full hmacSha256 secret digest (by omega) hpart1 (by omega) (by omega) hpart3
            (by rw [hfull]; omega), hfull, digestOutcome, if_pos hrest, hlen]
        have hlong : 43 ≤ parts123Size received := by
          by_contra hshort
          have h := hread (parts123Size received) le_rfl hthere
          rw [if_neg hshort] at h
          exact (hstable _ _ none (List.take_append_drop ..) h).1 rfl
        refine .inr ⟨hrest, hlong, fun n hn hle => ?_⟩
        have hat := fun m hm hmle => (hstable _ _ _ (List.take_append_drop ..)
          (hread m hm hmle)).2
        have hfirst := hat (parts123Size received) le_rfl hthere
        have hthis := hat n hn hle
        rw [if_pos (by omega)] at hfirst hthis
        constructor
        · rw [← digestState_congr]
          exact Option.some.inj (Verdict.stop.inj (hthis.symm.trans hfirst))
        · intro hdigest
          apply hgood
          rw [hthis, digestState_eq_connected.mpr hdigest]

/-- The `ServerHello` check is safe on a stream exactly when its lengths fit. -/
theorem serverHello_safe_iff (hmacSha256 : List UInt8 → List UInt8 → Vector UInt8 32)
    (secret : Secret) (digest : Vector UInt8 32) (received : List UInt8) :
    HelloSafe hmacSha256 secret digest received ↔
      HelloFits hmacSha256 secret digest received := by
  rw [helloSafe_iff_stable]
  constructor
  · intro ⟨hstable, hgood⟩
    exact helloFits_of_stable hstable hgood
  · intro hfits
    constructor
    · intro p x outcome hp hstop
      rw [← hp] at hfits ⊢
      have h := hfits.stable hstop
      exact ⟨h.1, h.2.1⟩
    · intro hconnected
      have h := HelloFits.stable (p := received) (x := []) (by rwa [List.append_nil]) hconnected
      rw [List.append_nil] at h
      exact h.2.2 rfl

/-- A first length of `0x7ff0` is kept as a negative number, and five bytes are read as if they
held all three parts. -/
theorem serverHello_length_wraps :
    ¬ ∀ (hmacSha256 : List UInt8 → List UInt8 → Vector UInt8 32) (secret : Secret)
      (digest : Vector UInt8 32) (received : List UInt8),
      HelloSafe hmacSha256 secret digest received := by
  intro h
  let secret : Secret := ⟨0xEE :: List.replicate 20 0, by decide, rfl⟩
  let received : List UInt8 := [0x16, 0x03, 0x03, 0x7f, 0xf0]
  have hsafe := h (fun _ _ => Vector.replicate 32 0) secret (Vector.replicate 32 0) received
  have hstop : verdict (fun _ _ => Vector.replicate 32 0) secret (Vector.replicate 32 0) received =
      .stop none := by
    have h1 : Part1Good received := by decide
    have hint : int16 (parts123Size received) = -32768 := by decide
    rw [verdict, hint, if_neg (by decide), if_neg (not_not.mpr h1), if_neg (by decide),
      if_pos (by decide)]
  exact ((helloSafe_iff_stable.mp hsafe).1 received [] none (List.append_nil _) hstop).1 rfl

end Hello

end TelegramDesktop.Mtproto.TlsSocket
