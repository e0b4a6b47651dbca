import TelegramDesktop.Mtproto.TlsClientHello

namespace TelegramDesktop.Mtproto.TlsSocket
open Base

mutual

/-- The bytes of a block, and how far the generator has drawn; `none` if it has none. -/
def encode (env : Env) (drawn : ℕ) : TlsBlock → Option (List UInt8 × ℕ)
  | .string data => if data = [] then none else some (data, drawn)
  | .zero length => if length ≤ 0 then none else some (List.replicate length.toNat 0, drawn)
  | .grease seed =>
    if seed < 0 ∨ env.greases.length ≤ seed then none
    else some (List.replicate 2 (env.greases.getD seed.toNat 0), drawn)
  | .random length =>
    if length ≤ 0 then none
    else some (env.random.draw drawn length.toNat, drawn + length.toNat)
  | .domain => if env.domain = [] then none else some (env.domain, drawn)
  | .publicKey => some ((env.random.publicKey drawn).toList, drawn + 1)
  | .scope entries =>
    match encodeBlocks env drawn entries with
    | none => none
    | some (bytes, drawn) => some (bigEndian16 bytes.length ++ bytes, drawn)
  | .permutation entries =>
    match encodeElements env drawn entries with
    | none => none
    | some (list, drawn) =>
      if [] ∈ list then none else some ((env.random.shuffle list).1.flatten, drawn)

def encodeBlocks (env : Env) (drawn : ℕ) : List TlsBlock → Option (List UInt8 × ℕ)
  | [] => some ([], drawn)
  | block :: blocks =>
    match encode env drawn block with
    | none => none
    | some (bytes, drawn) =>
      match encodeBlocks env drawn blocks with
      | none => none
      | some (rest, drawn) => some (bytes ++ rest, drawn)

/-- The elements of a permutation, each of which fits a part. -/
def encodeElements (env : Env) (drawn : ℕ) :
    List (List TlsBlock) → Option (List (List UInt8) × ℕ)
  | [] => some ([], drawn)
  | inner :: entries =>
    match encodeBlocks env drawn inner with
    | none => none
    | some (bytes, drawn) =>
      if kClientHelloLength < bytes.length then none
      else
        match encodeElements env drawn entries with
        | none => none
        | some (list, drawn) => some (bytes :: list, drawn)

end

@[simp] theorem length_draw (random : Random) (drawn count : ℕ) :
    (random.draw drawn count).length = count := by
  simp [Random.draw]

theorem encode_scope (env : Env) (drawn : ℕ) (entries : List TlsBlock) :
    encode env drawn (.scope entries) =
      (encodeBlocks env drawn entries).map fun x => (bigEndian16 x.1.length ++ x.1, x.2) := by
  rw [encode]
  cases encodeBlocks env drawn entries <;> rfl

theorem encodeBlocks_cons (env : Env) (drawn : ℕ) (block : TlsBlock) (blocks : List TlsBlock) :
    encodeBlocks env drawn (block :: blocks) = (encode env drawn block).bind fun x =>
      (encodeBlocks env x.2 blocks).map fun y => (x.1 ++ y.1, y.2) := by
  rw [encodeBlocks]
  cases encode env drawn block with
  | none => rfl
  | some x =>
    rw [Option.bind_some]
    cases h : encodeBlocks env x.2 blocks <;> simp [h]

/-- `p'` is `p` with what `e` stands for written behind it, if there is space for it. -/
structure Writes (p p' : Part) (e : Option (List UInt8 × ℕ)) : Prop where
  digest : 0 ≤ p.digestPosition → p'.digestPosition = p.digestPosition
  detached : p.detached = false → p'.detached = false
  bounded : p.result.length ≤ kClientHelloLength → p'.result.length ≤ kClientHelloLength
  grows : p.result.length ≤ p'.result.length
  sticky : p.error = true → p'.error = true
  fits : p.error = false → ∀ bytes drawn, e = some (bytes, drawn) →
    p.result.length + bytes.length ≤ kClientHelloLength →
    p'.error = false ∧ p'.result = p.result ++ bytes ∧ p'.drawn = drawn
  fails : p.result.length ≤ kClientHelloLength →
    (∀ bytes drawn, e = some (bytes, drawn) →
      kClientHelloLength < p.result.length + bytes.length) → p'.error = true

theorem Part.grow_none {p : Part} {size : ℤ}
    (h : p.error = true ∨ size ≤ 0 ∨ kClientHelloLength < p.result.length + size) :
    p.grow size = ({ p with error := true }, none) := if_pos (by simpa using h)

theorem Part.grow_some {p : Part} {size : ℤ} (he : p.error = false) (hsize : 0 < size)
    (hfit : p.result.length + size ≤ kClientHelloLength) :
    p.grow size = ({ p with result := p.result ++ List.replicate size.toNat 0 },
      some p.result.length) := by
  have hd : decide (kClientHelloLength < p.result.length + size) = false := by
    simpa using hfit
  rw [grow, if_neg (by simp [he]; omega), hd, Bool.or_false]

/-- A part that could not grow. -/
theorem writes_error {p : Part} {size : ℤ} {e : Option (List UInt8 × ℕ)}
    (h : p.error = true ∨ size ≤ 0 ∨ kClientHelloLength < p.result.length + size)
    (he : ∀ bytes drawn, e = some (bytes, drawn) → 0 < size ∧ size ≤ bytes.length) :
    Writes p { p with error := true } e where
  digest _ := rfl
  detached h := h
  bounded h := h
  grows := le_rfl
  sticky _ := rfl
  fits herr bytes drawn hb hfit := by
    have hsize := he bytes drawn hb
    rw [herr] at h
    rcases h with h | h | h
    · cases h
    · omega
    · omega
  fails _ _ := rfl

theorem writes_error_none (p : Part) (drawn : ℕ) :
    Writes p { p with drawn := drawn, error := true } none where
  digest _ := rfl
  detached h := h
  bounded h := h
  grows := le_rfl
  sticky _ := rfl
  fits _ _ _ hb _ := by cases hb
  fails _ _ := rfl

theorem writes_nil (p : Part) : Writes p p (some ([], p.drawn)) where
  digest _ := rfl
  detached h := h
  bounded h := h
  grows := le_rfl
  sticky h := h
  fits herr bytes drawn hb _ := by
    cases hb
    exact ⟨herr, (List.append_nil _).symm, rfl⟩
  fails hlen hf := by
    have := hf [] p.drawn rfl
    simp at this
    omega

/-- Two writes, one behind the other. -/
theorem Writes.append {p q r : Part} {e : Option (List UInt8 × ℕ)}
    {f : ℕ → Option (List UInt8 × ℕ)} (hq : Writes p q e) (hr : Writes q r (f q.drawn)) :
    Writes p r (e.bind fun x => (f x.2).map fun y => (x.1 ++ y.1, y.2)) where
  digest h := by
    have hpos := hq.digest h
    rw [hr.digest (by omega), hpos]
  detached h := hr.detached (hq.detached h)
  bounded h := hr.bounded (hq.bounded h)
  grows := hq.grows.trans hr.grows
  sticky h := hr.sticky (hq.sticky h)
  fits herr bytes drawn hb hfit := by
    obtain ⟨x, hx, hxy⟩ := Option.bind_eq_some_iff.mp hb
    obtain ⟨y, hy, heq⟩ := Option.map_eq_some_iff.mp hxy
    cases heq
    rw [List.length_append] at hfit
    obtain ⟨hqe, hqr, hqd⟩ := hq.fits herr x.1 x.2 hx (by omega)
    have hlen : q.result.length = p.result.length + x.1.length := by
      rw [hqr, List.length_append]
    obtain ⟨hre, hrr, hrd⟩ := hr.fits hqe y.1 y.2 (by rw [hqd, hy]) (by omega)
    exact ⟨hre, by rw [hrr, hqr, List.append_assoc], hrd⟩
  fails hlen hf := by
    cases herr : p.error with
    | true => exact hr.sticky (hq.sticky herr)
    | false =>
      by_cases hx : ∃ bytes drawn, e = some (bytes, drawn) ∧
          p.result.length + bytes.length ≤ kClientHelloLength
      · obtain ⟨bytes, drawn, hx, hfit⟩ := hx
        obtain ⟨-, hqr, hqd⟩ := hq.fits herr bytes drawn hx hfit
        apply hr.fails (hq.bounded hlen)
        intro rest drawn' hy
        have := hf (bytes ++ rest) drawn' (by rw [hx, Option.bind_some, ← hqd, hy]; rfl)
        rw [List.length_append] at this
        rw [hqr, List.length_append]
        omega
      · apply hr.sticky
        apply hq.fails hlen
        intro bytes drawn hb
        by_contra hfit
        exact hx ⟨bytes, drawn, hb, by omega⟩

theorem splice_end {l bytes : List UInt8} {n : ℕ} (h : bytes.length = n) :
    splice (l ++ List.replicate n 0) l.length bytes = l ++ bytes := by
  subst h
  simp [splice]

/-- Every block that is written in one piece: it grows by the size of its bytes. The digest
position and the draws may be set on the way. -/
theorem grow_writes {p : Part} (size : ℤ) {bytes : List UInt8} (hb : bytes.length = size.toNat)
    (position : ℤ) (drawn : ℕ) (hpos : 0 ≤ p.digestPosition → position = p.digestPosition) :
    Writes p
      (match p.grow size with
      | (q, none) => q
      | (q, some storage) =>
        { q.store storage bytes with digestPosition := position, drawn := drawn })
      (if size ≤ 0 then none else some (bytes, drawn)) := by
  by_cases h : p.error = true ∨ size ≤ 0 ∨ kClientHelloLength < p.result.length + size
  · rw [Part.grow_none h]
    refine writes_error h fun b d hbd => ?_
    split_ifs at hbd with hnil
    cases hbd
    omega
  · rw [not_or, not_or] at h
    rw [Part.grow_some (by simpa using h.1) (by omega) (by omega), if_neg h.2.1]
    simp only [Part.store, splice_end hb]
    have hlen := h.2.2
    exact {
      digest := hpos
      detached := fun h => h
      bounded := fun _ => by
        simp only [List.length_append]
        omega
      grows := by
        simp only [List.length_append]
        omega
      sticky := fun h => h
      fits := fun herr b d hbd _ => by
        cases hbd
        exact ⟨herr, rfl, rfl⟩
      fails := fun _ hf => by
        have := hf bytes drawn rfl
        omega }

theorem put_writes (p : Part) (bytes : List UInt8) :
    Writes p (p.put bytes) (if bytes = [] then none else some (bytes, p.drawn)) := by
  have h := grow_writes (p := p) bytes.length rfl p.digestPosition p.drawn fun _ => rfl
  have hnil : (bytes.length : ℤ) ≤ 0 ↔ bytes = [] := by
    rw [← List.length_eq_zero_iff]
    omega
  simp only [hnil] at h
  rw [Part.put]
  rw [Part.grow] at h ⊢
  split_ifs at h ⊢ <;> exact h

theorem putAll_error {p : Part} (h : p.error = true) (list : List (List UInt8)) :
    p.putAll list = p := by
  cases list with
  | nil => rfl
  | cons element list =>
    rw [Part.putAll, Part.grow_none (.inl h)]
    cases p
    cases h
    rfl

theorem putAll_cons (p : Part) (element : List UInt8) (list : List (List UInt8)) :
    p.putAll (element :: list) = (p.put element).putAll list := by
  rw [Part.putAll, Part.put, Part.grow]
  split_ifs with h
  · exact (putAll_error rfl list).symm
  · rfl

theorem putAll_writes (list : List (List UInt8)) : ∀ p : Part,
    Writes p (p.putAll list) (if [] ∈ list then none else some (list.flatten, p.drawn)) := by
  induction list with
  | nil =>
    intro p
    exact writes_nil p
  | cons element list ih =>
    intro p
    rw [putAll_cons]
    have h := (put_writes p element).append
      (f := fun drawn => if [] ∈ list then none else some (list.flatten, drawn)) (ih _)
    by_cases helem : element = []
    · simpa [helem] using h
    · by_cases hlist : [] ∈ list
      · simpa [helem, hlist, Ne.symm helem] using h
      · simpa [helem, hlist, Ne.symm helem] using h

theorem writeBlock_zero (env : Env) (p : Part) (length : ℤ) :
    ∃ p', writeBlock env p (.zero length) = some p' ∧
      Writes p p' (encode env p.drawn (.zero length)) := by
  refine ⟨_, ?_, grow_writes length (List.length_replicate (a := (0 : UInt8)))
    (if length = kHelloDigestLength ∧ p.digestPosition < 0 then p.result.length
      else p.digestPosition) p.drawn ?_⟩
  · by_cases h : length = kHelloDigestLength ∧ p.digestPosition < 0
    · rw [writeBlock, Part.grow, if_pos h]
      split_ifs
      · rfl
      · change some ((if _ then _ else _ : Part).store _ _) = _
        rw [if_pos h]
        rfl
    · rw [writeBlock, Part.grow, if_neg h]
      split_ifs
      · rfl
      · change some ((if _ then _ else _ : Part).store _ _) = _
        rw [if_neg h]
        rfl
  · intro h
    exact if_neg (by omega)

theorem writeBlock_random (env : Env) (p : Part) (length : ℤ) :
    ∃ p', writeBlock env p (.random length) = some p' ∧
      Writes p p' (encode env p.drawn (.random length)) := by
  refine ⟨_, ?_, grow_writes length (length_draw env.random p.drawn length.toNat)
    p.digestPosition (p.drawn + length.toNat) fun _ => rfl⟩
  rw [writeBlock, Part.grow]
  split_ifs <;> rfl

theorem writeBlock_grease (env : Env) (p : Part) (seed : ℤ) :
    ∃ p', writeBlock env p (.grease seed) = some p' ∧
      Writes p p' (encode env p.drawn (.grease seed)) := by
  rw [writeBlock, encode]
  split_ifs with h
  · exact ⟨_, rfl, writes_error_none p p.drawn⟩
  · exact ⟨_, rfl, put_writes p _⟩

theorem writeBlock_publicKey (env : Env) (p : Part) :
    ∃ p', writeBlock env p .publicKey = some p' ∧
      Writes p p' (encode env p.drawn .publicKey) := by
  refine ⟨_, rfl, ?_⟩
  have h := put_writes { p with drawn := p.drawn + 1 } (env.random.publicKey p.drawn).toList
  have hne : (env.random.publicKey p.drawn).toList ≠ [] := by
    apply List.ne_nil_of_length_pos
    simp
  rw [if_neg hne] at h
  exact ⟨h.digest, h.detached, h.bounded, h.grows, h.sticky, h.fits, h.fails⟩

/-- The part with space for a length. -/
def Part.reserve (p : Part) : Part :=
  { p with result := p.result ++ List.replicate kLengthSize 0 }

@[simp] theorem Part.length_reserve (p : Part) :
    p.reserve.result.length = p.result.length + kLengthSize := by
  simp [reserve]

@[simp] theorem length_bigEndian16 (n : ℕ) : (bigEndian16 n).length = kLengthSize := rfl

/-- A scope is its length, patched in behind what the blocks have written. -/
theorem scope_writes {p r : Part} {e : Option (List UInt8 × ℕ)} (herr : p.error = false)
    (hfit : p.result.length + kLengthSize ≤ kClientHelloLength) (hr : Writes p.reserve r e) :
    Writes p
      (r.store p.result.length (bigEndian16 (r.result.length - p.reserve.result.length)))
      (e.map fun x => (bigEndian16 x.1.length ++ x.1, x.2)) := by
  have hlen := p.length_reserve
  have hgrows := hr.grows
  have hstore : (r.store p.result.length
      (bigEndian16 (r.result.length - p.reserve.result.length))).result.length =
      r.result.length := by
    apply length_splice
    rw [length_bigEndian16]
    omega
  refine ⟨hr.digest, hr.detached, fun _ => ?_, ?_, fun h => ?_, fun _ bytes drawn hb hbytes => ?_,
    fun _ hf => ?_⟩
  · have := hr.bounded (by omega)
    omega
  · omega
  · rw [herr] at h
    cases h
  · obtain ⟨x, rfl, heq⟩ := Option.map_eq_some_iff.mp hb
    cases heq
    rw [List.length_append, length_bigEndian16] at hbytes
    obtain ⟨hre, hrr, hrd⟩ := hr.fits herr x.1 x.2 rfl (by omega)
    have hrest : r.result.length - p.reserve.result.length = x.1.length := by
      rw [hrr, List.length_append]
      omega
    refine ⟨hre, ?_, hrd⟩
    rw [Part.store, hrest, hrr]
    simp [splice, Part.reserve]
  · apply hr.fails (by omega)
    intro bytes drawn hb
    have := hf _ drawn (by rw [hb]; rfl)
    rw [List.length_append, length_bigEndian16] at this
    dsimp only at this
    omega

mutual

/-- Writing a block never violates anything, and writes what the block stands for. -/
theorem writeBlock_writes (env : Env) (p : Part) : ∀ block : TlsBlock,
    ∃ p', writeBlock env p block = some p' ∧ Writes p p' (encode env p.drawn block)
  | .string data => ⟨_, rfl, put_writes p data⟩
  | .zero length => writeBlock_zero env p length
  | .grease seed => writeBlock_grease env p seed
  | .random length => writeBlock_random env p length
  | .domain => ⟨_, rfl, put_writes p env.domain⟩
  | .publicKey => writeBlock_publicKey env p
  | .scope entries => by
    rw [writeBlock, encode_scope]
    by_cases h : p.error = true ∨ (kLengthSize : ℤ) ≤ 0 ∨
        kClientHelloLength < p.result.length + (kLengthSize : ℤ)
    · rw [Part.grow_none h]
      refine ⟨_, rfl, writes_error h fun bytes drawn hb => ?_⟩
      obtain ⟨x, -, hx⟩ := Option.map_eq_some_iff.mp hb
      cases hx
      rw [List.length_append, length_bigEndian16]
      exact ⟨by decide, by omega⟩
    · rw [not_or, not_or] at h
      have herr : p.error = false := by simpa using h.1
      obtain ⟨r, hr, hwrites⟩ := writeBlocks_writes env p.reserve entries
      rw [Part.grow_some herr (by omega) (by omega)]
      refine ⟨_, ?_, scope_writes herr (by omega) hwrites⟩
      change (match writeBlocks env p.reserve entries with | none => none | some r => _) = _
      rw [hr]
      rfl
  | .permutation entries => by
    have h := writeElements_writes env p entries
    rw [writeBlock, encode]
    cases he : encodeElements env p.drawn entries with
    | none =>
      rw [he] at h
      obtain ⟨drawn, h⟩ := h
      rw [h]
      exact ⟨_, rfl, writes_error_none p drawn⟩
    | some x =>
      rw [he] at h
      rw [h]
      have h := putAll_writes (env.random.shuffle x.1).1 { p with drawn := x.2 }
      simp only [(env.random.shuffle x.1).2.mem_iff] at h
      exact ⟨_, rfl, h.digest, h.detached, h.bounded, h.grows, h.sticky, h.fits, h.fails⟩

theorem writeBlocks_writes (env : Env) (p : Part) : ∀ blocks : List TlsBlock,
    ∃ p', writeBlocks env p blocks = some p' ∧ Writes p p' (encodeBlocks env p.drawn blocks)
  | [] => ⟨p, rfl, writes_nil p⟩
  | block :: blocks => by
    obtain ⟨q, hq, hpq⟩ := writeBlock_writes env p block
    obtain ⟨r, hr, hqr⟩ := writeBlocks_writes env q blocks
    refine ⟨r, by rw [writeBlocks, hq]; exact hr, ?_⟩
    rw [encodeBlocks_cons]
    exact hpq.append (f := fun drawn => encodeBlocks env drawn blocks) hqr

/-- The elements of a permutation leave the part alone, but for an error. -/
theorem writeElements_writes (env : Env) (p : Part) : ∀ entries : List (List TlsBlock),
    match encodeElements env p.drawn entries with
    | none => ∃ drawn, writeElements env p entries =
        some ({ p with drawn := drawn, error := true }, none)
    | some (list, drawn) => writeElements env p entries =
        some ({ p with drawn := drawn }, some list)
  | [] => rfl
  | inner :: entries => by
    obtain ⟨part, hpart, hwrites⟩ := writeBlocks_writes env { drawn := p.drawn } inner
    rw [writeElements, encodeElements, hpart]
    cases he : encodeBlocks env p.drawn inner with
    | none =>
      have herr : part.error = true := hwrites.fails (Nat.zero_le _) fun bytes drawn hb => by
        rw [he] at hb
        cases hb
      exact ⟨part.drawn, if_pos herr⟩
    | some x =>
      by_cases hlen : kClientHelloLength < x.1.length
      · have herr : part.error = true := hwrites.fails (Nat.zero_le _) fun bytes drawn hb => by
          rw [he] at hb
          cases hb
          simpa using hlen
        simp only [if_pos hlen]
        exact ⟨part.drawn, if_pos herr⟩
      · obtain ⟨herr, hresult, hdrawn⟩ := hwrites.fits rfl x.1 x.2 he (by simpa using hlen)
        have htake : part.take = some x.1 := by
          rw [Part.take, if_pos (.inr (hwrites.detached rfl)), herr, hresult]
          rfl
        have ih := writeElements_writes env { p with drawn := part.drawn } entries
        simp only [if_neg hlen, herr, htake, hdrawn] at ih ⊢
        cases hrest : encodeElements env x.2 entries with
        | none =>
          rw [hrest] at ih
          obtain ⟨drawn, ih⟩ := ih
          simp [ih]
        | some y =>
          rw [hrest] at ih
          simp [ih]

end

end TelegramDesktop.Mtproto.TlsSocket
