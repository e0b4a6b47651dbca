import Mathlib

namespace Base

/-- A JSON value. A literal is `null`, `true`, `false` or a number. -/
inductive Json
  | literal (text : List UInt8)
  | string (value : List UInt8)
  | array (values : List Json)
  | object (fields : List (List UInt8 × Json))

namespace Json

def quote : UInt8 := 0x22
def backslash : UInt8 := 0x5C
def comma : UInt8 := 0x2C
def colon : UInt8 := 0x3A
def openArray : UInt8 := 0x5B
def closeArray : UInt8 := 0x5D
def openObject : UInt8 := 0x7B
def closeObject : UInt8 := 0x7D

def isSpace (c : UInt8) : Bool := c = 0x20 || c = 0x09 || c = 0x0A || c = 0x0D

def skipSpaces (text : List UInt8) : List UInt8 := text.dropWhile isSpace

/-- Whether a byte ends the literal before it. -/
def endsLiteral (c : UInt8) : Bool := isSpace c || c = comma || c = closeArray || c = closeObject

/-- A code point that is no surrogate. -/
def utf8 (code : ℕ) : Option (List UInt8) :=
  if code < 0x80 then some [.ofNat code]
  else if code < 0x800 then some [.ofNat (0xC0 + code / 0x40), .ofNat (0x80 + code % 0x40)]
  else if 0xD800 ≤ code ∧ code < 0xE000 then none
  else some [.ofNat (0xE0 + code / 0x1000), .ofNat (0x80 + code / 0x40 % 0x40),
    .ofNat (0x80 + code % 0x40)]

def hexValue (c : UInt8) : Option ℕ :=
  if 0x30 ≤ c ∧ c ≤ 0x39 then some (c.toNat - 0x30)
  else if 0x41 ≤ c ∧ c ≤ 0x46 then some (c.toNat - 0x41 + 10)
  else if 0x61 ≤ c ∧ c ≤ 0x66 then some (c.toNat - 0x61 + 10)
  else none

/-- The bytes of a code point that is given by four digits. -/
def unescapeCode (a b c d : UInt8) : Option (List UInt8) :=
  (hexValue a).bind fun x => (hexValue b).bind fun y => (hexValue c).bind fun z =>
    (hexValue d).bind fun w => utf8 (((x * 16 + y) * 16 + z) * 16 + w)

/-- The byte that follows a backslash, other than `u`. -/
def unescape (c : UInt8) : Option UInt8 :=
  if c = quote ∨ c = backslash ∨ c = 0x2F then some c
  else if c = 0x62 then some 0x08
  else if c = 0x66 then some 0x0C
  else if c = 0x6E then some 0x0A
  else if c = 0x72 then some 0x0D
  else if c = 0x74 then some 0x09
  else none

/-- The string that goes on after its opening quote, and what follows it. -/
def readString : List UInt8 → Option (List UInt8 × List UInt8)
  | [] => none
  | c :: rest =>
    if c = quote then some ([], rest)
    else if c = backslash then
      match rest with
      | [] => none
      | e :: rest =>
        if e = 0x75 then
          match rest with
          | x :: y :: z :: w :: rest =>
            (unescapeCode x y z w).bind fun bytes =>
              (readString rest).map fun r => (bytes ++ r.1, r.2)
          | _ => none
        else (unescape e).bind fun byte => (readString rest).map fun r => (byte :: r.1, r.2)
    else if c < 0x20 then none
    else (readString rest).map fun r => (c :: r.1, r.2)

/-- What follows a byte that stands after spaces. -/
def expect (c : UInt8) (text : List UInt8) : Option (List UInt8) :=
  if (skipSpaces text).head? = some c then some (skipSpaces text).tail else none

/-- The key of a field, and what follows its colon. -/
def readKey (text : List UInt8) : Option (List UInt8 × List UInt8) :=
  (expect quote text).bind fun text => (readString text).bind fun key =>
    (expect colon key.2).map fun rest => (key.1, rest)

variable (isLiteral : List UInt8 → Bool)

def readLiteral (text : List UInt8) : Option (Json × List UInt8) :=
  let token := text.takeWhile fun c => !endsLiteral c
  if isLiteral token then some (.literal token, text.drop token.length) else none

mutual

/-- A value, and what follows it, with a bound for the values and the brackets. -/
def readValue : ℕ → List UInt8 → Option (Json × List UInt8)
  | 0, _ => none
  | fuel + 1, text =>
    match skipSpaces text with
    | [] => none
    | c :: rest =>
      if c = quote then (readString rest).map fun r => (.string r.1, r.2)
      else if c = openArray then
        ((readItems fuel rest).map fun r => (.array r.1, r.2)).or
          ((expect closeArray rest).map fun rest => (.array [], rest))
      else if c = openObject then
        ((readFields fuel rest).map fun r => (.object r.1, r.2)).or
          ((expect closeObject rest).map fun rest => (.object [], rest))
      else readLiteral isLiteral (c :: rest)

/-- The values of an array that has some, up to its end. -/
def readItems : ℕ → List UInt8 → Option (List Json × List UInt8)
  | 0, _ => none
  | fuel + 1, text =>
    (readValue fuel text).bind fun r =>
      ((expect comma r.2).bind fun rest =>
        (readItems fuel rest).map fun s => (r.1 :: s.1, s.2)).or
          ((expect closeArray r.2).map fun rest => ([r.1], rest))

/-- The fields of an object that has some, up to its end. -/
def readFields : ℕ → List UInt8 → Option (List (List UInt8 × Json) × List UInt8)
  | 0, _ => none
  | fuel + 1, text =>
    ((readKey text).bind fun key =>
      (readValue fuel key.2).map fun r => ((key.1, r.1), r.2)).bind fun r =>
        ((expect comma r.2).bind fun rest =>
          (readFields fuel rest).map fun s => (r.1 :: s.1, s.2)).or
            ((expect closeObject r.2).map fun rest => ([r.1], rest))

end

/-- The value of a whole text. -/
def read (text : List UInt8) : Option Json :=
  (readValue isLiteral text.length text).bind fun r =>
    if skipSpaces r.2 = [] then some r.1 else none

def Spaces (text : List UInt8) : Prop := ∀ c ∈ text, isSpace c = true

/-- What is expected of the literals: they have a beginning and an end. -/
structure Literals : Prop where
  nonempty : isLiteral [] = false
  plain {token : List UInt8} : isLiteral token = true → ∀ c ∈ token, endsLiteral c = false
  start {c : UInt8} {token : List UInt8} : isLiteral (c :: token) = true →
    c ≠ quote ∧ c ≠ openArray ∧ c ≠ openObject

/-- What may follow a value. -/
def Ends (rest : List UInt8) : Prop := ∀ c ∈ rest.head?, endsLiteral c = true

/-- The text is read as the value, whatever follows it. -/
def Reads (value : Json) (text : List UInt8) : Prop :=
  ∀ fuel, text.length ≤ fuel → ∀ rest, Ends rest →
    readValue isLiteral fuel (text ++ rest) = some (value, rest)

def ReadsString (value text : List UInt8) : Prop :=
  ∃ body, text = quote :: body ∧ ∀ rest, readString (body ++ rest) = some (value, rest)

/-- The text is read as a field with its key. -/
def ReadsField (field : List UInt8 × Json) (text : List UInt8) : Prop :=
  ∃ key value, text = key ++ colon :: 0x20 :: value ∧ ReadsString field.1 key ∧
    Reads isLiteral field.2 value

/-- Items one after another, each behind spaces, with a comma before each that is not the
first. -/
def joined (spaces : List UInt8) : Bool → List (List UInt8) → List UInt8
  | _, [] => []
  | had, text :: texts =>
    (if had then [comma] else []) ++ (spaces ++ text ++ joined spaces true texts)

theorem joined_append (spaces : List UInt8) (had : Bool) (texts texts' : List (List UInt8)) :
    joined spaces had (texts ++ texts') =
      joined spaces had texts ++ joined spaces (had || !texts.isEmpty) texts' := by
  induction texts generalizing had with
  | nil => simp [joined]
  | cons text texts ih => simp [joined, ih]

theorem joined_true (spaces text : List UInt8) (texts : List (List UInt8)) :
    joined spaces true (text :: texts) = comma :: joined spaces false (text :: texts) := by
  simp [joined]

section
variable {isLiteral : List UInt8 → Bool} {spaces spaces' : List UInt8}

theorem Ends.cons {c : UInt8} (hc : endsLiteral c = true) (rest : List UInt8) :
    Ends (c :: rest) := by
  intro d hd
  rw [List.head?_cons, Option.mem_some_iff] at hd
  rwa [← hd]

theorem Ends.behind (h : Spaces spaces) {rest : List UInt8} (hrest : Ends rest) :
    Ends (spaces ++ rest) := by
  cases spaces with
  | nil => exact hrest
  | cons c spaces =>
    apply Ends.cons
    rw [endsLiteral, h c List.mem_cons_self]
    rfl

theorem skipSpaces_append (h : Spaces spaces) (text : List UInt8) :
    skipSpaces (spaces ++ text) = skipSpaces text :=
  List.dropWhile_append_of_pos h

theorem skipSpaces_cons {c : UInt8} (hc : isSpace c = false) (rest : List UInt8) :
    skipSpaces (c :: rest) = c :: rest := by
  rw [skipSpaces, List.dropWhile_cons_of_neg (by rw [hc]; exact Bool.false_ne_true)]

theorem readValue_spaces (h : Spaces spaces) (fuel : ℕ) (text : List UInt8) :
    readValue isLiteral fuel (spaces ++ text) = readValue isLiteral fuel text := by
  cases fuel with
  | zero => rw [readValue, readValue]
  | succ fuel => rw [readValue, readValue, skipSpaces_append h]

theorem expect_spaces (h : Spaces spaces) (c : UInt8) (text : List UInt8) :
    expect c (spaces ++ text) = expect c text := by
  rw [expect, expect, skipSpaces_append h]

theorem expect_cons {c : UInt8} (hc : isSpace c = false) (rest : List UInt8) :
    expect c (c :: rest) = some rest := by
  rw [expect, skipSpaces_cons hc, if_pos List.head?_cons, List.tail_cons]

theorem expect_other {c d : UInt8} (hd : isSpace d = false) (hne : d ≠ c) (rest : List UInt8) :
    expect c (d :: rest) = none := by
  rw [expect, skipSpaces_cons hd, if_neg]
  rw [List.head?_cons, Option.some_inj]
  exact hne

theorem readString_quote (rest : List UInt8) : readString (quote :: rest) = some ([], rest) := by
  rw [readString.eq_def]
  dsimp only
  rw [if_pos rfl]

theorem readString_plain {c : UInt8} (hquote : c ≠ quote) (hbackslash : c ≠ backslash)
    (hspace : ¬ c < 0x20) (text : List UInt8) :
    readString (c :: text) = (readString text).map fun r => (c :: r.1, r.2) := by
  conv_lhs => rw [readString.eq_def]
  dsimp only
  rw [if_neg hquote, if_neg hbackslash, if_neg hspace]

/-- A byte behind a backslash. -/
theorem readString_unescape {e byte : UInt8} (he : e ≠ 0x75) (hbyte : unescape e = some byte)
    (text : List UInt8) :
    readString (backslash :: e :: text) = (readString text).map fun r => (byte :: r.1, r.2) := by
  conv_lhs => rw [readString.eq_def]
  dsimp only
  rw [if_neg (by decide), if_pos rfl, if_neg he, hbyte, Option.bind_some]

theorem readString_unknown {e : UInt8} (he : e ≠ 0x75) (hnone : unescape e = none)
    (text : List UInt8) : readString (backslash :: e :: text) = none := by
  rw [readString.eq_def]
  dsimp only
  rw [if_neg (by decide), if_pos rfl, if_neg he, hnone, Option.bind_none]

theorem readString_code {x y z w : UInt8} {bytes : List UInt8}
    (hbytes : unescapeCode x y z w = some bytes) (text : List UInt8) :
    readString (backslash :: 0x75 :: x :: y :: z :: w :: text) =
      (readString text).map fun r => (bytes ++ r.1, r.2) := by
  conv_lhs => rw [readString.eq_def]
  dsimp only
  rw [if_neg (by decide), if_pos rfl, if_pos rfl, hbytes, Option.bind_some]

theorem ReadsString.reads {value text : List UInt8} (h : ReadsString value text) :
    Reads isLiteral (.string value) text := by
  obtain ⟨body, rfl, hbody⟩ := h
  intro fuel hfuel rest _
  cases fuel with
  | zero => exact absurd hfuel (Nat.not_succ_le_zero _)
  | succ fuel =>
    rw [List.cons_append, readValue, skipSpaces_cons (by decide)]
    dsimp only
    rw [if_pos rfl, hbody, Option.map_some]

theorem reads_literal {c : UInt8} {token : List UInt8} (h : isLiteral (c :: token) = true)
    (hplain : ∀ d ∈ c :: token, endsLiteral d = false)
    (hstart : c ≠ quote ∧ c ≠ openArray ∧ c ≠ openObject) :
    Reads isLiteral (.literal (c :: token)) (c :: token) := by
  intro fuel hfuel rest hrest
  have hc : isSpace c = false := by
    have hends := hplain c List.mem_cons_self
    rw [endsLiteral] at hends
    cases hspace : isSpace c with
    | false => rfl
    | true => rw [hspace] at hends; exact hends
  have htoken : (c :: token ++ rest).takeWhile (fun d => !endsLiteral d) = c :: token := by
    rw [List.takeWhile_append_of_pos fun d hd => by rw [hplain d hd]; rfl]
    cases rest with
    | nil => rw [List.takeWhile_nil, List.append_nil]
    | cons d rest =>
      rw [List.takeWhile_cons_of_neg, List.append_nil]
      rw [hrest d (by rw [List.head?_cons]; rfl)]
      exact Bool.false_ne_true
  cases fuel with
  | zero => exact absurd hfuel (Nat.not_succ_le_zero _)
  | succ fuel =>
    rw [List.cons_append, readValue, skipSpaces_cons hc]
    dsimp only
    rw [if_neg hstart.1, if_neg hstart.2.1, if_neg hstart.2.2, readLiteral]
    rw [← List.cons_append, htoken, if_pos h, List.drop_left]

theorem Literals.reads (hlaws : Literals isLiteral) {token : List UInt8}
    (h : isLiteral token = true) : Reads isLiteral (.literal token) token := by
  cases token with
  | nil => exact absurd h (by rw [hlaws.nonempty]; exact Bool.false_ne_true)
  | cons c token => exact reads_literal h (hlaws.plain h) (hlaws.start h)

/-- The values of an array that has some. -/
theorem readItems_joined (hspaces : Spaces spaces) (hspaces' : Spaces spaces')
    {values : List Json} {texts : List (List UInt8)}
    (h : List.Forall₂ (Reads isLiteral) values texts) (hsome : texts ≠ []) {fuel : ℕ}
    (hfuel : (joined spaces false texts).length < fuel) (rest : List UInt8) :
    readItems isLiteral fuel
      (joined spaces false texts ++ (spaces' ++ closeArray :: rest)) = some (values, rest) := by
  induction h generalizing fuel with
  | nil => exact absurd rfl hsome
  | @cons value text values texts hvalue hvalues ih =>
    cases fuel with
    | zero => exact absurd hfuel (Nat.not_lt_zero _)
    | succ fuel =>
      have hlength : text.length ≤ fuel := by
        simp only [joined, List.length_append] at hfuel
        omega
      cases hvalues with
      | nil =>
        have hends : Ends (spaces' ++ closeArray :: rest) :=
          (Ends.cons (by decide) rest).behind hspaces'
        rw [joined, joined, if_neg Bool.false_ne_true, List.nil_append, List.append_nil,
          List.append_assoc, readItems, readValue_spaces hspaces, hvalue fuel hlength _ hends,
          Option.bind_some]
        dsimp only
        rw [expect_spaces hspaces', expect_spaces hspaces',
          expect_other (by decide) (by decide), expect_cons (by decide)]
        rfl
      | @cons value' text' values texts hvalue' hvalues =>
        have hbound : (joined spaces false (text' :: texts)).length < fuel := by
          rw [joined, joined_true] at hfuel
          simp only [List.length_append, List.length_cons] at hfuel
          omega
        have hrest := ih (List.cons_ne_nil _ _) hbound
        rw [joined, joined_true, if_neg Bool.false_ne_true, List.nil_append, List.append_assoc,
          List.append_assoc, List.cons_append, readItems, readValue_spaces hspaces,
          hvalue fuel hlength _ (Ends.cons (by decide) _), Option.bind_some]
        dsimp only
        rw [expect_cons (by decide), Option.bind_some, hrest]
        rfl

theorem Reads.array (hlaws : Literals isLiteral) (hspaces : Spaces spaces)
    (hspaces' : Spaces spaces') {values : List Json} {texts : List (List UInt8)}
    (h : List.Forall₂ (Reads isLiteral) values texts) :
    Reads isLiteral (.array values)
      (openArray :: (joined spaces false texts ++ (spaces' ++ [closeArray]))) := by
  intro fuel hfuel rest _
  cases fuel with
  | zero => exact absurd hfuel (Nat.not_succ_le_zero _)
  | succ fuel =>
    rw [List.cons_append, readValue, skipSpaces_cons (by decide)]
    dsimp only
    rw [if_neg (by decide), if_pos rfl, List.append_assoc, List.append_assoc,
      List.singleton_append]
    cases h with
    | nil =>
      have hnone : readItems isLiteral fuel (spaces' ++ closeArray :: rest) = none := by
        cases fuel with
        | zero => rw [readItems]
        | succ fuel =>
          have hvalue : readValue isLiteral fuel (closeArray :: rest) = none := by
            cases fuel with
            | zero => rw [readValue]
            | succ fuel =>
              rw [readValue, skipSpaces_cons (by decide)]
              dsimp only
              rw [if_neg (by decide), if_neg (by decide), if_neg (by decide), readLiteral,
                List.takeWhile_cons_of_neg (by decide), hlaws.nonempty, if_neg Bool.false_ne_true]
          rw [readItems, readValue_spaces hspaces', hvalue, Option.bind_none]
      rw [joined, List.nil_append, hnone, expect_spaces hspaces', expect_cons (by decide)]
      rfl
    | cons hvalue hvalues =>
      rw [readItems_joined hspaces hspaces' (.cons hvalue hvalues) (List.cons_ne_nil _ _)]
      · rfl
      · simp only [List.length_cons, List.length_append] at hfuel
        omega

theorem spaces_one : Spaces [0x20] := by
  intro c hc
  rw [List.mem_singleton.mp hc]
  rfl

theorem readKey_of_readsString (hspaces : Spaces spaces) {key text : List UInt8}
    (h : ReadsString key text) (rest : List UInt8) :
    readKey (spaces ++ (text ++ colon :: rest)) = some (key, rest) := by
  obtain ⟨body, rfl, hbody⟩ := h
  rw [readKey, expect_spaces hspaces, List.cons_append, expect_cons (by decide),
    Option.bind_some, hbody, Option.bind_some]
  dsimp only
  rw [expect_cons (by decide)]
  rfl

/-- The fields of an object that has some. -/
theorem readFields_joined (hspaces : Spaces spaces) (hspaces' : Spaces spaces')
    {fields : List (List UInt8 × Json)} {texts : List (List UInt8)}
    (h : List.Forall₂ (ReadsField isLiteral) fields texts) (hsome : texts ≠ []) {fuel : ℕ}
    (hfuel : (joined spaces false texts).length < fuel) (rest : List UInt8) :
    readFields isLiteral fuel
      (joined spaces false texts ++ (spaces' ++ closeObject :: rest)) = some (fields, rest) := by
  induction h generalizing fuel with
  | nil => exact absurd rfl hsome
  | @cons field text fields texts hfield hfields ih =>
    cases fuel with
    | zero => exact absurd hfuel (Nat.not_lt_zero _)
    | succ fuel =>
      obtain ⟨key, value, rfl, hkey, hvalue⟩ := hfield
      have hlength : value.length ≤ fuel := by
        simp only [joined, List.length_append, List.length_cons] at hfuel
        omega
      cases hfields with
      | nil =>
        have hends : Ends (spaces' ++ closeObject :: rest) :=
          (Ends.cons (by decide) rest).behind hspaces'
        have htext : joined spaces false [key ++ colon :: 0x20 :: value] ++
            (spaces' ++ closeObject :: rest) =
              spaces ++ (key ++ colon ::
                ([0x20] ++ (value ++ (spaces' ++ closeObject :: rest)))) := by
          simp [joined]
        rw [htext, readFields, readKey_of_readsString hspaces hkey, Option.bind_some]
        dsimp only
        rw [readValue_spaces spaces_one, hvalue fuel hlength _ hends, Option.map_some,
          Option.bind_some]
        dsimp only
        rw [expect_spaces hspaces', expect_spaces hspaces',
          expect_other (by decide) (by decide), expect_cons (by decide)]
        rfl
      | @cons field' text' fields texts hfield' hfields =>
        have hbound : (joined spaces false (text' :: texts)).length < fuel := by
          rw [joined, joined_true] at hfuel
          simp only [List.length_append, List.length_cons] at hfuel
          omega
        have hrest := ih (List.cons_ne_nil _ _) hbound
        have htext : joined spaces false ((key ++ colon :: 0x20 :: value) :: text' :: texts) ++
            (spaces' ++ closeObject :: rest) =
              spaces ++ (key ++ colon :: ([0x20] ++ (value ++ comma ::
                (joined spaces false (text' :: texts) ++ (spaces' ++ closeObject :: rest))))) := by
          simp [joined]
        rw [htext, readFields, readKey_of_readsString hspaces hkey, Option.bind_some]
        dsimp only
        rw [readValue_spaces spaces_one, hvalue fuel hlength _ (Ends.cons (by decide) _),
          Option.map_some, Option.bind_some]
        dsimp only
        rw [expect_cons (by decide), Option.bind_some, hrest]
        rfl

theorem Reads.object (hspaces : Spaces spaces) (hspaces' : Spaces spaces')
    {fields : List (List UInt8 × Json)} {texts : List (List UInt8)}
    (h : List.Forall₂ (ReadsField isLiteral) fields texts) :
    Reads isLiteral (.object fields)
      (openObject :: (joined spaces false texts ++ (spaces' ++ [closeObject]))) := by
  intro fuel hfuel rest _
  cases fuel with
  | zero => exact absurd hfuel (Nat.not_succ_le_zero _)
  | succ fuel =>
    rw [List.cons_append, readValue, skipSpaces_cons (by decide)]
    dsimp only
    rw [if_neg (by decide), if_neg (by decide), if_pos rfl, List.append_assoc,
      List.append_assoc, List.singleton_append]
    cases h with
    | nil =>
      have hnone : readFields isLiteral fuel (spaces' ++ closeObject :: rest) = none := by
        cases fuel with
        | zero => rw [readFields]
        | succ fuel =>
          rw [readFields, readKey, expect_spaces hspaces', expect_other (by decide) (by decide)]
          rfl
      rw [joined, List.nil_append, hnone, expect_spaces hspaces', expect_cons (by decide)]
      rfl
    | cons hfield hfields =>
      rw [readFields_joined hspaces hspaces' (.cons hfield hfields) (List.cons_ne_nil _ _)]
      · rfl
      · simp only [List.length_cons, List.length_append] at hfuel
        omega

theorem read_of_reads {value : Json} {text : List UInt8} (h : Reads isLiteral value text) :
    read isLiteral text = some value := by
  have hvalue := h text.length le_rfl [] fun c hc => by
    rw [List.head?_nil] at hc
    exact absurd hc (Option.not_mem_none c)
  rw [List.append_nil] at hvalue
  rw [read, hvalue, Option.bind_some]
  rfl

end

end Json
end Base
