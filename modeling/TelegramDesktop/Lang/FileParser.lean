import TelegramDesktop.Base.Slice

namespace TelegramDesktop.Lang.FileParser

def quote : UInt8 := 34

def equals : UInt8 := 61

def semicolon : UInt8 := 59

def backslash : UInt8 := 92

def newline : UInt8 := 10

def letterN : UInt8 := 110

def isKeyChar (byte : UInt8) : Bool :=
  (97 ≤ byte && byte ≤ 122) || (65 ≤ byte && byte ≤ 90) || byte == 95 ||
    (48 ≤ byte && byte ≤ 57) || byte == 35

inductive Error
  | emptyContent
  | quoteBeforeKey
  | quoteAfterKey (key : List UInt8)
  | endOfFile (key : List UInt8)
  | equalsExpected (key : List UInt8)
  | stringExpected (key : List UInt8)
  | endOfString (key : List UInt8)
  | semicolonExpected (key : List UInt8)
  deriving DecidableEq

/-- Where `from` is when a pair could not be read; spaces alone are no error. -/
structure Stop where
  position : ℕ
  error : Option Error

/-- Positions of `from` in the content; `content[position]?` is `none` at `end`. -/
def skipWhile (p : UInt8 → Bool) (content : List UInt8) (position : ℕ) : ℕ :=
  position + ((content.drop position).takeWhile p).length

variable (isSpace : UInt8 → Bool) (content : List UInt8)

/-- Skip the whitespaces, then the byte that has to follow. -/
def expect (position : ℕ) (byte : UInt8) (atEnd : Option Error) (wrong : Error) :
    Except Stop ℕ :=
  let position := skipWhile isSpace content position
  match content[position]? with
  | none => .error ⟨position, atEnd⟩
  | some found => if found = byte then .ok (position + 1) else .error ⟨position, some wrong⟩

/-- The name up to its closing quote. -/
def readKey (position : ℕ) : Except Stop (ℕ × List UInt8) :=
  let nameEnd := skipWhile isKeyChar content position
  let key := Base.slice content position (nameEnd - position)
  if content[nameEnd]? = some quote then .ok (nameEnd + 1, key)
  else .error ⟨nameEnd, some (.quoteAfterKey key)⟩

/-- The loop over the value, from behind its quote; `start` is where the chunk that is not yet
appended begins. -/
def readValue (key : List UInt8) (position start : ℕ) (value : List UInt8) :
    Except Stop (ℕ × List UInt8) :=
  let appended :=
    if start < position then value ++ Base.slice content start (position - start) else value
  if h : position < content.length then
    if content[position] = quote then .ok (position + 1, appended)
    else if content[position] = newline then .error ⟨position, some (.endOfString key)⟩
    else if content[position] = backslash then
      match content[position + 1]? with
      | none => .error ⟨position, some (.endOfFile key)⟩
      | some next =>
        if next = quote ∨ next = backslash then
          readValue key (position + 2) (position + 1) appended
        else if next = letterN then
          readValue key (position + 2) (position + 2) (appended ++ [newline])
        else readValue key (position + 1) start value
    else readValue key (position + 1) start value
  else .error ⟨position, some (.endOfFile key)⟩
termination_by content.length - position

/-- `readKeyValue` up to the semicolon. -/
def readPair (position : ℕ) : Except Stop (ℕ × List UInt8 × List UInt8) := do
  let nameStart ← expect isSpace content position quote none .quoteBeforeKey
  let (behindName, key) ← readKey content nameStart
  let assigned ←
    expect isSpace content behindName equals (some (.endOfFile key)) (.equalsExpected key)
  let start ← expect isSpace content assigned quote (some (.endOfFile key)) (.stringExpected key)
  let (behindValue, value) ← readValue content key start start []
  let behindPair ← expect isSpace content behindValue semicolon (some (.endOfFile key))
    (.semicolonExpected key)
  return (behindPair, key, value)

def readKeyValue (position : ℕ) : Except Stop (ℕ × List UInt8 × List UInt8) :=
  (readPair isSpace content position).map fun pair => (skipWhile isSpace content pair.1, pair.2)

def Spaces (text : List UInt8) : Prop := ∀ byte ∈ text, isSpace byte = true

/-- What stands between the quotes of a value. A backslash before any other byte stands for
itself. -/
inductive Body : List UInt8 → List UInt8 → Prop
  | nil : Body [] []
  | plain {byte : UInt8} {text value : List UInt8} : byte ≠ quote → byte ≠ newline →
      byte ≠ backslash → Body text value → Body (byte :: text) (byte :: value)
  | escaped {byte : UInt8} {text value : List UInt8} : byte = quote ∨ byte = backslash →
      Body text value → Body (backslash :: byte :: text) (byte :: value)
  | lineBreak {text value : List UInt8} : Body text value →
      Body (backslash :: letterN :: text) (newline :: value)
  | kept {byte : UInt8} {text value : List UInt8} : byte ≠ quote → byte ≠ backslash →
      byte ≠ letterN → Body (byte :: text) value →
      Body (backslash :: byte :: text) (backslash :: value)

/-- A pair with whitespaces between its tokens and before the first. -/
def Pair (key value text : List UInt8) : Prop :=
  ∃ w₁ w₂ w₃ w₄ body, Spaces isSpace w₁ ∧ Spaces isSpace w₂ ∧ Spaces isSpace w₃ ∧
    Spaces isSpace w₄ ∧ (∀ byte ∈ key, isKeyChar byte = true) ∧ Body body value ∧
    text = w₁ ++ quote :: (key ++ quote :: (w₂ ++ equals :: (w₃ ++ quote ::
      (body ++ quote :: (w₄ ++ [semicolon])))))

inductive WellFormed : List (List UInt8 × List UInt8) → List UInt8 → Prop
  | nil {text : List UInt8} : Spaces isSpace text → WellFormed [] text
  | cons {key value text rest : List UInt8} {pairs : List (List UInt8 × List UInt8)} :
      Pair isSpace key value text → WellFormed pairs rest →
      WellFormed ((key, value) :: pairs) (text ++ rest)

section Skipping

variable {content : List UInt8} {position : ℕ} (p : UInt8 → Bool)

theorem drop_skipWhile : content.drop position =
    (content.drop position).takeWhile p ++ content.drop (skipWhile p content position) := by
  rw [skipWhile, ← List.drop_drop]
  exact (List.prefix_iff_eq_append.mp (List.takeWhile_prefix p)).symm

theorem skipWhile_le (h : position ≤ content.length) :
    skipWhile p content position ≤ content.length := by
  have hle := (List.takeWhile_prefix (l := content.drop position) p).length_le
  rw [List.length_drop] at hle
  unfold skipWhile
  omega

theorem skipWhile_eq {skipped rest : List UInt8} (h : content.drop position = skipped ++ rest)
    (hskipped : ∀ byte ∈ skipped, p byte = true)
    (hrest : ∀ byte ∈ rest.head?, p byte = false) :
    skipWhile p content position = position + skipped.length := by
  rw [skipWhile, h, List.takeWhile_append_of_pos hskipped]
  rcases rest with _ | ⟨first, rest⟩
  · simp
  · rw [List.takeWhile_cons, if_neg (by simpa using hrest first rfl), List.append_nil]

theorem drop_skipWhile_eq_dropWhile :
    content.drop (skipWhile p content position) = (content.drop position).dropWhile p := by
  have h : content.drop position = _ := drop_skipWhile p
  nth_rewrite 1 [← List.takeWhile_append_dropWhile (p := p) (l := content.drop position)] at h
  exact (List.append_cancel_left h).symm

theorem skipWhile_skipWhile :
    skipWhile p content (skipWhile p content position) = skipWhile p content position := by
  have hnothing : content.drop (skipWhile p content position) =
      [] ++ content.drop (skipWhile p content position) := rfl
  refine skipWhile_eq p hnothing (fun byte hbyte => nomatch hbyte) ?_
  intro byte hbyte
  rw [drop_skipWhile_eq_dropWhile] at hbyte
  have hnot := List.head?_dropWhile_not p (content.drop position)
  rw [hbyte] at hnot
  simpa using hnot

end Skipping

theorem getElem?_of_drop {content rest : List UInt8} {position : ℕ} {byte : UInt8}
    (h : content.drop position = byte :: rest) : content[position]? = some byte := by
  rw [← List.head?_drop, h]
  rfl

theorem drop_of_getElem? {content : List UInt8} {position : ℕ} {byte : UInt8}
    (h : content[position]? = some byte) :
    content.drop position = byte :: content.drop (position + 1) := by
  obtain ⟨hlt, rfl⟩ := List.getElem?_eq_some_iff.mp h
  exact List.drop_eq_getElem_cons hlt

theorem drop_append {content l rest : List UInt8} {position : ℕ}
    (h : content.drop position = l ++ rest) : content.drop (position + l.length) = rest := by
  rw [← List.drop_drop, h, List.drop_left]

section Expect

variable {isSpace} {content : List UInt8} {position : ℕ} {byte : UInt8}
  {atEnd : Option Error} {wrong : Error}

theorem expect_ok {next : ℕ}
    (h : expect isSpace content position byte atEnd wrong = .ok next) :
    ∃ spaces, Spaces isSpace spaces ∧
      content.drop position = spaces ++ byte :: content.drop next ∧
      next = position + spaces.length + 1 := by
  unfold expect at h
  dsimp only at h
  split at h
  · exact nomatch h
  · next found hfound =>
    split_ifs at h with hbyte
    obtain rfl := Except.ok.inj h
    refine ⟨(content.drop position).takeWhile isSpace, fun b hb => List.mem_takeWhile_imp hb, ?_,
      rfl⟩
    rw [← hbyte, ← drop_of_getElem? hfound]
    exact drop_skipWhile isSpace

theorem expect_of_drop (hbyte : isSpace byte = false) {spaces rest : List UInt8}
    (hspaces : Spaces isSpace spaces) (h : content.drop position = spaces ++ byte :: rest) :
    expect isSpace content position byte atEnd wrong = .ok (position + spaces.length + 1) := by
  have hskip := skipWhile_eq isSpace h hspaces (by
    intro first hfirst
    obtain rfl := Option.some.inj hfirst
    exact hbyte)
  unfold expect
  simp only [hskip, getElem?_of_drop (drop_append h), if_true]

/-- Nothing but whitespaces up to the end is the one case without an error of its own. -/
theorem expect_error {stop : Stop}
    (h : expect isSpace content position byte atEnd wrong = .error stop) :
    (position ≤ content.length → stop.position ≤ content.length) ∧
      (stop.error = some wrong ∨
        stop.error = atEnd ∧ Spaces isSpace (content.drop position)) := by
  unfold expect at h
  dsimp only at h
  split at h
  · next hnone =>
    obtain rfl := Except.error.inj h
    refine ⟨skipWhile_le isSpace, Or.inr ⟨rfl, fun byte hbyte => ?_⟩⟩
    have hrest : content.drop (skipWhile isSpace content position) = [] :=
      List.drop_eq_nil_iff.mpr (List.getElem?_eq_none_iff.mp hnone)
    rw [drop_skipWhile isSpace, hrest, List.append_nil] at hbyte
    exact List.mem_takeWhile_imp hbyte
  · split_ifs at h
    obtain rfl := Except.error.inj h
    exact ⟨skipWhile_le isSpace, Or.inl rfl⟩

theorem expect_error_some {error : Error} {stop : Stop}
    (h : expect isSpace content position byte (some error) wrong = .error stop) :
    (position ≤ content.length → stop.position ≤ content.length) ∧ stop.error.isSome = true := by
  obtain ⟨hle, herror⟩ := expect_error h
  refine ⟨hle, ?_⟩
  rcases herror with herror | ⟨herror, -⟩ <;> rw [herror, Option.isSome_some]

end Expect

theorem isKeyChar_quote : isKeyChar quote = false := by decide

theorem readKey_ok {content key : List UInt8} {position next : ℕ}
    (h : readKey content position = .ok (next, key)) :
    (∀ byte ∈ key, isKeyChar byte = true) ∧
      content.drop position = key ++ quote :: content.drop next ∧
      next = position + key.length + 1 := by
  unfold readKey at h
  dsimp only at h
  split_ifs at h with hquote
  obtain ⟨rfl, rfl⟩ := Prod.mk.inj (Except.ok.inj h)
  have hkey : Base.slice content position (skipWhile isKeyChar content position - position) =
      (content.drop position).takeWhile isKeyChar := by
    rw [Base.slice, skipWhile, Nat.add_sub_cancel_left]
    exact (List.prefix_iff_eq_take.mp (List.takeWhile_prefix _)).symm
  rw [hkey]
  refine ⟨fun byte hbyte => List.mem_takeWhile_imp hbyte, ?_, rfl⟩
  rw [← drop_of_getElem? hquote]
  exact drop_skipWhile isKeyChar

theorem readKey_of_drop {content key rest : List UInt8} {position : ℕ}
    (hkey : ∀ byte ∈ key, isKeyChar byte = true)
    (h : content.drop position = key ++ quote :: rest) :
    readKey content position = .ok (position + key.length + 1, key) := by
  have hskip := skipWhile_eq isKeyChar h hkey (by
    intro first hfirst
    obtain rfl := Option.some.inj hfirst
    exact isKeyChar_quote)
  unfold readKey
  simp only [hskip, getElem?_of_drop (drop_append h), if_true, Nat.add_sub_cancel_left]
  rw [Base.slice, h, List.take_left]

theorem readKey_error {content : List UInt8} {position : ℕ} {stop : Stop}
    (h : readKey content position = .error stop) :
    (position ≤ content.length → stop.position ≤ content.length) ∧ stop.error.isSome = true := by
  unfold readKey at h
  dsimp only at h
  split_ifs at h
  obtain rfl := Except.error.inj h
  exact ⟨skipWhile_le isKeyChar, rfl⟩

section Value

variable {content key : List UInt8}

theorem appended_eq (value : List UInt8) (start position : ℕ) :
    (if start < position then value ++ Base.slice content start (position - start) else value) =
      value ++ Base.slice content start (position - start) := by
  split_ifs with h
  · rfl
  · rw [Nat.sub_eq_zero_of_le (Nat.le_of_not_lt h), Base.slice_zero, List.append_nil]

/-- The pending chunk grows by the byte that is passed. -/
theorem slice_succ {start position : ℕ} (hstart : start ≤ position) {byte : UInt8}
    (h : content[position]? = some byte) :
    Base.slice content start (position + 1 - start) =
      Base.slice content start (position - start) ++ [byte] := by
  have hone : Base.slice content position 1 = [byte] := by
    rw [Base.slice, drop_of_getElem? h]
    rfl
  have hsub : position + 1 - start = position - start + 1 := by omega
  have hadd : start + (position - start) = position := by omega
  rw [hsub, Base.slice_append, hadd, hone]

theorem readValue_ok {position start : ℕ} {value result : List UInt8} {next : ℕ}
    (hstart : start ≤ position)
    (h : readValue content key position start value = .ok (next, result)) :
    ∃ body decoded, Body body decoded ∧
      content.drop position = body ++ quote :: content.drop next ∧
      next = position + body.length + 1 ∧
      result = value ++ Base.slice content start (position - start) ++ decoded := by
  fun_induction readValue content key position start value with
  | case1 position start value appended hlt hquote =>
    obtain ⟨rfl, rfl⟩ := Prod.mk.inj (Except.ok.inj h)
    refine ⟨[], [], .nil, ?_, rfl, ?_⟩
    · rw [← hquote]
      exact List.drop_eq_getElem_cons hlt
    · rw [List.append_nil]
      exact appended_eq value start position
  | case2 => exact nomatch h
  | case3 => exact nomatch h
  | case4 position start value appended hlt hquote hnewline hbackslash byte hbyte hescaped ih =>
    obtain ⟨body, decoded, hbody, hdrop, hnext, hresult⟩ := ih (Nat.le_succ _) h
    have hsplit : content.drop position = backslash :: byte :: content.drop (position + 2) := by
      rw [List.drop_eq_getElem_cons hlt, hbackslash, drop_of_getElem? hbyte]
    -- the escaped byte is the first one of the next chunk
    refine ⟨backslash :: byte :: body, byte :: decoded, .escaped hescaped hbody, ?_, ?_, ?_⟩
    · rw [hsplit, hdrop]
      rfl
    · rw [hnext, List.length_cons, List.length_cons]
      omega
    · have hone := slice_succ (le_refl (position + 1)) hbyte
      rw [Nat.sub_self, Base.slice_zero, List.nil_append] at hone
      have happended : appended = _ := appended_eq value start position
      rw [hresult, hone, happended]
      simp only [List.append_assoc, List.singleton_append]
  | case5 position start value appended hlt hquote hnewline hbackslash hn hescaped ih =>
    obtain ⟨body, decoded, hbody, hdrop, hnext, hresult⟩ := ih (le_refl _) h
    have hsplit : content.drop position =
        backslash :: letterN :: content.drop (position + 2) := by
      rw [List.drop_eq_getElem_cons hlt, hbackslash, drop_of_getElem? hn]
    refine ⟨backslash :: letterN :: body, newline :: decoded, .lineBreak hbody, ?_, ?_, ?_⟩
    · rw [hsplit, hdrop]
      rfl
    · rw [hnext, List.length_cons, List.length_cons]
      omega
    · have happended : appended = _ := appended_eq value start position
      rw [hresult, Nat.sub_self, Base.slice_zero, List.append_nil, happended]
      simp only [List.append_assoc, List.singleton_append]
  | case6 position start value hlt hquote hnewline hbackslash byte hbyte hescaped hn ih =>
    obtain ⟨body, decoded, hbody, hdrop, hnext, hresult⟩ := ih (Nat.le_succ_of_le hstart) h
    have hget : content[position]? = some backslash := by
      rw [List.getElem?_eq_getElem hlt, hbackslash]
    rw [not_or] at hescaped
    rcases body with _ | ⟨first, body⟩
    · -- a quote would have been escaped
      have hclosing := drop_of_getElem? hbyte
      rw [hdrop] at hclosing
      exact absurd (List.cons.inj hclosing).1.symm hescaped.1
    · have hfirst : byte = first := by
        rw [drop_of_getElem? hbyte] at hdrop
        exact (List.cons.inj hdrop).1
      subst hfirst
      refine ⟨backslash :: byte :: body, backslash :: decoded,
        .kept hescaped.1 hescaped.2 hn hbody, ?_, ?_, ?_⟩
      · rw [drop_of_getElem? hget, hdrop]
        rfl
      · simp only [List.length_cons] at hnext ⊢
        omega
      · rw [hresult, slice_succ hstart hget]
        simp
  | case7 position start value hlt hquote hnewline hbackslash ih =>
    obtain ⟨body, decoded, hbody, hdrop, hnext, hresult⟩ := ih (Nat.le_succ_of_le hstart) h
    have hget : content[position]? = some content[position] := List.getElem?_eq_getElem hlt
    refine ⟨content[position] :: body, content[position] :: decoded,
      .plain hquote hnewline hbackslash hbody, ?_, ?_, ?_⟩
    · rw [drop_of_getElem? hget, hdrop]
      rfl
    · rw [hnext, List.length_cons]
      omega
    · rw [hresult, slice_succ hstart hget]
      simp
  | case8 => exact nomatch h

theorem readValue_of_body {body decoded : List UInt8} (hbody : Body body decoded)
    {position start : ℕ} (value : List UInt8) {rest : List UInt8}
    (h : content.drop position = body ++ quote :: rest) (hstart : start ≤ position) :
    readValue content key position start value = .ok (position + body.length + 1,
      value ++ Base.slice content start (position - start) ++ decoded) := by
  induction hbody generalizing position start value with
  | nil =>
    have hget := getElem?_of_drop h
    obtain ⟨hlt, hquote⟩ := List.getElem?_eq_some_iff.mp hget
    rw [readValue, dif_pos hlt, if_pos hquote, appended_eq, List.append_nil]
    rfl
  | @plain byte text decoded hquote hnewline hbackslash _ ih =>
    have hget := getElem?_of_drop h
    obtain ⟨hlt, hbyte⟩ := List.getElem?_eq_some_iff.mp hget
    have hrest : content.drop (position + 1) = text ++ quote :: rest :=
      drop_append (l := [byte]) h
    rw [readValue, dif_pos hlt, hbyte, if_neg hquote, if_neg hnewline, if_neg hbackslash,
      ih value hrest (Nat.le_succ_of_le hstart), slice_succ hstart hget]
    simp only [List.length_cons, List.append_assoc, List.singleton_append, Except.ok.injEq,
      Prod.mk.injEq, and_true]
    omega
  | @escaped byte text decoded hescaped _ ih =>
    have hget := getElem?_of_drop h
    obtain ⟨hlt, hbyte⟩ := List.getElem?_eq_some_iff.mp hget
    have hnext : content.drop (position + 1) = byte :: (text ++ quote :: rest) :=
      drop_append (l := [backslash]) h
    have hrest : content.drop (position + 2) = text ++ quote :: rest :=
      drop_append (l := [backslash, byte]) h
    have hone := slice_succ (le_refl (position + 1)) (getElem?_of_drop hnext)
    rw [Nat.sub_self, Base.slice_zero, List.nil_append] at hone
    rw [readValue, dif_pos hlt, hbyte, if_neg (by decide), if_neg (by decide), if_pos rfl,
      getElem?_of_drop hnext]
    dsimp only
    rw [if_pos hescaped, ih _ hrest (Nat.le_succ _), appended_eq, hone]
    simp only [List.length_cons, List.append_assoc, List.singleton_append, Except.ok.injEq,
      Prod.mk.injEq, and_true]
    omega
  | @lineBreak text decoded _ ih =>
    have hget := getElem?_of_drop h
    obtain ⟨hlt, hbyte⟩ := List.getElem?_eq_some_iff.mp hget
    have hnext : content.drop (position + 1) = letterN :: (text ++ quote :: rest) :=
      drop_append (l := [backslash]) h
    have hrest : content.drop (position + 2) = text ++ quote :: rest :=
      drop_append (l := [backslash, letterN]) h
    rw [readValue, dif_pos hlt, hbyte, if_neg (by decide), if_neg (by decide), if_pos rfl,
      getElem?_of_drop hnext]
    dsimp only
    rw [if_neg (by decide), if_pos rfl, ih _ hrest (le_refl _), appended_eq, Nat.sub_self,
      Base.slice_zero]
    simp only [List.length_cons, List.append_assoc, List.singleton_append, Except.ok.injEq,
      Prod.mk.injEq, and_true]
    omega
  | @kept byte text decoded hquote hbackslash hn _ ih =>
    have hget := getElem?_of_drop h
    obtain ⟨hlt, hbyte⟩ := List.getElem?_eq_some_iff.mp hget
    have hnext : content.drop (position + 1) = byte :: text ++ quote :: rest :=
      drop_append (l := [backslash]) h
    rw [readValue, dif_pos hlt, hbyte, if_neg (by decide), if_neg (by decide), if_pos rfl,
      getElem?_of_drop hnext]
    dsimp only
    rw [if_neg (by simp [hquote, hbackslash]), if_neg hn,
      ih value hnext (Nat.le_succ_of_le hstart), slice_succ hstart hget]
    simp only [List.length_cons, List.append_assoc, List.singleton_append, Except.ok.injEq,
      Prod.mk.injEq, and_true]
    omega

theorem readValue_error {position start : ℕ} {value : List UInt8} {stop : Stop}
    (h : readValue content key position start value = .error stop) :
    (position ≤ content.length → stop.position ≤ content.length) ∧ stop.error.isSome = true := by
  fun_induction readValue content key position start value with
  | case1 => exact nomatch h
  | case2 | case3 | case8 =>
    obtain rfl := Except.error.inj h
    exact ⟨id, rfl⟩
  | case4 position start value appended hlt hquote hnewline hbackslash byte hbyte hescaped ih =>
    obtain ⟨hle, herror⟩ := ih h
    exact ⟨fun _ => hle (List.getElem?_eq_some_iff.mp hbyte).1, herror⟩
  | case5 position start value appended hlt hquote hnewline hbackslash hn hescaped ih =>
    obtain ⟨hle, herror⟩ := ih h
    exact ⟨fun _ => hle (List.getElem?_eq_some_iff.mp hn).1, herror⟩
  | case6 position start value hlt hquote hnewline hbackslash byte hbyte hescaped hn ih =>
    obtain ⟨hle, herror⟩ := ih h
    exact ⟨fun _ => hle hlt, herror⟩
  | case7 position start value hlt hquote hnewline hbackslash ih =>
    obtain ⟨hle, herror⟩ := ih h
    exact ⟨fun _ => hle hlt, herror⟩

end Value

theorem bind_ok {ε α β : Type} {x : Except ε α} {f : α → Except ε β} {b : β}
    (h : x >>= f = .ok b) : ∃ a, x = .ok a ∧ f a = .ok b := by
  cases x with
  | error e => exact nomatch h
  | ok a => exact ⟨a, rfl, h⟩

theorem bind_error {ε α β : Type} {x : Except ε α} {f : α → Except ε β} {e : ε}
    (h : x >>= f = .error e) : x = .error e ∨ ∃ a, x = .ok a ∧ f a = .error e := by
  cases x with
  | error e' =>
    obtain rfl := Except.error.inj h
    exact Or.inl rfl
  | ok a => exact Or.inr ⟨a, rfl, h⟩

/-- The whitespaces do not hide the bytes between the tokens. -/
structure Separates (isSpace : UInt8 → Bool) : Prop where
  quote : isSpace quote = false
  equals : isSpace equals = false
  semicolon : isSpace semicolon = false

variable {isSpace} {content : List UInt8} {position : ℕ} {key value : List UInt8}

theorem readPair_ok {next : ℕ} (h : readPair isSpace content position = .ok (next, key, value)) :
    ∃ text, Pair isSpace key value text ∧ content.drop position = text ++ content.drop next ∧
      next = position + text.length := by
  unfold readPair at h
  obtain ⟨nameStart, h₁, h⟩ := bind_ok h
  obtain ⟨⟨behindName, name⟩, h₂, h⟩ := bind_ok h
  obtain ⟨assigned, h₃, h⟩ := bind_ok h
  obtain ⟨start, h₄, h⟩ := bind_ok h
  obtain ⟨⟨behindValue, decoded⟩, h₅, h⟩ := bind_ok h
  obtain ⟨behindPair, h₆, h⟩ := bind_ok h
  obtain ⟨rfl, rfl, rfl⟩ : behindPair = next ∧ name = key ∧ decoded = value := by
    injection h with h
    injection h with hnext h
    injection h with hkey hvalue
    exact ⟨hnext, hkey, hvalue⟩
  obtain ⟨w₁, hw₁, hdrop₁, rfl⟩ := expect_ok h₁
  obtain ⟨hkey, hdrop₂, rfl⟩ := readKey_ok h₂
  obtain ⟨w₂, hw₂, hdrop₃, rfl⟩ := expect_ok h₃
  obtain ⟨w₃, hw₃, hdrop₄, rfl⟩ := expect_ok h₄
  obtain ⟨body, w, hbody, hdrop₅, rfl, hw⟩ := readValue_ok (le_refl _) h₅
  obtain ⟨w₄, hw₄, hdrop₆, rfl⟩ := expect_ok h₆
  rw [Nat.sub_self, Base.slice_zero, List.nil_append, List.nil_append] at hw
  subst hw
  refine ⟨_, ⟨w₁, w₂, w₃, w₄, body, hw₁, hw₂, hw₃, hw₄, hkey, hbody, rfl⟩, ?_, ?_⟩
  · rw [hdrop₁, hdrop₂, hdrop₃, hdrop₄, hdrop₅, hdrop₆]
    simp only [List.append_assoc, List.cons_append, List.nil_append]
  · simp only [List.length_append, List.length_cons, List.length_nil]
    omega

theorem readPair_of_pair (hs : Separates isSpace) {text rest : List UInt8}
    (hpair : Pair isSpace key value text) (h : content.drop position = text ++ rest) :
    readPair isSpace content position = .ok (position + text.length, key, value) := by
  obtain ⟨w₁, w₂, w₃, w₄, body, hw₁, hw₂, hw₃, hw₄, hkey, hbody, rfl⟩ := hpair
  simp only [List.append_assoc, List.cons_append, List.nil_append] at h
  have hnext : ∀ {p : ℕ} {w tail : List UInt8} {byte : UInt8},
      content.drop p = w ++ byte :: tail → content.drop (p + w.length + 1) = tail := by
    intro p w tail byte h
    have h' : content.drop p = (w ++ [byte]) ++ tail := by simpa using h
    have := drop_append h'
    simpa [Nat.add_assoc] using this
  have h₁ := hnext h
  have h₂ := hnext h₁
  have h₃ := hnext h₂
  have h₄ := hnext h₃
  have h₅ := hnext h₄
  unfold readPair
  rw [expect_of_drop hs.quote hw₁ h]
  change (readKey content _ >>= _) = _
  rw [readKey_of_drop hkey h₁]
  change (expect isSpace content _ equals _ _ >>= _) = _
  rw [expect_of_drop hs.equals hw₂ h₂]
  change (expect isSpace content _ quote _ _ >>= _) = _
  rw [expect_of_drop hs.quote hw₃ h₃]
  change (readValue content _ _ _ [] >>= _) = _
  rw [readValue_of_body hbody [] h₄ (le_refl _), Nat.sub_self, Base.slice_zero]
  change (expect isSpace content _ semicolon _ _ >>= _) = _
  rw [expect_of_drop hs.semicolon hw₄ h₅]
  change Except.ok _ = Except.ok _
  simp only [List.length_append, List.length_cons, List.length_nil, List.nil_append,
    Except.ok.injEq, Prod.mk.injEq, and_true]
  omega

/-- Where no pair is read, `from` is still in the file, and unless only whitespaces are left
there is an error. -/
theorem readPair_error {stop : Stop} (h : readPair isSpace content position = .error stop) :
    (position ≤ content.length → stop.position ≤ content.length) ∧
      (stop.error.isSome = true ∨ Spaces isSpace (content.drop position)) := by
  have hle : ∀ {p : ℕ} {w : List UInt8} {byte : UInt8},
      content.drop p = w ++ byte :: content.drop (p + w.length + 1) →
      p ≤ content.length → p + w.length + 1 ≤ content.length := by
    intro p w byte hdrop hp
    have := congrArg List.length hdrop
    simp only [List.length_append, List.length_cons, List.length_drop] at this
    omega
  unfold readPair at h
  rcases bind_error h with h | ⟨nameStart, h₁, h⟩
  · obtain ⟨hstop, herror⟩ := expect_error h
    exact ⟨hstop, herror.imp (fun h => by rw [h, Option.isSome_some]) And.right⟩
  -- from here on an end of the file is an error too
  suffices hsuffices : (position ≤ content.length → stop.position ≤ content.length) ∧
      stop.error.isSome = true from ⟨hsuffices.1, Or.inl hsuffices.2⟩
  obtain ⟨w₁, -, hdrop, rfl⟩ := expect_ok h₁
  have hin₁ := hle hdrop
  rcases bind_error h with h | ⟨⟨behindName, name⟩, h₂, h⟩
  · exact (readKey_error h).imp_left (· ∘ hin₁)
  obtain ⟨-, hdrop, rfl⟩ := readKey_ok h₂
  have hin₂ := hle hdrop ∘ hin₁
  rcases bind_error h with h | ⟨assigned, h₃, h⟩
  · exact (expect_error_some h).imp_left (· ∘ hin₂)
  obtain ⟨w₂, -, hdrop, rfl⟩ := expect_ok h₃
  have hin₃ := hle hdrop ∘ hin₂
  rcases bind_error h with h | ⟨start, h₄, h⟩
  · exact (expect_error_some h).imp_left (· ∘ hin₃)
  obtain ⟨w₃, -, hdrop, rfl⟩ := expect_ok h₄
  have hin₄ := hle hdrop ∘ hin₃
  rcases bind_error h with h | ⟨⟨behindValue, decoded⟩, h₅, h⟩
  · exact (readValue_error h).imp_left (· ∘ hin₄)
  obtain ⟨body, w, -, hdrop, rfl, -⟩ := readValue_ok (le_refl _) h₅
  have hin₅ := hle hdrop ∘ hin₄
  rcases bind_error h with h | ⟨behindPair, h₆, h⟩
  · exact (expect_error_some h).imp_left (· ∘ hin₅)
  · exact nomatch h

theorem Pair.length_pos {text : List UInt8} (h : Pair isSpace key value text) :
    0 < text.length := by
  obtain ⟨w₁, w₂, w₃, w₄, body, -, -, -, -, -, -, rfl⟩ := h
  simp only [List.length_append, List.length_cons]
  omega

/-- A pair is read forwards and not past the end. -/
theorem readKeyValue_ok_lt {next : ℕ} {pair : List UInt8 × List UInt8}
    (h : readKeyValue isSpace content position = .ok (next, pair)) :
    position < next ∧ next ≤ content.length := by
  unfold readKeyValue at h
  cases hpair : readPair isSpace content position with
  | error stop =>
    rw [hpair] at h
    exact nomatch h
  | ok read =>
    obtain ⟨behind, key, value⟩ := read
    rw [hpair] at h
    obtain ⟨rfl, rfl⟩ := Prod.mk.inj (Except.ok.inj h)
    obtain ⟨text, htext, hdrop, rfl⟩ := readPair_ok hpair
    have hpos := htext.length_pos
    have hlength := congrArg List.length hdrop
    simp only [List.length_append, List.length_drop] at hlength
    refine ⟨?_, skipWhile_le isSpace (by omega)⟩
    dsimp only [skipWhile]
    omega

structure Parsed where
  pairs : List (List UInt8 × List UInt8)
  errors : List Error
  position : ℕ

variable (isSpace) (content)

/-- The loop of `parse`. -/
def parseFrom (position : ℕ) (pairs : List (List UInt8 × List UInt8)) : Parsed :=
  if position = content.length then ⟨pairs, [], position⟩
  else
    match h : readKeyValue isSpace content position with
    | .error stop => ⟨pairs, stop.error.toList, stop.position⟩
    | .ok (next, pair) => parseFrom next (pairs ++ [pair])
termination_by content.length - position
decreasing_by
  have := readKeyValue_ok_lt h
  omega

def parse : Parsed :=
  if content.isEmpty then ⟨[], [.emptyContent], 0⟩ else parseFrom isSpace content 0 []

variable {isSpace} {content}

theorem readPair_skipWhile :
    readPair isSpace content (skipWhile isSpace content position) =
      readPair isSpace content position := by
  unfold readPair expect
  dsimp only
  rw [skipWhile_skipWhile]

/-- Spaces up to the end are the end of the file and no error. -/
theorem readPair_of_spaces (h : Spaces isSpace (content.drop position)) :
    readPair isSpace content position = .error ⟨skipWhile isSpace content position, none⟩ := by
  have hall : (content.drop position).takeWhile isSpace = content.drop position :=
    List.takeWhile_eq_self_iff.mpr h
  have hnone : content[skipWhile isSpace content position]? = none := by
    rw [skipWhile, hall, List.length_drop]
    exact List.getElem?_eq_none (by omega)
  unfold readPair expect
  simp only [hnone]
  rfl

/-- The pairs are those of the longest well-formed prefix; `whole` says that it is all. -/
def Longest (isSpace : UInt8 → Bool) (text : List UInt8)
    (pairs : List (List UInt8 × List UInt8)) (whole : Prop) : Prop :=
  ∃ consumed rest, text = consumed ++ rest ∧ WellFormed isSpace pairs consumed ∧
    (∀ pairs' consumed', WellFormed isSpace pairs' consumed' → consumed' <+: text →
      pairs' <+: pairs ∧ consumed' <+: consumed) ∧ (whole ↔ rest = [])

theorem spaces_prefix {text spaces : List UInt8} (hspaces : Spaces isSpace spaces)
    (h : spaces <+: text) : spaces <+: text.takeWhile isSpace := by
  obtain ⟨rest, rfl⟩ := h
  rw [List.takeWhile_append_of_pos hspaces]
  exact List.prefix_append _ _

theorem longest_of_error {stop : Stop} (hs : Separates isSpace)
    (h : readPair isSpace content position = .error stop) :
    Longest isSpace (content.drop position) [] (stop.error = none) := by
  refine ⟨(content.drop position).takeWhile isSpace,
    content.drop (skipWhile isSpace content position), drop_skipWhile isSpace,
    .nil fun byte hbyte => List.mem_takeWhile_imp hbyte, ?_, ?_⟩
  · intro pairs' consumed' hwf hprefix
    cases hwf with
    | nil hspaces => exact ⟨List.prefix_rfl, spaces_prefix hspaces hprefix⟩
    | cons hpair hrest =>
      obtain ⟨tail, htail⟩ := hprefix
      rw [List.append_assoc] at htail
      rw [readPair_of_pair hs hpair htail.symm] at h
      exact nomatch h
  · constructor
    · intro hnone
      by_contra hrest
      rcases (readPair_error h).2 with hsome | hspaces
      · rw [hnone] at hsome
        exact nomatch hsome
      · apply hrest
        have hall : (content.drop position).takeWhile isSpace = content.drop position :=
          List.takeWhile_eq_self_iff.mpr hspaces
        have hsplit : content.drop position = _ := drop_skipWhile isSpace
        rw [hall] at hsplit
        exact List.append_right_eq_self.mp hsplit.symm
    · intro hrest
      have hspaces : Spaces isSpace (content.drop position) := by
        intro byte hbyte
        rw [drop_skipWhile isSpace, hrest, List.append_nil] at hbyte
        exact List.mem_takeWhile_imp hbyte
      rw [readPair_of_spaces hspaces] at h
      obtain rfl := Except.error.inj h
      rfl

theorem longest_of_ok (hs : Separates isSpace) {next : ℕ}
    {pairs : List (List UInt8 × List UInt8)} {whole : Prop}
    (h : readPair isSpace content position = .ok (next, key, value))
    (hnext : Longest isSpace (content.drop next) pairs whole) :
    Longest isSpace (content.drop position) ((key, value) :: pairs) whole := by
  obtain ⟨text, hpair, hdrop, rfl⟩ := readPair_ok h
  obtain ⟨consumed, rest, hsplit, hwf, hlongest, hwhole⟩ := hnext
  refine ⟨text ++ consumed, rest, ?_, .cons hpair hwf, ?_, hwhole⟩
  · rw [hdrop, hsplit, List.append_assoc]
  · intro pairs' consumed' hwf' hprefix
    cases hwf' with
    | nil hspaces =>
      refine ⟨List.nil_prefix, ?_⟩
      -- spaces end at the latest where the first quote is
      have hcut := spaces_prefix hspaces hprefix
      obtain ⟨w₁, w₂, w₃, w₄, body, hw₁, -, -, -, -, -, rfl⟩ := hpair
      rw [hdrop, List.append_assoc, List.takeWhile_append_of_pos hw₁, List.cons_append,
        List.takeWhile_cons, if_neg (by simp [hs.quote]), List.append_nil] at hcut
      rw [List.append_assoc]
      exact hcut.trans (List.prefix_append _ _)
    | @cons key' value' text' rest' pairs' hpair' hrest' =>
      obtain ⟨tail, htail⟩ := hprefix
      rw [List.append_assoc] at htail
      -- the other prefix starts with the pair that is read there
      have h' := readPair_of_pair hs hpair' htail.symm
      rw [h] at h'
      obtain ⟨hlength, hkey, hvalue⟩ :
          position + text.length = position + text'.length ∧ key = key' ∧ value = value' := by
        injection h' with h'
        injection h' with hnext h'
        injection h' with hkey hvalue
        exact ⟨hnext, hkey, hvalue⟩
      obtain ⟨rfl, htail'⟩ := List.append_inj (htail.trans hdrop) (by omega)
      obtain ⟨hpairs, hconsumed⟩ := hlongest _ _ hrest' ⟨tail, htail'⟩
      rw [← hkey, ← hvalue]
      exact ⟨(List.prefix_cons_inj _).mpr hpairs, (List.prefix_append_right_inj _).mpr hconsumed⟩

theorem parseFrom_spec (hs : Separates isSpace) (pairs : List (List UInt8 × List UInt8))
    (hposition : position ≤ content.length) {p : ℕ} (hp : p ≤ content.length)
    (hskip : skipWhile isSpace content p = skipWhile isSpace content position) :
    ∃ read, (parseFrom isSpace content position pairs).pairs = pairs ++ read ∧
      Longest isSpace (content.drop p) read
        ((parseFrom isSpace content position pairs).errors = []) ∧
      (parseFrom isSpace content position pairs).position ≤ content.length := by
  have hsame : readPair isSpace content p = readPair isSpace content position := by
    rw [← readPair_skipWhile, hskip, readPair_skipWhile]
  fun_induction parseFrom isSpace content position pairs generalizing p with
  | case1 pairs =>
    have hspaces : Spaces isSpace (content.drop content.length) := by
      rw [List.drop_length]
      exact fun byte hbyte => nomatch hbyte
    have hlongest := longest_of_error hs (hsame.trans (readPair_of_spaces hspaces))
    exact ⟨[], (List.append_nil _).symm, by simpa using hlongest, hposition⟩
  | case2 position pairs hne stop hread =>
    have hstop : readPair isSpace content position = .error stop := by
      unfold readKeyValue at hread
      cases hpair : readPair isSpace content position with
      | error other =>
        rw [hpair] at hread
        rw [Except.error.inj hread]
      | ok read =>
        rw [hpair] at hread
        exact nomatch hread
    have hlongest := longest_of_error hs (hsame.trans hstop)
    exact ⟨[], (List.append_nil _).symm, by simpa using hlongest,
      (readPair_error hstop).1 hposition⟩
  | case3 position pairs hne next pair hread ih =>
    have hle := readKeyValue_ok_lt hread
    unfold readKeyValue at hread
    cases hpair : readPair isSpace content position with
    | error other =>
      rw [hpair] at hread
      exact nomatch hread
    | ok read =>
      obtain ⟨behind, key, value⟩ := read
      rw [hpair] at hread
      obtain ⟨rfl, rfl⟩ := Prod.mk.inj (Except.ok.inj hread)
      have hbehind : behind ≤ content.length := by
        have hge : behind ≤ skipWhile isSpace content behind := Nat.le_add_right _ _
        exact hge.trans hle.2
      obtain ⟨read, hpairs, hlongest, hend⟩ := ih hle.2 hbehind (skipWhile_skipWhile _).symm
        readPair_skipWhile.symm
      refine ⟨(key, value) :: read, ?_, longest_of_ok hs (hsame.trans hpair) hlongest, hend⟩
      rw [hpairs, List.append_assoc]
      rfl

def escape (value : List UInt8) : List UInt8 :=
  value.flatMap fun byte =>
    if byte = quote ∨ byte = backslash then [backslash, byte]
    else if byte = newline then [backslash, letterN]
    else [byte]

/-- A pair with the whitespaces to print before each of its tokens. -/
structure Printed where
  key : List UInt8
  value : List UInt8
  beforeKey : List UInt8
  beforeEquals : List UInt8
  beforeValue : List UInt8
  beforeSemicolon : List UInt8

structure Printed.Valid (isSpace : UInt8 → Bool) (p : Printed) : Prop where
  key : ∀ byte ∈ p.key, isKeyChar byte = true
  beforeKey : Spaces isSpace p.beforeKey
  beforeEquals : Spaces isSpace p.beforeEquals
  beforeValue : Spaces isSpace p.beforeValue
  beforeSemicolon : Spaces isSpace p.beforeSemicolon

def Printed.text (p : Printed) : List UInt8 :=
  p.beforeKey ++ quote :: (p.key ++ quote :: (p.beforeEquals ++ equals ::
    (p.beforeValue ++ quote :: (escape p.value ++ quote :: (p.beforeSemicolon ++ [semicolon])))))

def print (printed : List Printed) (last : List UInt8) : List UInt8 :=
  printed.flatMap Printed.text ++ last

theorem body_escape (value : List UInt8) : Body (escape value) value := by
  induction value with
  | nil => exact .nil
  | cons byte value ih =>
    rw [escape, List.flatMap_cons, ← escape]
    split_ifs with hescaped hnewline
    · exact .escaped hescaped ih
    · rw [hnewline]
      exact .lineBreak ih
    · rw [not_or] at hescaped
      exact .plain hescaped.1 hnewline hescaped.2 ih

theorem wellFormed_print {printed : List Printed} {last : List UInt8}
    (hprinted : ∀ p ∈ printed, p.Valid isSpace) (hlast : Spaces isSpace last) :
    WellFormed isSpace (printed.map fun p => (p.key, p.value)) (print printed last) := by
  induction printed with
  | nil => exact .nil hlast
  | cons p printed ih =>
    have hp := hprinted p List.mem_cons_self
    have hrest := ih fun q hq => hprinted q (List.mem_cons_of_mem _ hq)
    rw [print, List.flatMap_cons, List.append_assoc]
    exact .cons ⟨_, _, _, _, _, hp.beforeKey, hp.beforeEquals, hp.beforeValue,
      hp.beforeSemicolon, hp.key, body_escape p.value, rfl⟩ hrest

theorem longest_of_wellFormed (hs : Separates isSpace) {text : List UInt8}
    {pairs : List (List UInt8 × List UInt8)} (hwf : WellFormed isSpace pairs text)
    (h : content.drop position = text) : Longest isSpace (content.drop position) pairs True := by
  induction hwf generalizing position with
  | nil hspaces =>
    have hlongest := longest_of_error hs (readPair_of_spaces (h.symm ▸ hspaces))
    simpa using hlongest
  | cons hpair _ ih => exact longest_of_ok hs (readPair_of_pair hs hpair h) (ih (drop_append h))

theorem Longest.unique {text : List UInt8} {pairs pairs' : List (List UInt8 × List UInt8)}
    {whole whole' : Prop} (h : Longest isSpace text pairs whole)
    (h' : Longest isSpace text pairs' whole') : pairs = pairs' ∧ (whole ↔ whole') := by
  obtain ⟨consumed, rest, hsplit, hwf, hlongest, hwhole⟩ := h
  obtain ⟨consumed', rest', hsplit', hwf', hlongest', hwhole'⟩ := h'
  obtain ⟨hpairs, hconsumed⟩ := hlongest _ _ hwf' (hsplit' ▸ List.prefix_append _ _)
  obtain ⟨hpairs', hconsumed'⟩ := hlongest' _ _ hwf (hsplit ▸ List.prefix_append _ _)
  have hsame : consumed = consumed' :=
    hconsumed'.eq_of_length (le_antisymm hconsumed'.length_le hconsumed.length_le)
  have hrest : rest = rest' := by
    rw [hsplit, hsame] at hsplit'
    exact List.append_cancel_left hsplit'
  exact ⟨hpairs'.eq_of_length (le_antisymm hpairs'.length_le hpairs.length_le),
    hwhole.trans (hrest ▸ hwhole'.symm)⟩

/-- The parser stays in the file and reports what its longest well-formed prefix says. -/
theorem parse_spec (hs : Separates isSpace) (content : List UInt8) :
    Longest isSpace content (parse isSpace content).pairs
      ((parse isSpace content).errors = [] ∨ content = []) ∧
    (parse isSpace content).position ≤ content.length := by
  unfold parse
  split_ifs with hempty
  · obtain rfl := List.isEmpty_iff.mp hempty
    have hnil : WellFormed isSpace [] [] := .nil (by simp [Spaces])
    have hlongest := longest_of_wellFormed hs hnil (List.drop_zero (l := []))
    exact ⟨by simpa using hlongest, le_refl _⟩
  · obtain ⟨read, hpairs, hlongest, hend⟩ := parseFrom_spec hs [] (Nat.zero_le content.length)
      (Nat.zero_le _) rfl
    rw [List.nil_append] at hpairs
    rw [hpairs]
    have hne : content ≠ [] := fun h => hempty (List.isEmpty_iff.mpr h)
    exact ⟨by simpa [hne] using hlongest, hend⟩

/-- A text that is not empty is read back as printed; every text is read up to the first place
that is no pair, and not past its end. -/
theorem parse_print (hs : Separates isSpace) :
    (∀ printed last, (∀ p ∈ printed, Printed.Valid isSpace p) → Spaces isSpace last →
      print printed last ≠ [] →
      (parse isSpace (print printed last)).pairs = printed.map (fun p => (p.key, p.value)) ∧
      (parse isSpace (print printed last)).errors = []) ∧
    ∀ content, Longest isSpace content (parse isSpace content).pairs
        ((parse isSpace content).errors = [] ∨ content = []) ∧
      (parse isSpace content).position ≤ content.length := by
  refine ⟨fun printed last hprinted hlast hne => ?_, parse_spec hs⟩
  have hlongest := longest_of_wellFormed hs
    (wellFormed_print hprinted hlast) (List.drop_zero (l := print printed last))
  obtain ⟨hpairs, hwhole⟩ := (parse_spec hs (print printed last)).1.unique hlongest
  exact ⟨hpairs, (hwhole.mpr trivial).resolve_right hne⟩

def isSpaceAscii (byte : UInt8) : Bool := byte == 32 || byte == 10 || byte == 9 || byte == 13

/-- Two pairs with quotes, backslashes and line breaks in their values. -/
theorem parse_print_escaped :
    (parse isSpaceAscii (print [⟨[97, 35], [34, 92, 110, 10], [10], [32], [32], []⟩,
      ⟨[], [92, 92, 34], [], [], [9], [13]⟩] [10])).pairs =
        [([97, 35], [34, 92, 110, 10]), ([], [92, 92, 34])] := by
  have hs : Separates isSpaceAscii := ⟨by decide, by decide, by decide⟩
  refine ((parse_print hs).1 _ [10] ?_ ?_ ?_).1
  · intro p hp
    rcases List.mem_cons.mp hp with rfl | hp
    · constructor <;> simp [Spaces, isKeyChar, isSpaceAscii]
    · rw [List.mem_singleton.mp hp]
      constructor <;> simp [Spaces, isKeyChar, isSpaceAscii]
  · simp [Spaces, isSpaceAscii]
  · simp [print]

/-- No pairs and no whitespaces are an empty content, which is an error. -/
theorem parse_print_empty :
    ¬∀ printed last, (∀ p ∈ printed, Printed.Valid isSpaceAscii p) → Spaces isSpaceAscii last →
      (parse isSpaceAscii (print printed last)).pairs = printed.map (fun p => (p.key, p.value)) ∧
      (parse isSpaceAscii (print printed last)).errors = [] := by
  intro h
  have herrors := (h [] [] (by simp) (by simp [Spaces])).2
  exact absurd herrors (by decide)

end TelegramDesktop.Lang.FileParser
