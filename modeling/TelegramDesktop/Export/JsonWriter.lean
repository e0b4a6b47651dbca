import TelegramDesktop.Base.Json

namespace TelegramDesktop.Export.Output
open Base Base.Json

def ascii (text : String) : List UInt8 := text.toList.map fun c => .ofNat c.toNat

/-- What is appended for a byte of a string, with what follows the byte. -/
def escaped (ch : UInt8) (rest : List UInt8) : List UInt8 :=
  if ch = 0x0A then [backslash, 0x6E]
  else if ch = 0x0D then [backslash, 0x72]
  else if ch = 0x09 then [backslash, 0x74]
  else if ch = quote then [backslash, quote]
  else if ch = backslash then [backslash, backslash]
  else if ch < 0x20 then
    let left := ch &&& 0x0F
    [backslash, 0x78, (0x30 : UInt8) + (ch >>> 4),
      if left ≥ 10 then 0x41 + (left - 10) else 0x30 + left]
  else if ch = 0xE2 ∧ 2 ≤ rest.length ∧ rest[0]? = some 0x80 then
    -- the two bytes that follow are appended later all the same
    if rest[1]? = some 0xA8 then [backslash, 0x75, 0x32, 0x30, 0x32, 0x38]
    else if rest[1]? = some 0xA9 then [backslash, 0x75, 0x32, 0x30, 0x32, 0x39]
    else [ch]
  else [ch]

def escapedAll : List UInt8 → List UInt8
  | [] => []
  | ch :: rest => escaped ch rest ++ escapedAll rest

def serializeString (value : List UInt8) : List UInt8 := quote :: (escapedAll value ++ [quote])

def stringAllowNull (data : List UInt8) : List UInt8 :=
  if data = [] then ascii "null" else serializeString data

/-- A control byte that JSON has no short form for. -/
def isControl (ch : UInt8) : Bool := ch < 0x20 && !(ch = 0x0A || ch = 0x0D || ch = 0x09)

/-- The line separator or the paragraph separator. -/
def isSeparator (ch : UInt8) (rest : List UInt8) : Bool :=
  ch = 0xE2 && rest[0]? = some 0x80 && (rest[1]? = some 0xA8 || rest[1]? = some 0xA9)

/-- A string without such bytes. -/
def plain : List UInt8 → Bool
  | [] => true
  | ch :: rest => !isControl ch && !isSeparator ch rest && plain rest

/-- What a reader makes of what is appended for a byte. -/
def shownByte (ch : UInt8) (rest : List UInt8) : Option (List UInt8) :=
  if isControl ch then none
  else if isSeparator ch rest then some [0xE2, 0x80, (rest[1]?).getD 0]
  else some [ch]

def shown : List UInt8 → Option (List UInt8)
  | [] => some []
  | ch :: rest => (shownByte ch rest).bind fun bytes => (shown rest).map fun s => bytes ++ s

/-- One byte of a string. -/
theorem readString_escaped (ch : UInt8) (rest text : List UInt8) :
    readString (escaped ch rest ++ text) = (shownByte ch rest).bind fun bytes =>
      (readString text).map fun r => (bytes ++ r.1, r.2) := by
  by_cases hn : ch = 0x0A
  · subst hn
    exact readString_unescape (by decide) (by decide) text
  by_cases hr : ch = 0x0D
  · subst hr
    exact readString_unescape (by decide) (by decide) text
  by_cases ht : ch = 0x09
  · subst ht
    exact readString_unescape (by decide) (by decide) text
  by_cases hquote : ch = quote
  · subst hquote
    exact readString_unescape (by decide) (by decide) text
  by_cases hbackslash : ch = backslash
  · subst hbackslash
    exact readString_unescape (by decide) (by decide) text
  rw [escaped, if_neg hn, if_neg hr, if_neg ht, if_neg hquote, if_neg hbackslash, shownByte]
  by_cases hcontrol : ch < 0x20
  · have hbad : isControl ch = true := by simp [isControl, hcontrol, hn, hr, ht]
    rw [if_pos hcontrol, if_pos hbad, Option.bind_none]
    exact readString_unknown (by decide) (by decide) _
  have hgood : isControl ch = false := by simp [isControl, hcontrol]
  rw [if_neg hcontrol, hgood, if_neg Bool.false_ne_true]
  have hlength {c : UInt8} (h : rest[1]? = some c) : 2 ≤ rest.length := by
    have hlt := (List.getElem?_eq_some_iff.mp h).1
    omega
  cases hsep : isSeparator ch rest with
  | true =>
    simp only [isSeparator, Bool.and_eq_true, Bool.or_eq_true, decide_eq_true_eq] at hsep
    obtain ⟨⟨hch, hfirst⟩, hthird⟩ := hsep
    rcases hthird with hthird | hthird
    · rw [if_pos ⟨hch, hlength hthird, hfirst⟩, if_pos hthird, if_pos rfl, hthird]
      exact readString_code (by decide) text
    · rw [if_pos ⟨hch, hlength hthird, hfirst⟩, if_neg (by rw [hthird]; decide), if_pos hthird,
        if_pos rfl, hthird]
      exact readString_code (by decide) text
  | false =>
    have hshort : (if ch = 0xE2 ∧ 2 ≤ rest.length ∧ rest[0]? = some 0x80 then
        if rest[1]? = some 0xA8 then [backslash, 0x75, 0x32, 0x30, 0x32, 0x38]
        else if rest[1]? = some 0xA9 then [backslash, 0x75, 0x32, 0x30, 0x32, 0x39]
        else [ch] else [ch]) = [ch] := by
      split
      · next h =>
        simp only [isSeparator, h.1, h.2.2, decide_true, Bool.true_and, Bool.or_eq_false_iff,
          decide_eq_false_iff_not] at hsep
        rw [if_neg hsep.1, if_neg hsep.2]
      · rfl
    rw [hshort, if_neg Bool.false_ne_true, Option.bind_some]
    exact readString_plain hquote hbackslash hcontrol text

theorem readString_escapedAll (value rest : List UInt8) :
    readString (escapedAll value ++ quote :: rest) = (shown value).map fun s => (s, rest) := by
  induction value with
  | nil => exact readString_quote rest
  | cons ch value ih =>
    rw [escapedAll, List.append_assoc, readString_escaped, ih, shown]
    cases shownByte ch value with
    | none => rfl
    | some bytes =>
      rw [Option.bind_some, Option.bind_some, Option.map_map, Option.map_map]
      rfl

theorem shown_of_plain {value : List UInt8} (h : plain value = true) :
    shown value = some value := by
  induction value with
  | nil => rfl
  | cons ch value ih =>
    rw [plain, Bool.and_eq_true, Bool.and_eq_true, Bool.not_eq_true', Bool.not_eq_true'] at h
    rw [shown, ih h.2, shownByte, h.1.1, h.1.2, if_neg Bool.false_ne_true,
      if_neg Bool.false_ne_true]
    rfl

/-- A separator is read as three bytes, and two of them once more. -/
theorem shown_length {value s : List UInt8} (h : shown value = some s) :
    value.length ≤ s.length ∧ (plain value = false → value.length < s.length) := by
  induction value generalizing s with
  | nil => exact ⟨Nat.zero_le _, fun hplain => absurd hplain (by decide)⟩
  | cons ch value ih =>
    rw [shown] at h
    obtain ⟨bytes, hbytes, h⟩ := Option.bind_eq_some_iff.mp h
    obtain ⟨s', hs', rfl⟩ := Option.map_eq_some_iff.mp h
    obtain ⟨hle, hlt⟩ := ih hs'
    rw [shownByte] at hbytes
    cases hcontrol : isControl ch with
    | true =>
      rw [hcontrol, if_pos rfl] at hbytes
      exact absurd hbytes (Option.some_ne_none _).symm
    | false =>
      rw [hcontrol, if_neg Bool.false_ne_true] at hbytes
      rw [List.length_append, List.length_cons, plain, hcontrol]
      cases hsep : isSeparator ch value with
      | true =>
        rw [hsep, if_pos rfl, Option.some_inj] at hbytes
        subst hbytes
        simp only [List.length_cons, List.length_nil]
        omega
      | false =>
        rw [hsep, if_neg Bool.false_ne_true, Option.some_inj] at hbytes
        subst hbytes
        simp only [List.length_cons, List.length_nil, Bool.not_false, Bool.true_and]
        exact ⟨by omega, fun hplain => by have := hlt hplain; omega⟩

/-- A string reads back, whatever follows it, exactly when it has no such bytes: a control byte
makes the text unreadable, and a separator makes it longer. -/
theorem serializeString_reads_iff (value rest : List UInt8) :
    (expect quote (serializeString value ++ rest)).bind readString = some (value, rest) ↔
      plain value = true := by
  rw [serializeString, List.cons_append, expect_cons (by decide), Option.bind_some,
    List.append_assoc, List.singleton_append, readString_escapedAll]
  constructor
  · intro h
    obtain ⟨s, hs, heq⟩ := Option.map_eq_some_iff.mp h
    rw [(Prod.mk.inj heq).1] at hs
    by_contra hplain
    exact absurd ((shown_length hs).2 (Bool.eq_false_iff.mpr hplain)) (lt_irrefl _)
  · intro h
    rw [shown_of_plain h]
    rfl

theorem readsString_serializeString {value : List UInt8} (h : plain value = true) :
    ReadsString value (serializeString value) := by
  refine ⟨escapedAll value ++ [quote], rfl, fun rest => ?_⟩
  rw [List.append_assoc, List.singleton_append, readString_escapedAll, shown_of_plain h]
  rfl

/-- The kinds of the open brackets, the innermost first. -/
structure JsonContext where
  nesting : List Bool := []

def kObject : Bool := true
def kArray : Bool := false

def indentation (context : JsonContext) : List UInt8 :=
  List.replicate context.nesting.length 0x20

/-- What stands before an item of the innermost bracket. -/
def next (context : JsonContext) : List UInt8 := 0x0A :: indentation context

def JsonContext.push (context : JsonContext) (type : Bool) : JsonContext :=
  ⟨type :: context.nesting⟩

def fieldText (key value : List UInt8) : List UInt8 := serializeString key ++ colon :: 0x20 :: value

/-- The keys of an object with the texts of their values. -/
abbrev Fields := List (List UInt8 × List UInt8)

/-- Fields without a value are left out. -/
def serializeObject (context : JsonContext) (values : Fields) : List UInt8 :=
  openObject :: (joined (next (context.push kObject)) false
    ((values.filter fun v => !v.2.isEmpty).map fun v => fieldText v.1 v.2) ++
      (next context ++ [closeObject]))

def serializeArray (context : JsonContext) (values : List (List UInt8)) : List UInt8 :=
  openArray :: (joined (next (context.push kArray)) false values ++ (next context ++ [closeArray]))

inductive DialogsMode
  | none
  | chats
  | left
  deriving DecidableEq

inductive DialogType
  | unknown
  | self
  | replies
  | personal
  | bot
  | privateGroup
  | privateSupergroup
  | publicSupergroup
  | privateChannel
  | publicChannel
  deriving DecidableEq

def typeString : DialogType → List UInt8
  | .unknown => ascii ""
  | .self => ascii "saved_messages"
  | .replies => ascii "replies"
  | .personal => ascii "personal_chat"
  | .bot => ascii "bot_chat"
  | .privateGroup => ascii "private_group"
  | .privateSupergroup => ascii "private_supergroup"
  | .publicSupergroup => ascii "public_supergroup"
  | .privateChannel => ascii "private_channel"
  | .publicChannel => ascii "public_channel"

structure DialogInfo where
  isLeftChannel : Bool
  type : DialogType
  name : List UInt8
  /-- the bare id as a number -/
  peerId : List UInt8

structure Environment where
  aboutTelegram : List UInt8
  aboutContacts : List UInt8
  aboutFrequent : List UInt8
  aboutSessions : List UInt8
  aboutWebSessions : List UInt8
  aboutChats : List UInt8
  aboutLeftChats : List UInt8

structure JsonWriter where
  onlySinglePeer : Bool
  environment : Environment
  context : JsonContext := {}
  currentNestingHadItem : Bool := false
  dialogsMode : DialogsMode := .none
  output : List UInt8 := []

namespace JsonWriter

def append (w : JsonWriter) (text : List UInt8) : JsonWriter :=
  { w with output := w.output ++ text }

def pushNesting (type : Bool) (w : JsonWriter) : JsonWriter :=
  { w with context := w.context.push type, currentNestingHadItem := false }.append
    [if type = kObject then openObject else openArray]

def prepareArrayItemStart (w : JsonWriter) : JsonWriter :=
  { w with currentNestingHadItem := true }.append
    ((if w.currentNestingHadItem then [comma] else []) ++ next w.context)

def prepareObjectItemStart (key : List UInt8) (w : JsonWriter) : JsonWriter :=
  { w with currentNestingHadItem := true }.append
    ((if w.currentNestingHadItem then [comma] else []) ++ next w.context ++
      (serializeString key ++ [colon, 0x20]))

def popNesting (w : JsonWriter) : Option JsonWriter :=
  match w.context.nesting with
  | [] => .none
  | type :: nesting =>
    some ({ w with context := ⟨nesting⟩, currentNestingHadItem := true }.append
      (next ⟨nesting⟩ ++ [if type = kObject then closeObject else closeArray]))

def start (onlySinglePeer : Bool) (environment : Environment) : JsonWriter :=
  let w : JsonWriter := { onlySinglePeer, environment }
  if onlySinglePeer then w
  else ((w.pushNesting kObject).prepareObjectItemStart (ascii "about")).append
    (serializeString environment.aboutTelegram)

def writePersonal (values : Fields) (w : JsonWriter) : JsonWriter :=
  (w.prepareObjectItemStart (ascii "personal_information")).append
    (serializeObject w.context values)

def writeListStart (key : List UInt8) (w : JsonWriter) : JsonWriter :=
  (w.prepareObjectItemStart key).pushNesting kArray

def writeListSlice (items : List Fields) (w : JsonWriter) : JsonWriter :=
  items.foldl (fun w item => w.prepareArrayItemStart.append (serializeObject w.context item)) w

def writeUserpicsStart : JsonWriter → JsonWriter := writeListStart (ascii "profile_pictures")

/-- Unlike the other slices, one of these is expected to have something. -/
def writeUserpicsSlice (items : List Fields) (w : JsonWriter) : Option JsonWriter :=
  if items = [] then .none else some (w.writeListSlice items)

def writeUserpicsEnd : JsonWriter → Option JsonWriter := popNesting

def writeStoriesStart : JsonWriter → JsonWriter := writeListStart (ascii "stories")
def writeStoriesSlice : List Fields → JsonWriter → JsonWriter := writeListSlice
def writeStoriesEnd : JsonWriter → Option JsonWriter := popNesting

def writeAboutListStart (key about : List UInt8) (w : JsonWriter) : JsonWriter :=
  ((((w.prepareObjectItemStart key).pushNesting kObject).prepareObjectItemStart
    (ascii "about")).append (serializeString about)).prepareObjectItemStart (ascii "list")
      |>.pushNesting kArray

def writeAboutListEnd (w : JsonWriter) : Option JsonWriter := w.popNesting.bind popNesting

def writeAboutList (key about : List UInt8) (items : List Fields) (w : JsonWriter) :
    Option JsonWriter :=
  ((w.writeAboutListStart key about).writeListSlice items).writeAboutListEnd

def writeSavedContacts (contacts : List Fields) (w : JsonWriter) : Option JsonWriter :=
  w.writeAboutList (ascii "contacts") w.environment.aboutContacts contacts

def writeFrequentContacts (contacts : List Fields) (w : JsonWriter) : Option JsonWriter :=
  w.writeAboutList (ascii "frequent_contacts") w.environment.aboutFrequent contacts

def writeContactsList (saved frequent : List Fields) (w : JsonWriter) : Option JsonWriter :=
  (w.writeSavedContacts saved).bind (writeFrequentContacts frequent)

def writeSessions (sessions : List Fields) (w : JsonWriter) : Option JsonWriter :=
  w.writeAboutList (ascii "sessions") w.environment.aboutSessions sessions

def writeWebSessions (sessions : List Fields) (w : JsonWriter) : Option JsonWriter :=
  w.writeAboutList (ascii "web_sessions") w.environment.aboutWebSessions sessions

def writeSessionsList (sessions webSessions : List Fields) (w : JsonWriter) :
    Option JsonWriter :=
  (w.writeSessions sessions).bind (writeWebSessions webSessions)

mutual

def pushValue : Json → JsonWriter → Option JsonWriter
  | .literal text, w => some (w.append text)
  | .string value, w => some (w.append (serializeString value))
  | .array values, w => (pushItems values (w.pushNesting kArray)).bind popNesting
  | .object fields, w => (pushFields fields (w.pushNesting kObject)).bind popNesting

def pushItems : List Json → JsonWriter → Option JsonWriter
  | [], w => some w
  | value :: values, w => (pushValue value w.prepareArrayItemStart).bind (pushItems values)

def pushFields : List (List UInt8 × Json) → JsonWriter → Option JsonWriter
  | [], w => some w
  | (key, value) :: fields, w =>
    (pushValue value (w.prepareObjectItemStart key)).bind (pushFields fields)

end

def writeOtherData (value : Json) (w : JsonWriter) : Option JsonWriter :=
  pushValue value (w.prepareObjectItemStart (ascii "other_data"))

def writeChatsStart (listName about : List UInt8) : JsonWriter → JsonWriter :=
  writeAboutListStart listName about

def writeChatsEnd : JsonWriter → Option JsonWriter := writeAboutListEnd

def validateDialogsMode (isLeftChannel : Bool) (w : JsonWriter) : Option JsonWriter :=
  let mode := if isLeftChannel then DialogsMode.left else .chats
  if w.dialogsMode = mode then some w
  else (if w.dialogsMode ≠ .none then w.writeChatsEnd else some w).map fun w =>
    { w with dialogsMode := mode }.writeChatsStart
      (if isLeftChannel then ascii "left_chats" else ascii "chats")
      (if isLeftChannel then w.environment.aboutLeftChats else w.environment.aboutChats)

def writeDialogFields (data : DialogInfo) (w : JsonWriter) : JsonWriter :=
  let w := w.pushNesting kObject
  let w := if data.type ≠ .self ∧ data.type ≠ .replies then
      (w.prepareObjectItemStart (ascii "name")).append (stringAllowNull data.name)
    else w
  let w := (w.prepareObjectItemStart (ascii "type")).append (stringAllowNull (typeString data.type))
  let w := (w.prepareObjectItemStart (ascii "id")).append data.peerId
  (w.prepareObjectItemStart (ascii "messages")).pushNesting kArray

def writeDialogStart (data : DialogInfo) (w : JsonWriter) : Option JsonWriter :=
  if w.onlySinglePeer then some (w.writeDialogFields data)
  else (w.validateDialogsMode data.isLeftChannel).map fun w =>
    w.prepareArrayItemStart.writeDialogFields data

def writeDialogSlice : List Fields → JsonWriter → JsonWriter := writeListSlice

def writeDialogEnd (w : JsonWriter) : Option JsonWriter := w.popNesting.bind popNesting

def writeDialogsEnd (w : JsonWriter) : Option JsonWriter :=
  if w.onlySinglePeer then some w else w.writeChatsEnd

def finish (w : JsonWriter) : Option JsonWriter :=
  if w.onlySinglePeer then if w.context.nesting = [] then some w else .none
  else w.popNesting.bind fun w => if w.context.nesting = [] then some w else .none

end JsonWriter
end TelegramDesktop.Export.Output
