import TelegramDesktop.Export.JsonWriter

namespace TelegramDesktop.Export.Output
open Base Base.Json

/-- An object with the texts of its fields. -/
def objectText (context : JsonContext) (texts : List (List UInt8)) : List UInt8 :=
  openObject :: (joined (next (context.push kObject)) false texts ++
    (next context ++ [closeObject]))

theorem spaces_next (context : JsonContext) : Spaces (next context) := by
  intro c hc
  rcases List.mem_cons.mp hc with rfl | hc
  · rfl
  · rw [List.eq_of_mem_replicate hc]
    rfl

section
variable {isLiteral : List UInt8 → Bool}

theorem reads_objectText (context : JsonContext) {fields : List (List UInt8 × Json)}
    {texts : List (List UInt8)} (h : List.Forall₂ (ReadsField isLiteral) fields texts) :
    Reads isLiteral (.object fields) (objectText context texts) :=
  Reads.object (spaces_next _) (spaces_next _) h

theorem reads_serializeArray (hlaws : Literals isLiteral) (context : JsonContext)
    {values : List Json} {texts : List (List UInt8)}
    (h : List.Forall₂ (Reads isLiteral) values texts) :
    Reads isLiteral (.array values) (serializeArray context texts) :=
  Reads.array hlaws (spaces_next _) (spaces_next _) h

theorem reads_serializeString {value : List UInt8} (h : plain value = true) :
    Reads isLiteral (.string value) (serializeString value) :=
  (readsString_serializeString h).reads

theorem readsField_fieldText {key text : List UInt8} {value : Json} (hkey : plain key = true)
    (h : Reads isLiteral value text) : ReadsField isLiteral (key, value) (fieldText key text) :=
  ⟨serializeString key, text, rfl, readsString_serializeString hkey, h⟩

end

namespace JsonWriter

/-- Items of the innermost bracket are written. -/
def addItems (texts : List (List UInt8)) (w : JsonWriter) : JsonWriter :=
  { w with
    output := w.output ++ joined (next w.context) w.currentNestingHadItem texts
    currentNestingHadItem := w.currentNestingHadItem || !texts.isEmpty }

theorem addItems_nil (w : JsonWriter) : w.addItems [] = w := by
  simp [addItems, joined]

theorem addItems_addItems (texts texts' : List (List UInt8)) (w : JsonWriter) :
    (w.addItems texts).addItems texts' = w.addItems (texts ++ texts') := by
  have hempty : (texts ++ texts').isEmpty = (texts.isEmpty && texts'.isEmpty) := by
    cases texts with
    | nil => rfl
    | cons text texts => rfl
  simp only [addItems, joined_append, hempty, List.append_assoc, Bool.not_and, Bool.or_assoc]

theorem prepareArrayItemStart_append (text : List UInt8) (w : JsonWriter) :
    w.prepareArrayItemStart.append text = w.addItems [text] := by
  simp [prepareArrayItemStart, append, addItems, joined]

theorem prepareObjectItemStart_append (key text : List UInt8) (w : JsonWriter) :
    (w.prepareObjectItemStart key).append text = w.addItems [fieldText key text] := by
  simp [prepareObjectItemStart, append, addItems, joined, fieldText]

theorem prepareArrayItemStart_had (w : JsonWriter) :
    w.prepareArrayItemStart.currentNestingHadItem = true := rfl

theorem prepareObjectItemStart_had (key : List UInt8) (w : JsonWriter) :
    (w.prepareObjectItemStart key).currentNestingHadItem = true := rfl

/-- An array is written with its items one by one as it is written at once. -/
theorem popNesting_array {w : JsonWriter} (hhad : w.currentNestingHadItem = true)
    (texts : List (List UInt8)) :
    ((w.pushNesting kArray).addItems texts).popNesting =
      some (w.append (serializeArray w.context texts)) := by
  cases w
  simp_all [pushNesting, addItems, popNesting, append, serializeArray, JsonContext.push, kArray,
    kObject]

theorem popNesting_nil {w : JsonWriter} (h : w.context.nesting = []) : w.popNesting = none := by
  rw [popNesting, h]

theorem popNesting_root (w : JsonWriter) (texts : List (List UInt8)) :
    ((w.pushNesting kObject).addItems texts).popNesting =
      some ({ w with currentNestingHadItem := true }.append (objectText w.context texts)) := by
  simp [pushNesting, addItems, popNesting, append, objectText, JsonContext.push, kObject]

theorem popNesting_object {w : JsonWriter} (hhad : w.currentNestingHadItem = true)
    (texts : List (List UInt8)) :
    ((w.pushNesting kObject).addItems texts).popNesting =
      some (w.append (objectText w.context texts)) := by
  have hsame : { w with currentNestingHadItem := true } = w := by rw [← hhad]
  rw [popNesting_root, hsame]

section
variable (isLiteral : List UInt8 → Bool)

mutual

/-- A value whose literals are literals and whose strings can be read. -/
def Valid : Json → Prop
  | .literal text => isLiteral text = true
  | .string value => plain value = true
  | .array values => ValidItems values
  | .object fields => ValidFields fields

def ValidItems : List Json → Prop
  | [] => True
  | value :: values => Valid value ∧ ValidItems values

def ValidFields : List (List UInt8 × Json) → Prop
  | [] => True
  | (key, value) :: fields => plain key = true ∧ Valid value ∧ ValidFields fields

end

end

section
variable {isLiteral : List UInt8 → Bool}

mutual

/-- A value is written as a text that is read as it. -/
theorem pushValue_reads (hlaws : Literals isLiteral) :
    ∀ (value : Json), Valid isLiteral value → ∀ w : JsonWriter,
      w.currentNestingHadItem = true →
        ∃ text, pushValue value w = some (w.append text) ∧ Reads isLiteral value text
  | .literal text, h, w, _ => ⟨text, by rw [pushValue], hlaws.reads (by rwa [Valid] at h)⟩
  | .string value, h, w, _ =>
    ⟨serializeString value, by rw [pushValue], reads_serializeString (by rwa [Valid] at h)⟩
  | .array values, h, w, hhad => by
    rw [Valid] at h
    obtain ⟨texts, hpush, hreads⟩ := pushItems_reads hlaws values h (w.pushNesting kArray)
    refine ⟨serializeArray w.context texts, ?_, reads_serializeArray hlaws _ hreads⟩
    rw [pushValue, hpush, Option.bind_some, popNesting_array hhad]
  | .object fields, h, w, hhad => by
    rw [Valid] at h
    obtain ⟨texts, hpush, hreads⟩ := pushFields_reads hlaws fields h (w.pushNesting kObject)
    refine ⟨objectText w.context texts, ?_, reads_objectText _ hreads⟩
    rw [pushValue, hpush, Option.bind_some, popNesting_object hhad]

theorem pushItems_reads (hlaws : Literals isLiteral) :
    ∀ (values : List Json), ValidItems isLiteral values → ∀ w : JsonWriter,
      ∃ texts, pushItems values w = some (w.addItems texts) ∧
        List.Forall₂ (Reads isLiteral) values texts
  | [], _, w => ⟨[], by rw [pushItems, addItems_nil], .nil⟩
  | value :: values, h, w => by
    rw [ValidItems] at h
    obtain ⟨text, hpush, hreads⟩ := pushValue_reads hlaws value h.1 w.prepareArrayItemStart rfl
    obtain ⟨texts, hrest, hforall⟩ := pushItems_reads hlaws values h.2 (w.addItems [text])
    refine ⟨text :: texts, ?_, .cons hreads hforall⟩
    rw [pushItems, hpush, Option.bind_some, prepareArrayItemStart_append, hrest,
      addItems_addItems, List.singleton_append]

theorem pushFields_reads (hlaws : Literals isLiteral) :
    ∀ (fields : List (List UInt8 × Json)), ValidFields isLiteral fields → ∀ w : JsonWriter,
      ∃ texts, pushFields fields w = some (w.addItems texts) ∧
        List.Forall₂ (ReadsField isLiteral) fields texts
  | [], _, w => ⟨[], by rw [pushFields, addItems_nil], .nil⟩
  | (key, value) :: fields, h, w => by
    rw [ValidFields] at h
    obtain ⟨text, hpush, hreads⟩ :=
      pushValue_reads hlaws value h.2.1 (w.prepareObjectItemStart key) rfl
    obtain ⟨texts, hrest, hforall⟩ :=
      pushFields_reads hlaws fields h.2.2 (w.addItems [fieldText key text])
    refine ⟨fieldText key text :: texts, ?_, .cons (readsField_fieldText h.1 hreads) hforall⟩
    rw [pushFields, hpush, Option.bind_some, prepareObjectItemStart_append, hrest,
      addItems_addItems, List.singleton_append]

end

end

theorem writeListSlice_eq (items : List Fields) (w : JsonWriter) :
    w.writeListSlice items = w.addItems (items.map (serializeObject w.context)) := by
  induction items generalizing w with
  | nil => exact (addItems_nil w).symm
  | cons item items ih =>
    have hfirst : w.writeListSlice (item :: items) =
        (w.addItems [serializeObject w.context item]).writeListSlice items := by
      rw [← prepareArrayItemStart_append]
      rfl
    rw [hfirst, ih, addItems_addItems]
    rfl

/-- An array that is a field, from its key to its end. -/
theorem writeList_eq (key : List UInt8) (texts : List (List UInt8)) (w : JsonWriter) :
    ((w.writeListStart key).addItems texts).popNesting =
      some (w.addItems [fieldText key (serializeArray w.context texts)]) := by
  rw [writeListStart, popNesting_array (prepareObjectItemStart_had key w),
    ← prepareObjectItemStart_append]
  rfl

/-- The fields of an object with a list and a text about it. -/
def aboutListText (context : JsonContext) (about : List UInt8) (texts : List (List UInt8)) :
    List UInt8 :=
  objectText context [fieldText (ascii "about") (serializeString about),
    fieldText (ascii "list") (serializeArray (context.push kObject) texts)]

theorem writeAboutListEnd_eq (key about : List UInt8) (texts : List (List UInt8))
    (w : JsonWriter) :
    ((w.writeAboutListStart key about).addItems texts).writeAboutListEnd =
      some (w.addItems [fieldText key (aboutListText w.context about texts)]) := by
  rw [writeAboutListEnd, writeAboutListStart, prepareObjectItemStart_append]
  have hlist := writeList_eq (ascii "list") texts
    (((w.prepareObjectItemStart key).pushNesting kObject).addItems
      [fieldText (ascii "about") (serializeString about)])
  rw [writeListStart] at hlist
  rw [hlist, Option.bind_some, addItems_addItems,
    popNesting_object (prepareObjectItemStart_had key w)]
  exact congrArg some (prepareObjectItemStart_append key _ w)

theorem writeAboutList_eq (key about : List UInt8) (items : List Fields) (w : JsonWriter) :
    w.writeAboutList key about items =
      some (w.addItems [fieldText key (aboutListText w.context about
        (items.map (serializeObject ((w.context.push kObject).push kArray))))]) := by
  rw [writeAboutList, writeListSlice_eq, writeAboutListEnd_eq]
  rfl

end JsonWriter

/-- The steps of an export before the chats, with what was loaded for them. -/
inductive Section
  | personal (values : Fields)
  | userpics (slices : List (List Fields))
  | stories (slices : List (List Fields))
  | contacts (saved frequent : List Fields)
  | sessions (sessions webSessions : List Fields)
  | other (value : Json)

namespace Section
open JsonWriter

def write : Section → JsonWriter → Option JsonWriter
  | .personal values, w => some (w.writePersonal values)
  | .userpics slices, w =>
    (slices.foldlM (fun (w : JsonWriter) slice => w.writeUserpicsSlice slice)
      w.writeUserpicsStart).bind writeUserpicsEnd
  | .stories slices, w =>
    (slices.foldl (fun w slice => w.writeStoriesSlice slice) w.writeStoriesStart).writeStoriesEnd
  | .contacts saved frequent, w => w.writeContactsList saved frequent
  | .sessions list webList, w => w.writeSessionsList list webList
  | .other value, w => w.writeOtherData value

def writeAll : List Section → JsonWriter → Option JsonWriter
  | [], w => some w
  | s :: sections, w => (s.write w).bind (writeAll sections)

end Section

section
variable (isLiteral : List UInt8 → Bool)

/-- Texts that are read as the fields of an object; those without a value are left out. -/
def SaysFields (item : Fields) (fields : List (List UInt8 × Json)) : Prop :=
  List.Forall₂ (fun v field => plain v.1 = true ∧ field.1 = v.1 ∧ Reads isLiteral field.2 v.2)
    (item.filter fun v => !v.2.isEmpty) fields

/-- Items that are read as objects. -/
def SaysItems (items : List Fields) (values : List Json) : Prop :=
  List.Forall₂ (fun item value => ∃ fields, value = .object fields ∧
    SaysFields isLiteral item fields) items values

def aboutList (about : List UInt8) (values : List Json) : Json :=
  .object [(ascii "about", .string about), (ascii "list", .array values)]

/-- What a section says. -/
inductive Says (environment : Environment) : Section → List (List UInt8 × Json) → Prop
  | personal {values : Fields} {fields : List (List UInt8 × Json)}
      (h : SaysFields isLiteral values fields) :
      Says environment (.personal values) [(ascii "personal_information", .object fields)]
  | userpics {slices : List (List Fields)} {values : List Json}
      (hfilled : ∀ slice ∈ slices, slice ≠ []) (h : SaysItems isLiteral slices.flatten values) :
      Says environment (.userpics slices) [(ascii "profile_pictures", .array values)]
  | stories {slices : List (List Fields)} {values : List Json}
      (h : SaysItems isLiteral slices.flatten values) :
      Says environment (.stories slices) [(ascii "stories", .array values)]
  | contacts {saved frequent : List Fields} {values values' : List Json}
      (h : SaysItems isLiteral saved values) (h' : SaysItems isLiteral frequent values') :
      Says environment (.contacts saved frequent)
        [(ascii "contacts", aboutList environment.aboutContacts values),
          (ascii "frequent_contacts", aboutList environment.aboutFrequent values')]
  | sessions {sessions webSessions : List Fields} {values values' : List Json}
      (h : SaysItems isLiteral sessions values) (h' : SaysItems isLiteral webSessions values') :
      Says environment (.sessions sessions webSessions)
        [(ascii "sessions", aboutList environment.aboutSessions values),
          (ascii "web_sessions", aboutList environment.aboutWebSessions values')]
  | other {value : Json} (h : JsonWriter.Valid isLiteral value) :
      Says environment (.other value) [(ascii "other_data", value)]

end

section
variable {isLiteral : List UInt8 → Bool}

theorem reads_fields {values : Fields} {fields : List (List UInt8 × Json)}
    (h : List.Forall₂
      (fun v field => plain v.1 = true ∧ field.1 = v.1 ∧ Reads isLiteral field.2 v.2)
      values fields) :
    List.Forall₂ (ReadsField isLiteral) fields (values.map fun v => fieldText v.1 v.2) := by
  induction h with
  | nil => exact .nil
  | @cons v field values fields hv _ ih =>
    obtain ⟨hkey, hname, hreads⟩ := hv
    have hfield : field = (v.1, field.2) := by rw [← hname]
    rw [hfield]
    exact .cons (readsField_fieldText hkey hreads) ih

theorem reads_serializeObject (context : JsonContext) {item : Fields}
    {fields : List (List UInt8 × Json)} (h : SaysFields isLiteral item fields) :
    Reads isLiteral (.object fields) (serializeObject context item) :=
  reads_objectText _ (reads_fields h)

theorem reads_items (context : JsonContext) {items : List Fields} {values : List Json}
    (h : SaysItems isLiteral items values) :
    List.Forall₂ (Reads isLiteral) values (items.map (serializeObject context)) := by
  rw [SaysItems] at h
  induction h with
  | nil => exact .nil
  | cons hitem _ ih =>
    obtain ⟨fields, rfl, hfields⟩ := hitem
    exact .cons (reads_serializeObject context hfields) ih

theorem reads_aboutListText (hlaws : Literals isLiteral) (context : JsonContext)
    {about : List UInt8} (habout : plain about = true) {values : List Json}
    {texts : List (List UInt8)} (h : List.Forall₂ (Reads isLiteral) values texts) :
    Reads isLiteral (aboutList about values) (JsonWriter.aboutListText context about texts) :=
  reads_objectText _ (.cons (readsField_fieldText (by decide) (reads_serializeString habout))
    (.cons (readsField_fieldText (by decide) (reads_serializeArray hlaws _ h)) .nil))

end

namespace JsonWriter

theorem writeListSlices_eq (slices : List (List Fields)) (w : JsonWriter) :
    slices.foldl (fun w slice => w.writeListSlice slice) w =
      w.addItems (slices.flatten.map (serializeObject w.context)) := by
  induction slices generalizing w with
  | nil => exact (addItems_nil w).symm
  | cons slice slices ih =>
    rw [List.foldl_cons, ih, writeListSlice_eq, List.flatten_cons, List.map_append,
      ← addItems_addItems]
    rfl

/-- An array that comes in slices. -/
theorem writeSlices_eq (key : List UInt8) (slices : List (List Fields)) (w : JsonWriter) :
    (slices.foldl (fun w slice => w.writeListSlice slice) (w.writeListStart key)).popNesting =
      some (w.addItems [fieldText key (serializeArray w.context
        (slices.flatten.map (serializeObject (w.context.push kArray))))]) := by
  rw [writeListSlices_eq, writeList_eq]
  rfl

theorem writeUserpics_eq {slices : List (List Fields)} (hfilled : ∀ slice ∈ slices, slice ≠ [])
    (w : JsonWriter) :
    (slices.foldlM (fun (w : JsonWriter) slice => w.writeUserpicsSlice slice)
        w.writeUserpicsStart).bind writeUserpicsEnd =
      some (w.addItems [fieldText (ascii "profile_pictures") (serializeArray w.context
        (slices.flatten.map (serializeObject (w.context.push kArray))))]) := by
  have hfold (w : JsonWriter) :
      slices.foldlM (fun (w : JsonWriter) slice => w.writeUserpicsSlice slice) w =
        some (slices.foldl (fun w slice => w.writeListSlice slice) w) := by
    induction slices generalizing w with
    | nil => rfl
    | cons slice slices ih =>
      rw [List.forall_mem_cons] at hfilled
      rw [List.foldlM_cons, writeUserpicsSlice, if_neg hfilled.1]
      exact ih hfilled.2 (w.writeListSlice slice)
  rw [hfold, Option.bind_some, writeUserpicsStart, writeUserpicsEnd, writeSlices_eq]

theorem writeAboutList_says {isLiteral : List UInt8 → Bool} (hlaws : Literals isLiteral)
    (key : List UInt8) (hkey : plain key = true) {about : List UInt8}
    (habout : plain about = true) {items : List Fields} {values : List Json}
    (h : SaysItems isLiteral items values) (w : JsonWriter) :
    ∃ text, w.writeAboutList key about items = some (w.addItems [text]) ∧
      ReadsField isLiteral (key, aboutList about values) text :=
  ⟨_, writeAboutList_eq key about items w,
    readsField_fieldText hkey (reads_aboutListText hlaws _ habout (reads_items _ h))⟩

end JsonWriter

/-- The texts about parts of an export can be read. -/
structure Environment.Plain (environment : Environment) : Prop where
  telegram : plain environment.aboutTelegram = true
  contacts : plain environment.aboutContacts = true
  frequent : plain environment.aboutFrequent = true
  sessions : plain environment.aboutSessions = true
  webSessions : plain environment.aboutWebSessions = true
  chats : plain environment.aboutChats = true
  leftChats : plain environment.aboutLeftChats = true

namespace Section
open JsonWriter
variable {isLiteral : List UInt8 → Bool}

/-- A section adds its fields. -/
theorem write_says (hlaws : Literals isLiteral) {s : Section}
    {fields : List (List UInt8 × Json)} {w : JsonWriter} (hplain : w.environment.Plain)
    (h : Says isLiteral w.environment s fields) :
    ∃ texts, s.write w = some (w.addItems texts) ∧
      List.Forall₂ (ReadsField isLiteral) fields texts := by
  cases h with
  | personal h =>
    exact ⟨[fieldText (ascii "personal_information") (serializeObject w.context _)],
      congrArg some (prepareObjectItemStart_append _ _ w),
      .cons (readsField_fieldText (by decide) (reads_serializeObject _ h)) .nil⟩
  | userpics hfilled h =>
    exact ⟨_, writeUserpics_eq hfilled w, .cons (readsField_fieldText (by decide)
      (reads_serializeArray hlaws _ (reads_items _ h))) .nil⟩
  | stories h =>
    exact ⟨_, writeSlices_eq _ _ w, .cons (readsField_fieldText (by decide)
      (reads_serializeArray hlaws _ (reads_items _ h))) .nil⟩
  | contacts h h' =>
    obtain ⟨text, hwrite, hreads⟩ :=
      writeAboutList_says hlaws (ascii "contacts") (by decide) hplain.contacts h w
    obtain ⟨text', hwrite', hreads'⟩ := writeAboutList_says hlaws (ascii "frequent_contacts")
      (by decide) hplain.frequent h' (w.addItems [text])
    refine ⟨[text, text'], ?_, .cons hreads (.cons hreads' .nil)⟩
    rw [write, writeContactsList, writeSavedContacts, hwrite, Option.bind_some,
      writeFrequentContacts]
    exact hwrite'.trans (congrArg some (addItems_addItems [text] [text'] w))
  | sessions h h' =>
    obtain ⟨text, hwrite, hreads⟩ :=
      writeAboutList_says hlaws (ascii "sessions") (by decide) hplain.sessions h w
    obtain ⟨text', hwrite', hreads'⟩ := writeAboutList_says hlaws (ascii "web_sessions")
      (by decide) hplain.webSessions h' (w.addItems [text])
    refine ⟨[text, text'], ?_, .cons hreads (.cons hreads' .nil)⟩
    rw [write, writeSessionsList, writeSessions, hwrite, Option.bind_some, writeWebSessions]
    exact hwrite'.trans (congrArg some (addItems_addItems [text] [text'] w))
  | other h =>
    obtain ⟨text, hpush, hreads⟩ :=
      pushValue_reads hlaws _ h (w.prepareObjectItemStart (ascii "other_data")) rfl
    refine ⟨[fieldText (ascii "other_data") text], ?_,
      .cons (readsField_fieldText (by decide) hreads) .nil⟩
    rw [write, writeOtherData, hpush, prepareObjectItemStart_append]

theorem writeAll_says (hlaws : Literals isLiteral) {sections : List Section}
    {fields : List (List (List UInt8 × Json))} {w : JsonWriter}
    (hplain : w.environment.Plain)
    (h : List.Forall₂ (Says isLiteral w.environment) sections fields) :
    ∃ texts, writeAll sections w = some (w.addItems texts) ∧
      List.Forall₂ (ReadsField isLiteral) fields.flatten texts := by
  induction sections generalizing fields w with
  | nil =>
    cases h
    exact ⟨[], by rw [writeAll, addItems_nil], .nil⟩
  | cons s sections ih =>
    obtain ⟨first, rest, hfirst, hrest, rfl⟩ := List.forall₂_cons_left_iff.mp h
    obtain ⟨texts, hwrite, hreads⟩ := write_says hlaws hplain hfirst
    obtain ⟨texts', hwrites, hreads'⟩ := ih (w := w.addItems texts) hplain hrest
    refine ⟨texts ++ texts', ?_, List.rel_append hreads hreads'⟩
    rw [writeAll, hwrite, Option.bind_some, hwrites, addItems_addItems]

end Section

/-- A chat with its messages, as they come. -/
structure Dialog where
  info : DialogInfo
  slices : List (List Fields)

def nullable (data : List UInt8) : Json :=
  if data = [] then .literal (ascii "null") else .string data

/-- The fields of a chat with these messages. -/
def dialogFields (info : DialogInfo) (messages : List Json) : List (List UInt8 × Json) :=
  (if info.type ≠ .self ∧ info.type ≠ .replies then [(ascii "name", nullable info.name)] else []) ++
    [(ascii "type", nullable (typeString info.type)), (ascii "id", .literal info.peerId),
      (ascii "messages", .array messages)]

/-- The texts of the fields before the messages. -/
def dialogTexts (info : DialogInfo) : List (List UInt8) :=
  (if info.type ≠ .self ∧ info.type ≠ .replies then
    [fieldText (ascii "name") (stringAllowNull info.name)] else []) ++
    [fieldText (ascii "type") (stringAllowNull (typeString info.type)),
      fieldText (ascii "id") info.peerId]

/-- What a chat says. -/
structure Dialog.Says (isLiteral : List UInt8 → Bool) (d : Dialog) (chat : Bool × Json) :
    Prop where
  left : chat.1 = d.info.isLeftChannel
  name : plain d.info.name = true
  peerId : isLiteral d.info.peerId = true
  value : ∃ messages, chat.2 = .object (dialogFields d.info messages) ∧
    SaysItems isLiteral d.slices.flatten messages

section
variable {isLiteral : List UInt8 → Bool}

theorem plain_typeString (type : DialogType) : plain (typeString type) = true := by
  cases type <;> decide

theorem reads_stringAllowNull (hlaws : Literals isLiteral)
    (hnull : isLiteral (ascii "null") = true) {data : List UInt8} (h : plain data = true) :
    Reads isLiteral (nullable data) (stringAllowNull data) := by
  rw [nullable, stringAllowNull]
  split
  · exact hlaws.reads hnull
  · exact reads_serializeString h

theorem reads_dialogTexts (hlaws : Literals isLiteral)
    (hnull : isLiteral (ascii "null") = true) {info : DialogInfo} (hname : plain info.name = true)
    (hpeerId : isLiteral info.peerId = true) {messages : List Json} {text : List UInt8}
    (htext : Reads isLiteral (.array messages) text) :
    List.Forall₂ (ReadsField isLiteral) (dialogFields info messages)
      (dialogTexts info ++ [fieldText (ascii "messages") text]) := by
  have hrest : List.Forall₂ (ReadsField isLiteral)
      [(ascii "type", nullable (typeString info.type)), (ascii "id", .literal info.peerId),
        (ascii "messages", .array messages)]
      [fieldText (ascii "type") (stringAllowNull (typeString info.type)),
        fieldText (ascii "id") info.peerId, fieldText (ascii "messages") text] :=
    .cons (readsField_fieldText (by decide)
      (reads_stringAllowNull hlaws hnull (plain_typeString info.type)))
      (.cons (readsField_fieldText (by decide) (hlaws.reads hpeerId))
        (.cons (readsField_fieldText (by decide) htext) .nil))
  rw [dialogFields, dialogTexts, List.append_assoc]
  refine List.rel_append ?_ hrest
  split
  · exact .cons (readsField_fieldText (by decide) (reads_stringAllowNull hlaws hnull hname)) .nil
  · exact .nil

end

namespace Dialog
open JsonWriter

def write (d : Dialog) (w : JsonWriter) : Option JsonWriter :=
  (w.writeDialogStart d.info).bind fun w =>
    (d.slices.foldl (fun w slice => w.writeDialogSlice slice) w).writeDialogEnd

def writeAll : List Dialog → JsonWriter → Option JsonWriter
  | [], w => some w
  | d :: dialogs, w => (d.write w).bind (writeAll dialogs)

theorem writeDialogFields_eq (info : DialogInfo) (w : JsonWriter) :
    w.writeDialogFields info =
      ((w.pushNesting kObject).addItems (dialogTexts info)).writeListStart (ascii "messages") := by
  rw [writeDialogFields, dialogTexts, writeListStart, ← addItems_addItems]
  split
  · rw [prepareObjectItemStart_append, prepareObjectItemStart_append,
      prepareObjectItemStart_append, addItems_addItems]
    rfl
  · rw [prepareObjectItemStart_append, prepareObjectItemStart_append, addItems_addItems,
      addItems_nil]
    rfl

/-- An item of the list of chats, from its bracket to its end. -/
theorem writeFields_says {isLiteral : List UInt8 → Bool} (hlaws : Literals isLiteral)
    (hnull : isLiteral (ascii "null") = true) {d : Dialog} {chat : Bool × Json}
    (h : d.Says isLiteral chat) (w : JsonWriter) :
    ∃ text, (d.slices.foldl (fun w slice => w.writeDialogSlice slice)
        (w.prepareArrayItemStart.writeDialogFields d.info)).writeDialogEnd =
          some (w.addItems [text]) ∧ Reads isLiteral chat.2 text := by
  obtain ⟨messages, hvalue, hmessages⟩ := h.value
  have hwrite := writeSlices_eq (ascii "messages") d.slices
    ((w.prepareArrayItemStart.pushNesting kObject).addItems (dialogTexts d.info))
  have hreads := reads_objectText w.context (reads_dialogTexts hlaws hnull h.name h.peerId
    (reads_serializeArray hlaws (w.context.push kObject)
      (reads_items ((w.context.push kObject).push kArray) hmessages)))
  rw [hvalue]
  refine ⟨_, ?_, hreads⟩
  rw [writeDialogFields_eq, writeDialogEnd, writeDialogSlice, hwrite, Option.bind_some,
    addItems_addItems, popNesting_object (prepareArrayItemStart_had w)]
  exact congrArg some (prepareArrayItemStart_append _ w)

def modeOf (left : Bool) : DialogsMode := if left then .left else .chats

def listName (left : Bool) : List UInt8 := if left then ascii "left_chats" else ascii "chats"

def aboutOf (environment : Environment) (left : Bool) : List UInt8 :=
  if left then environment.aboutLeftChats else environment.aboutChats

/-- A list of chats is open, with these in it. -/
def opened (w : JsonWriter) (left : Bool) (texts : List (List UInt8)) : JsonWriter :=
  ({ w with dialogsMode := modeOf left }.writeChatsStart (listName left)
    (aboutOf w.environment left)).addItems texts

/-- The field of a list of chats that was closed. -/
def closedText (w : JsonWriter) (left : Bool) (texts : List (List UInt8)) : List UInt8 :=
  fieldText (listName left) (aboutListText w.context (aboutOf w.environment left) texts)

theorem writeChatsEnd_opened (w : JsonWriter) (left : Bool) (texts : List (List UInt8)) :
    (opened w left texts).writeChatsEnd =
      some ({ w with dialogsMode := modeOf left }.addItems [closedText w left texts]) :=
  writeAboutListEnd_eq _ _ texts { w with dialogsMode := modeOf left }

theorem validateDialogsMode_same (w : JsonWriter) (left : Bool) (texts : List (List UInt8)) :
    (opened w left texts).validateDialogsMode left = some (opened w left texts) := by
  rw [validateDialogsMode]
  exact if_pos rfl

theorem validateDialogsMode_other (w : JsonWriter) {left left' : Bool} (h : left' ≠ left)
    (texts : List (List UInt8)) :
    (opened w left texts).validateDialogsMode left' =
      some (opened (w.addItems [closedText w left texts]) left' []) := by
  have hmode : (opened w left texts).dialogsMode = modeOf left := rfl
  have hne : modeOf left ≠ modeOf left' := by
    revert h
    cases left <;> cases left' <;> decide
  have hopen : modeOf left ≠ .none := by cases left <;> decide
  rw [validateDialogsMode, ← modeOf, hmode, if_neg hne, if_pos hopen, writeChatsEnd_opened,
    Option.map_some, opened, addItems_nil]
  rfl

theorem validateDialogsMode_first {w : JsonWriter} (h : w.dialogsMode = .none) (left : Bool) :
    w.validateDialogsMode left = some (opened w left []) := by
  have hne : DialogsMode.none ≠ modeOf left := by cases left <;> decide
  rw [validateDialogsMode, ← modeOf, h, if_neg hne, if_neg (not_not.mpr rfl), Option.map_some,
    opened, addItems_nil]
  rfl

variable {isLiteral : List UInt8 → Bool}

theorem writeDialogStart_of_validate {w w' : JsonWriter} {info : DialogInfo} {left : Bool}
    (hleft : left = info.isLeftChannel) (h : w.validateDialogsMode left = some w')
    (hmulti : w.onlySinglePeer = false) :
    w.writeDialogStart info = some (w'.prepareArrayItemStart.writeDialogFields info) := by
  subst hleft
  have hsingle : ¬ w.onlySinglePeer = true := by
    rw [hmulti]
    exact Bool.false_ne_true
  rw [writeDialogStart, if_neg hsingle, h, Option.map_some]

/-- A chat goes to the list that is open, when it is one for its kind. -/
theorem write_same (hlaws : Literals isLiteral) (hnull : isLiteral (ascii "null") = true)
    {d : Dialog} {chat : Bool × Json} (h : d.Says isLiteral chat) {w : JsonWriter}
    (hmulti : w.onlySinglePeer = false) (texts : List (List UInt8)) :
    ∃ text, d.write (opened w chat.1 texts) = some (opened w chat.1 (texts ++ [text])) ∧
      Reads isLiteral chat.2 text := by
  obtain ⟨text, hwrite, hreads⟩ := writeFields_says hlaws hnull h (opened w chat.1 texts)
  refine ⟨text, ?_, hreads⟩
  have hstart := writeDialogStart_of_validate h.left
    (validateDialogsMode_same w chat.1 texts) hmulti
  rw [write, hstart, Option.bind_some, hwrite, opened, addItems_addItems]
  rfl

/-- A chat of another kind closes the list and opens one of its own. -/
theorem write_other (hlaws : Literals isLiteral) (hnull : isLiteral (ascii "null") = true)
    {d : Dialog} {chat : Bool × Json} (h : d.Says isLiteral chat) {w : JsonWriter}
    (hmulti : w.onlySinglePeer = false) {left : Bool} (hleft : chat.1 ≠ left)
    (texts : List (List UInt8)) :
    ∃ text, d.write (opened w left texts) =
        some (opened (w.addItems [closedText w left texts]) chat.1 [text]) ∧
      Reads isLiteral chat.2 text := by
  obtain ⟨text, hwrite, hreads⟩ := write_same hlaws hnull h
    (w := w.addItems [closedText w left texts]) hmulti []
  refine ⟨text, Eq.trans ?_ hwrite, hreads⟩
  have hstart := writeDialogStart_of_validate h.left
    (validateDialogsMode_same (w.addItems [closedText w left texts]) chat.1 []) hmulti
  have hother := writeDialogStart_of_validate h.left
    (validateDialogsMode_other w hleft texts) hmulti
  rw [write, write, hstart, hother]

theorem write_first (hlaws : Literals isLiteral) (hnull : isLiteral (ascii "null") = true)
    {d : Dialog} {chat : Bool × Json} (h : d.Says isLiteral chat) {w : JsonWriter}
    (hmulti : w.onlySinglePeer = false) (hmode : w.dialogsMode = .none) :
    ∃ text, d.write w = some (opened w chat.1 [text]) ∧ Reads isLiteral chat.2 text := by
  obtain ⟨text, hwrite, hreads⟩ := write_same hlaws hnull h hmulti []
  refine ⟨text, Eq.trans ?_ hwrite, hreads⟩
  have hstart := writeDialogStart_of_validate h.left (validateDialogsMode_same w chat.1 []) hmulti
  have hfirst := writeDialogStart_of_validate h.left (validateDialogsMode_first hmode chat.1) hmulti
  rw [write, write, hstart, hfirst]

/-- The lists of chats, when one is open with these values: a chat goes to the list that is open,
or closes it. -/
def chatFields (environment : Environment) :
    Bool → List Json → List (Bool × Json) → List (List UInt8 × Json)
  | left, values, [] => [(listName left, aboutList (aboutOf environment left) values)]
  | left, values, chat :: chats =>
    if chat.1 = left then chatFields environment left (values ++ [chat.2]) chats
    else (listName left, aboutList (aboutOf environment left) values) ::
      chatFields environment chat.1 [chat.2] chats

def allChatFields (environment : Environment) : List (Bool × Json) → List (List UInt8 × Json)
  | [] => []
  | chat :: chats => chatFields environment chat.1 [chat.2] chats

theorem plain_listName (left : Bool) : plain (listName left) = true := by
  cases left <;> decide

theorem plain_aboutOf {environment : Environment} (hplain : environment.Plain) (left : Bool) :
    plain (aboutOf environment left) = true := by
  cases left with
  | false => exact hplain.chats
  | true => exact hplain.leftChats

theorem reads_closedText (hlaws : Literals isLiteral) {w : JsonWriter}
    (hplain : w.environment.Plain) (left : Bool) {values : List Json}
    {texts : List (List UInt8)} (h : List.Forall₂ (Reads isLiteral) values texts) :
    ReadsField isLiteral (listName left, aboutList (aboutOf w.environment left) values)
      (closedText w left texts) :=
  readsField_fieldText (plain_listName left)
    (reads_aboutListText hlaws _ (plain_aboutOf hplain left) h)

/-- The rest of the chats, and the end of the last list. -/
theorem writeAll_opened (hlaws : Literals isLiteral) (hnull : isLiteral (ascii "null") = true)
    {dialogs : List Dialog} {chats : List (Bool × Json)}
    (h : List.Forall₂ (Dialog.Says isLiteral) dialogs chats) {w : JsonWriter}
    (hplain : w.environment.Plain) (hmulti : w.onlySinglePeer = false) {left : Bool}
    {values : List Json} {texts : List (List UInt8)}
    (hvalues : List.Forall₂ (Reads isLiteral) values texts) :
    ∃ mode fieldTexts, (writeAll dialogs (opened w left texts)).bind writeDialogsEnd =
        some ({ w with dialogsMode := mode }.addItems fieldTexts) ∧
      List.Forall₂ (ReadsField isLiteral) (chatFields w.environment left values chats)
        fieldTexts := by
  induction h generalizing w left values texts with
  | nil =>
    refine ⟨modeOf left, [closedText w left texts], ?_,
      .cons (reads_closedText hlaws hplain left hvalues) .nil⟩
    have hsingle : ¬ (opened w left texts).onlySinglePeer = true := by
      show ¬ w.onlySinglePeer = true
      rw [hmulti]
      exact Bool.false_ne_true
    rw [writeAll, Option.bind_some, writeDialogsEnd, if_neg hsingle, writeChatsEnd_opened]
  | @cons d chat dialogs chats hd _ ih =>
    rw [chatFields]
    by_cases hleft : chat.1 = left
    · subst hleft
      obtain ⟨text, hwrite, hreads⟩ := write_same hlaws hnull hd hmulti texts
      rw [if_pos rfl, writeAll, hwrite, Option.bind_some]
      exact ih hplain hmulti (List.rel_append hvalues (.cons hreads .nil))
    · obtain ⟨text, hwrite, hreads⟩ := write_other hlaws hnull hd hmulti hleft texts
      obtain ⟨mode, fieldTexts, hrest, hfields⟩ := @ih (w.addItems [closedText w left texts])
        hplain hmulti chat.1 _ _ (.cons hreads .nil)
      refine ⟨mode, closedText w left texts :: fieldTexts, ?_, ?_⟩
      · rw [writeAll, hwrite, Option.bind_some, hrest]
        exact congrArg some (addItems_addItems [closedText w left texts] fieldTexts
          { w with dialogsMode := mode })
      · rw [if_neg hleft]
        exact .cons (reads_closedText hlaws hplain left hvalues) hfields

theorem writeAll_says (hlaws : Literals isLiteral) (hnull : isLiteral (ascii "null") = true)
    {dialogs : List Dialog} {chats : List (Bool × Json)}
    (h : List.Forall₂ (Dialog.Says isLiteral) dialogs chats) (hsome : dialogs ≠ [])
    {w : JsonWriter} (hplain : w.environment.Plain) (hmulti : w.onlySinglePeer = false)
    (hmode : w.dialogsMode = .none) :
    ∃ mode fieldTexts, (writeAll dialogs w).bind writeDialogsEnd =
        some ({ w with dialogsMode := mode }.addItems fieldTexts) ∧
      List.Forall₂ (ReadsField isLiteral) (allChatFields w.environment chats) fieldTexts := by
  cases h with
  | nil => exact absurd rfl hsome
  | cons hd hdialogs =>
    obtain ⟨text, hwrite, hreads⟩ := write_first hlaws hnull hd hmulti hmode
    rw [writeAll, hwrite, Option.bind_some]
    exact writeAll_opened hlaws hnull hdialogs hplain hmulti (.cons hreads .nil)

end Dialog

/-- The steps of an export of more than one chat. The list of chats is there when it was asked
for. -/
def exportAll (environment : Environment) (sections : List Section)
    (dialogs : Option (List Dialog)) : Option JsonWriter :=
  (Section.writeAll sections (JsonWriter.start false environment)).bind fun w =>
    (dialogs.elim (some w) fun dialogs =>
      (Dialog.writeAll dialogs w).bind JsonWriter.writeDialogsEnd).bind JsonWriter.finish

/-- What an export says. -/
def document (environment : Environment) (fields : List (List (List UInt8 × Json)))
    (chats : List (Bool × Json)) : Json :=
  .object ((ascii "about", .string environment.aboutTelegram) ::
    (fields.flatten ++ Dialog.allChatFields environment chats))

section
open JsonWriter

theorem finish_root (w : JsonWriter) (hmulti : w.onlySinglePeer = false)
    (hroot : w.context.nesting = []) (texts : List (List UInt8)) :
    ((w.pushNesting kObject).addItems texts).finish =
      some ({ w with currentNestingHadItem := true }.append (objectText w.context texts)) := by
  have hsingle : ¬ ((w.pushNesting kObject).addItems texts).onlySinglePeer = true := by
    show ¬ w.onlySinglePeer = true
    rw [hmulti]
    exact Bool.false_ne_true
  rw [finish, if_neg hsingle, popNesting_root, Option.bind_some]
  exact if_pos hroot

/-- The end of a list of chats that was not opened. -/
theorem writeDialogsEnd_root (w : JsonWriter) (hmulti : w.onlySinglePeer = false)
    (hroot : w.context.nesting = []) (texts : List (List UInt8)) :
    ((w.pushNesting kObject).addItems texts).writeDialogsEnd = none := by
  have hsingle : ¬ ((w.pushNesting kObject).addItems texts).onlySinglePeer = true := by
    show ¬ w.onlySinglePeer = true
    rw [hmulti]
    exact Bool.false_ne_true
  rw [writeDialogsEnd, if_neg hsingle, writeChatsEnd, writeAboutListEnd, popNesting_root,
    Option.bind_some]
  exact popNesting_nil hroot

/-- Whatever is exported: unless there are no chats in a list that was asked for, which no writer
expects, the file is read as what was written. -/
theorem exportAll_reads {isLiteral : List UInt8 → Bool} (hlaws : Literals isLiteral)
    (hnull : isLiteral (ascii "null") = true) {environment : Environment}
    (hplain : environment.Plain) {sections : List Section}
    {fields : List (List (List UInt8 × Json))}
    (hsections : List.Forall₂ (Says isLiteral environment) sections fields)
    {dialogs : Option (List Dialog)} {chats : List (Bool × Json)}
    (hdialogs : List.Forall₂ (Dialog.Says isLiteral) (dialogs.getD []) chats) :
    (dialogs ≠ some [] → ∃ w, exportAll environment sections dialogs = some w ∧
      read isLiteral w.output = some (document environment fields chats)) ∧
    (dialogs = some [] → exportAll environment sections dialogs = none) := by
  let blank : JsonWriter := { onlySinglePeer := false, environment := environment }
  let about := fieldText (ascii "about") (serializeString environment.aboutTelegram)
  have hstart : start false environment = (blank.pushNesting kObject).addItems [about] :=
    prepareObjectItemStart_append _ _ _
  have habout : ReadsField isLiteral (ascii "about", .string environment.aboutTelegram) about :=
    readsField_fieldText (by decide) (reads_serializeString hplain.telegram)
  obtain ⟨texts, hwrite, hreads⟩ :=
    Section.writeAll_says hlaws (w := (blank.pushNesting kObject).addItems [about]) hplain hsections
  rw [addItems_addItems] at hwrite
  have hall := List.Forall₂.cons habout hreads
  have hread (mode : DialogsMode) {fields' : List (List UInt8 × Json)}
      {texts' : List (List UInt8)} (h : List.Forall₂ (ReadsField isLiteral) fields' texts') :
      ∃ w, (({ blank with dialogsMode := mode }.pushNesting kObject).addItems texts').finish =
        some w ∧ read isLiteral w.output = some (.object fields') :=
    ⟨_, finish_root _ rfl rfl texts', read_of_reads (reads_objectText {} h)⟩
  rw [exportAll, hstart, hwrite, Option.bind_some]
  cases dialogs with
  | none =>
    cases hdialogs
    rw [document, Dialog.allChatFields, List.append_nil]
    exact ⟨fun _ => hread .none hall, fun h => absurd h (Option.some_ne_none _).symm⟩
  | some dialogs =>
    have hdialogs' : List.Forall₂ (Dialog.Says isLiteral) dialogs chats := hdialogs
    constructor
    · intro hsome
      have hne : dialogs ≠ [] := fun h => hsome (congrArg some h)
      obtain ⟨mode, fieldTexts, hchats, hfields⟩ := Dialog.writeAll_says hlaws hnull hdialogs' hne
        (w := (blank.pushNesting kObject).addItems ([about] ++ texts)) hplain rfl rfl
      rw [Option.elim_some, hchats, Option.bind_some]
      have hdone := hread mode (List.rel_append hall hfields)
      rw [← addItems_addItems] at hdone
      exact hdone
    · intro hempty
      rw [Option.some_inj.mp hempty, Option.elim_some, Dialog.writeAll, Option.bind_some,
        writeDialogsEnd_root _ rfl rfl, Option.bind_none]

end

def sampleLiteral (token : List UInt8) : Bool :=
  token = ascii "null" || (!token.isEmpty && token.all fun c => 0x30 ≤ c && c ≤ 0x39)

theorem endsLiteral_digit {c : UInt8} (h : (0x30 ≤ c && c ≤ 0x39) = true) :
    endsLiteral c = false ∧ c ≠ quote ∧ c ≠ openArray ∧ c ≠ openObject := by
  have hall : ∀ n : Fin 256, (0x30 ≤ UInt8.ofNat n.1 && UInt8.ofNat n.1 ≤ 0x39) = true →
      endsLiteral (.ofNat n.1) = false ∧ UInt8.ofNat n.1 ≠ quote ∧
        UInt8.ofNat n.1 ≠ openArray ∧ UInt8.ofNat n.1 ≠ openObject := by decide +kernel
  have hc := hall ⟨c.toNat, c.toNat_lt⟩
  rw [UInt8.ofNat_toNat] at hc
  exact hc h

theorem sampleLiteral_laws : Literals sampleLiteral where
  nonempty := by decide
  plain {token} h c hc := by
    rw [sampleLiteral, Bool.or_eq_true, decide_eq_true_eq] at h
    rcases h with rfl | h
    · revert c
      decide +kernel
    · rw [Bool.and_eq_true, List.all_eq_true] at h
      exact (endsLiteral_digit (h.2 c hc)).1
  start {c token} h := by
    rw [sampleLiteral, Bool.or_eq_true, decide_eq_true_eq] at h
    rcases h with h | h
    · have hc : c = 0x6E := (List.cons.inj h).1
      rw [hc]
      decide
    · rw [Bool.and_eq_true, List.all_eq_true] at h
      exact (endsLiteral_digit (h.2 c List.mem_cons_self)).2

def sampleEnvironment : Environment := ⟨[], [], [], [], [], [], []⟩

/-- An item with an id and without a text. -/
def sampleItem (id : List UInt8) : Fields := [(ascii "id", id), (ascii "text", [])]

def sampleObject (id : List UInt8) : Json := .object [(ascii "id", .literal id)]

theorem saysItems_sample {ids : List (List UInt8)} (h : ∀ id ∈ ids, sampleLiteral id = true) :
    SaysItems sampleLiteral (ids.map sampleItem) (ids.map sampleObject) := by
  induction ids with
  | nil => exact .nil
  | cons id ids ih =>
    have hid := h id List.mem_cons_self
    have hne : id ≠ [] := by
      rintro rfl
      exact absurd hid (by decide)
    refine .cons ⟨_, rfl, ?_⟩ (ih fun other hother => h other (List.mem_cons_of_mem id hother))
    have hfilter : (sampleItem id).filter (fun v => !v.2.isEmpty) = [(ascii "id", id)] := by
      simp [sampleItem, hne]
    rw [SaysFields, hfilter]
    have hkey : plain (ascii "id") = true := by decide
    exact .cons ⟨hkey, rfl, sampleLiteral_laws.reads hid⟩ .nil

def sampleValue : Json := .array [.literal (ascii "null"), .string [0xE2, 0x80, 0x0A]]

/-- Two slices of pictures, an empty slice among the stories, and the rest. -/
def sampleSections : List Section := [
  .userpics [[sampleItem (ascii "1")], [sampleItem (ascii "2"), sampleItem (ascii "3")]],
  .stories [[], [sampleItem (ascii "4")]],
  .other sampleValue]

/-- A chat in two slices, a left channel, and one more chat without a name. -/
def sampleDialogs : List Dialog := [
  ⟨⟨false, .bot, ascii "bot", ascii "7"⟩, [[sampleItem (ascii "5")], [sampleItem (ascii "6")]]⟩,
  ⟨⟨true, .bot, [], ascii "8"⟩, []⟩,
  ⟨⟨false, .self, [], ascii "9"⟩, [[sampleItem (ascii "0")]]⟩]

theorem exportAll_reads_sample :
    ∃ w, exportAll sampleEnvironment sampleSections (some sampleDialogs) = some w ∧
      read sampleLiteral w.output = some (document sampleEnvironment
        [[(ascii "profile_pictures",
            .array ([ascii "1", ascii "2", ascii "3"].map sampleObject))],
          [(ascii "stories", .array ([ascii "4"].map sampleObject))],
          [(ascii "other_data", sampleValue)]]
        [(false, .object (dialogFields ⟨false, .bot, ascii "bot", ascii "7"⟩
            ([ascii "5", ascii "6"].map sampleObject))),
          (true, .object (dialogFields ⟨true, .bot, [], ascii "8"⟩ [])),
          (false, .object (dialogFields ⟨false, .self, [], ascii "9"⟩
            ([ascii "0"].map sampleObject)))]) := by
  have hpictures := @saysItems_sample [ascii "1", ascii "2", ascii "3"] (by decide)
  have hstories := @saysItems_sample [ascii "4"] (by decide)
  have hfirst := @saysItems_sample [ascii "5", ascii "6"] (by decide)
  have hlast := @saysItems_sample [ascii "0"] (by decide)
  refine (exportAll_reads sampleLiteral_laws (by decide) ⟨rfl, rfl, rfl, rfl, rfl, rfl, rfl⟩
    (.cons (.userpics ?_ ?_) (.cons (.stories ?_) (.cons (.other ?_) .nil)))
    (.cons ⟨rfl, by decide, by decide, ⟨_, rfl, hfirst⟩⟩
      (.cons ⟨rfl, by decide, by decide, ⟨[], rfl, .nil⟩⟩
        (.cons ⟨rfl, by decide, by decide, ⟨_, rfl, hlast⟩⟩ .nil)))).1 ?_
  · simp
  · exact hpictures
  · exact hstories
  · simp only [sampleValue, JsonWriter.Valid, JsonWriter.ValidItems]
    decide
  · simp [sampleDialogs]

end TelegramDesktop.Export.Output
