import Mathlib
import TelegramDesktop.Base.FlatMap

/-! The phrases of a language over those of its base. Custom files, which have no base, and data
saved in the old format are left out. -/

namespace TelegramDesktop.Lang

open Base

abbrev Bytes := List (Fin 256)

/-- `QString`, by its UTF-16 units. -/
abbrev Text := List (Fin 65536)

def kTextCommand : Fin 65536 := 0x10

def kTextCommandLangTag : Fin 65536 := 0x20

def kLangValuesLimit : ℕ := 20000

def kOpen : Fin 256 := 123

def kClose : Fin 256 := 125

/-- What is generated from the strings of the application, and `QString::fromUtf8`. -/
structure Generated (K : Type*) where
  getKeyIndex : Bytes → Option K
  name : K → Bytes
  getKeyIndex_iff : ∀ key k, getKeyIndex key = some k ↔ key = name k
  getTagIndex : Bytes → Option ℕ
  isTagReplaced : K → ℕ → Bool
  getOriginalValue : K → Text
  fromUtf8 : Bytes → Text
  fromUtf8_nil : fromUtf8 [] = []

variable {K : Type*} (g : Generated K)

/-- `chunk` is what lies between `_begin` and `_ch`, and `tag` the tag being read. -/
structure ValueParser where
  result : Text := []
  tagsUsed : List ℕ := []
  chunk : Bytes := []
  tag : Option Bytes := none

namespace ValueParser

def appendToResult (p : ValueParser) : Text :=
  if p.chunk = [] then p.result else p.result ++ g.fromUtf8 p.chunk

def isTagChar (ch : Fin 256) : Bool :=
  (97 ≤ ch && ch ≤ 122) || (65 ≤ ch && ch ≤ 90) || (48 ≤ ch && ch ≤ 57) || ch == 95

def currentTagReplacer (index : ℕ) : Text :=
  [kTextCommand, kTextCommandLangTag, Fin.ofNat 65536 (0x0020 + index), kTextCommand]

/-- The end of `readTag`, at the first character that is not of the tag. -/
def endTag (k : K) (p : ValueParser) (tag : Bytes) (ch : Fin 256) : Option ValueParser :=
  if tag = [] then none
  else if ch ≠ kClose then none
  else
    match g.getTagIndex tag with
    | none => none
    | some index =>
      if !g.isTagReplaced k index then none
      else if index ∈ p.tagsUsed then none
      else some ⟨p.result ++ currentTagReplacer index, index :: p.tagsUsed, [], none⟩

def next (k : K) (p : ValueParser) (ch : Fin 256) : Option ValueParser :=
  match p.tag with
  | none =>
    if ch = kOpen then some ⟨p.appendToResult g, p.tagsUsed, [], some []⟩
    else some { p with chunk := p.chunk ++ [ch] }
  | some tag => if isTagChar ch then some { p with tag := some (tag ++ [ch]) }
    else endTag g k p tag ch

end ValueParser

/-- `ValueParser::parse` and `takeResult`. A value that ends inside of a tag is no good. -/
def parse (k : K) (value : Bytes) : Option Text :=
  (value.foldlM (ValueParser.next g k) {}).bind fun p =>
    if p.tag.isSome then none else some (p.appendToResult g)

def parseKeyValue (key value : Bytes) : Option (K × Text) :=
  (g.getKeyIndex key).bind fun k => (parse g k value).map fun text => (k, text)

structure LangPack (K : Type*) where
  id : Text
  pluralId : Text
  name : Text := []
  nativeName : Text := []
  version : ℤ := 0
  nonDefaultValues : FlatMap Bytes Bytes := ∅
  nonDefaultSet : K → Bool := fun _ => false

/-- An instance with the one that it is derived from it, its base. -/
structure Instance (K : Type*) where
  own : LangPack K
  base : Option (LangPack K)
  values : K → Text

inductive PackKind
  | current
  | base

inductive LangPackString
  | plain (key value : Bytes)
  | pluralized (key : Bytes) (zero one two few many : Option Bytes) (other : Bytes)
  | deleted (key : Bytes)

structure Difference where
  version : ℤ
  strings : List LangPackString

/-- A call of `setCallback` or of `resetCallback`. -/
inductive Change
  | set (key value : Bytes)
  | reset (key : Bytes)

def ascii (text : String) : Bytes := text.toList.map fun c => Fin.ofNat 256 c.toNat

def handleString : LangPackString → List Change
  | .plain key value => [.set key value]
  | .pluralized key zero one two few many other =>
    [.set (key ++ ascii "#zero") (zero.getD []), .set (key ++ ascii "#one") (one.getD []),
      .set (key ++ ascii "#two") (two.getD []), .set (key ++ ascii "#few") (few.getD []),
      .set (key ++ ascii "#many") (many.getD []), .set (key ++ ascii "#other") other]
  | .deleted key =>
    .reset key :: ["#zero", "#one", "#two", "#few", "#many", "#other"].map fun plural =>
      .reset (key ++ ascii plural)

variable [DecidableEq K]

namespace LangPack

def put (pack : LangPack K) (key value : Bytes) : LangPack K :=
  { pack with nonDefaultValues := (pack.nonDefaultValues.erase key).emplace key value }

def mark (pack : LangPack K) (k : K) (isSet : Bool) : LangPack K :=
  { pack with nonDefaultSet := Function.update pack.nonDefaultSet k isSet }

/-- `applyValue` of a pack alone. -/
def applyValue (pack : LangPack K) (key value : Bytes) : LangPack K :=
  match parseKeyValue g key value with
  | none => pack.put key value
  | some (k, _) => (pack.put key value).mark k true

/-- `resetValue` of a pack alone. -/
def resetValue (pack : LangPack K) (key : Bytes) : LangPack K :=
  let pack := { pack with nonDefaultValues := pack.nonDefaultValues.erase key }
  match g.getKeyIndex key with
  | none => pack
  | some k => pack.mark k false

end LangPack

namespace Instance

def setValue (s : Instance K) (k : K) (text : Text) : Instance K :=
  { s with values := Function.update s.values k text }

/-- `getNonDefaultValue` of the base. -/
def baseNonDefaultValue (s : Instance K) (key : Bytes) : Text :=
  ((s.base.bind fun base => base.nonDefaultValues.get? key).map g.fromUtf8).getD []

def applyValue (s : Instance K) (key value : Bytes) : Instance K :=
  let s := { s with own := s.own.applyValue g key value }
  match parseKeyValue g key value with
  | none => s
  | some (k, text) => s.setValue k text

/-- `applyValue` of the base, which changes the values of the derived instance. -/
def applyBaseValue (s : Instance K) (key value : Bytes) : Instance K :=
  let s := { s with base := s.base.map fun base => base.applyValue g key value }
  match parseKeyValue g key value with
  | none => s
  | some (k, text) => if !s.own.nonDefaultSet k then s.setValue k text else s

def resetValue (s : Instance K) (key : Bytes) : Instance K :=
  let s := { s with own := s.own.resetValue g key }
  match g.getKeyIndex key with
  | none => s
  | some k =>
    let base := s.baseNonDefaultValue g key
    s.setValue k (if base ≠ [] then base else g.getOriginalValue k)

def resetBaseValue (s : Instance K) (key : Bytes) : Instance K :=
  let s := { s with base := s.base.map fun base => base.resetValue g key }
  match g.getKeyIndex key with
  | none => s
  | some k => if !s.own.nonDefaultSet k then s.setValue k (g.getOriginalValue k) else s

def applyChange (s : Instance K) : PackKind → Change → Instance K
  | .current, .set key value => s.applyValue g key value
  | .current, .reset key => s.resetValue g key
  | .base, .set key value => s.applyBaseValue g key value
  | .base, .reset key => s.resetBaseValue g key

def setVersion (s : Instance K) (version : ℤ) : PackKind → Instance K
  | .current => { s with own := { s.own with version := version } }
  | .base => { s with base := s.base.map fun base => { base with version := version } }

/-- `applyDifference`, whose caller has checked the language and the versions. -/
def applyDifference (s : Instance K) (pack : PackKind) (difference : Difference) : Instance K :=
  (difference.strings.flatMap handleString).foldl (fun s change => s.applyChange g pack change)
    (s.setVersion difference.version pack)

/-- `switchToId` with a base. -/
def switchToId (id pluralId name nativeName baseId : Text) : Instance K where
  own := { id := id, pluralId := pluralId, name := name, nativeName := nativeName }
  base := some { id := baseId, pluralId := pluralId }
  values := g.getOriginalValue

end Instance

inductive Field
  | text (text : Text)
  | int (number : ℤ)
  | bytes (bytes : Bytes)
  | data (fields : List Field)

def kSerializeVersionTag : Text := "#new".toList.map fun c => Fin.ofNat 65536 c.toNat

def kSerializeVersion : ℤ := 1

namespace LangPack

omit [DecidableEq K] in
/-- `serialize`, `base` being that of the base. There is no custom file. -/
def serialize (pack : LangPack K) (base : List Field) : List Field :=
  [.text kSerializeVersionTag, .int kSerializeVersion, .text pack.id, .text pack.pluralId,
    .text pack.name, .text pack.nativeName, .int pack.version, .text [], .text [], .bytes [],
    .int pack.nonDefaultValues.size] ++
      (pack.nonDefaultValues.entries.flatMap fun entry =>
        [Field.bytes entry.1, Field.bytes entry.2]) ++ [.data base]

end LangPack

/-- What is read of a pack. -/
structure Saved where
  id : Text
  pluralId : Text
  name : Text
  nativeName : Text
  version : ℤ
  nonDefaultStrings : List (Bytes × Bytes)
  base : List Field

def readStrings : ℕ → List Field → Option (List (Bytes × Bytes) × List Field)
  | 0, fields => some ([], fields)
  | n + 1, .bytes key :: .bytes value :: rest =>
    (readStrings n rest).map fun read => ((key, value) :: read.1, read.2)
  | _ + 1, _ => none

def readBase : List Field → List Field
  | .data base :: _ => base
  | _ => []

/-- `fillFromSerialized` up to the first value that it applies. -/
def readPack : List Field → Option Saved
  | .text tag :: .int serializeVersion :: .text id :: .text pluralId :: .text name ::
      .text nativeName :: .int version :: .text [] :: .text _ :: .bytes _ ::
      .int nonDefaultValuesCount :: rest =>
    if tag ≠ kSerializeVersionTag ∨ serializeVersion ≠ kSerializeVersion then none
    else if (kLangValuesLimit : ℤ) < nonDefaultValuesCount then none
    else
      (readStrings nonDefaultValuesCount.toNat rest).map fun read =>
        ⟨id, pluralId, name, nativeName, version, read.1, readBase read.2⟩
  | _ => none

namespace Instance

/-- A base that is made for the data which it reads. -/
def fillBase (s : Instance K) (fields : List Field) : Instance K :=
  match readPack fields with
  | none => { s with base := some { id := [], pluralId := [] } }
  | some saved =>
    saved.nonDefaultStrings.foldl (fun s entry => s.applyBaseValue g entry.1 entry.2)
      { s with
        base := some
          { id := saved.id
            pluralId := saved.pluralId
            name := saved.name
            nativeName := saved.nativeName
            version := saved.version } }

def fillFromSerialized (s : Instance K) (fields : List Field) : Instance K :=
  match readPack fields with
  | none => s
  | some saved =>
    let s := { s with base := none }
    let s := if saved.base.isEmpty then s else s.fillBase g saved.base
    saved.nonDefaultStrings.foldl (fun s entry => s.applyValue g entry.1 entry.2)
      { s with
        own := { s.own with
          id := saved.id
          pluralId := saved.pluralId
          name := saved.name
          nativeName := saved.nativeName
          version := saved.version } }

omit [DecidableEq K] in
def serialize (s : Instance K) : List Field :=
  s.own.serialize ((s.base.map fun base => base.serialize []).getD [])

/-- A new instance with the default language. -/
def created (id : Text) : Instance K where
  own := { id := id, pluralId := [] }
  base := none
  values := g.getOriginalValue

/-- An instance that is saved and read by a new one. -/
def reload (s : Instance K) : Instance K :=
  fillFromSerialized g (created g []) s.serialize

inductive Operation
  | applyDifference (pack : PackKind) (difference : Difference)
  | reload

def step (s : Instance K) : Operation → Instance K
  | .applyDifference pack difference => s.applyDifference g pack difference
  | .reload => s.reload g

def run (s : Instance K) (operations : List Operation) : Instance K :=
  operations.foldl (step g) s

end Instance

end TelegramDesktop.Lang
