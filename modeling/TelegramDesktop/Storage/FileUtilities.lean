import TelegramDesktop.Base.Words

namespace TelegramDesktop.Storage.FileUtilities
open Base

def TdfMagic : List UInt8 := [0x54, 0x44, 0x46, 0x24]

def AppVersion : Int32 := 5004000

/-- The bytes of an `int32` in memory. -/
def int32Bytes (x : Int32) : List UInt8 := Words.ofWord x.toUInt32

structure File where
  content : List UInt8
  lastModified : ℕ
  deriving DecidableEq

inductive Postfix
  | s
  | zero
  | one
  deriving DecidableEq

/-- The files of one base name. -/
structure Directory where
  safe : Option File := none
  simple : Option File := none
  backup : Option File := none
  deriving DecidableEq

def Directory.file (d : Directory) : Postfix → Option File
  | .s => d.safe
  | .zero => d.simple
  | .one => d.backup

/-- `QFile::remove`. -/
def Directory.remove (d : Directory) : Postfix → Directory
  | .s => { d with safe := none }
  | .zero => { d with simple := none }
  | .one => { d with backup := none }

structure FileReadDescriptor where
  version : Int32
  data : List UInt8
  deriving DecidableEq

variable (md5 : List UInt8 → List UInt8)

/-- What the checksum of some data is taken of. -/
def signature (version : Int32) (data : List UInt8) : List UInt8 :=
  md5 (data ++ int32Bytes (.ofNat data.length) ++ int32Bytes version ++ TdfMagic)

/-- The checks of one file, in the body of the loop of `ReadFile`. -/
def checkFile : List UInt8 → Option FileReadDescriptor
  | m₀ :: m₁ :: m₂ :: m₃ :: v₀ :: v₁ :: v₂ :: v₃ :: bytes =>
    let version : Int32 := ⟨Words.word v₀ v₁ v₂ v₃⟩
    let dataSize := bytes.length - 16
    if [m₀, m₁, m₂, m₃] ≠ TdfMagic then none
    else if AppVersion < version then none
    else if bytes.length < 16 then none
    else if signature md5 version (bytes.take dataSize) ≠ bytes.drop dataSize then none
    else some ⟨version, bytes.take dataSize⟩
  | _ => none

/-- The order of the attempts. -/
def toTry (d : Directory) : Postfix × Option Postfix :=
  match d.safe, d.simple, d.backup with
  | some _, _, _ => (.s, none)
  | none, some zero, some one =>
    if zero.lastModified < one.lastModified then (.one, some .zero) else (.zero, some .one)
  | none, some _, none => (.zero, none)
  | none, none, _ => (.one, none)

def checkNamed (d : Directory) (name : Postfix) : Option FileReadDescriptor :=
  (d.file name).bind fun file => checkFile md5 file.content

/-- The other file is removed when one was read. -/
def readFile (d : Directory) : Option (FileReadDescriptor × Directory) :=
  let order := toTry d
  match checkNamed md5 d order.1, order.2 with
  | some result, none => some (result, d)
  | some result, some second => some (result, d.remove second)
  | none, none => none
  | none, some second => (checkNamed md5 d second).map fun result => (result, d.remove order.1)

structure WriteEntry where
  data : List UInt8
  md5 : List UInt8

/-- `QDataStream` writes a null array as a size of its own. -/
def streamed : Option (List UInt8) → List UInt8
  | none => (Words.ofWord 0xFFFFFFFF).reverse
  | some data => (Words.ofWord (.ofNat data.length)).reverse ++ data

/-- What is written and what the checksum was fed, with the sum of the sizes. -/
structure FileWriteDescriptor where
  safeData : List UInt8 := []
  fed : List UInt8 := []
  fullSize : ℕ := 0

def FileWriteDescriptor.writeData (w : FileWriteDescriptor) (data : Option (List UInt8)) :
    FileWriteDescriptor where
  safeData := w.safeData ++ streamed data
  fed := w.fed ++ streamed data
  fullSize := w.fullSize + 4 + (data.getD []).length

def FileWriteDescriptor.finish (w : FileWriteDescriptor) : WriteEntry where
  data := w.safeData
  md5 := md5 (w.fed ++ int32Bytes (.ofNat w.fullSize) ++ int32Bytes AppVersion ++ TdfMagic)

/-- The entry of the data that was written to a descriptor. -/
def written (datas : List (Option (List UInt8))) : WriteEntry :=
  FileWriteDescriptor.finish md5 (datas.foldl FileWriteDescriptor.writeData {})

/-- All that is written in one file. -/
def fileOf (entry : WriteEntry) : List UInt8 :=
  TdfMagic ++ int32Bytes AppVersion ++ entry.data ++ entry.md5

/-- What the file system does in one write; a plain write may store only the first bytes, and
its file has a time of modification after each of them. -/
structure Outcome where
  saveOpened : Bool
  committed : Bool
  plainOpened : Bool
  stored : ℕ
  modified : ℕ → ℕ
  renamed : Bool

/-- The plain file after so many bytes. -/
def plainFile (outcome : Outcome) (entry : WriteEntry) (size : ℕ) : File where
  content := (fileOf entry).take size
  lastModified := outcome.modified size

/-- The directories after the steps of the way through `QSaveFile`. -/
def saveSteps (outcome : Outcome) (entry : WriteEntry) (d : Directory) : List Directory :=
  let saved := { d with safe := some ⟨fileOf entry, outcome.modified (fileOf entry).length⟩ }
  [saved, saved.remove .zero, (saved.remove .zero).remove .one]

/-- The directories after the steps of the way through a plain file. The number of bytes that
were stored is not looked at. -/
def plainSteps (outcome : Outcome) (entry : WriteEntry) (d : Directory) : List Directory :=
  let cut size := { d with simple := some (plainFile outcome entry size) }
  let alone := (cut outcome.stored).remove .one
  let last :=
    if outcome.renamed then { alone with safe := alone.simple, simple := none }
    else alone.remove .s
  (List.range (outcome.stored + 1)).map cut ++ [alone, last]

/-- The directories that an interruption of `writeNow` may leave. -/
def writeNow (outcome : Outcome) (entry : WriteEntry) (d : Directory) : List Directory :=
  if outcome.saveOpened && outcome.committed then d :: saveSteps outcome entry d
  else if outcome.plainOpened then d :: plainSteps outcome entry d
  else [d]

end TelegramDesktop.Storage.FileUtilities
