import TelegramDesktop.Base.DataStream

namespace TelegramDesktop.Ui

open Base DataStream

def kNonStorageLocationToken : UInt8 := 0x10

def kLegacyInMessagePeerIdFlag : UInt8 := 0x08

def kModernLocationFlag : UInt8 := 0x20

def kInMessageFieldsFlag : UInt8 := 0x40

/-- Bytes whose size is an `int`. -/
def QByteArray := { bytes : List UInt8 // bytes.length < 2 ^ 31 }
  deriving DecidableEq

namespace QByteArray

def empty : QByteArray := ⟨[], by decide⟩

def isEmpty (bytes : QByteArray) : Bool := bytes.1.isEmpty

def write (bytes : QByteArray) : List UInt8 := ofBytes bytes.1

def take (data : List UInt8) : Option (QByteArray × List UInt8) :=
  (takeBytes data).bind fun bytes =>
    if h : bytes.1.length < 2 ^ 31 then some (⟨bytes.1, h⟩, bytes.2) else none

/-- `Serialize::bytearraySize`. -/
def size (bytes : QByteArray) : ℕ := 4 + bytes.1.length

end QByteArray

def peerFromUser (id : UInt64) : UInt64 := id

def peerFromChat (id : UInt64) : UInt64 := id ||| ((1 : UInt64) <<< 48)

def peerFromChannel (id : UInt64) : UInt64 := id ||| ((2 : UInt64) <<< 48)

def peerFromFakeChat (id : UInt64) : UInt64 := id ||| ((0x7F : UInt64) <<< 48)

/-- `DeserializePeerId`, for ids that were saved without the reserved bit too. -/
def deserializePeerId (serialized : UInt64) : UInt64 :=
  let flag : UInt64 := (0x80 : UInt64) <<< 48
  let type := serialized &&& 0xF00000000
  let id := serialized &&& 0xFFFFFFFF
  if serialized &&& flag ≠ 0 then serialized &&& ~~~flag
  else if type = 0 then peerFromUser id
  else if type = 0x100000000 then peerFromChat id
  else if type = 0x200000000 then peerFromChannel id
  else if type = 0xF00000000 then peerFromFakeChat id
  else 0

namespace StorageFileLocation

inductive LocationType
  | legacy
  | encrypted
  | document
  | secure
  | takeout
  | photo
  | peerPhoto
  | stickerSetThumb
  | groupCallStream
  deriving DecidableEq

def LocationType.toByte : LocationType → UInt8
  | legacy => 0
  | encrypted => 1
  | document => 2
  | secure => 3
  | takeout => 4
  | photo => 5
  | peerPhoto => 6
  | stickerSetThumb => 7
  | groupCallStream => 8

/-- No location of another type is valid. -/
def LocationType.ofByte : UInt8 → Option LocationType
  | 0 => some legacy
  | 1 => some encrypted
  | 2 => some document
  | 3 => some secure
  | 4 => some takeout
  | 5 => some photo
  | 6 => some peerPhoto
  | 7 => some stickerSetThumb
  | 8 => some groupCallStream
  | _ => none

end StorageFileLocation

structure StorageFileLocation where
  dcId : UInt16 := 0
  type : StorageFileLocation.LocationType := .legacy
  sizeLetter : UInt8 := 0
  localId : Int32 := 0
  id : UInt64 := 0
  accessHash : UInt64 := 0
  volumeId : UInt64 := 0
  inMessagePeerId : UInt64 := 0
  inMessageId : UInt32 := 0
  fileReference : QByteArray := .empty
  deriving DecidableEq

namespace StorageFileLocation

/-- `MTPInputPeer`. -/
inductive InputPeer
  | empty
  | self
  | chat (chatId : UInt64)
  | user (userId accessHash : UInt64)
  | channel (channelId accessHash : UInt64)
  | userFromMessage (peer : InputPeer) (msgId : Int32) (userId : UInt64)
  | channelFromMessage (peer : InputPeer) (msgId : Int32) (channelId : UInt64)

/-- `MTPInputStickerSet`. -/
inductive InputStickerSet
  | empty
  | id (id accessHash : UInt64)
  | other

/-- `MTPInputFileLocation`. -/
inductive InputFileLocation
  | file (volumeId : UInt64) (localId : Int32) (secret : UInt64) (fileReference : QByteArray)
  | encryptedFile (id accessHash : UInt64)
  | documentFile (id accessHash : UInt64) (fileReference thumbSize : QByteArray)
  | secureFile (id accessHash : UInt64)
  | takeoutFile
  | photoFile (id accessHash : UInt64) (fileReference thumbSize : QByteArray)
  | photoLegacyFile (volumeId : UInt64) (localId : Int32) (secret : UInt64)
      (fileReference : QByteArray)
  | peerPhotoFile (big : Bool) (peer : InputPeer) (photoId : UInt64)
  | stickerSetThumb (stickerset : InputStickerSet) (thumbVersion : Int32)
  | groupCallStream (id accessHash timeMs : UInt64) (scale : Int32)
      (videoChannel videoQuality : Option Int32)

/-- `fillPeer`, which leaves the hash alone for some of the peers. -/
def fillPeer (self : UInt64) (location : StorageFileLocation) :
    InputPeer → Option StorageFileLocation
  | .empty => some { location with id := 0 }
  | .self => some { location with id := peerFromUser self }
  | .chat chatId => some { location with id := peerFromChat chatId }
  | .user userId accessHash =>
    some { location with id := peerFromUser userId, accessHash := accessHash }
  | .channel channelId accessHash =>
    some { location with id := peerFromChannel channelId, accessHash := accessHash }
  | .userFromMessage .. => none
  | .channelFromMessage .. => none

/-- Bad data is left out. -/
def fillInMessage (self : UInt64) (location : StorageFileLocation) (peer : InputPeer)
    (inMessagePeerId : UInt64) (msgId : Int32) : StorageFileLocation :=
  { (fillPeer self location peer).getD { location with id := 0, accessHash := 0 } with
    inMessagePeerId := inMessagePeerId
    inMessageId := msgId.toUInt32 }

def firstLetter (thumbSize : QByteArray) : UInt8 := thumbSize.1.headD 0

/-- The constructor, which does not return for a sticker set of another type. -/
def ofTl (dcId : Int32) (self : UInt64) (tl : InputFileLocation) : Option StorageFileLocation :=
  let result : StorageFileLocation := { dcId := dcId.toUInt32.toUInt16 }
  match tl with
  | .file volumeId localId secret fileReference
  | .photoLegacyFile volumeId localId secret fileReference =>
    some { result with
      type := .legacy
      volumeId := volumeId
      localId := localId
      accessHash := secret
      fileReference := fileReference }
  | .encryptedFile id accessHash =>
    some { result with type := .encrypted, id := id, accessHash := accessHash }
  | .documentFile id accessHash fileReference thumbSize =>
    some { result with
      type := .document
      id := id
      accessHash := accessHash
      fileReference := fileReference
      sizeLetter := firstLetter thumbSize }
  | .secureFile id accessHash =>
    some { result with type := .secure, id := id, accessHash := accessHash }
  | .takeoutFile => some { result with type := .takeout }
  | .photoFile id accessHash fileReference thumbSize =>
    some { result with
      type := .photo
      id := id
      accessHash := accessHash
      fileReference := fileReference
      sizeLetter := firstLetter thumbSize }
  | .peerPhotoFile big peer photoId =>
    let result := { result with type := .peerPhoto }
    let result :=
      match peer with
      | .userFromMessage peer msgId userId =>
        fillInMessage self result peer (peerFromUser userId) msgId
      | .channelFromMessage peer msgId channelId =>
        fillInMessage self result peer (peerFromChannel channelId) msgId
      | peer => (fillPeer self result peer).getD result
    some { result with
      volumeId := photoId
      sizeLetter := if big then 'c'.toUInt8 else 'a'.toUInt8 }
  | .stickerSetThumb stickerset thumbVersion =>
    let result := { result with type := .stickerSetThumb, localId := thumbVersion }
    match stickerset with
    | .empty => some result
    | .id id accessHash => some { result with id := id, accessHash := accessHash }
    | .other => none
  | .groupCallStream id accessHash timeMs scale videoChannel videoQuality =>
    some { result with
      type := .groupCallStream
      id := id
      accessHash := accessHash
      volumeId := timeMs
      localId := scale
      sizeLetter := (videoChannel.getD 0 &&& 0x3F).toUInt32.toUInt8 |||
        ((videoQuality.getD 0 &&& 0x03) <<< 6).toUInt32.toUInt8 }

def valid (location : StorageFileLocation) : Bool :=
  match location.type with
  | .legacy => location.dcId != 0 && location.volumeId != 0 && location.localId != 0
  | .encrypted | .secure | .document => location.dcId != 0 && location.id != 0
  | .photo => location.dcId != 0 && location.id != 0 && location.sizeLetter != 0
  | .takeout => true
  | .peerPhoto | .stickerSetThumb => location.dcId != 0 && location.id != 0
  | .groupCallStream => location.dcId != 0 && location.id != 0 && location.volumeId != 0

/-- What is written and read, in its order; only `modern` locations and some of the legacy ones
have `field2` and `inMessageId`. -/
structure Fields where
  dcId : UInt16
  typeWithFlags : UInt8
  sizeLetter : UInt8
  field1 : Int32
  id : UInt64
  accessHash : UInt64
  volumeId : UInt64
  field2 : Int32
  inMessageId : Int32
  fileReference : QByteArray

def Fields.write (fields : Fields) : List UInt8 :=
  ofShort fields.dcId ++ ([fields.typeWithFlags] ++ ([fields.sizeLetter] ++
    (ofInt fields.field1 ++ (ofLong fields.id ++ (ofLong fields.accessHash ++
      (ofLong fields.volumeId ++ (ofInt fields.field2 ++ (ofInt fields.inMessageId ++
        fields.fileReference.write))))))))

def fields (location : StorageFileLocation) : Fields where
  dcId := location.dcId
  typeWithFlags :=
    if location.inMessagePeerId ≠ 0 then
      location.type.toByte ||| kModernLocationFlag ||| kInMessageFieldsFlag
    else location.type.toByte ||| kModernLocationFlag
  sizeLetter := location.sizeLetter
  field1 := if location.inMessagePeerId ≠ 0 then highInt location.inMessagePeerId
    else location.localId
  id := location.id
  accessHash := location.accessHash
  volumeId := location.volumeId
  field2 := if location.inMessagePeerId ≠ 0 then lowInt location.inMessagePeerId else 0
  inMessageId := ⟨location.inMessageId⟩
  fileReference := location.fileReference

/-- Nothing is returned where the `Assert` fails. -/
def serialize (location : StorageFileLocation) : Option (List UInt8) :=
  if location.valid then
    if location.inMessagePeerId ≠ 0 ∧ location.localId ≠ 0 then none
    else some location.fields.write
  else some []

def serializeSize (location : StorageFileLocation) : ℕ :=
  if location.valid then 8 * 5 + location.fileReference.size else 0

def isModern (typeWithFlags : UInt8) : Bool := typeWithFlags &&& kModernLocationFlag ≠ 0

def hasLegacyPeer (typeWithFlags : UInt8) : Bool :=
  !isModern typeWithFlags && (typeWithFlags &&& kLegacyInMessagePeerIdFlag ≠ 0)

def takeFields (serialized : List UInt8) : Option Fields := do
  let (dcId, rest) ← takeShort serialized
  let (typeWithFlags, rest) ← takeByte rest
  if typeWithFlags = kNonStorageLocationToken then none
  let (sizeLetter, rest) ← takeByte rest
  let (field1, rest) ← takeInt rest
  let (id, rest) ← takeLong rest
  let (accessHash, rest) ← takeLong rest
  let (volumeId, rest) ← takeLong rest
  if isModern typeWithFlags || hasLegacyPeer typeWithFlags then
    let (field2, rest) ← takeInt rest
    let (inMessageId, rest) ← takeInt rest
    let (fileReference, _) ← QByteArray.take rest
    some ⟨dcId, typeWithFlags, sizeLetter, field1, id, accessHash, volumeId, field2, inMessageId,
      fileReference⟩
  else
    let (fileReference, _) ← QByteArray.take rest
    some ⟨dcId, typeWithFlags, sizeLetter, field1, id, accessHash, volumeId, 0, 0, fileReference⟩

/-- The type without the flags. -/
def typeByte (typeWithFlags : UInt8) : UInt8 :=
  if isModern typeWithFlags then
    typeWithFlags &&& ~~~kModernLocationFlag &&& ~~~kInMessageFieldsFlag
  else typeWithFlags &&& ~~~kLegacyInMessagePeerIdFlag

/-- The location before it is checked. -/
def ofFields (fields : Fields) (type : LocationType) : StorageFileLocation :=
  let result : StorageFileLocation :=
    { dcId := fields.dcId
      type := type
      sizeLetter := fields.sizeLetter
      accessHash := fields.accessHash
      volumeId := fields.volumeId
      inMessageId := fields.inMessageId.toUInt32
      fileReference := fields.fileReference }
  if isModern fields.typeWithFlags then
    if fields.typeWithFlags &&& kInMessageFieldsFlag ≠ 0 then
      { result with
        id := fields.id
        localId := 0
        inMessagePeerId := joinInts fields.field1 fields.field2 }
    else { result with id := fields.id, localId := fields.field1, inMessagePeerId := 0 }
  else if type = .peerPhoto then
    { result with
      id := deserializePeerId fields.id
      localId := 0
      inMessagePeerId :=
        if fields.field2 = 0 then 0
        else if 0 < fields.field2 then peerFromUser fields.field2.toInt64.toUInt64
        else peerFromChannel (-fields.field2).toInt64.toUInt64 }
  else { result with id := fields.id, localId := fields.field1, inMessagePeerId := 0 }

def fromSerialized (serialized : List UInt8) : Option StorageFileLocation :=
  if serialized = [] then some {}
  else do
    let fields ← takeFields serialized
    let type ← LocationType.ofByte (typeByte fields.typeWithFlags)
    let result := ofFields fields type
    if result.type = .stickerSetThumb ∧ result.volumeId ≠ 0 then none
    else if result.valid then some result
    else none

end StorageFileLocation

structure WebFileLocation where
  url : QByteArray
  accessHash : UInt64
  deriving DecidableEq

structure GeoPointLocation where
  lat : UInt64
  lon : UInt64
  access : UInt64
  width : Int32
  height : Int32
  zoom : Int32
  scale : Int32
  deriving DecidableEq

/-- Valid texts, how they are written as UTF-8 and how `FromUtf8Safe` reads them. -/
structure Utf8 (S : Type) where
  toUtf8 : S → QByteArray
  fromUtf8Safe : QByteArray → S
  exact : ∀ text, fromUtf8Safe (toUtf8 text) = text
  isEmpty : S → Bool

inductive DownloadLocation (S : Type)
  | storage (location : StorageFileLocation)
  | web (location : WebFileLocation)
  | geo (location : GeoPointLocation)
  | url (text : S)
  | audioAlbumThumb (documentId : UInt64)
  | memory (bytes : QByteArray)
  deriving DecidableEq

/-- `NonStorageLocationType`. -/
def kWeb : UInt8 := 0

def kGeo : UInt8 := 1

def kUrl : UInt8 := 2

def kMemory : UInt8 := 3

def kAudioAlbumThumb : UInt8 := 4

variable {S : Type} (utf8 : Utf8 S)

namespace DownloadLocation

def valid : DownloadLocation S → Bool
  | .storage location => location.valid
  | .web location => !location.url.isEmpty
  | .geo _ => true
  | .url text => !utf8.isEmpty text
  | .audioAlbumThumb documentId => documentId != 0
  | .memory bytes => !bytes.isEmpty

/-- What follows the token. -/
def contents : DownloadLocation S → List UInt8
  | .storage _ => []
  | .web location => [kWeb] ++ (location.url.write ++ ofLong location.accessHash)
  | .geo location =>
    [kGeo] ++ (ofLong location.lat ++ (ofLong location.lon ++ (ofLong location.access ++
      (ofInt location.width ++ (ofInt location.height ++ (ofInt location.zoom ++
        ofInt location.scale))))))
  | .url text => [kUrl] ++ (utf8.toUtf8 text).write
  | .audioAlbumThumb documentId => [kAudioAlbumThumb] ++ ofLong documentId
  | .memory bytes => [kMemory] ++ bytes.write

/-- Nothing is returned where `v::get` is of another location. -/
def serialize (location : DownloadLocation S) : Option (List UInt8) :=
  match location with
  | .storage location => location.serialize
  | location =>
    if location.valid utf8 then
      some (ofShort 0 ++ ([kNonStorageLocationToken] ++ location.contents utf8))
    else none

def serializeSize (location : DownloadLocation S) : Option ℕ :=
  match location with
  | .storage location => some location.serializeSize
  | location =>
    if location.valid utf8 then
      some (2 + 1 + 1 +
        match location with
        | .storage _ => 0
        | .web location => location.url.size + 8
        | .geo _ => 2 * 8 + 8 + 4 * 4
        | .url text => (utf8.toUtf8 text).size
        | .audioAlbumThumb _ => 8
        | .memory bytes => bytes.size)
    else none

def takeContents (data : List UInt8) : Option (DownloadLocation S) := do
  let (type, rest) ← takeByte data
  if type = kWeb then
    let (address, rest) ← QByteArray.take rest
    let (accessHash, _) ← takeLong rest
    some (.web ⟨address, accessHash⟩)
  else if type = kGeo then
    let (lat, rest) ← takeLong rest
    let (lon, rest) ← takeLong rest
    let (access, rest) ← takeLong rest
    let (width, rest) ← takeInt rest
    let (height, rest) ← takeInt rest
    let (zoom, rest) ← takeInt rest
    let (scale, _) ← takeInt rest
    some (.geo ⟨lat, lon, access, width, height, zoom, scale⟩)
  else if type = kAudioAlbumThumb then
    let (id, _) ← takeLong rest
    some (.audioAlbumThumb id)
  else if type = kUrl then
    let (utf, _) ← QByteArray.take rest
    some (.url (utf8.fromUtf8Safe utf))
  else if type = kMemory then
    let (bytes, _) ← QByteArray.take rest
    some (.memory bytes)
  else none

/-- The first two fields of the data, if they are of a location outside of the storage. -/
def nonStorage (serialized : List UInt8) : Option (List UInt8) := do
  let (dcId, rest) ← takeShort serialized
  let (token, rest) ← takeByte rest
  if dcId = 0 ∧ token = kNonStorageLocationToken then some rest else none

def fromSerialized (serialized : List UInt8) : Option (DownloadLocation S) :=
  match nonStorage serialized with
  | some data => takeContents utf8 data
  | none => (StorageFileLocation.fromSerialized serialized).map .storage

end DownloadLocation

structure ImageLocation (S : Type) where
  file : DownloadLocation S
  width : Int32
  height : Int32
  deriving DecidableEq

namespace ImageLocation

def serialize (location : ImageLocation S) : Option (List UInt8) :=
  (location.file.serialize utf8).map fun result =>
    if result ≠ [] ∨ 0 < location.width ∨ 0 < location.height then
      result ++ (ofInt location.width ++ ofInt location.height)
    else result

def serializeSize (location : ImageLocation S) : Option ℕ :=
  (location.file.serializeSize utf8).map fun size =>
    if 0 < size ∨ 0 < location.width ∨ 0 < location.height then size + 2 * 4 else 0

def fromSerialized (serialized : List UInt8) : Option (ImageLocation S) := do
  let file ← DownloadLocation.fromSerialized utf8 serialized
  if serialized.length = 0 then some ⟨file, 0, 0⟩
  else if 2 * 4 ≤ serialized.length then
    let (width, rest) ← takeInt (serialized.drop (serialized.length - 2 * 4))
    let (height, _) ← takeInt rest
    some ⟨file, width, height⟩
  else none

end ImageLocation

end TelegramDesktop.Ui
