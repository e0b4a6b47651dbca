import Mathlib
import TelegramDesktop.Ui.ImageLocation

namespace TelegramDesktop.Ui

open Base DataStream

theorem QByteArray.take_write (bytes : QByteArray) (rest : List UInt8) :
    take (bytes.write ++ rest) = some (bytes, rest) := by
  rw [take, write, takeBytes_ofBytes bytes.2, Option.bind_some, dif_pos bytes.2]
  rfl

theorem QByteArray.length_write (bytes : QByteArray) : bytes.write.length = bytes.size :=
  length_ofBytes bytes.1

namespace StorageFileLocation

variable {location : StorageFileLocation}

/-- What `serialize` and `FromSerialized` rely on. -/
structure WellFormed (location : StorageFileLocation) : Prop where
  localId : location.inMessagePeerId ≠ 0 → location.localId = 0
  volumeId : location.type = .stickerSetThumb → location.volumeId = 0

theorem WellFormed.default : WellFormed {} where
  localId h := absurd rfl h
  volumeId h := nomatch h

theorem fillPeer_same {self : UInt64} {peer : InputPeer} {result : StorageFileLocation}
    (h : fillPeer self location peer = some result) :
    result.type = location.type ∧ result.localId = location.localId := by
  cases peer <;> simp only [fillPeer, Option.some.injEq, reduceCtorEq] at h <;> subst h <;>
    exact ⟨rfl, rfl⟩

theorem WellFormed.of_peerPhoto (htype : location.type = .peerPhoto)
    (hlocal : location.localId = 0) : WellFormed location where
  localId _ := hlocal
  volumeId h := by
    rw [htype] at h
    exact nomatch h

theorem WellFormed.of_noPeer (hpeer : location.inMessagePeerId = 0)
    (hvolume : location.type = .stickerSetThumb → location.volumeId = 0) :
    WellFormed location where
  localId h := absurd hpeer h
  volumeId := hvolume

theorem getD_fillPeer_same (self : UInt64) (peer : InputPeer) {other : StorageFileLocation}
    (htype : other.type = location.type) (hlocal : other.localId = location.localId) :
    ((fillPeer self location peer).getD other).type = location.type ∧
      ((fillPeer self location peer).getD other).localId = location.localId := by
  cases hfill : fillPeer self location peer with
  | none => exact ⟨htype, hlocal⟩
  | some result => exact fillPeer_same hfill

/-- The constructor makes such locations only. -/
theorem wellFormed_ofTl {dcId : Int32} {self : UInt64} {tl : InputFileLocation}
    (h : ofTl dcId self tl = some location) : WellFormed location := by
  cases tl with
  | peerPhotoFile big peer photoId =>
    let photo : StorageFileLocation := { dcId := dcId.toUInt32.toUInt16, type := .peerPhoto }
    let blank : StorageFileLocation := { photo with id := 0, accessHash := 0 }
    obtain rfl := Option.some.inj h
    cases peer with
    | userFromMessage peer msgId userId =>
      have hfilled := getD_fillPeer_same self peer (show blank.type = photo.type from rfl) rfl
      exact .of_peerPhoto hfilled.1 hfilled.2
    | channelFromMessage peer msgId channelId =>
      have hfilled := getD_fillPeer_same self peer (show blank.type = photo.type from rfl) rfl
      exact .of_peerPhoto hfilled.1 hfilled.2
    | _ => exact .of_peerPhoto rfl rfl
  | stickerSetThumb stickerset thumbVersion =>
    cases stickerset with
    | other => exact nomatch h
    | empty =>
      obtain rfl := Option.some.inj h
      exact .of_noPeer rfl fun _ => rfl
    | id id accessHash =>
      obtain rfl := Option.some.inj h
      exact .of_noPeer rfl fun _ => rfl
  | _ =>
    obtain rfl := Option.some.inj h
    exact .of_noPeer rfl fun h => nomatch h

theorem typeWithFlags_modern (location : StorageFileLocation) :
    isModern location.fields.typeWithFlags = true ∧
      location.fields.typeWithFlags ≠ kNonStorageLocationToken ∧
      LocationType.ofByte (typeByte location.fields.typeWithFlags) = some location.type := by
  rw [fields]
  dsimp only
  split_ifs
  · cases location.type <;> decide
  · cases location.type <;> decide

theorem inMessage_flag (location : StorageFileLocation) :
    location.fields.typeWithFlags &&& kInMessageFieldsFlag ≠ 0 ↔
      location.inMessagePeerId ≠ 0 := by
  rw [fields]
  dsimp only
  split_ifs with hpeer
  · refine iff_of_true ?_ hpeer
    cases location.type <;> decide
  · refine iff_of_false ?_ hpeer
    cases location.type <;> decide

theorem takeFields_write (location : StorageFileLocation) (rest : List UInt8) :
    takeFields (location.fields.write ++ rest) = some location.fields := by
  obtain ⟨hmodern, htoken, -⟩ := typeWithFlags_modern location
  rw [takeFields, Fields.write]
  simp only [List.append_assoc, takeShort_ofShort, takeInt_ofInt, takeLong_ofLong,
    QByteArray.take_write, takeByte_append, Option.bind_eq_bind, Option.bind_some,
    hmodern, Bool.true_or, if_true, if_neg htoken]

theorem ofFields_fields (hwell : WellFormed location) :
    ofFields location.fields location.type = location := by
  obtain ⟨hmodern, -, -⟩ := typeWithFlags_modern location
  rw [ofFields, hmodern, if_pos rfl]
  have hflag := inMessage_flag location
  by_cases hpeer : location.inMessagePeerId = 0
  · rw [if_neg (by rw [hflag]; exact fun h => h hpeer)]
    cases location
    simp_all [fields]
  · rw [if_pos (hflag.mpr hpeer)]
    have hlocal := hwell.localId hpeer
    cases location
    simp_all [fields, joinInts_high_low]

/-- What follows a location does not matter. -/
theorem fromSerialized_write (hwell : WellFormed location) (hvalid : location.valid = true)
    (rest : List UInt8) : fromSerialized (location.fields.write ++ rest) = some location := by
  obtain ⟨-, -, htype⟩ := typeWithFlags_modern location
  have hne : location.fields.write ++ rest ≠ [] := fun h => nomatch h
  have hvolume : ¬ (location.type = .stickerSetThumb ∧ location.volumeId ≠ 0) :=
    fun ⟨h, hne⟩ => hne (hwell.volumeId h)
  rw [fromSerialized, if_neg hne, takeFields_write, Option.bind_eq_bind, Option.bind_some, htype,
    Option.bind_eq_bind, Option.bind_some]
  dsimp only
  rw [ofFields_fields hwell, if_neg hvolume, if_pos hvalid]

theorem serialize_of_valid (hwell : WellFormed location) (hvalid : location.valid = true) :
    location.serialize = some location.fields.write := by
  have hassert : ¬ (location.inMessagePeerId ≠ 0 ∧ location.localId ≠ 0) :=
    fun ⟨h, hne⟩ => hne (hwell.localId h)
  rw [serialize, if_pos hvalid, if_neg hassert]

theorem length_write (location : StorageFileLocation) (hvalid : location.valid = true) :
    location.fields.write.length = location.serializeSize := by
  rw [serializeSize, if_pos hvalid, Fields.write]
  simp only [List.length_append, QByteArray.length_write, length_ofInt, length_ofLong]
  change 2 + (1 + (1 + (4 + (8 + (8 + (8 + (4 + (4 + location.fileReference.size)))))))) = _
  omega

theorem wellFormed_ofFields (fields : Fields) (type : LocationType)
    (hvolume : ¬ ((ofFields fields type).type = .stickerSetThumb ∧
      (ofFields fields type).volumeId ≠ 0)) : WellFormed (ofFields fields type) where
  localId := by
    rw [ofFields]
    dsimp only
    split_ifs
    · exact fun _ => rfl
    · exact fun h => absurd rfl h
    · exact fun _ => rfl
    · exact fun _ => rfl
    · exact fun _ => rfl
    · exact fun h => absurd rfl h
  volumeId h := by
    by_contra hne
    exact hvolume ⟨h, hne⟩

theorem wellFormed_fromSerialized {serialized : List UInt8}
    (h : fromSerialized serialized = some location) : WellFormed location := by
  rw [fromSerialized] at h
  split_ifs at h with hempty
  · obtain rfl := Option.some.inj h
    exact .default
  · obtain ⟨fields, -, h⟩ := Option.bind_eq_some_iff.mp h
    obtain ⟨type, -, h⟩ := Option.bind_eq_some_iff.mp h
    dsimp only at h
    split_ifs at h with hvolume hvalid
    obtain rfl := Option.some.inj h
    exact wellFormed_ofFields fields type hvolume

end StorageFileLocation

variable {S : Type} (utf8 : Utf8 S)

namespace DownloadLocation

variable {location : DownloadLocation S}

/-- What the constructors and `FromSerialized` give. -/
inductive Produced : DownloadLocation S → Prop
  | default : Produced (.storage {})
  | storage {dcId : Int32} {self : UInt64} {tl : StorageFileLocation.InputFileLocation}
      {location : StorageFileLocation} (h : StorageFileLocation.ofTl dcId self tl = some location) :
      Produced (.storage location)
  | web (location : WebFileLocation) : Produced (.web location)
  | geo (location : GeoPointLocation) : Produced (.geo location)
  | url (text : S) : Produced (.url text)
  | audioAlbumThumb (documentId : UInt64) : Produced (.audioAlbumThumb documentId)
  | memory (bytes : QByteArray) : Produced (.memory bytes)
  | fromSerialized {serialized : List UInt8} {location : DownloadLocation S}
      (h : fromSerialized utf8 serialized = some location) : Produced location

theorem takeContents_contents (location : DownloadLocation S)
    (hother : ∀ file, location ≠ .storage file) (rest : List UInt8) :
    takeContents utf8 (location.contents utf8 ++ rest) = some location := by
  cases location with
  | storage file => exact absurd rfl (hother file)
  | web file =>
    simp only [contents, takeContents, List.append_assoc, takeByte_append, QByteArray.take_write,
      takeLong_ofLong, Option.bind_eq_bind, Option.bind_some, if_true]
  | geo file =>
    simp only [contents, takeContents, List.append_assoc, takeByte_append, takeLong_ofLong,
      takeInt_ofInt, Option.bind_eq_bind, Option.bind_some, if_true]
    rfl
  | url text =>
    simp only [contents, takeContents, List.append_assoc, takeByte_append, QByteArray.take_write,
      Option.bind_eq_bind, Option.bind_some, if_true, utf8.exact]
    rfl
  | audioAlbumThumb documentId =>
    simp only [contents, takeContents, List.append_assoc, takeByte_append, takeLong_ofLong,
      Option.bind_eq_bind, Option.bind_some, if_true]
    rfl
  | memory bytes =>
    simp only [contents, takeContents, List.append_assoc, takeByte_append, QByteArray.take_write,
      Option.bind_eq_bind, Option.bind_some, if_true]
    rfl

/-- What follows the token is never a location in the storage. -/
theorem takeContents_ne_storage {data : List UInt8}
    (h : takeContents utf8 data = some location) (file : StorageFileLocation) :
    location ≠ .storage file := by
  rintro rfl
  obtain ⟨⟨type, rest⟩, -, h⟩ := Option.bind_eq_some_iff.mp h
  dsimp only at h
  split_ifs at h
  · obtain ⟨⟨address, rest⟩, -, h⟩ := Option.bind_eq_some_iff.mp h
    obtain ⟨⟨accessHash, rest⟩, -, h⟩ := Option.bind_eq_some_iff.mp h
    exact nomatch h
  · obtain ⟨⟨lat, rest⟩, -, h⟩ := Option.bind_eq_some_iff.mp h
    obtain ⟨⟨lon, rest⟩, -, h⟩ := Option.bind_eq_some_iff.mp h
    obtain ⟨⟨access, rest⟩, -, h⟩ := Option.bind_eq_some_iff.mp h
    obtain ⟨⟨width, rest⟩, -, h⟩ := Option.bind_eq_some_iff.mp h
    obtain ⟨⟨height, rest⟩, -, h⟩ := Option.bind_eq_some_iff.mp h
    obtain ⟨⟨zoom, rest⟩, -, h⟩ := Option.bind_eq_some_iff.mp h
    obtain ⟨⟨scale, rest⟩, -, h⟩ := Option.bind_eq_some_iff.mp h
    exact nomatch h
  · obtain ⟨⟨id, rest⟩, -, h⟩ := Option.bind_eq_some_iff.mp h
    exact nomatch h
  · obtain ⟨⟨utf, rest⟩, -, h⟩ := Option.bind_eq_some_iff.mp h
    exact nomatch h
  · obtain ⟨⟨bytes, rest⟩, -, h⟩ := Option.bind_eq_some_iff.mp h
    exact nomatch h

theorem Produced.wellFormed (h : Produced utf8 location) {file : StorageFileLocation}
    (hfile : location = .storage file) : file.WellFormed := by
  cases h with
  | default =>
    obtain rfl := DownloadLocation.storage.inj hfile
    exact .default
  | storage hmade =>
    obtain rfl := DownloadLocation.storage.inj hfile
    exact StorageFileLocation.wellFormed_ofTl hmade
  | fromSerialized hread =>
    subst hfile
    rw [DownloadLocation.fromSerialized] at hread
    split at hread
    · exact absurd rfl (takeContents_ne_storage utf8 hread file)
    · obtain ⟨read, hstorage, heq⟩ := Option.map_eq_some_iff.mp hread
      obtain rfl := DownloadLocation.storage.inj heq
      exact StorageFileLocation.wellFormed_fromSerialized hstorage
  | _ => exact nomatch hfile

theorem nonStorage_token (data : List UInt8) :
    nonStorage (ofShort 0 ++ ([kNonStorageLocationToken] ++ data)) = some data := by
  rw [nonStorage, takeShort_ofShort, Option.bind_eq_bind, Option.bind_some]
  dsimp only
  rw [takeByte_append, Option.bind_eq_bind, Option.bind_some]
  exact if_pos ⟨rfl, rfl⟩

theorem nonStorage_write (file : StorageFileLocation) (rest : List UInt8) :
    nonStorage (file.fields.write ++ rest) = none := by
  obtain ⟨-, htoken, -⟩ := StorageFileLocation.typeWithFlags_modern file
  rw [nonStorage, StorageFileLocation.Fields.write, List.append_assoc, takeShort_ofShort,
    Option.bind_eq_bind, Option.bind_some]
  dsimp only
  rw [List.append_assoc, takeByte_append, Option.bind_eq_bind, Option.bind_some]
  exact if_neg fun ⟨_, h⟩ => htoken h

theorem serialize_other (hother : ∀ file, location ≠ .storage file) :
    location.serialize utf8 =
      if location.valid utf8 then
        some (ofShort 0 ++ ([kNonStorageLocationToken] ++ location.contents utf8))
      else none := by
  cases location with
  | storage file => exact absurd rfl (hother file)
  | _ => rfl

theorem serializeSize_other (hother : ∀ file, location ≠ .storage file)
    (hvalid : location.valid utf8 = true) :
    location.serializeSize utf8 = some (3 + (location.contents utf8).length) := by
  cases location with
  | storage file => exact absurd rfl (hother file)
  | web file =>
    refine (if_pos hvalid).trans (congrArg some ?_)
    rw [contents, List.length_append, List.length_append, QByteArray.length_write, length_ofLong,
      List.length_singleton]
    dsimp only
    omega
  | geo file => rfl
  | url text =>
    refine (if_pos hvalid).trans (congrArg some ?_)
    rw [contents, List.length_append, QByteArray.length_write, List.length_singleton]
    dsimp only
    omega
  | audioAlbumThumb documentId => exact (if_pos hvalid).trans rfl
  | memory bytes =>
    refine (if_pos hvalid).trans (congrArg some ?_)
    rw [contents, List.length_append, QByteArray.length_write, List.length_singleton]
    dsimp only
    omega

/-- A valid location is there again, whatever follows it. -/
theorem exists_serialize (hmade : Produced utf8 location) (hvalid : location.valid utf8 = true) :
    ∃ bytes, location.serialize utf8 = some bytes ∧ bytes ≠ [] ∧
      location.serializeSize utf8 = some bytes.length ∧
      ∀ rest, fromSerialized utf8 (bytes ++ rest) = some location := by
  by_cases hother : ∀ file, location ≠ .storage file
  · refine ⟨ofShort 0 ++ ([kNonStorageLocationToken] ++ location.contents utf8), ?_,
      List.cons_ne_nil _ _, ?_, fun rest => ?_⟩
    · rw [serialize_other utf8 hother, if_pos hvalid]
    · rw [serializeSize_other utf8 hother hvalid]
      exact congrArg some (by simp only [List.length_append]; exact (Nat.add_assoc 2 1 _))
    · rw [fromSerialized, List.append_assoc, List.append_assoc, nonStorage_token]
      exact takeContents_contents utf8 location hother rest
  · obtain ⟨file, hfile⟩ := not_forall_not.mp hother
    have hwell := hmade.wellFormed utf8 hfile
    subst hfile
    refine ⟨file.fields.write, StorageFileLocation.serialize_of_valid hwell hvalid,
      List.cons_ne_nil _ _, ?_, fun rest => ?_⟩
    · rw [serializeSize, StorageFileLocation.length_write file hvalid]
    · rw [fromSerialized, nonStorage_write]
      dsimp only
      rw [StorageFileLocation.fromSerialized_write hwell hvalid rest]
      rfl

/-- The same location, or no location for one that is not valid. -/
def Returns (location read : DownloadLocation S) : Prop :=
  read = location ∨ (location.valid utf8 = false ∧ read = .storage {})

/-- An invalid location is saved as nothing if it is in the storage, and not saved otherwise. -/
theorem serialize_invalid (hvalid : location.valid utf8 = false) :
    (∀ file, location = .storage file → location.serialize utf8 = some [] ∧
      location.serializeSize utf8 = some 0) ∧
    ((∀ file, location ≠ .storage file) → location.serialize utf8 = none) := by
  have hno : ¬ location.valid utf8 = true := by
    rw [hvalid]
    exact Bool.false_ne_true
  constructor
  · rintro file rfl
    have hno : ¬ file.valid = true := hno
    rw [serialize, serializeSize, StorageFileLocation.serialize, if_neg hno,
      StorageFileLocation.serializeSize, if_neg hno]
    exact ⟨rfl, rfl⟩
  · intro hother
    rw [serialize_other utf8 hother, if_neg hno]

theorem fromSerialized_nil : fromSerialized utf8 [] = some (.storage {}) := rfl

theorem roundTrips_iff (hmade : Produced utf8 location) :
    (∃ bytes read, location.serialize utf8 = some bytes ∧
      location.serializeSize utf8 = some bytes.length ∧
      fromSerialized utf8 bytes = some read ∧ Returns utf8 location read) ↔
    (location.valid utf8 = true ∨ ∃ file, location = .storage file) := by
  constructor
  · rintro ⟨bytes, read, hbytes, -⟩
    by_contra hno
    rw [not_or, Bool.not_eq_true, not_exists] at hno
    rw [(serialize_invalid utf8 hno.1).2 hno.2] at hbytes
    exact nomatch hbytes
  · intro h
    by_cases hvalid : location.valid utf8 = true
    · obtain ⟨bytes, hbytes, -, hsize, hread⟩ := exists_serialize utf8 hmade hvalid
      have hback := hread []
      rw [List.append_nil] at hback
      exact ⟨bytes, location, hbytes, hsize, hback, .inl rfl⟩
    · obtain ⟨file, hfile⟩ := h.resolve_left hvalid
      rw [Bool.not_eq_true] at hvalid
      obtain ⟨hbytes, hsize⟩ := (serialize_invalid utf8 hvalid).1 file hfile
      exact ⟨[], .storage {}, hbytes, hsize, fromSerialized_nil utf8, .inr ⟨hvalid, rfl⟩⟩

end DownloadLocation

namespace ImageLocation

open DownloadLocation

variable {file : DownloadLocation S} {width height : Int32}

/-- Two sizes alone are too short for a location of the storage. -/
theorem takeFields_short (a b c d e f g h : UInt8) :
    StorageFileLocation.takeFields [a, b, c, d, e, f, g, h] = none := by
  rw [StorageFileLocation.takeFields]
  dsimp only [takeShort, takeByte, Option.bind_eq_bind, Option.bind_some]
  split_ifs
  · rfl
  · rfl
  · rfl
  · rfl

theorem storage_sizes (width height : Int32) :
    StorageFileLocation.fromSerialized (ofInt width ++ ofInt height) = none := by
  have hne : ofInt width ++ ofInt height ≠ [] := List.cons_ne_nil _ _
  rw [StorageFileLocation.fromSerialized, if_neg hne]
  have hfields : StorageFileLocation.takeFields (ofInt width ++ ofInt height) = none :=
    takeFields_short ..
  rw [hfields]
  rfl

theorem fromSerialized_sizes {data : List UInt8} {read : DownloadLocation S}
    (hread : DownloadLocation.fromSerialized utf8 data = some read) (width height : Int32)
    (hdata : data.drop (data.length - 2 * 4) = ofInt width ++ ofInt height)
    (hsize : 2 * 4 ≤ data.length) :
    fromSerialized utf8 data = some ⟨read, width, height⟩ := by
  have hne : ¬ data.length = 0 := by omega
  have hheight := takeInt_ofInt height []
  rw [List.append_nil] at hheight
  rw [fromSerialized, hread, Option.bind_eq_bind, Option.bind_some, if_neg hne, if_pos hsize,
    hdata, takeInt_ofInt, Option.bind_eq_bind, Option.bind_some]
  dsimp only
  rw [hheight]
  rfl

theorem file_of_fromSerialized {data : List UInt8} {read : ImageLocation S}
    (hread : fromSerialized utf8 data = some read) :
    DownloadLocation.fromSerialized utf8 data = some read.file := by
  obtain ⟨file, hfile, hread⟩ := Option.bind_eq_some_iff.mp hread
  split_ifs at hread
  · obtain rfl := Option.some.inj hread
    exact hfile
  · obtain ⟨width, -, hread⟩ := Option.bind_eq_some_iff.mp hread
    obtain ⟨height, -, hread⟩ := Option.bind_eq_some_iff.mp hread
    obtain rfl := Option.some.inj hread
    exact hfile

/-- The file is there and so are its sizes. -/
theorem exists_valid (hmade : Produced utf8 file) (hvalid : file.valid utf8 = true)
    (width height : Int32) :
    ∃ bytes, serialize utf8 ⟨file, width, height⟩ = some bytes ∧
      serializeSize utf8 ⟨file, width, height⟩ = some bytes.length ∧
      fromSerialized utf8 bytes = some ⟨file, width, height⟩ := by
  obtain ⟨bytes, hbytes, hne, hsize, hread⟩ := exists_serialize utf8 hmade hvalid
  have hpos : 0 < bytes.length := List.length_pos_iff.mpr hne
  have hlength : (bytes ++ (ofInt width ++ ofInt height)).length = bytes.length + 2 * 4 := by
    rw [List.length_append]
    rfl
  refine ⟨bytes ++ (ofInt width ++ ofInt height), ?_, ?_, ?_⟩
  · rw [serialize, hbytes, Option.map_some, if_pos (.inl hne)]
  · rw [serializeSize, hsize, Option.map_some, if_pos (.inl hpos), hlength]
  · apply fromSerialized_sizes utf8 (hread _)
    · rw [hlength, Nat.add_sub_cancel, List.drop_left]
    · rw [hlength]
      exact Nat.le_add_left _ _

/-- A size of a missing file is read as the start of one. -/
theorem fromSerialized_missing {location : StorageFileLocation} {read : DownloadLocation S}
    (h : DownloadLocation.fromSerialized utf8 (ofInt width ++ ofInt height) = some read) :
    ¬ Returns utf8 (.storage location) read := by
  rw [DownloadLocation.fromSerialized] at h
  split at h
  · have hother := takeContents_ne_storage utf8 h
    rintro (heq | ⟨-, heq⟩)
    · exact hother _ heq
    · exact hother _ heq
  · rw [storage_sizes] at h
    exact nomatch h

theorem roundTrips_iff (hmade : Produced utf8 file) (hwidth : 0 ≤ width) (hheight : 0 ≤ height) :
    (∃ bytes read, serialize utf8 ⟨file, width, height⟩ = some bytes ∧
      serializeSize utf8 ⟨file, width, height⟩ = some bytes.length ∧
      fromSerialized utf8 bytes = some read ∧ read.width = width ∧ read.height = height ∧
      Returns utf8 file read.file) ↔
    (file.valid utf8 = true ∨
      ((∃ location, file = .storage location) ∧ width = 0 ∧ height = 0)) := by
  by_cases hvalid : file.valid utf8 = true
  · obtain ⟨bytes, hbytes, hsize, hread⟩ := exists_valid utf8 hmade hvalid width height
    exact iff_of_true ⟨bytes, _, hbytes, hsize, hread, rfl, rfl, .inl rfl⟩ (.inl hvalid)
  · rw [or_iff_right hvalid]
    rw [Bool.not_eq_true] at hvalid
    constructor
    · rintro ⟨bytes, read, hbytes, -, hread, -, -, hreturns⟩
      by_cases hother : ∀ location, file ≠ .storage location
      · rw [serialize, (serialize_invalid utf8 hvalid).2 hother] at hbytes
        exact nomatch hbytes
      · obtain ⟨location, rfl⟩ := not_forall_not.mp hother
        refine ⟨⟨location, rfl⟩, ?_⟩
        by_contra hsizes
        have hsome : 0 < width ∨ 0 < height := by
          by_contra hnone
          rw [not_or, not_lt, not_lt] at hnone
          exact hsizes ⟨le_antisymm hnone.1 hwidth, le_antisymm hnone.2 hheight⟩
        rw [serialize, ((serialize_invalid utf8 hvalid).1 location rfl).1, Option.map_some,
          if_pos (.inr hsome), List.nil_append] at hbytes
        obtain rfl := Option.some.inj hbytes
        exact fromSerialized_missing utf8 (file_of_fromSerialized utf8 hread) hreturns
    · rintro ⟨⟨location, rfl⟩, rfl, rfl⟩
      obtain ⟨hbytes, hsize⟩ := (serialize_invalid utf8 hvalid).1 location rfl
      refine ⟨[], ⟨.storage {}, 0, 0⟩, ?_, ?_, rfl, rfl, rfl, .inr ⟨hvalid, rfl⟩⟩
      · rw [serialize, hbytes]
        rfl
      · rw [serializeSize, hsize]
        rfl

end ImageLocation

/-- What locations and images with them come to, saved and read. -/
theorem location_roundTrips_iff {file : DownloadLocation S}
    (hmade : DownloadLocation.Produced utf8 file) :
    ((∃ bytes read, file.serialize utf8 = some bytes ∧
        file.serializeSize utf8 = some bytes.length ∧
        DownloadLocation.fromSerialized utf8 bytes = some read ∧
        DownloadLocation.Returns utf8 file read) ↔
      (file.valid utf8 = true ∨ ∃ location, file = .storage location)) ∧
    ∀ width height : Int32, 0 ≤ width → 0 ≤ height →
      ((∃ bytes read, ImageLocation.serialize utf8 ⟨file, width, height⟩ = some bytes ∧
          ImageLocation.serializeSize utf8 ⟨file, width, height⟩ = some bytes.length ∧
          ImageLocation.fromSerialized utf8 bytes = some read ∧ read.width = width ∧
          read.height = height ∧ DownloadLocation.Returns utf8 file read.file) ↔
        (file.valid utf8 = true ∨
          ((∃ location, file = .storage location) ∧ width = 0 ∧ height = 0))) :=
  ⟨DownloadLocation.roundTrips_iff utf8 hmade, fun _ _ hwidth hheight =>
    ImageLocation.roundTrips_iff utf8 hmade hwidth hheight⟩

def rawTexts : Utf8 QByteArray where
  toUtf8 := id
  fromUtf8Safe := id
  exact _ := rfl
  isEmpty := QByteArray.isEmpty

def webPage : WebFileLocation where
  url := ⟨[104, 105], by decide⟩
  accessHash := 7

theorem location_roundTrips_web :
    (∃ bytes read, (DownloadLocation.web webPage).serialize rawTexts = some bytes ∧
      (DownloadLocation.web webPage).serializeSize rawTexts = some bytes.length ∧
      DownloadLocation.fromSerialized rawTexts bytes = some read ∧
      DownloadLocation.Returns rawTexts (.web webPage) read) ∧
    (∃ bytes read, ImageLocation.serialize rawTexts ⟨.web webPage, 320, 240⟩ = some bytes ∧
      ImageLocation.serializeSize rawTexts ⟨.web webPage, 320, 240⟩ = some bytes.length ∧
      ImageLocation.fromSerialized rawTexts bytes = some read ∧ read.width = 320 ∧
      read.height = 240 ∧ DownloadLocation.Returns rawTexts (.web webPage) read.file) := by
  obtain ⟨hfile, himage⟩ := location_roundTrips_iff rawTexts (.web webPage)
  exact ⟨hfile.mpr (.inl rfl), (himage 320 240 (by decide) (by decide)).mpr (.inl rfl)⟩

theorem location_lost :
    (DownloadLocation.web ⟨.empty, 7⟩).serialize rawTexts = none ∧
    ∃ bytes, ImageLocation.serialize rawTexts ⟨.storage {}, 320, 240⟩ = some bytes ∧
      ImageLocation.fromSerialized rawTexts bytes = none :=
  ⟨rfl, ofInt 320 ++ ofInt 240, rfl, rfl⟩

end TelegramDesktop.Ui
