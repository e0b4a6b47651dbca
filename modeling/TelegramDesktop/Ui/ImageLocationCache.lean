import TelegramDesktop.Ui.ImageLocation

namespace TelegramDesktop.Ui.StorageFileLocation

/-- `Storage::Cache::Key`. -/
structure Key where
  high : UInt64
  low : UInt64
  deriving DecidableEq

def kDocumentCacheTag : UInt64 := 0x100

def kDocumentCacheMask : UInt64 := 0xFF

def kDocumentBaseCacheTag : UInt64 := 0x10000

def kDocumentBaseCacheMask : UInt64 := 0xFF00

def kPhotoBaseCacheTag : UInt64 := 0x20000

def kPhotoBaseCacheMask : UInt64 := 0xFF00

def documentCacheKey (dcId : UInt16) (id : UInt64) : Key :=
  ⟨kDocumentCacheTag ||| (dcId.toUInt64 &&& kDocumentCacheMask), id⟩

/-- `uint64(_type)`. -/
def typeNumber (location : StorageFileLocation) : UInt64 := location.type.toByte.toUInt64

/-- `uint64(uint32(_localId))`. -/
def localNumber (location : StorageFileLocation) : UInt64 := location.localId.toUInt32.toUInt64

def shifted (location : StorageFileLocation) : UInt64 := (location.typeNumber + 3) <<< 8

def sliced (location : StorageFileLocation) : UInt64 := location.dcId.toUInt64 &&& 0xFF

/-- The key of a photo, and of the thumbnail of a document. -/
def sizeKey (location : StorageFileLocation) : Key :=
  ⟨location.shifted ||| location.sliced ||| (location.sizeLetter.toUInt64 <<< 16), location.id⟩

def cacheKey (location : StorageFileLocation) : Key :=
  match location.type with
  | .legacy | .peerPhoto | .stickerSetThumb =>
    ⟨location.shifted ||| location.sliced ||| (location.localNumber <<< 16), location.volumeId⟩
  | .encrypted | .secure => ⟨location.shifted ||| location.sliced, location.id⟩
  | .document =>
    if location.sizeLetter = 0 then documentCacheKey location.dcId location.id
    else location.sizeKey
  | .photo => location.sizeKey
  | .takeout => ⟨location.shifted, 0⟩
  | .groupCallStream =>
    ⟨location.shifted ||| location.sliced ||| (location.localId.toUInt32 <<< 16).toUInt64
      ||| (location.volumeId <<< 20) ||| (location.sizeLetter.toUInt64 <<< 56), location.id⟩

/-- `none` for the types that have no slices. -/
def bigFileBaseCacheKey (location : StorageFileLocation) : Option Key :=
  match location.type with
  | .document =>
    some ⟨kDocumentBaseCacheTag ||| ((location.dcId.toUInt64 <<< 16) &&& kDocumentBaseCacheMask)
      ||| (location.id >>> 48), location.id <<< 16⟩
  | .stickerSetThumb =>
    some ⟨(location.localNumber <<< 24) ||| ((location.typeNumber + 1) <<< 16)
      ||| ((location.dcId.toUInt64 &&& 0xFF) <<< 8) ||| (location.volumeId >>> 56),
      location.volumeId <<< 8⟩
  | .photo =>
    some ⟨kPhotoBaseCacheTag ||| ((location.dcId.toUInt64 <<< 16) &&& kPhotoBaseCacheMask)
      ||| (location.id >>> 48), location.id <<< 16⟩
  | _ => none

/-- `operator==`. -/
def same (a b : StorageFileLocation) : Bool :=
  if a.valid ≠ b.valid then false
  else if !a.valid then true
  else if a.type ≠ b.type then false
  else
    match a.type with
    | .legacy => a.dcId == b.dcId && a.volumeId == b.volumeId && a.localId == b.localId
    | .encrypted | .secure => a.dcId == b.dcId && a.id == b.id
    | .photo | .document => a.dcId == b.dcId && a.id == b.id && a.sizeLetter == b.sizeLetter
    | .takeout => true
    | .peerPhoto =>
      a.dcId == b.dcId && a.volumeId == b.volumeId && a.localId == b.localId && a.id == b.id
        && a.sizeLetter == b.sizeLetter
    | .stickerSetThumb =>
      a.dcId == b.dcId && a.volumeId == b.volumeId && a.localId == b.localId && a.id == b.id
    | .groupCallStream =>
      a.dcId == b.dcId && a.id == b.id && a.localId == b.localId && a.sizeLetter == b.sizeLetter

/-- What is shifted over the bits of another word is added to it. -/
theorem or_shiftLeft {base k : ℕ} (h : base < 2 ^ k) (x : ℕ) :
    base ||| (x <<< k) = x * 2 ^ k + base := by
  rw [Nat.lor_comm, ← Nat.shiftLeft_add_eq_or_of_lt h, Nat.shiftLeft_eq]

theorem shiftLeft_or {base k : ℕ} (h : base < 2 ^ k) (x : ℕ) :
    (x * 2 ^ k) ||| base = x * 2 ^ k + base := by
  rw [← Nat.shiftLeft_eq, ← Nat.shiftLeft_add_eq_or_of_lt h]

theorem toNat_shiftLeft_of_lt {x k : UInt64} (hk : k.toNat < 64)
    (hx : x.toNat * 2 ^ k.toNat < 2 ^ 64) : (x <<< k).toNat = x.toNat * 2 ^ k.toNat := by
  rw [UInt64.toNat_shiftLeft, Nat.mod_eq_of_lt hk, Nat.shiftLeft_eq, Nat.mod_eq_of_lt hx]

section Words

variable (location : StorageFileLocation)

def typeNat : ℕ := location.type.toByte.toNat

def localNat : ℕ := location.localId.toUInt32.toNat

theorem typeNat_le : location.typeNat ≤ 8 := by
  unfold typeNat
  cases location.type <;> decide

theorem localNat_lt : location.localNat < 2 ^ 32 := location.localId.toUInt32.toNat_lt

theorem toNat_shifted : location.shifted.toNat = (location.typeNat + 3) * 256 := by
  unfold shifted typeNumber typeNat
  cases location.type <;> rfl

variable {location} (hdc : location.dcId.toNat < 256)
include hdc

theorem toNat_sliced : location.sliced.toNat = location.dcId.toNat := by
  have hmask : (0xFF : UInt64).toNat = 2 ^ 8 - 1 := rfl
  rw [sliced, UInt64.toNat_and, UInt16.toNat_toUInt64, hmask, Nat.and_two_pow_sub_one_eq_mod]
  exact Nat.mod_eq_of_lt hdc

theorem toNat_tag : (location.shifted ||| location.sliced).toNat =
    (location.typeNat + 3) * 256 + location.dcId.toNat := by
  rw [UInt64.toNat_or, toNat_shifted, toNat_sliced hdc]
  exact shiftLeft_or (k := 8) hdc _

/-- A word of up to 48 bits above the type and the dc. -/
theorem toNat_tagged {x : UInt64} (hx : x.toNat < 2 ^ 48) :
    (location.shifted ||| location.sliced ||| (x <<< 16)).toNat =
      x.toNat * 65536 + ((location.typeNat + 3) * 256 + location.dcId.toNat) := by
  have htype := location.typeNat_le
  have hshift : (x <<< 16).toNat = x.toNat * 2 ^ 16 :=
    toNat_shiftLeft_of_lt (k := 16) (by decide) (by
      change x.toNat * 2 ^ 16 < 2 ^ 64
      omega)
  have hor : (location.typeNat + 3) * 256 + location.dcId.toNat ||| (x.toNat <<< 16) = _ :=
    or_shiftLeft (by omega) x.toNat
  rw [Nat.shiftLeft_eq] at hor
  rw [UInt64.toNat_or, toNat_tag hdc, hshift, hor]
  norm_num

theorem toNat_documentCacheKey (id : UInt64) :
    (documentCacheKey location.dcId id).high.toNat = 256 + location.dcId.toNat := by
  have hsliced := toNat_sliced hdc
  change (kDocumentCacheTag ||| location.sliced).toNat = _
  rw [UInt64.toNat_or, hsliced]
  exact shiftLeft_or (k := 8) hdc 1

end Words

/-- The types whose keys are told apart. -/
def LocationType.keyed : LocationType → Bool
  | .legacy | .secure | .document | .photo | .peerPhoto | .stickerSetThumb => true
  | .encrypted | .takeout | .groupCallStream => false

def isFullDocument (location : StorageFileLocation) : Bool :=
  location.type == .document && location.sizeLetter == 0

/-- The low 16 bits of the high word. -/
def tagNat (location : StorageFileLocation) : ℕ :=
  (if location.isFullDocument then 1 else location.typeNat + 3) * 256 + location.dcId.toNat

/-- The bits above them. -/
def restNat (location : StorageFileLocation) : ℕ :=
  match location.type with
  | .legacy | .peerPhoto | .stickerSetThumb => location.localNat
  | .document | .photo => location.sizeLetter.toNat
  | _ => 0

def lowWord (location : StorageFileLocation) : UInt64 :=
  match location.type with
  | .legacy | .peerPhoto | .stickerSetThumb => location.volumeId
  | _ => location.id

theorem cacheKey_parts {location : StorageFileLocation} (hdc : location.dcId.toNat < 256)
    (htype : location.type.keyed = true) :
    location.cacheKey.high.toNat = location.restNat * 65536 + location.tagNat ∧
      location.cacheKey.low = location.lowWord := by
  have hlocal : location.localNumber.toNat < 2 ^ 48 := by
    have := location.localNat_lt
    rw [localNumber, UInt32.toNat_toUInt64]
    unfold localNat at this
    omega
  have hletter : location.sizeLetter.toUInt64.toNat < 2 ^ 48 := by
    have := location.sizeLetter.toNat_lt
    rw [UInt8.toNat_toUInt64]
    omega
  unfold cacheKey restNat tagNat lowWord isFullDocument
  cases h : location.type with
  | encrypted | takeout | groupCallStream =>
    rw [h] at htype
    exact nomatch htype
  | legacy | peerPhoto | stickerSetThumb => exact ⟨toNat_tagged hdc hlocal, rfl⟩
  | secure => exact ⟨(toNat_tag hdc).trans (by simp), rfl⟩
  | photo => exact ⟨toNat_tagged hdc hletter, rfl⟩
  | document =>
    dsimp only
    by_cases hzero : location.sizeLetter = 0
    · rw [if_pos hzero, hzero]
      exact ⟨(toNat_documentCacheKey hdc _).trans (by simp), rfl⟩
    · rw [if_neg hzero]
      refine ⟨(toNat_tagged hdc hletter).trans ?_, rfl⟩
      simp [hzero]

theorem LocationType.toByte_injective : Function.Injective LocationType.toByte := by
  intro a b h
  cases a <;> cases b <;> first | rfl | exact absurd h (by decide)

theorem tagNat_lt {location : StorageFileLocation} (hdc : location.dcId.toNat < 256) :
    location.tagNat < 65536 := by
  have htype := location.typeNat_le
  unfold tagNat
  split_ifs <;> omega

theorem parts_of_tagNat {a b : StorageFileLocation} (ha : a.dcId.toNat < 256)
    (hb : b.dcId.toNat < 256) (h : a.tagNat = b.tagNat) : a.type = b.type ∧ a.dcId = b.dcId := by
  have hfull : ∀ location : StorageFileLocation, location.isFullDocument = true →
      location.type = .document := fun location hfull => by
    unfold isFullDocument at hfull
    simp only [Bool.and_eq_true, beq_iff_eq] at hfull
    exact hfull.1
  have hdc : a.dcId.toNat = b.dcId.toNat → a.dcId = b.dcId := fun heq => UInt16.toNat_inj.mp heq
  unfold tagNat at h
  split_ifs at h with hafull hbfull hbfull
  · exact ⟨(hfull a hafull).trans (hfull b hbfull).symm, hdc (by omega)⟩
  · omega
  · omega
  · have htype : a.typeNat = b.typeNat := by omega
    exact ⟨LocationType.toByte_injective (UInt8.toNat_inj.mp htype), hdc (by omega)⟩

/-- The fields a key is made of. -/
theorem parts_of_cacheKey {a b : StorageFileLocation} (ha : a.dcId.toNat < 256)
    (hb : b.dcId.toNat < 256) (hak : a.type.keyed = true) (hbk : b.type.keyed = true)
    (h : a.cacheKey = b.cacheKey) :
    a.type = b.type ∧ a.dcId = b.dcId ∧ a.restNat = b.restNat ∧ a.lowWord = b.lowWord := by
  obtain ⟨hahigh, halow⟩ := cacheKey_parts ha hak
  obtain ⟨hbhigh, hblow⟩ := cacheKey_parts hb hbk
  have hatag := tagNat_lt ha
  have hbtag := tagNat_lt hb
  have hhigh : a.restNat * 65536 + a.tagNat = b.restNat * 65536 + b.tagNat := by
    rw [← hahigh, ← hbhigh, h]
  obtain ⟨htype, hdc⟩ := parts_of_tagNat ha hb (by omega)
  exact ⟨htype, hdc, by omega, by rw [← halow, ← hblow, h]⟩

theorem localId_of_localNat {a b : StorageFileLocation} (h : a.localNat = b.localNat) :
    a.localId = b.localId := congrArg Int32.ofUInt32 (UInt32.toNat_inj.mp h)

/-- Keys leave out the peer and the size of a peer photo, and the id of a sticker set. -/
def SharesKey (a b : StorageFileLocation) : Prop :=
  a.type = b.type ∧ (a.type = .peerPhoto ∨ a.type = .stickerSetThumb) ∧ a.dcId = b.dcId ∧
    a.volumeId = b.volumeId ∧ a.localId = b.localId

theorem cacheKey_eq_iff {a b : StorageFileLocation} (ha : a.dcId.toNat < 256)
    (hb : b.dcId.toNat < 256) (hak : a.type.keyed = true) (hbk : b.type.keyed = true)
    (hav : a.valid = true) (hbv : b.valid = true) (hdiffer : same a b = false) :
    a.cacheKey = b.cacheKey ↔ SharesKey a b := by
  constructor
  · intro h
    obtain ⟨htype, hdc, hrest, hlow⟩ := parts_of_cacheKey ha hb hak hbk h
    unfold SharesKey
    unfold same at hdiffer
    simp only [hav, hbv, htype, ne_eq, not_true_eq_false, if_false, Bool.not_true,
      Bool.false_eq_true] at hdiffer
    unfold restNat at hrest
    unfold lowWord at hlow
    rw [htype] at hrest hlow
    cases hkind : b.type with
    | encrypted | takeout | groupCallStream =>
      rw [hkind] at hbk
      exact nomatch hbk
    | legacy =>
      rw [hkind] at hdiffer hrest hlow
      have hlocal := localId_of_localNat hrest
      simp [hdc, show a.volumeId = b.volumeId from hlow, hlocal] at hdiffer
    | secure =>
      rw [hkind] at hdiffer hlow
      simp [hdc, show a.id = b.id from hlow] at hdiffer
    | document | photo =>
      rw [hkind] at hdiffer hrest hlow
      have hletter : a.sizeLetter = b.sizeLetter := UInt8.toNat_inj.mp hrest
      simp [hdc, show a.id = b.id from hlow, hletter] at hdiffer
    | peerPhoto =>
      rw [hkind] at hrest hlow
      exact ⟨htype.trans hkind, Or.inl (htype.trans hkind), hdc, hlow, localId_of_localNat hrest⟩
    | stickerSetThumb =>
      rw [hkind] at hrest hlow
      exact ⟨htype.trans hkind, Or.inr (htype.trans hkind), hdc, hlow, localId_of_localNat hrest⟩
  · -- nothing else goes into the key of these types
    rintro ⟨htype, hkind, hdc, hvolume, hlocal⟩
    unfold cacheKey shifted sliced typeNumber localNumber
    rw [← htype, hdc, hvolume, hlocal]
    rcases hkind with hkind | hkind <;> rw [hkind]

/-- The key of a slice. -/
def Key.slice (base : Key) (n : ℕ) : Key := ⟨base.high, base.low + UInt64.ofNat n⟩

/-- The keys of the slices leave out the dc and the size of a document and a photo, and the id of
a sticker set. -/
def SharesSlices (a b : StorageFileLocation) : Prop :=
  a.type = b.type ∧
    ((a.type = .document ∨ a.type = .photo) ∧ a.id = b.id ∨
      a.type = .stickerSetThumb ∧ a.dcId = b.dcId ∧ a.volumeId = b.volumeId ∧
        a.localId = b.localId)

def LocationType.isBig : LocationType → Bool
  | .document | .photo | .stickerSetThumb => true
  | _ => false

/-- The high word of a base key, and the low one. -/
def baseNat (location : StorageFileLocation) : ℕ × ℕ :=
  match location.type with
  | .document => (65536 + location.id.toNat / 2 ^ 48, location.id.toNat % 2 ^ 48 * 65536)
  | .photo => (2 * 65536 + location.id.toNat / 2 ^ 48, location.id.toNat % 2 ^ 48 * 65536)
  | _ => (((location.localNat * 256 + 8) * 256 + location.dcId.toNat) * 256
      + location.volumeId.toNat / 2 ^ 56, location.volumeId.toNat % 2 ^ 56 * 256)

/-- The dc is shifted out of its mask. -/
theorem masked_eq_zero (dcId : UInt16) : (dcId.toUInt64 <<< 16) &&& 0xFF00 = 0 := by
  have hdc := dcId.toNat_lt
  have hshift : (dcId.toUInt64 <<< 16).toNat = dcId.toNat * 2 ^ 16 :=
    toNat_shiftLeft_of_lt (k := 16) (by decide) (by
      change dcId.toNat * 2 ^ 16 < 2 ^ 64
      omega)
  apply UInt64.toNat_inj.mp
  rw [UInt64.toNat_and, hshift, ← Nat.shiftLeft_eq]
  apply Nat.eq_of_testBit_eq
  intro i
  rw [Nat.testBit_and, Nat.testBit_shiftLeft]
  rcases Nat.lt_or_ge i 16 with hi | hi
  · simp [hi]
  · have hmask : Nat.testBit (0xFF00 : UInt64).toNat i = false :=
      Nat.testBit_lt_two_pow (lt_of_lt_of_le (by decide : (0xFF00 : ℕ) < 2 ^ 16)
        (Nat.pow_le_pow_right (by decide) hi))
    rw [hmask, Bool.and_false]
    exact (Nat.zero_testBit i).symm

theorem toNat_shiftRight {x k : UInt64} (hk : k.toNat < 64) :
    (x >>> k).toNat = x.toNat / 2 ^ k.toNat := by
  rw [UInt64.toNat_shiftRight, Nat.mod_eq_of_lt hk, Nat.shiftRight_eq_div_pow]

/-- A shift drops the bits above. -/
theorem toNat_shiftLeft_mod (x : UInt64) {k : UInt64} {m : ℕ} (hk : k.toNat + m = 64)
    (hm : 0 < m) : (x <<< k).toNat = x.toNat % 2 ^ m * 2 ^ k.toNat := by
  have hpow : (2 : ℕ) ^ 64 = 2 ^ m * 2 ^ k.toNat := by rw [← pow_add, ← hk, Nat.add_comm]
  have hmod : k.toNat % 64 = k.toNat := Nat.mod_eq_of_lt (by omega)
  rw [UInt64.toNat_shiftLeft, hmod, Nat.shiftLeft_eq, hpow, Nat.mul_mod_mul_right]

theorem baseKey_parts {location : StorageFileLocation} (hdc : location.dcId.toNat < 256)
    (htype : location.type.isBig = true) :
    ∃ key, location.bigFileBaseCacheKey = some key ∧ key.high.toNat = location.baseNat.1 ∧
      key.low.toNat = location.baseNat.2 := by
  have hid : (location.id >>> 48).toNat = location.id.toNat / 2 ^ 48 :=
    toNat_shiftRight (k := 48) (by decide)
  have hidlow : (location.id <<< 16).toNat = location.id.toNat % 2 ^ 48 * 65536 :=
    toNat_shiftLeft_mod location.id (k := 16) (m := 48) (by decide) (by decide)
  have hidlt := location.id.toNat_lt
  have hsmall : location.id.toNat / 2 ^ 48 < 2 ^ 16 := by omega
  unfold bigFileBaseCacheKey baseNat
  cases h : location.type with
  | document =>
    refine ⟨_, rfl, ?_, hidlow⟩
    change (kDocumentBaseCacheTag ||| ((location.dcId.toUInt64 <<< 16) &&& (0xFF00 : UInt64)) |||
      (location.id >>> 48)).toNat = _
    rw [masked_eq_zero, UInt64.or_zero, UInt64.toNat_or, hid]
    exact shiftLeft_or (k := 16) hsmall 1
  | photo =>
    refine ⟨_, rfl, ?_, hidlow⟩
    change (kPhotoBaseCacheTag ||| ((location.dcId.toUInt64 <<< 16) &&& (0xFF00 : UInt64)) |||
      (location.id >>> 48)).toNat = _
    rw [masked_eq_zero, UInt64.or_zero, UInt64.toNat_or, hid]
    exact shiftLeft_or (k := 16) hsmall 2
  | stickerSetThumb =>
    have hlocalLt := location.localNat_lt
    have hvolumeLt := location.volumeId.toNat_lt
    have hlocal : (location.localNumber <<< 24).toNat = location.localNat * 2 ^ 24 :=
      toNat_shiftLeft_of_lt (k := 24) (by decide) (by
        change location.localNat * 2 ^ 24 < 2 ^ 64
        omega)
    have htag : ((location.typeNumber + 1) <<< 16).toNat = 8 * 2 ^ 16 := by
      unfold typeNumber
      rw [h]
      rfl
    have hdcShift : ((location.dcId.toUInt64 &&& 0xFF) <<< 8).toNat =
        location.dcId.toNat * 2 ^ 8 := by
      have hsliced := toNat_sliced hdc
      unfold sliced at hsliced
      rw [toNat_shiftLeft_of_lt (k := 8) (by decide), hsliced]
      · rfl
      · rw [hsliced]
        change location.dcId.toNat * 2 ^ 8 < 2 ^ 64
        omega
    have hvolume : (location.volumeId >>> 56).toNat = location.volumeId.toNat / 2 ^ 56 :=
      toNat_shiftRight (k := 56) (by decide)
    refine ⟨_, rfl, ?_, toNat_shiftLeft_mod location.volumeId (k := 8) (m := 56) (by decide)
      (by decide)⟩
    simp only [UInt64.toNat_or, hlocal, htag, hdcShift, hvolume]
    have hfirst : location.localNat * 2 ^ 24 ||| 8 * 2 ^ 16 =
        (location.localNat * 256 + 8) * 2 ^ 16 := by
      have hbase : 8 * 2 ^ 16 < 2 ^ 24 := by decide
      exact (shiftLeft_or hbase location.localNat).trans (by ring)
    have hsecond : (location.localNat * 256 + 8) * 2 ^ 16 ||| location.dcId.toNat * 2 ^ 8 =
        ((location.localNat * 256 + 8) * 256 + location.dcId.toNat) * 2 ^ 8 := by
      have hbase : location.dcId.toNat * 2 ^ 8 < 2 ^ 16 := by omega
      exact (shiftLeft_or hbase (location.localNat * 256 + 8)).trans (by ring)
    have hbase : location.volumeId.toNat / 2 ^ 56 < 2 ^ 8 := by omega
    rw [hfirst, hsecond, shiftLeft_or hbase]
    norm_num
  | legacy | encrypted | secure | takeout | peerPhoto | groupCallStream =>
    rw [h] at htype
    exact nomatch htype

theorem baseNat_low (location : StorageFileLocation) :
    location.baseNat.2 + 256 ≤ 2 ^ 64 := by
  unfold baseNat
  cases location.type <;> dsimp only <;> omega

theorem toNat_slice {location : StorageFileLocation} {key : Key} (n : ℕ) (hn : n < 256)
    (hlow : key.low.toNat = location.baseNat.2) :
    (key.slice n).low.toNat = location.baseNat.2 + n := by
  have hle := baseNat_low location
  change (key.low + UInt64.ofNat n).toNat = _
  rw [UInt64.toNat_add, UInt64.toNat_ofNat', hlow]
  omega

theorem sharesSlices_of_eq {a b : StorageFileLocation} (ha : a.dcId.toNat < 256)
    (hb : b.dcId.toNat < 256) (hab : a.type.isBig = true) (hbb : b.type.isBig = true)
    (hhigh : a.baseNat.1 = b.baseNat.1) {n m : ℕ} (hn : n < 256) (hm : m < 256)
    (hlow : a.baseNat.2 + n = b.baseNat.2 + m) : SharesSlices a b := by
  have haid := a.id.toNat_lt
  have hbid := b.id.toNat_lt
  have hav := a.volumeId.toNat_lt
  have hbv := b.volumeId.toNat_lt
  have hid : a.id.toNat = b.id.toNat → a.id = b.id := fun h => UInt64.toNat_inj.mp h
  have hvolume : a.volumeId.toNat = b.volumeId.toNat → a.volumeId = b.volumeId := fun h =>
    UInt64.toNat_inj.mp h
  have hdc : a.dcId.toNat = b.dcId.toNat → a.dcId = b.dcId := fun h => UInt16.toNat_inj.mp h
  unfold baseNat at hhigh hlow
  unfold SharesSlices
  have hbig : ∀ type : LocationType, type.isBig = true →
      type = .document ∨ type = .photo ∨ type = .stickerSetThumb := by
    intro type htype
    cases type <;> first | exact absurd htype (by decide) | simp
  -- the tags above the low words keep the types apart
  rcases hbig _ hab with hatype | hatype | hatype <;>
    rcases hbig _ hbb with hbtype | hbtype | hbtype <;>
    simp only [hatype, hbtype] at hhigh hlow ⊢
  · exact ⟨trivial, Or.inl ⟨Or.inl trivial, hid (by omega)⟩⟩
  · omega
  · omega
  · omega
  · exact ⟨trivial, Or.inl ⟨Or.inr trivial, hid (by omega)⟩⟩
  · omega
  · omega
  · omega
  · exact ⟨trivial, Or.inr ⟨trivial, hdc (by omega), hvolume (by omega),
      localId_of_localNat (by omega)⟩⟩

/-- Two locations whose files do not get in each other's way. -/
def KeysApart (a b : StorageFileLocation) : Prop :=
  a.cacheKey ≠ b.cacheKey ∧
    ∀ ka kb, a.bigFileBaseCacheKey = some ka → b.bigFileBaseCacheKey = some kb →
      ∀ n < 256, ∀ m < 256, ka.slice n ≠ kb.slice m

theorem isBig_of_some {location : StorageFileLocation} {key : Key}
    (h : location.bigFileBaseCacheKey = some key) : location.type.isBig = true := by
  unfold bigFileBaseCacheKey at h
  cases htype : location.type <;> rw [htype] at h <;> first | rfl | exact nomatch h

theorem slices_meet_iff {a b : StorageFileLocation} (ha : a.dcId.toNat < 256)
    (hb : b.dcId.toNat < 256) :
    (∃ ka kb, a.bigFileBaseCacheKey = some ka ∧ b.bigFileBaseCacheKey = some kb ∧
      ∃ n < 256, ∃ m < 256, ka.slice n = kb.slice m) ↔ SharesSlices a b := by
  constructor
  · rintro ⟨ka, kb, hka, hkb, n, hn, m, hm, heq⟩
    obtain ⟨ka', hka', hahigh, halow⟩ := baseKey_parts ha (isBig_of_some hka)
    obtain ⟨kb', hkb', hbhigh, hblow⟩ := baseKey_parts hb (isBig_of_some hkb)
    obtain rfl := Option.some.inj (hka.symm.trans hka')
    obtain rfl := Option.some.inj (hkb.symm.trans hkb')
    have hhigh := congrArg Key.high heq
    change ka.high = kb.high at hhigh
    have hlow : (ka.slice n).low.toNat = (kb.slice m).low.toNat := by rw [heq]
    rw [toNat_slice n hn halow, toNat_slice m hm hblow] at hlow
    exact sharesSlices_of_eq ha hb (isBig_of_some hka) (isBig_of_some hkb)
      (by rw [← hahigh, ← hbhigh, hhigh]) hn hm hlow
  · rintro ⟨htype, hfields⟩
    have hbig : a.type.isBig = true := by
      rcases hfields with ⟨hkind | hkind, -⟩ | ⟨hkind, -⟩ <;> rw [hkind] <;> rfl
    obtain ⟨ka, hka, -⟩ := baseKey_parts ha hbig
    have hkb : b.bigFileBaseCacheKey = some ka := by
      rw [← hka]
      unfold bigFileBaseCacheKey
      rcases hfields with ⟨hkind, hid⟩ | ⟨hkind, hdc, hvolume, hlocal⟩
      · have hdocument : ∀ dcId : UInt16,
            (dcId.toUInt64 <<< 16) &&& kDocumentBaseCacheMask = 0 := masked_eq_zero
        have hphoto : ∀ dcId : UInt16,
            (dcId.toUInt64 <<< 16) &&& kPhotoBaseCacheMask = 0 := masked_eq_zero
        rw [← htype, hid]
        rcases hkind with hkind | hkind
        · simp only [hkind, hdocument]
        · simp only [hkind, hphoto]
      · unfold localNumber typeNumber
        rw [← htype, hdc, hvolume, hlocal, hkind]
    exact ⟨ka, ka, hka, hkb, 0, by decide, 0, by decide, rfl⟩

/-- Different locations are kept apart except for peer photos and sticker sets that differ in
what their keys leave out, and for slices of files that differ in the dc or the size alone. -/
theorem keysApart_iff {a b : StorageFileLocation} (ha : a.dcId.toNat < 256)
    (hb : b.dcId.toNat < 256) (hak : a.type.keyed = true) (hbk : b.type.keyed = true)
    (hav : a.valid = true) (hbv : b.valid = true) (hdiffer : same a b = false) :
    KeysApart a b ↔ ¬SharesKey a b ∧ ¬SharesSlices a b := by
  unfold KeysApart
  rw [← slices_meet_iff ha hb, ← cacheKey_eq_iff ha hb hak hbk hav hbv hdiffer]
  refine and_congr_right fun _ => ⟨?_, ?_⟩
  · rintro h ⟨ka, kb, hka, hkb, n, hn, m, hm, heq⟩
    exact h ka kb hka hkb n hn m hm heq
  · intro h ka kb hka hkb n hn m hm heq
    exact h ⟨ka, kb, hka, hkb, n, hn, m, hm, heq⟩

/-- The full photo of a user. -/
def samplePeerPhoto (sizeLetter : UInt8) : StorageFileLocation where
  dcId := 2
  type := .peerPhoto
  sizeLetter := sizeLetter
  id := 5
  volumeId := 7

def sampleDocument (id : UInt64) : StorageFileLocation where
  dcId := 2
  type := .document
  id := id

theorem keysApart_iff_documents :
    KeysApart (sampleDocument 5) (sampleDocument 6) ↔
      ¬SharesKey (sampleDocument 5) (sampleDocument 6) ∧
        ¬SharesSlices (sampleDocument 5) (sampleDocument 6) :=
  keysApart_iff (by decide) (by decide) (by decide) (by decide) (by decide) (by decide)
    (by decide)

/-- The small photo of a user and the big one have one key. -/
theorem peerPhoto_sizes_share_key :
    ¬∀ a b : StorageFileLocation, a.dcId.toNat < 256 → b.dcId.toNat < 256 →
      a.type.keyed = true → b.type.keyed = true → a.valid = true → b.valid = true →
      same a b = false → KeysApart a b := by
  intro h
  have hapart := h (samplePeerPhoto 97) (samplePeerPhoto 99) (by decide) (by decide) (by decide)
    (by decide) (by decide) (by decide) (by decide)
  exact hapart.1 (by decide)

end TelegramDesktop.Ui.StorageFileLocation
