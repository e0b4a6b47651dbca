import Mathlib
import TelegramDesktop.Storage.UploaderRuns

namespace TelegramDesktop.Storage

open Base

variable {ι : Type*}

def SavePart.part : SavePart → ℕ
  | .saveFilePart _ part _ => part
  | .saveBigFilePart _ part _ _ => part

def SavePart.fileId : SavePart → ℕ
  | .saveFilePart fileId _ _ => fileId
  | .saveBigFilePart fileId _ _ _ => fileId

/-- The parts that are counted in it, by their file and their number. -/
def InputFile.places : InputFile → List (ℕ × ℕ)
  | .inputFile id parts _ => (List.range parts).map fun part => (id, part)
  | .inputFileBig id parts => (List.range parts).map fun part => (id, part)

def Ready.places : Ready ι → List (ℕ × ℕ)
  | .photo _ file => file.places
  | .document _ file thumb => (thumb.map InputFile.places).getD [] ++ file.places
  | .secure _ fileId parts => (List.range parts).map fun part => (fileId, part)

namespace FilePrepareResult

/-- The content, wherever it is. -/
def data (file : FilePrepareResult) : Bytes :=
  if file.content ≠ [] then file.content else file.disk.read 0 file.filesize

/-- A file that can be uploaded and does not change meanwhile. -/
structure Unchanged (file : FilePrepareResult) : Prop where
  length : file.data.length = file.filesize
  read : file.content = [] → ∀ position size,
    file.disk.read position size = (file.data.drop position).take size
  limit : file.filesize ≤ 8000 * kDocumentUploadPartSize4

end FilePrepareResult

namespace Entry

def chunk (entry : Entry ι) (part : ℕ) : Bytes :=
  (entry.file.data.drop (part * entry.docPartSize)).take entry.docPartSize

def slicedPart (entry : Entry ι) (part : ℕ) : SavePart :=
  .saveFilePart entry.partsOfId part (entry.parts.getD part [])

def documentPart (entry : Entry ι) (part : ℕ) : SavePart :=
  if kUseBigFilesFrom < entry.docSize then
    .saveBigFilePart entry.file.id part entry.docPartsCount (entry.chunk part)
  else .saveFilePart entry.file.id part (entry.chunk part)

/-- The parts that are sent, each once. -/
def sentParts (entry : Entry ι) : List SavePart :=
  (List.range entry.partsSent).map entry.slicedPart ++
    (List.range entry.docPartsSent).map entry.documentPart

/-- What `sendPendingPart` asks for. -/
def resent (entry : Entry ι) (request : Request ι) : SavePart :=
  if request.bigPart then
    .saveBigFilePart entry.file.id request.part entry.docPartsCount request.bytes
  else
    .saveFilePart (if request.docPart then entry.file.id else entry.partsOfId) request.part
      request.bytes

/-- What a request knows of its part: all of a document part, but no number of a sliced one. -/
structure Known (entry : Entry ι) (request : Request ι) : Prop where
  document : request.docPart = true → entry.resent request = request.asked
  sliced : request.docPart = false → request.part = 0 ∧ request.bigPart = false ∧
    ∃ part, request.asked = .saveFilePart entry.partsOfId part request.bytes

/-- How far a document is read. -/
structure Reading (entry : Entry ι) : Prop where
  none : entry.file.type.isDocument = false → entry.docPartsCount = 0
  file : entry.file.type.isDocument = true → entry.file.Unchanged
  docSize : entry.file.type.isDocument = true → entry.docSize = entry.file.filesize
  docPartSize : entry.file.type.isDocument = true →
    entry.docPartSize ∈ [kDocumentUploadPartSize0, kDocumentUploadPartSize1,
      kDocumentUploadPartSize2, kDocumentUploadPartSize3, kDocumentUploadPartSize4]
  docPartsCount : entry.file.type.isDocument = true →
    entry.docPartsCount = (entry.docSize + entry.docPartSize - 1) / entry.docPartSize
  docFile : entry.file.content = [] → entry.docPartsSent < entry.docPartsCount →
    entry.docFile.getD 0 = entry.docPartsSent * entry.docPartSize
  md5Hash : entry.file.type.isDocument = true → entry.docSize ≤ kUseBigFilesFrom →
    entry.md5Hash = entry.file.data.take (entry.docPartsSent * entry.docPartSize)

theorem Reading.isDocument {entry : Entry ι} (h : entry.Reading)
    (hunsent : entry.docPartsSent < entry.docPartsCount) :
    entry.file.type.isDocument = true := by
  cases htype : entry.file.type.isDocument with
  | true => rfl
  | false =>
    rw [h.none htype] at hunsent
    exact absurd hunsent (Nat.not_lt_zero _)

theorem Reading.docPartSize_pos {entry : Entry ι} (h : entry.Reading)
    (hdocument : entry.file.type.isDocument = true) : 0 < entry.docPartSize := by
  have hsize := h.docPartSize hdocument
  simp only [List.mem_cons, List.not_mem_nil, or_false] at hsize
  rcases hsize with h | h | h | h | h
  all_goals
    rw [h]
    decide

/-- A part that is not sent begins before the end. -/
theorem Reading.offset_lt {entry : Entry ι} (h : entry.Reading)
    (hunsent : entry.docPartsSent < entry.docPartsCount) :
    entry.docPartsSent * entry.docPartSize < entry.docSize := by
  have hdocument := h.isDocument hunsent
  have hpos := h.docPartSize_pos hdocument
  rw [h.docPartsCount hdocument] at hunsent
  have hle := (Nat.le_div_iff_mul_le hpos).mp hunsent
  rw [Nat.succ_mul] at hle
  omega

/-- A product that does not fit an `int` is before the beginning of the content. -/
theorem Reading.mid_docOffset {entry : Entry ι} (h : entry.Reading)
    (hunsent : entry.docPartsSent < entry.docPartsCount) {bytes : Bytes}
    (hne : mid bytes entry.docOffset entry.docPartSize ≠ []) :
    mid bytes entry.docOffset entry.docPartSize =
      (bytes.drop (entry.docPartsSent * entry.docPartSize)).take entry.docPartSize := by
  have hdocument := h.isDocument hunsent
  have hlimit := (h.file hdocument).limit
  have hdocSize := h.docSize hdocument
  have hlt := h.offset_lt hunsent
  have hdvd : entry.docPartSize ∣ 4294967296 := by
    have hsize := h.docPartSize hdocument
    simp only [List.mem_cons, List.not_mem_nil, or_false] at hsize
    rcases hsize with h | h | h | h | h
    all_goals
      rw [h]
      decide
  obtain ⟨count, hcount⟩ := hdvd
  generalize hoffset : entry.docPartsSent * entry.docPartSize = offset at hlt
  have hend : offset < 4294967296 := by
    rw [kDocumentUploadPartSize4] at hlimit
    omega
  have hnext : offset + entry.docPartSize ≤ 4294967296 := by
    rw [hcount, mul_comm entry.docPartSize, ← hoffset] at hend ⊢
    have hless : entry.docPartsSent < count := lt_of_mul_lt_mul_right hend (Nat.zero_le _)
    rw [← Nat.succ_mul]
    exact Nat.mul_le_mul_right _ hless
  have hvalue : entry.docOffset =
      if offset < 2147483648 then (offset : ℤ) else (offset : ℤ) - 4294967296 := by
    rw [docOffset, ← Nat.cast_mul, hoffset, Int.bmod_def]
    have hmod : (offset : ℤ) % (intEnd : ℕ) = offset :=
      Int.emod_eq_of_lt (Int.natCast_nonneg _) (by rw [intEnd]; omega)
    rw [hmod]
    have hhalf : (((intEnd : ℕ) : ℤ) + 1) / 2 = 2147483648 := rfl
    have hwhole : ((intEnd : ℕ) : ℤ) = 4294967296 := rfl
    rw [hhalf, hwhole]
    split_ifs
    · rfl
    · omega
    · omega
    · rfl
  rw [hvalue] at hne ⊢
  by_cases hsmall : offset < 2147483648
  · rw [if_pos hsmall, mid, if_neg (Int.not_lt.mpr (Int.natCast_nonneg _)), Int.toNat_natCast]
  · rw [if_neg hsmall, mid, if_pos (by omega)] at hne
    have hzero : ((offset : ℤ) - 4294967296 + entry.docPartSize).toNat = 0 := by omega
    rw [hzero, List.take_zero] at hne
    exact absurd rfl hne

theorem checked_spec {entry entry' : Entry ι} {result bytes : Bytes}
    (h : entry.checked result = (entry', bytes)) (hne : bytes ≠ []) :
    bytes = result ∧ result.length ≤ entry.docPartSize ∧
      (entry.docPartsSent + 1 ≠ entry.docPartsCount → entry.docPartSize ≤ result.length) ∧
      entry' = { entry with
        md5Hash := if entry.file.type.isDocument && decide (entry.docSize ≤ kUseBigFilesFrom) then
          entry.md5Hash ++ result else entry.md5Hash } := by
  rw [checked] at h
  have hsame : (if entry.file.type.isDocument && decide (entry.docSize ≤ kUseBigFilesFrom) then
      { entry with md5Hash := entry.md5Hash ++ result } else entry) = { entry with
        md5Hash := if entry.file.type.isDocument && decide (entry.docSize ≤ kUseBigFilesFrom) then
          entry.md5Hash ++ result else entry.md5Hash } := by
    split_ifs
    · rfl
    · rfl
  rw [hsame] at h
  by_cases hbad : result = [] ∨ entry.docPartSize < result.length ∨
      (result.length < entry.docPartSize ∧ entry.docPartsSent + 1 ≠ entry.docPartsCount)
  · rw [if_pos hbad] at h
    exact absurd (Prod.mk.inj h).2.symm hne
  · rw [if_neg hbad] at h
    obtain ⟨hentry, hbytes⟩ := Prod.mk.inj h
    refine ⟨hbytes.symm, ?_, ?_, hentry.symm⟩
    · by_contra hlong
      exact hbad (Or.inr (Or.inl (Nat.lt_of_not_le hlong)))
    · intro hnext
      by_contra hshort
      exact hbad (Or.inr (Or.inr ⟨Nat.lt_of_not_le hshort, hnext⟩))

theorem Reading.readDocPart {entry entry' : Entry ι} (h : entry.Reading) {bytes : Bytes}
    (hunsent : entry.docPartsSent < entry.docPartsCount)
    (hread : entry.readDocPart = (entry', bytes)) (hne : bytes ≠ []) :
    bytes = entry.chunk entry.docPartsSent ∧
      ∀ docPartsWaiting, ({ entry' with
        docPartsSent := entry.docPartsSent + 1
        docPartsWaiting := docPartsWaiting } : Entry ι).Reading := by
  have hdocument := h.isDocument hunsent
  have hdata : ∀ docFile,
      ({ entry with docFile := docFile } : Entry ι).checked bytes = (entry', bytes) →
      bytes = entry.chunk entry.docPartsSent →
      (entry.file.content = [] →
        docFile = some (entry.docPartsSent * entry.docPartSize + bytes.length)) →
      ∀ docPartsWaiting, ({ entry' with
        docPartsSent := entry.docPartsSent + 1
        docPartsWaiting := docPartsWaiting } : Entry ι).Reading := by
    intro docFile hchecked hchunk hposition docPartsWaiting
    obtain ⟨-, hle, hfull, rfl⟩ := checked_spec hchecked hne
    constructor
    · exact h.none
    · exact h.file
    · exact h.docSize
    · exact h.docPartSize
    · exact h.docPartsCount
    · intro hcontent hnext
      dsimp only at hnext hle hfull ⊢
      have hlength : bytes.length = entry.docPartSize := le_antisymm hle (hfull (by omega))
      rw [hposition hcontent, Option.getD_some, hlength, Nat.succ_mul]
    · intro _ hsmall
      dsimp only at hsmall ⊢
      rw [hdocument, decide_eq_true hsmall, Bool.and_self, if_pos rfl,
        h.md5Hash hdocument hsmall, Nat.succ_mul, List.take_add, hchunk, chunk]
  rw [Entry.readDocPart] at hread
  by_cases hcontent : entry.file.content ≠ []
  · rw [if_pos hcontent] at hread
    obtain ⟨hbytes, -⟩ := checked_spec hread hne
    have hmid := h.mid_docOffset hunsent (hbytes ▸ hne)
    have hchunk : bytes = entry.chunk entry.docPartsSent := by
      rw [hbytes, hmid, chunk, FilePrepareResult.data, if_pos hcontent]
    refine ⟨hchunk, hdata entry.docFile ?_ hchunk fun hnil => absurd hnil hcontent⟩
    rw [← hbytes] at hread
    exact hread
  · rw [if_neg hcontent] at hread
    have hnil : entry.file.content = [] := not_not.mp hcontent
    have hposition := h.docFile hnil hunsent
    have hfile := (h.file hdocument).read hnil
    cases hdocFile : entry.docFile with
    | none =>
      rw [hdocFile] at hread hposition
      dsimp only at hread
      rw [Option.getD_none] at hposition
      by_cases hopens : (!entry.file.disk.opens) = true
      · rw [if_pos hopens] at hread
        exact absurd (Prod.mk.inj hread).2.symm hne
      · rw [if_neg hopens] at hread
        obtain ⟨hbytes, -⟩ := checked_spec hread hne
        rw [← hbytes] at hread
        have hchunk : bytes = entry.chunk entry.docPartsSent := by
          rw [hbytes, hfile, chunk, ← hposition]
        refine ⟨hchunk, hdata _ hread hchunk fun _ => ?_⟩
        rw [← hposition, Nat.zero_add]
    | some position =>
      rw [hdocFile] at hread hposition
      dsimp only at hread
      rw [Option.getD_some] at hposition
      obtain ⟨hbytes, -⟩ := checked_spec hread hne
      rw [← hbytes] at hread
      have hchunk : bytes = entry.chunk entry.docPartsSent := by
        rw [hbytes, hfile, chunk, ← hposition]
      refine ⟨hchunk, hdata _ hread hchunk fun _ => ?_⟩
      rw [← hposition]

/-- An entry that is made has a part size and a count of parts that go with its size. -/
theorem reading_make (itemId : ι) {file : FilePrepareResult}
    (hfile : file.type.isDocument = true → file.Unchanged) :
    (Entry.make itemId file).Reading := by
  rw [Entry.make]
  cases hdocument : file.type.isDocument with
  | false =>
    rw [if_neg Bool.false_ne_true]
    have hnot : ¬ file.type.isDocument = true := by rw [hdocument]; exact Bool.false_ne_true
    exact
      { none := fun _ => rfl
        file := fun h => absurd h hnot
        docSize := fun h => absurd h hnot
        docPartSize := fun h => absurd h hnot
        docPartsCount := fun h => absurd h hnot
        docFile := fun _ h => absurd h (Nat.not_lt_zero _)
        md5Hash := fun h => absurd h hnot }
  | true =>
    have hlimit := (hfile hdocument).limit
    have hpart : ∀ partSize ∈ [kDocumentUploadPartSize0, kDocumentUploadPartSize1,
        kDocumentUploadPartSize2, kDocumentUploadPartSize3, kDocumentUploadPartSize4],
        (file.filesize + partSize - 1) / partSize < ushortEnd →
        (({ itemId := itemId, file := file, docSize := file.filesize } :
          Entry ι).setPartSize partSize).1.Reading := by
      intro partSize hsize hcount
      have hmod : (file.filesize + partSize - 1) / partSize % ushortEnd =
          (file.filesize + partSize - 1) / partSize := Nat.mod_eq_of_lt hcount
      exact
        { none := fun h => by
            change file.type.isDocument = false at h
            rw [hdocument] at h
            cases h
          file := hfile
          docSize := fun _ => rfl
          docPartSize := fun _ => hsize
          docPartsCount := fun _ => hmod
          docFile := fun _ _ => (Nat.zero_mul _).symm
          md5Hash := fun _ _ => by
            change [] = file.data.take (0 * partSize)
            rw [Nat.zero_mul, List.take_zero] }
    rw [if_pos rfl, setDocSize]
    simp only [kDocumentUploadPartSize4] at hlimit
    dsimp only
    split_ifs with h0 h1
    · refine hpart _ (by simp) ?_
      rw [kDocumentUploadPartSize0, ushortEnd]
      omega
    · refine hpart _ (by simp) ?_
      rw [kDocumentUploadPartSize1, ushortEnd]
      omega
    · refine hpart _ (by simp) ?_
      rw [kDocumentUploadPartSize2, ushortEnd]
      omega
    · refine hpart _ (by simp) ?_
      rw [kDocumentUploadPartSize3, ushortEnd]
      omega
    · refine hpart _ (by simp) ?_
      rw [kDocumentUploadPartSize4, ushortEnd]
      omega

/-- The parts of a document reach its end. -/
theorem Reading.take_count {entry : Entry ι} (h : entry.Reading)
    (hdocument : entry.file.type.isDocument = true) :
    entry.file.data.take (entry.docPartsCount * entry.docPartSize) = entry.file.data := by
  apply List.take_of_length_le
  have hpos := h.docPartSize_pos hdocument
  rw [(h.file hdocument).length, ← h.docSize hdocument, h.docPartsCount hdocument]
  have hdiv := Nat.div_add_mod (entry.docSize + entry.docPartSize - 1) entry.docPartSize
  have hmod := Nat.mod_lt (entry.docSize + entry.docPartSize - 1) hpos
  rw [mul_comm]
  omega

/-- The chunks are the whole content. -/
theorem Reading.flatMap_chunk {entry : Entry ι} (h : entry.Reading)
    (hdocument : entry.file.type.isDocument = true) :
    (List.range entry.docPartsCount).flatMap entry.chunk = entry.file.data := by
  have htake : ∀ n, (List.range n).flatMap entry.chunk =
      entry.file.data.take (n * entry.docPartSize) := by
    intro n
    induction n with
    | zero =>
      rw [Nat.zero_mul, List.take_zero]
      rfl
    | succ n ih =>
      rw [List.range_succ, List.flatMap_append, ih, Nat.succ_mul, List.take_add,
        List.flatMap_singleton, chunk]
  rw [htake, h.take_count hdocument]

end Entry

end TelegramDesktop.Storage
