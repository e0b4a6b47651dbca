import Mathlib
import TelegramDesktop.Base.FlatSet

/-! Uploads of files by parts, over several sessions. Progress and the media that are shown
meanwhile are left out. -/

namespace TelegramDesktop.Storage

open Base

abbrev Bytes := List (Fin 256)

def kMaxUploadPerSession : ℕ := 1024 * 1024

def kDocumentMaxPartsCountDefault : ℕ := 4000

def kDocumentUploadPartSize0 : ℕ := 32 * 1024

def kDocumentUploadPartSize1 : ℕ := 64 * 1024

def kDocumentUploadPartSize2 : ℕ := 128 * 1024

def kDocumentUploadPartSize3 : ℕ := 256 * 1024

def kDocumentUploadPartSize4 : ℕ := 512 * 1024

def kWaitForNormalizeTimeout : ℤ := 8 * 1000

def kMaxSessionsCount : ℕ := 8

def kFastRequestThreshold : ℤ := 1000

def kSlowRequestThreshold : ℤ := 8 * 1000

def kAcceptAsFastIfTotalAtLeast : ℕ := 512 * 1024

def kUseBigFilesFrom : ℕ := 10 * 1024 * 1024

def kPhotoUploadPartSize : ℕ := 32 * 1024

/-- Where `ushort` wraps. -/
def ushortEnd : ℕ := 65536

/-- Where `int` wraps. -/
def intEnd : ℕ := 4294967296

inductive SendMediaType
  | photo
  | audio
  | file
  | themeFile
  | secure
  deriving DecidableEq

def SendMediaType.isDocument : SendMediaType → Bool
  | .audio | .file | .themeFile => true
  | .photo | .secure => false

/-- A file on disk: what is read from a position, of no more than a size. -/
structure Disk where
  opens : Bool
  read : ℕ → ℕ → Bytes

structure FilePrepareResult where
  type : SendMediaType
  id : ℕ
  thumbId : ℕ := 0
  filesize : ℕ := 0
  content : Bytes := []
  disk : Disk := ⟨false, fun _ _ => []⟩
  fileparts : List Bytes := []
  thumbparts : List Bytes := []
  filemd5 : Bytes := []
  thumbmd5 : Bytes := []

/-- The parts of `setFileData` and of `setThumbData`. -/
def slices (data : Bytes) : List Bytes :=
  (List.range ((data.length + kPhotoUploadPartSize - 1) / kPhotoUploadPartSize)).map fun part =>
    (data.drop (part * kPhotoUploadPartSize)).take kPhotoUploadPartSize

structure Entry (ι : Type*) where
  itemId : ι
  file : FilePrepareResult
  sentSize : ℕ := 0
  partsSent : ℕ := 0
  partsWaiting : ℕ := 0
  /-- What `md5Hash` was fed with. -/
  md5Hash : Bytes := []
  /-- The position of the file that is open. -/
  docFile : Option ℕ := none
  docSize : ℕ := 0
  docSentSize : ℕ := 0
  docPartSize : ℕ := 0
  docPartsSent : ℕ := 0
  docPartsCount : ℕ := 0
  docPartsWaiting : ℕ := 0

/-- `upload.saveFilePart` and `upload.saveBigFilePart`. -/
inductive SavePart
  | saveFilePart (fileId part : ℕ) (bytes : Bytes)
  | saveBigFilePart (fileId part totalParts : ℕ) (bytes : Bytes)

/-- `asked` is what the servers were asked last, which the source does not keep. -/
structure Request (ι : Type*) where
  itemId : ι
  sent : ℤ := 0
  bytes : Bytes
  queued : ℤ := 0
  part : ℕ := 0
  dcIndex : ℕ
  docPart : Bool := false
  bigPart : Bool := false
  asked : SavePart := .saveFilePart 0 0 []

inductive InputFile
  | inputFile (id parts : ℕ) (md5Checksum : Bytes)
  | inputFileBig (id parts : ℕ)

/-- What `_photoReady`, `_documentReady` and `_secureReady` fire. -/
inductive Ready (ι : Type*)
  | photo (itemId : ι) (file : InputFile)
  | document (itemId : ι) (file : InputFile) (thumb : Option InputFile)
  | secure (itemId : ι) (fileId parts : ℕ)

inductive SendResult
  | success
  | failed
  | dcIndexFull

variable {ι : Type*}

namespace Entry

def parts (entry : Entry ι) : List Bytes :=
  match entry.file.type with
  | .photo | .secure => entry.file.fileparts
  | .audio | .file | .themeFile => entry.file.thumbparts

def partsOfId (entry : Entry ι) : ℕ :=
  match entry.file.type with
  | .photo | .secure => entry.file.id
  | .audio | .file | .themeFile => entry.file.thumbId

def setPartSize (entry : Entry ι) (partSize : ℕ) : Entry ι × Bool :=
  let docPartsCount := (entry.docSize + partSize - 1) / partSize % ushortEnd
  ({ entry with docPartSize := partSize, docPartsCount := docPartsCount },
    decide (docPartsCount ≤ kDocumentMaxPartsCountDefault))

def setDocSize (entry : Entry ι) (size : ℕ) : Entry ι :=
  let entry := { entry with docSize := size }
  let limit0 := 1024 * 1024
  let limit1 := 32 * limit0
  if size < limit0 ∧ (entry.setPartSize kDocumentUploadPartSize0).2 then
    (entry.setPartSize kDocumentUploadPartSize0).1
  else if size ≤ limit1 ∧ (entry.setPartSize kDocumentUploadPartSize1).2 then
    (entry.setPartSize kDocumentUploadPartSize1).1
  else if (entry.setPartSize kDocumentUploadPartSize2).2 then
    (entry.setPartSize kDocumentUploadPartSize2).1
  else if (entry.setPartSize kDocumentUploadPartSize3).2 then
    (entry.setPartSize kDocumentUploadPartSize3).1
  else (entry.setPartSize kDocumentUploadPartSize4).1

/-- The constructor of `Entry`. -/
def make (itemId : ι) (file : FilePrepareResult) : Entry ι :=
  let entry := { itemId := itemId, file := file }
  if file.type.isDocument then entry.setDocSize file.filesize else entry

/-- `QByteArray::mid`. -/
def mid (bytes : Bytes) (position : ℤ) (length : ℕ) : Bytes :=
  if position < 0 then bytes.take (position + length).toNat
  else (bytes.drop position.toNat).take length

def checked (entry : Entry ι) (result : Bytes) : Entry ι × Bytes :=
  let entry := if entry.file.type.isDocument && decide (entry.docSize ≤ kUseBigFilesFrom) then
    { entry with md5Hash := entry.md5Hash ++ result } else entry
  if result = [] ∨ entry.docPartSize < result.length ∨
      (result.length < entry.docPartSize ∧ entry.docPartsSent + 1 ≠ entry.docPartsCount) then
    (entry, [])
  else (entry, result)

/-- The product of a `ushort` and an `int`, which is an `int`. -/
def docOffset (entry : Entry ι) : ℤ := Int.bmod (entry.docPartsSent * entry.docPartSize) intEnd

def readDocPart (entry : Entry ι) : Entry ι × Bytes :=
  if entry.file.content ≠ [] then
    entry.checked (mid entry.file.content entry.docOffset entry.docPartSize)
  else
    match entry.docFile with
    | none =>
      if !entry.file.disk.opens then (entry, [])
      else
        let result := entry.file.disk.read 0 entry.docPartSize
        { entry with docFile := some result.length }.checked result
    | some position =>
      let result := entry.file.disk.read position entry.docPartSize
      { entry with docFile := some (position + result.length) }.checked result

def hasUnsent (entry : Entry ι) : Bool :=
  decide (entry.partsSent < entry.parts.length) ||
    decide (entry.docPartsSent < entry.docPartsCount)

def isFinished (entry : Entry ι) : Bool :=
  decide (entry.parts.length ≤ entry.partsSent) &&
    decide (entry.docPartsCount ≤ entry.docPartsSent) &&
    entry.partsWaiting == 0 && entry.docPartsWaiting == 0

/-- What `finishFront` fires, `md5` being the one that it computes. -/
def ready (md5 : Bytes → Bytes) (entry : Entry ι) : Ready ι :=
  match entry.file.type with
  | .photo =>
    .photo entry.itemId (.inputFile entry.file.id entry.parts.length entry.file.filemd5)
  | .secure => .secure entry.itemId entry.file.id entry.parts.length
  | .audio | .file | .themeFile =>
    .document entry.itemId
      (if kUseBigFilesFrom < entry.docSize then .inputFileBig entry.file.id entry.docPartsCount
        else .inputFile entry.file.id entry.docPartsCount (md5 entry.md5Hash))
      (if entry.parts = [] then none
        else some (.inputFile entry.file.thumbId entry.parts.length entry.file.thumbmd5))

end Entry

/-- `inFlight` are the requests that are neither answered nor cancelled, `saved` is what the servers
have saved of each item, and `finished` are the entries for which `Entry.ready` was fired. -/
structure Uploader (ι : Type*) where
  queue : List (Entry ι) := []
  requests : List (ℕ × Request ι) := []
  pendingFromRemovedDcIndices : List (Request ι) := []
  sentPerDcIndex : List ℤ := []
  dcIndicesWithFastRequests : FlatSet ℕ := ∅
  latestDcIndexAdded : ℤ := 0
  latestDcIndexRemoved : ℤ := 0
  pausedId : Option ι := none
  nextTimer : Bool := false
  stopSessionsTimer : Bool := false
  nextRequestId : ℕ := 1
  inFlight : List ℕ := []
  saved : List (ι × SavePart) := []
  finished : List (Entry ι) := []

/-- An answer, a call or a timer. `maybeSend` is called a moment after a failure. -/
inductive Event (ι : Type*)
  | upload (itemId : ι) (file : FilePrepareResult)
  | nextTimer
  | maybeSend
  | partLoaded (result : Bool) (requestId : ℕ)
  | partFailed (requestId : ℕ)
  | cancel (itemId : ι)
  | cancelAll
  | pause (itemId : ι)
  | unpause
  | stopSessions

namespace Uploader

def addSent (s : Uploader ι) (dcIndex : ℕ) (bytes : ℤ) : Uploader ι :=
  { s with sentPerDcIndex := s.sentPerDcIndex.modify dcIndex (· + bytes) }

/-- Requests that are taken back from their sessions. -/
def subtractSent (s : Uploader ι) (requests : List (ℕ × Request ι)) : Uploader ι :=
  requests.foldl (fun s request => s.addSent request.2.dcIndex (-request.2.bytes.length)) s

def canAddDcIndex (s : Uploader ι) : Bool :=
  decide (s.sentPerDcIndex.length < kMaxSessionsCount) &&
    s.sentPerDcIndex.length == s.dcIndicesWithFastRequests.size

/-- The last loop of `chooseDcIndexForNextRequest`. -/
def leastSent (s : Uploader ι) (used : List ℕ) : Option ℕ :=
  (List.range s.sentPerDcIndex.length).foldl (fun result i =>
    if i ∈ used then result
    else
      match result with
      | none => some i
      | some j =>
        if (s.sentPerDcIndex[i]?).getD 0 < (s.sentPerDcIndex[j]?).getD 0 then some i else some j)
    none

def chooseDcIndexForNextRequest (now : ℤ) (s : Uploader ι) (used : List ℕ) :
    Uploader ι × Option ℕ :=
  match (List.range s.sentPerDcIndex.length).find? fun i =>
      s.sentPerDcIndex[i]? == some 0 && decide (i ∉ used) with
  | some i => (s, some i)
  | none =>
    if s.canAddDcIndex then
      ({ s with
        sentPerDcIndex := s.sentPerDcIndex ++ [0]
        dcIndicesWithFastRequests := ∅
        latestDcIndexAdded := now }, some s.sentPerDcIndex.length)
    else (s, s.leastSent used)

def sendPreparedRequest (now : ℤ) (s : Uploader ι) (prepared : SavePart) (request : Request ι) :
    Uploader ι :=
  let queued := (s.sentPerDcIndex[request.dcIndex]?).getD 0
  { s.addSent request.dcIndex request.bytes.length with
    requests := s.requests ++
      [(s.nextRequestId, { request with sent := now, queued := queued, asked := prepared })]
    nextRequestId := s.nextRequestId + 1
    inFlight := s.inFlight ++ [s.nextRequestId] }

variable [DecidableEq ι]

def find (s : Uploader ι) (itemId : ι) : Option (Entry ι) :=
  s.queue.find? fun entry => decide (entry.itemId = itemId)

def setEntry (s : Uploader ι) (entry : Entry ι) : Uploader ι :=
  { s with queue := s.queue.map fun e => if e.itemId = entry.itemId then entry else e }

/-- `none` is an assertion that fails. -/
def chooseEntryForNextRequest (s : Uploader ι) : Option (Option (Entry ι)) :=
  match s.pendingFromRemovedDcIndices with
  | request :: _ => (s.find request.itemId).map some
  | [] => some (s.queue.find? Entry.hasUnsent)

def cancelRequests (s : Uploader ι) (itemId : ι) : Uploader ι :=
  let cancelled := s.requests.filter fun request => decide (request.2.itemId = itemId)
  { s.subtractSent cancelled with
    requests := s.requests.filter fun request => decide (request.2.itemId ≠ itemId)
    inFlight := s.inFlight.filter fun id => decide (id ∉ cancelled.map Prod.fst)
    pendingFromRemovedDcIndices :=
      s.pendingFromRemovedDcIndices.filter fun request => decide (request.itemId ≠ itemId) }

/-- The entries at the front that are finished, and the other ones. -/
def finishFronts : List (Entry ι) → List (Entry ι) × List (Entry ι)
  | [] => ([], [])
  | entry :: queue =>
    if entry.isFinished then
      let finished := finishFronts queue
      (entry :: finished.1, finished.2)
    else ([], entry :: queue)

def maybeFinishFront (s : Uploader ι) : Uploader ι :=
  let finished := finishFronts s.queue
  { s with queue := finished.2, finished := s.finished ++ finished.1 }

/-- `maybeSend` comes later. -/
def failed (s : Uploader ι) (itemId : ι) : Uploader ι :=
  let s := { s with queue := s.queue.eraseP fun entry => decide (entry.itemId = itemId) }
  (s.cancelRequests itemId).maybeFinishFront

def stopSessions (s : Uploader ι) : Uploader ι :=
  if s.sentPerDcIndex.any (· != 0) then { s with stopSessionsTimer := true }
  else
    { s with
      sentPerDcIndex := []
      dcIndicesWithFastRequests := ∅
      stopSessionsTimer := false }

def cancelAllRequests (s : Uploader ι) : Uploader ι :=
  { s with
    requests := []
    inFlight := s.inFlight.filter fun id => decide (id ∉ s.requests.map Prod.fst)
    sentPerDcIndex := s.sentPerDcIndex.map fun _ => 0 }

def clear (s : Uploader ι) : Uploader ι :=
  { { s with queue := [] }.cancelAllRequests.stopSessions with stopSessionsTimer := false }

def sendPendingPart (now : ℤ) (s : Uploader ι) (entry : Entry ι) (dcIndex : ℕ) :
    Option (Uploader ι × SendResult) :=
  match s.pendingFromRemovedDcIndices with
  | [] => none
  | request :: pending =>
    if request.itemId ≠ entry.itemId then none
    else
      let s := { s with pendingFromRemovedDcIndices := pending }
      let prepared :=
        if request.bigPart then
          SavePart.saveBigFilePart entry.file.id request.part entry.docPartsCount request.bytes
        else
          .saveFilePart (if request.docPart then entry.file.id else entry.partsOfId) request.part
            request.bytes
      some (s.sendPreparedRequest now prepared { request with dcIndex := dcIndex }, .success)

def sendDocPart (now : ℤ) (s : Uploader ι) (entry : Entry ι)
    (dcIndex : ℕ) : Option (Uploader ι × SendResult) :=
  let alreadySent := (s.sentPerDcIndex[dcIndex]?).getD 0
  if (kMaxUploadPerSession : ℤ) < alreadySent + entry.docPartSize then some (s, .dcIndexFull)
  else if ¬ entry.docPartsSent < entry.docPartsCount then none
  else
    let (entry, partBytes) := entry.readDocPart
    if partBytes = [] then some ((s.setEntry entry).failed entry.itemId, .failed)
    else
      let part := entry.docPartsSent
      let big := decide (kUseBigFilesFrom < entry.docSize)
      let prepared :=
        if big then SavePart.saveBigFilePart entry.file.id part entry.docPartsCount partBytes
        else .saveFilePart entry.file.id part partBytes
      let s := s.setEntry { entry with
        docPartsSent := (entry.docPartsSent + 1) % ushortEnd
        docPartsWaiting := (entry.docPartsWaiting + 1) % ushortEnd }
      some (s.sendPreparedRequest now prepared
        { itemId := entry.itemId
          bytes := partBytes
          part := part
          dcIndex := dcIndex
          docPart := true
          bigPart := big }, .success)

/-- The request is not told the part. -/
def sendSlicedPart (now : ℤ) (s : Uploader ι) (entry : Entry ι) (dcIndex : ℕ) :
    Option (Uploader ι × SendResult) :=
  let alreadySent := (s.sentPerDcIndex[dcIndex]?).getD 0
  match entry.parts[entry.partsSent]? with
  | none => none
  | some partBytes =>
    if (kMaxUploadPerSession : ℤ) ≤ alreadySent + partBytes.length then some (s, .dcIndexFull)
    else
      let s := s.setEntry { entry with
        partsWaiting := (entry.partsWaiting + 1) % ushortEnd
        partsSent := (entry.partsSent + 1) % ushortEnd }
      some (s.sendPreparedRequest now (.saveFilePart entry.partsOfId entry.partsSent partBytes)
        { itemId := entry.itemId
          bytes := partBytes
          dcIndex := dcIndex }, .success)

def sendPart (now : ℤ) (s : Uploader ι) (entry : Entry ι) (dcIndex : ℕ) :
    Option (Uploader ι × SendResult) :=
  if s.pendingFromRemovedDcIndices ≠ [] then s.sendPendingPart now entry dcIndex
  else if entry.partsSent < entry.parts.length then s.sendSlicedPart now entry dcIndex
  else s.sendDocPart now entry dcIndex

/-- The inner loop of `maybeSend`, which goes on from an entry that fails to the next one. Whether
a part was sent is returned. -/
def sendNext (now : ℤ) (dcIndex : ℕ) :
    ℕ → Uploader ι → Option (Uploader ι × Bool)
  | 0, _ => none
  | fuel + 1, s =>
    match s.chooseEntryForNextRequest with
    | none => none
    | some none => some (s, false)
    | some (some entry) =>
      match s.sendPart now entry dcIndex with
      | none => none
      | some (s, .dcIndexFull) => some (s, false)
      | some (s, .success) => some (s, true)
      | some (s, .failed) => sendNext now dcIndex fuel s

/-- The outer loop of `maybeSend`. -/
def sendAll (now : ℤ) : ℕ → List ℕ → Uploader ι → Option (Uploader ι)
  | 0, _, _ => none
  | fuel + 1, used, s =>
    match s.chooseDcIndexForNextRequest now used with
    | (s, none) => some { s with nextTimer := !used.isEmpty }
    | (s, some dcIndex) =>
      match s.sendNext now dcIndex (s.queue.length + 1) with
      | none => none
      | some (s, false) => some s
      | some (s, true) =>
        sendAll now fuel
          (if (kAcceptAsFastIfTotalAtLeast : ℤ) ≤ (s.sentPerDcIndex[dcIndex]?).getD 0 then
            dcIndex :: used else used) s

/-- The parts that `maybeSend` can send at most. -/
def unsent (s : Uploader ι) : ℕ :=
  s.pendingFromRemovedDcIndices.length + (s.queue.map fun entry =>
    (entry.parts.length - entry.partsSent) + (entry.docPartsCount - entry.docPartsSent)).sum

def maybeSend (now : ℤ) (s : Uploader ι) : Option (Uploader ι) :=
  if s.queue = [] then some { s with stopSessionsTimer := true, pausedId := none }
  else if s.pausedId.isSome then some s
  else sendAll now (s.unsent + 1) [] { s with stopSessionsTimer := false }

def upload (now : ℤ) (s : Uploader ι) (itemId : ι)
    (file : FilePrepareResult) : Option (Uploader ι) :=
  let s := { s with queue := s.queue ++ [Entry.make itemId file] }
  if !s.nextTimer then s.maybeSend now else some s

def unpause (now : ℤ) (s : Uploader ι) : Option (Uploader ι) :=
  { s with pausedId := none }.maybeSend now

/-- The loop of `cancelAll`. -/
def failAll : ℕ → Uploader ι → Uploader ι
  | 0, s => s
  | fuel + 1, s =>
    match s.queue with
    | [] => s
    | entry :: _ => failAll fuel (s.failed entry.itemId)

def cancelAll (now : ℤ) (s : Uploader ι) : Option (Uploader ι) :=
  (s.failAll s.queue.length).clear.unpause now

def finishRequest (s : Uploader ι) (requestId : ℕ) : Option (Uploader ι × Request ι) :=
  match s.requests.find? fun request => request.1 == requestId with
  | none => none
  | some request =>
    some ({ s.subtractSent [request] with
      requests := s.requests.filter fun request => request.1 != requestId
      inFlight := s.inFlight.filter (· != requestId) }, request.2)

def removeDcIndex (s : Uploader ι) : Option (Uploader ι) :=
  if s.sentPerDcIndex.length ≤ 1 then none
  else
    let dcIndex := s.sentPerDcIndex.length - 1
    let moved := s.requests.filter fun request => request.2.dcIndex == dcIndex
    let s : Uploader ι := { s.subtractSent moved with
      requests := s.requests.filter fun request => request.2.dcIndex != dcIndex
      inFlight := s.inFlight.filter fun id => decide (id ∉ moved.map Prod.fst)
      pendingFromRemovedDcIndices := s.pendingFromRemovedDcIndices ++ moved.map Prod.snd }
    if s.sentPerDcIndex.getLast? ≠ some 0 then none
    else
      some { s with
        sentPerDcIndex := s.sentPerDcIndex.dropLast
        dcIndicesWithFastRequests := s.dcIndicesWithFastRequests.remove dcIndex }

/-- What the time of an answer says of the sessions. -/
def noteDuration (now : ℤ) (s : Uploader ι) (request : Request ι) : Option (Uploader ι) :=
  let duration := now - request.sent
  if kFastRequestThreshold ≤ duration then
    let s := { s with dcIndicesWithFastRequests := ∅ }
    if kSlowRequestThreshold ≤ duration ∧
        kWaitForNormalizeTimeout ≤ now - s.latestDcIndexRemoved ∧
        1 < s.sentPerDcIndex.length then
      s.removeDcIndex.map fun s => { s with latestDcIndexRemoved := now }
    else some s
  else if s.latestDcIndexAdded < request.sent ∧
      (kAcceptAsFastIfTotalAtLeast : ℤ) ≤ request.queued + request.bytes.length then
    some { s with dcIndicesWithFastRequests := s.dcIndicesWithFastRequests.insert request.dcIndex }
  else some s

def markLoaded (entry : Entry ι) (request : Request ι) : Entry ι :=
  if request.docPart then
    { entry with
      docPartsWaiting := (entry.docPartsWaiting + (ushortEnd - 1)) % ushortEnd
      docSentSize := entry.docSentSize + request.bytes.length }
  else
    { entry with
      partsWaiting := (entry.partsWaiting + (ushortEnd - 1)) % ushortEnd
      sentSize := entry.sentSize + request.bytes.length }

/-- `partLoaded` of a part that the server has saved. -/
def partSaved (now : ℤ) (s : Uploader ι) (request : Request ι) :
    Option (Uploader ι) :=
  match s.find request.itemId with
  | none => none
  | some entry =>
    let s := { s with saved := s.saved ++ [(request.itemId, request.asked)] }
    (s.noteDuration now request).bind fun s =>
      let s := s.setEntry (markLoaded entry request)
      let s := if (s.queue.head?.map Entry.itemId) = some request.itemId then
        s.maybeFinishFront else s
      s.maybeSend now

def partLoaded (now : ℤ) (s : Uploader ι) (result : Bool)
    (requestId : ℕ) : Option (Uploader ι) :=
  (s.finishRequest requestId).bind fun finished =>
    if !result then some (finished.1.failed finished.2.itemId)
    else finished.1.partSaved now finished.2

def partFailed (s : Uploader ι) (requestId : ℕ) : Option (Uploader ι) :=
  (s.finishRequest requestId).map fun finished => finished.1.failed finished.2.itemId

def step (now : ℤ) (s : Uploader ι) : Event ι → Option (Uploader ι)
  | .upload itemId file => s.upload now itemId file
  | .nextTimer => { s with nextTimer := false }.maybeSend now
  | .maybeSend => s.maybeSend now
  | .partLoaded result requestId => s.partLoaded now result requestId
  | .partFailed requestId => s.partFailed requestId
  | .cancel itemId => some (s.failed itemId)
  | .cancelAll => s.cancelAll now
  | .pause itemId => some { s with pausedId := some itemId }
  | .unpause => s.unpause now
  | .stopSessions => some { s with stopSessionsTimer := false }.stopSessions

end Uploader

end TelegramDesktop.Storage
