import TelegramDesktop.Base.Run
import TelegramDesktop.Base.Slice

namespace TelegramDesktop.Mtproto.DedicatedFileLoader
open Base

def kChunkSize : ℕ := 128 * 1024
def kMaxFileSize : ℕ := 256 * 1024 * 1024
def kRequestsCount : ℕ := 2

/-- A size or an offset as an `int`. -/
def toInt (x : ℕ) : ℤ := (x : ℤ).bmod 4294967296

/-- What is fired, the assertions that fail, and the bytes that a closed file did not get. -/
inductive Output
  | ready
  | failed
  | progress (already size : ℤ)
  | asserted
  | dropped (bytes : List UInt8)
  deriving DecidableEq

/-- The bytes of the file, and those that wait in the write buffer of `QFile`. -/
structure AbstractDedicatedLoader where
  output : List UInt8 := []
  buffer : List UInt8 := []
  isOpen : Bool := false
  alreadySize : ℕ := 0
  totalSize : ℤ := 0

/-- The most that `QFile` keeps in its buffer. -/
def kWriteBufferSize : ℕ := 16 * 1024

/-- How many bytes the file system takes: of the buffer before a write, of the bytes that are
written, and of the buffer when the file is closed. -/
structure Disk where
  flushed : ℕ
  stored : ℕ
  closed : ℕ

/-- What the file system answers before the loading. -/
structure Opening where
  existing : Option (List UInt8)
  removed : Bool
  resized : Bool
  opened : Bool

/-- Whether there is a good output, and the loader with it. -/
def validateOutput (opening : Opening) : Bool × AbstractDedicatedLoader :=
  match opening.existing with
  | none => (true, {})
  | some content =>
    let fullSize := content.length
    if fullSize < kChunkSize ∨ fullSize > kMaxFileSize then
      (opening.removed, { output := if opening.removed then [] else content })
    else
      let goodSize := fullSize - fullSize % kChunkSize
      if opening.resized then (true, { output := content.take goodSize, alreadySize := goodSize })
      else (false, { output := content })

/-- `QFile::flush`. -/
def flush (taken : ℕ) (a : AbstractDedicatedLoader) : Bool × AbstractDedicatedLoader :=
  (decide (a.buffer.length ≤ taken),
    { a with output := a.output ++ a.buffer.take taken, buffer := a.buffer.drop taken })

/-- `QFile::write`, and whether it wrote everything. What is short goes to the buffer only. -/
def write (disk : Disk) (data : List UInt8) (a : AbstractDedicatedLoader) :
    Bool × AbstractDedicatedLoader :=
  if !a.isOpen then (false, a)
  else
    let f := if a.buffer.length + data.length > kWriteBufferSize then flush disk.flushed a
      else (true, a)
    if !f.1 then f
    else if data.length > kWriteBufferSize then
      (decide (data.length ≤ disk.stored),
        { f.2 with output := f.2.output ++ data.take disk.stored })
    else (true, { f.2 with buffer := f.2.buffer ++ data })

/-- `QFile::close`: nobody asks whether the buffer was written. -/
def close (disk : Disk) (a : AbstractDedicatedLoader) : AbstractDedicatedLoader × List Output :=
  let f := flush disk.closed a
  ({ f.2 with buffer := [], isOpen := false }, if f.1 then [] else [.dropped f.2.buffer])

def writeChunk (disk : Disk) (data : List UInt8) (totalSize : ℤ) (a : AbstractDedicatedLoader) :
    AbstractDedicatedLoader × List Output :=
  let w := if data.isEmpty then (true, a) else write disk data a
  let a := w.2
  if !w.1 then (a, [.failed])
  else
    let total := if a.totalSize = 0 then totalSize else a.totalSize
    let already := a.alreadySize + data.length
    let a := { a with alreadySize := already, totalSize := total }
    if total > 0 ∧ (already : ℤ) ≥ total then
      let c := close disk a
      (c.1, c.2 ++ [.ready])
    else (a, [.progress already total])

structure Request where
  offset : ℕ
  bytes : List UInt8 := []

/-- The loader with the requests that were not answered yet, the calls of `sendRequest` that are
delayed, and the requests that were sent when there was no session. -/
structure DedicatedLoader extends AbstractDedicatedLoader where
  requests : List Request := []
  offset : ℕ := 0
  inFlight : List ℕ := []
  delayed : ℕ := 0
  valid : Bool := true
  unavailable : ℕ := 0

inductive UploadFile
  | cdnRedirect
  | file (bytes : List UInt8)

inductive Input
  | part (offset : ℕ) (result : UploadFile) (disk : ℕ → Disk)
  | error (offset : ℕ)
  | delayed
  | die
  | invalid
  | unavailable

section
variable (size : ℕ)

def sendRequest (s : DedicatedLoader) : DedicatedLoader :=
  if s.requests.length ≥ kRequestsCount ∨ s.offset ≥ size then s
  else
    let requests := s.requests ++ [{ offset := s.offset }]
    { s with
      requests := requests
      inFlight := if s.valid then s.inFlight ++ [s.offset] else s.inFlight
      unavailable := if s.valid then s.unavailable else s.unavailable + 1
      offset := s.offset + kChunkSize
      delayed := if requests.length < kRequestsCount then s.delayed + 1 else s.delayed }

/-- The bytes of the first request with an offset. -/
def setBytes (offset : ℤ) (bytes : List UInt8) : List Request → Option (List Request)
  | [] => none
  | request :: rest =>
    if (request.offset : ℤ) = offset then some ({ request with bytes := bytes } :: rest)
    else (setBytes offset bytes rest).map (request :: ·)

/-- The loop that writes the parts from the front. -/
def writeFront (disk : ℕ → Disk) : List Request → AbstractDedicatedLoader →
    List Request × AbstractDedicatedLoader × List Output
  | [], a => ([], a, [])
  | request :: rest, a =>
    if request.bytes.isEmpty then (request :: rest, a, [])
    else
      let r := writeChunk (disk request.offset) request.bytes (toInt size) a
      let t := writeFront disk rest r.1
      (t.1, t.2.1, r.2 ++ t.2.2)

def gotPart (offset : ℤ) (result : UploadFile) (disk : ℕ → Disk) (s : DedicatedLoader) :
    DedicatedLoader × List Output :=
  if s.requests.isEmpty then (s, [.asserted])
  else
    match result with
    | .cdnRedirect => (s, [.failed])
    | .file bytes =>
      if bytes.isEmpty then (s, [.failed])
      else
        match setBytes offset bytes s.requests with
        | none => (s, [.asserted])
        | some requests =>
          let r := writeFront size disk requests s.toAbstractDedicatedLoader
          (sendRequest size { s with toAbstractDedicatedLoader := r.2.1, requests := r.1 }, r.2.2)

def startLoading (disk : Disk) (s : DedicatedLoader) : DedicatedLoader × List Output :=
  if !s.valid then (s, [.failed])
  else
    let r := writeChunk disk [] (toInt size) s.toAbstractDedicatedLoader
    (sendRequest size { s with toAbstractDedicatedLoader := r.1, offset := s.alreadySize }, r.2)

def start (opening : Opening) (valid : Bool) (disk : Disk) : DedicatedLoader × List Output :=
  let output := validateOutput opening
  if !output.1 || !opening.opened then ({ valid := valid }, [.failed])
  else
    let s := { output.2 with isOpen := true, valid := valid }
    startLoading size disk s

/-- A request is answered once. When the session goes, all of them fail. -/
def step (s : DedicatedLoader) : Input → DedicatedLoader × List Output
  | .part offset result disk =>
    if offset ∈ s.inFlight then
      gotPart size (toInt offset) result disk { s with inFlight := s.inFlight.erase offset }
    else (s, [])
  | .error offset =>
    if offset ∈ s.inFlight then ({ s with inFlight := s.inFlight.erase offset }, [.failed])
    else (s, [])
  | .delayed =>
    if s.delayed = 0 then (s, [])
    else (sendRequest size { s with delayed := s.delayed - 1 }, [])
  | .die => ({ s with inFlight := [] }, s.inFlight.map fun _ => .failed)
  | .invalid => ({ s with valid := false }, [])
  | .unavailable =>
    if s.unavailable = 0 then (s, [])
    else ({ s with unavailable := s.unavailable - 1 }, [.failed])

end

variable {document : List UInt8} {front : ℕ} {out : List Output}

theorem kChunkSize_pos : 0 < kChunkSize := by
  unfold kChunkSize
  omega

theorem toInt_eq {x : ℕ} (h : x < 2 ^ 31) : toInt x = x := by
  apply Int.bmod_eq_of_le_mul_two
  · omega
  · omega

/-- A file is the document but for what it did not get when it was closed. -/
def Closed (document output : List UInt8) (out : List Output) : Prop :=
  ∃ lost, output ++ lost = document ∧ lost.length ≤ kWriteBufferSize ∧
    (lost ≠ [] → .dropped lost ∈ out)

theorem Closed.append {output : List UInt8} (h : Closed document output out) (more : List Output) :
    Closed document output (out ++ more) := by
  obtain ⟨lost, hlost, hlength, hdropped⟩ := h
  exact ⟨lost, hlost, hlength, fun hne => List.mem_append_left more (hdropped hne)⟩

/-- The parts up to the front were written, or one of them was not and that was reported. -/
structure Written (document : List UInt8) (front : ℕ) (a : AbstractDedicatedLoader)
    (out : List Output) : Prop where
  total : a.totalSize = document.length
  parts : (a.alreadySize = min front document.length ∧
      (.ready ∉ out → a.output = document.take front ∧ a.buffer = [])) ∨
    (a.alreadySize < min front document.length ∧ .failed ∈ out)
  ready : .ready ∈ out → Closed document a.output out ∧ document.length ≤ front
  isOpen : .ready ∉ out → a.isOpen = true
  reached : document.length ≤ front → .failed ∉ out → .ready ∈ out
  once : out.count .ready ≤ 1
  asserted : .asserted ∉ out

theorem Written.append_failed {a : AbstractDedicatedLoader} (h : Written document front a out)
    {more : List Output} (hmore : ∀ o ∈ more, o = .failed) :
    Written document front a (out ++ more) := by
  have hready : Output.ready ∉ more := fun hr => Output.noConfusion (hmore _ hr)
  have hasserted : Output.asserted ∉ more := fun hr => Output.noConfusion (hmore _ hr)
  refine ⟨h.total, ?_, ?_, ?_, ?_, ?_, ?_⟩
  · refine h.parts.imp (fun hwhole => ⟨hwhole.1, fun hr => ?_⟩)
      fun hshort => ⟨hshort.1, List.mem_append_left _ hshort.2⟩
    exact hwhole.2 fun hr' => hr (List.mem_append_left _ hr')
  · intro hr
    obtain ⟨hclosed, hfront⟩ := h.ready ((List.mem_append.mp hr).resolve_right hready)
    exact ⟨hclosed.append more, hfront⟩
  · intro hr
    exact h.isOpen fun hr' => hr (List.mem_append_left _ hr')
  · intro hfront hfailed
    exact List.mem_append_left _ (h.reached hfront fun hf => hfailed (List.mem_append_left _ hf))
  · rw [List.count_append, List.count_eq_zero_of_not_mem hready]
    exact h.once
  · intro ha
    exact h.asserted ((List.mem_append.mp ha).resolve_right hasserted)

/-- The part at the front, as the server sends it. -/
def partOf (document : List UInt8) (offset : ℕ) : List UInt8 := slice document offset kChunkSize

theorem length_partOf (offset : ℕ) :
    (partOf document offset).length = min kChunkSize (document.length - offset) := by
  rw [partOf, slice, List.length_take, List.length_drop]

theorem take_append_partOf (front : ℕ) :
    document.take front ++ partOf document front = document.take (front + kChunkSize) := by
  rw [partOf, slice, List.take_add]

/-- Writing changes nothing but the file. -/
theorem write_frame (disk : Disk) (data : List UInt8) (a : AbstractDedicatedLoader) :
    (write disk data a).2.alreadySize = a.alreadySize ∧
      (write disk data a).2.totalSize = a.totalSize ∧
      (write disk data a).2.isOpen = a.isOpen := by
  unfold write
  dsimp only
  split_ifs with hclosed hflush hflushed hdirect
  all_goals exact ⟨rfl, rfl, rfl⟩

/-- Data that was written with an empty buffer is in the file, or all of it is in the buffer. -/
theorem write_spec {disk : Disk} {data : List UInt8} {a : AbstractDedicatedLoader}
    (hbuffer : a.buffer = []) (hwritten : (write disk data a).1 = true) :
    (write disk data a).2.output ++ (write disk data a).2.buffer = a.output ++ data ∧
      (write disk data a).2.buffer.length ≤ kWriteBufferSize ∧
      (kWriteBufferSize < data.length → (write disk data a).2.buffer = []) := by
  have hflush : ∀ taken, flush taken a = (true, a) := by
    intro taken
    rw [flush, hbuffer, List.take_nil, List.drop_nil, List.append_nil, ← hbuffer,
      decide_eq_true (by rw [hbuffer]; exact Nat.zero_le taken)]
  unfold write at hwritten ⊢
  rw [hflush, ite_self] at hwritten ⊢
  dsimp only at hwritten ⊢
  rw [Bool.not_true, if_neg Bool.false_ne_true] at hwritten ⊢
  split_ifs at hwritten ⊢ with hclosed hdirect
  · -- a long part is written at once
    have hall : data.take disk.stored = data :=
      List.take_of_length_le (of_decide_eq_true hwritten)
    refine ⟨?_, ?_, fun _ => hbuffer⟩
    · show (a.output ++ data.take disk.stored) ++ a.buffer = _
      rw [hall, hbuffer, List.append_nil]
    · show a.buffer.length ≤ _
      rw [hbuffer]
      exact Nat.zero_le _
  · refine ⟨?_, ?_, fun hlong => absurd hlong hdirect⟩
    · show a.output ++ (a.buffer ++ data) = _
      rw [hbuffer, List.nil_append]
    · show (a.buffer ++ data).length ≤ _
      rw [hbuffer, List.nil_append]
      exact not_lt.mp hdirect

/-- A closed file has all but what was dropped. -/
theorem close_spec (disk : Disk) {a : AbstractDedicatedLoader}
    (hwhole : a.output ++ a.buffer = document) (hshort : a.buffer.length ≤ kWriteBufferSize)
    (out more : List Output) :
    Closed document (close disk a).1.output (out ++ ((close disk a).2 ++ more)) := by
  refine ⟨a.buffer.drop disk.closed, ?_, ?_, fun hne => ?_⟩
  · show (a.output ++ a.buffer.take disk.closed) ++ a.buffer.drop disk.closed = document
    rw [List.append_assoc, List.take_append_drop]
    exact hwhole
  · rw [List.length_drop]
    exact (Nat.sub_le _ _).trans hshort
  · have hlost : ¬ a.buffer.length ≤ disk.closed :=
      fun hall => hne (List.drop_eq_nil_of_le hall)
    apply List.mem_append_right
    apply List.mem_append_left
    unfold close
    rw [flush, decide_eq_false hlost]
    exact List.mem_singleton_self _

theorem not_mem_close (disk : Disk) (a : AbstractDedicatedLoader) :
    Output.ready ∉ (close disk a).2 ∧ Output.asserted ∉ (close disk a).2 := by
  unfold close
  dsimp only
  split_ifs
  · exact ⟨List.not_mem_nil, List.not_mem_nil⟩
  · exact ⟨fun hr => Output.noConfusion (List.mem_singleton.mp hr),
      fun ha => Output.noConfusion (List.mem_singleton.mp ha)⟩

/-- One part that is written, or is not. -/
theorem Written.writeChunk {a : AbstractDedicatedLoader} (h : Written document front a out)
    (hfront : front < document.length) (hsize : document.length < 2 ^ 31) (disk : Disk) :
    Written document (front + kChunkSize)
      (writeChunk disk (partOf document front) (toInt document.length) a).1
      (out ++ (writeChunk disk (partOf document front) (toInt document.length) a).2) := by
  have hnotReady : Output.ready ∉ out := fun hr => absurd (h.ready hr).2 (by omega)
  have hopen := h.isOpen hnotReady
  have hlength : (partOf document front).length = _ := length_partOf front
  have hpos := kChunkSize_pos
  have hcount : out.count .ready = 0 := List.count_eq_zero_of_not_mem hnotReady
  have htotal : ¬ a.totalSize = 0 := by
    rw [h.total]
    omega
  have hsome : ¬ (partOf document front).isEmpty = true := by
    rw [List.isEmpty_iff_length_eq_zero]
    omega
  obtain ⟨halready, htotal', hopen'⟩ := write_frame disk (partOf document front) a
  rw [DedicatedFileLoader.writeChunk, if_neg hsome]
  dsimp only
  rw [halready, htotal', if_neg htotal, h.total]
  cases hwritten : (write disk (partOf document front) a).1 with
  | false =>
    -- The part is missing from now on.
    rw [Bool.not_false, if_pos rfl]
    have hfailed : Output.failed ∈ out ++ [.failed] :=
      List.mem_append_right _ (List.mem_singleton_self _)
    have hsame : Output.ready ∉ out ++ [.failed] := by
      intro hr
      rcases List.mem_append.mp hr with hr | hr
      · exact hnotReady hr
      · exact Output.noConfusion (List.mem_singleton.mp hr)
    refine ⟨htotal'.trans h.total, .inr ⟨?_, hfailed⟩, fun hr => absurd hr hsame,
      fun _ => hopen'.trans hopen, fun _ hno => absurd hfailed hno, ?_, ?_⟩
    · dsimp only
      rw [halready]
      rcases h.parts with ⟨hparts, -⟩ | ⟨hparts, -⟩
      · omega
      · omega
    · rw [List.count_eq_zero_of_not_mem hsame]
      exact Nat.zero_le 1
    · intro ha
      rcases List.mem_append.mp ha with ha | ha
      · exact h.asserted ha
      · exact Output.noConfusion (List.mem_singleton.mp ha)
  | true =>
    rw [Bool.not_true, if_neg Bool.false_ne_true]
    by_cases hend : (document.length : ℤ) > 0 ∧
        ((a.alreadySize + (partOf document front).length : ℕ) : ℤ) ≥ document.length
    · rw [if_pos hend]
      have hall : document.length ≤ a.alreadySize + (partOf document front).length := by omega
      -- no part before it is missing
      have hclean := h.parts.resolve_right fun hshort => by omega
      obtain ⟨houtput, hbuffer⟩ := hclean.2 hnotReady
      obtain ⟨hwhole, hshort, -⟩ := write_spec hbuffer hwritten
      have hreached : document.length ≤ front + kChunkSize := by omega
      rw [houtput, take_append_partOf, List.take_of_length_le hreached] at hwhole
      have hready : ∀ more : List Output, Output.ready ∈ out ++ (more ++ [.ready]) := fun more =>
        List.mem_append_right _ (List.mem_append_right _ (List.mem_singleton_self _))
      obtain ⟨hquiet, hasserted⟩ := not_mem_close disk
        { (write disk (partOf document front) a).2 with
          alreadySize := a.alreadySize + (partOf document front).length
          totalSize := document.length }
      refine ⟨rfl, .inl ⟨?_, fun hr => absurd (hready _) hr⟩, fun _ => ⟨?_, hreached⟩,
        fun hr => absurd (hready _) hr, fun _ _ => hready _, ?_, ?_⟩
      · show a.alreadySize + (partOf document front).length = _
        omega
      · exact close_spec _ hwhole hshort out [.ready]
      · rw [List.count_append, List.count_append, hcount, List.count_eq_zero_of_not_mem hquiet]
        exact le_refl 1
      · intro ha
        rcases List.mem_append.mp ha with ha | ha
        · exact h.asserted ha
        · rcases List.mem_append.mp ha with ha | ha
          · exact hasserted ha
          · exact Output.noConfusion (List.mem_singleton.mp ha)
    · rw [if_neg hend]
      have hmore : a.alreadySize + (partOf document front).length < document.length := by omega
      have hnoReady : Output.ready ∉ out ++
          [.progress ((a.alreadySize + (partOf document front).length : ℕ) : ℤ)
            document.length] := by
        intro hr
        rcases List.mem_append.mp hr with hr | hr
        · exact hnotReady hr
        · exact Output.noConfusion (List.mem_singleton.mp hr)
      refine ⟨rfl, ?_, fun hr => absurd hr hnoReady, fun _ => hopen'.trans hopen, ?_, ?_, ?_⟩
      · rcases h.parts with ⟨hparts, hclean⟩ | ⟨hparts, hfailed⟩
        · -- only the last part may be short enough for the buffer
          obtain ⟨houtput, hbuffer⟩ := hclean hnotReady
          obtain ⟨hwhole, -, hlong⟩ := write_spec hbuffer hwritten
          have hnext := hlong (by unfold kWriteBufferSize kChunkSize at *; omega)
          rw [hnext, List.append_nil, houtput, take_append_partOf] at hwhole
          refine .inl ⟨?_, fun _ => ⟨hwhole, hnext⟩⟩
          dsimp only
          omega
        · refine .inr ⟨?_, List.mem_append_left _ hfailed⟩
          dsimp only
          omega
      · intro hreached hno
        rcases h.parts with ⟨hparts, -⟩ | ⟨-, hfailed⟩
        · omega
        · exact absurd (List.mem_append_left _ hfailed) hno
      · rw [List.count_eq_zero_of_not_mem hnoReady]
        exact Nat.zero_le 1
      · intro ha
        rcases List.mem_append.mp ha with ha | ha
        · exact h.asserted ha
        · exact Output.noConfusion (List.mem_singleton.mp ha)

/-- The requests from one offset up to another, each for the next part. -/
def Consecutive (document : List UInt8) : ℕ → List Request → ℕ → Prop
  | front, [], next => front = next
  | front, request :: rest, next =>
    request.offset = front ∧ front < document.length ∧
      (request.bytes = [] ∨ request.bytes = partOf document front) ∧
      Consecutive document (front + kChunkSize) rest next

variable {requests : List Request} {next : ℕ}

theorem Consecutive.push (h : Consecutive document front requests next)
    (hnext : next < document.length) :
    Consecutive document front (requests ++ [{ offset := next }]) (next + kChunkSize) := by
  induction requests generalizing front with
  | nil => exact ⟨h.symm, h ▸ hnext, .inl rfl, congrArg (· + kChunkSize) h⟩
  | cons first rest ih => exact ⟨h.1, h.2.1, h.2.2.1, ih h.2.2.2⟩

theorem Consecutive.bounds (h : Consecutive document front requests next) :
    front ≤ next ∧ ∀ request ∈ requests,
      front ≤ request.offset ∧ request.offset < next ∧ request.offset < document.length := by
  have hpos := kChunkSize_pos
  induction requests generalizing front with
  | nil => exact ⟨le_of_eq h, fun request hr => absurd hr List.not_mem_nil⟩
  | cons first rest ih =>
    obtain ⟨hle, hrest⟩ := ih h.2.2.2
    refine ⟨by omega, fun request hr => ?_⟩
    rcases List.mem_cons.mp hr with rfl | hr
    · have hfirst := h.1
      have hpart := h.2.1
      omega
    · have hbounds := hrest request hr
      omega

/-- The requests are told apart by their offsets. -/
theorem Consecutive.nodup (h : Consecutive document front requests next) :
    (requests.map Request.offset).Nodup := by
  induction requests generalizing front with
  | nil => exact List.nodup_nil
  | cons first rest ih =>
    refine List.nodup_cons.mpr ⟨fun hmem => ?_, ih h.2.2.2⟩
    obtain ⟨other, hother, heq⟩ := List.mem_map.mp hmem
    have hbounds := (Consecutive.bounds h.2.2.2).2 other hother
    have hfirst := h.1
    have hpos := kChunkSize_pos
    omega

/-- The bytes of a request are set, and nothing else. -/
theorem setBytes_eq {offset : ℕ} {request : Request} (bytes : List UInt8)
    (hrequest : request ∈ requests) (hoffset : request.offset = offset) :
    ∃ before after found, requests = before ++ found :: after ∧ found.offset = offset ∧
      (∀ other ∈ before, other.offset ≠ offset) ∧
      setBytes offset bytes requests = some (before ++ { found with bytes := bytes } :: after) := by
  induction requests with
  | nil => exact absurd hrequest List.not_mem_nil
  | cons first rest ih =>
    by_cases hfirst : first.offset = offset
    · refine ⟨[], rest, first, rfl, hfirst, fun other ho => absurd ho List.not_mem_nil, ?_⟩
      rw [setBytes, if_pos (congrArg Nat.cast hfirst)]
      rfl
    · have hrest : request ∈ rest := by
        rcases List.mem_cons.mp hrequest with rfl | hr
        · exact absurd hoffset hfirst
        · exact hr
      obtain ⟨before, after, found, heq, hfound, hbefore, hset⟩ := ih hrest
      refine ⟨first :: before, after, found, by rw [heq]; rfl, hfound, ?_, ?_⟩
      · intro other ho
        rcases List.mem_cons.mp ho with rfl | ho
        · exact hfirst
        · exact hbefore other ho
      · rw [setBytes, if_neg fun h => hfirst (Int.ofNat_inj.mp h), hset]
        rfl

theorem Consecutive.setBytes {before after : List Request} {found : Request} {offset : ℕ}
    {bytes : List UInt8} (h : Consecutive document front (before ++ found :: after) next)
    (hoffset : found.offset = offset) (hbytes : bytes = partOf document offset) :
    Consecutive document front (before ++ { found with bytes := bytes } :: after) next := by
  induction before generalizing front with
  | nil =>
    refine ⟨h.1, h.2.1, .inr ?_, h.2.2.2⟩
    rw [hbytes, ← hoffset, h.1]
  | cons first rest ih => exact ⟨h.1, h.2.1, h.2.2.1, ih h.2.2.2⟩

/-- What the loop at the front leaves: a later front, with a request that waits there. -/
theorem writeFront_follows {a : AbstractDedicatedLoader} (hsize : document.length < 2 ^ 31)
    (disk : ℕ → Disk) (h : Consecutive document front requests next)
    (hwritten : Written document front a out) :
    ∃ front', Consecutive document front' (writeFront document.length disk requests a).1 next ∧
      Written document front' (writeFront document.length disk requests a).2.1
        (out ++ (writeFront document.length disk requests a).2.2) ∧
      (∀ request ∈ (writeFront document.length disk requests a).1.head?, request.bytes = []) ∧
      (writeFront document.length disk requests a).1 <:+ requests ∧
      ∀ request ∈ requests, request.bytes = [] →
        request ∈ (writeFront document.length disk requests a).1 := by
  induction requests generalizing front a out with
  | nil =>
    refine ⟨front, h, ?_, fun request hr => ?_, List.suffix_rfl, fun request hr => ?_⟩
    · rw [writeFront, List.append_nil]
      exact hwritten
    · cases hr
    · exact absurd hr List.not_mem_nil
  | cons first rest ih =>
    rw [writeFront]
    by_cases hempty : first.bytes = []
    · rw [if_pos (List.isEmpty_iff.mpr hempty)]
      refine ⟨front, h, ?_, fun request hr => ?_, List.suffix_rfl, fun request hr _ => hr⟩
      · rw [List.append_nil]
        exact hwritten
      · rw [← Option.some.inj hr]
        exact hempty
    · rw [if_neg fun h => hempty (List.isEmpty_iff.mp h)]
      have hbytes := h.2.2.1.resolve_left hempty
      rw [hbytes]
      obtain ⟨front', hrest, hafter, hhead, hsuffix, hkept⟩ :=
        ih h.2.2.2 (hwritten.writeChunk h.2.1 hsize (disk first.offset))
      rw [List.append_assoc] at hafter
      refine ⟨front', hrest, hafter, hhead, hsuffix.trans (List.suffix_cons first rest), ?_⟩
      intro request hr hnil
      rcases List.mem_cons.mp hr with rfl | hr
      · exact absurd hnil hempty
      · exact hkept request hr hnil

end TelegramDesktop.Mtproto.DedicatedFileLoader
