import TelegramDesktop.Base.Slice

namespace TelegramDesktop.Storage

def kDownloadPartSize : ℕ := 128 * 1024

structure FileLoader where
  data : List UInt8 := []
  skippedBytes : ℤ := 0

namespace FileLoader

/-- `QByteArray::resize`, with arbitrary bytes where it grows. -/
def resize (filler : ℕ → UInt8) (data : List UInt8) (size : ℕ) : List UInt8 :=
  data.take size ++ (List.range' data.length (size - data.length)).map filler

/-- With no file open. -/
def currentOffset (s : FileLoader) : ℤ := s.data.length - s.skippedBytes

/-- With no file open, so that nothing can fail. -/
def writeResultPart (filler : ℕ → UInt8) (s : FileLoader) (offset : ℕ) (buffer : List UInt8) :
    FileLoader :=
  if buffer.isEmpty then s
  else
    let s : FileLoader :=
      if s.data.length < offset then
        { data := resize filler s.data offset
          skippedBytes := s.skippedBytes + (offset - s.data.length) }
      else s
    if offset = s.data.length then { s with data := s.data ++ buffer }
    else
      let data :=
        if s.data.length < offset + buffer.length then
          resize filler s.data (offset + buffer.length)
        else s.data
      { data := Base.splice data offset buffer
        skippedBytes := s.skippedBytes - buffer.length }

/-- Feed the parts, each an offset and its bytes. -/
def feed (filler : ℕ → UInt8) (s : FileLoader) (parts : List (ℕ × List UInt8)) : FileLoader :=
  parts.foldl (fun s part => s.writeResultPart filler part.1 part.2) s

theorem length_resize (filler : ℕ → UInt8) {data : List UInt8} {size : ℕ}
    (h : data.length ≤ size) : (resize filler data size).length = size := by
  rw [resize, List.length_append, List.length_take, List.length_map, List.length_range']
  omega

theorem getElem?_resize (filler : ℕ → UInt8) {data : List UInt8} {size j : ℕ}
    (h : data.length ≤ size) (hj : j < data.length) :
    (resize filler data size)[j]? = data[j]? := by
  rw [resize, List.take_of_length_le h, List.getElem?_append_left hj]

theorem getElem?_splice {data buffer : List UInt8} {offset : ℕ}
    (h : offset + buffer.length ≤ data.length) (j : ℕ) :
    (Base.splice data offset buffer)[j]? =
      if offset ≤ j ∧ j < offset + buffer.length then buffer[j - offset]? else data[j]? := by
  have hoffset : (data.take offset).length = offset := by
    rw [List.length_take]
    omega
  rw [Base.splice, List.append_assoc]
  split_ifs with hj
  · rw [List.getElem?_append_right (by omega), hoffset, List.getElem?_append_left (by omega)]
  · rcases Nat.lt_or_ge j offset with hlt | hge
    · rw [List.getElem?_append_left (by omega), List.getElem?_take_of_lt hlt]
    · rw [List.getElem?_append_right (by omega), hoffset, List.getElem?_append_right (by omega),
        List.getElem?_drop]
      congr 1
      omega

/-- The part holds what the file has there. -/
def PartOf (file : List UInt8) (part : ℕ × List UInt8) : Prop :=
  ∀ j < part.2.length, part.2[j]? = file[part.1 + j]?

def Apart (p q : ℕ × List UInt8) : Prop :=
  p.2 = [] ∨ q.2 = [] ∨ p.1 + p.2.length ≤ q.1 ∨ q.1 + q.2.length ≤ p.1

/-- What the loader holds when some parts were fed: the hole bytes are those skipped. -/
structure Fed (file : List UInt8) (parts : List (ℕ × List UInt8)) (s : FileLoader) : Prop where
  bytes : ∀ p ∈ parts, ∀ j, p.1 ≤ j → j < p.1 + p.2.length → s.data[j]? = file[j]?
  reach : ∀ p ∈ parts, p.2 ≠ [] → p.1 + p.2.length ≤ s.data.length
  last : s.data = [] ∨ ∃ p ∈ parts, p.2 ≠ [] ∧ s.data.length = p.1 + p.2.length
  offset : s.currentOffset = ((parts.map fun p => p.2.length).sum : ℕ)

theorem Fed.start (file : List UInt8) : Fed file [] {} where
  bytes := fun _ hp => nomatch hp
  reach := fun _ hp => nomatch hp
  last := Or.inl rfl
  offset := rfl

theorem sum_concat (parts : List (ℕ × List UInt8)) (part : ℕ × List UInt8) :
    ((parts ++ [part]).map fun p => p.2.length).sum =
      (parts.map fun p => p.2.length).sum + part.2.length := by
  rw [List.map_append, List.sum_append]
  rfl

/-- The next part comes at the end of the data, behind a hole or not. -/
theorem Fed.append {file : List UInt8} {parts : List (ℕ × List UInt8)} {s t : FileLoader}
    {part : ℕ × List UInt8} (h : Fed file parts s) (hpart : PartOf file part)
    (hnew : part.2 ≠ []) (hle : s.data.length ≤ part.1)
    (hlength : t.data.length = part.1 + part.2.length)
    (hold : ∀ j < s.data.length, t.data[j]? = s.data[j]?)
    (hwritten : ∀ j < part.2.length, t.data[part.1 + j]? = part.2[j]?)
    (hoffset : t.currentOffset = s.currentOffset + part.2.length) :
    Fed file (parts ++ [part]) t where
  bytes := by
    intro p hp j hj hj'
    rcases List.mem_append.mp hp with hp | hp
    · have hreach := h.reach p hp (by rintro heq; simp [heq] at hj'; omega)
      rw [hold j (by omega)]
      exact h.bytes p hp j hj hj'
    · obtain rfl := List.mem_singleton.mp hp
      obtain ⟨d, rfl⟩ := Nat.exists_eq_add_of_le hj
      rw [hwritten d (by omega), hpart d (by omega)]
  reach := by
    intro p hp hne
    rcases List.mem_append.mp hp with hp | hp
    · have := h.reach p hp hne
      omega
    · rw [List.mem_singleton.mp hp, hlength]
  last := Or.inr ⟨part, by simp, hnew, hlength⟩
  offset := by
    rw [hoffset, h.offset, sum_concat]
    push_cast
    rfl

/-- A part before the end fills a hole: it does not reach over the last part fed. -/
theorem Fed.fill {file : List UInt8} {parts : List (ℕ × List UInt8)} {s t : FileLoader}
    {part : ℕ × List UInt8} (h : Fed file parts s) (hpart : PartOf file part)
    (hinside : part.1 + part.2.length ≤ s.data.length)
    (hapart : ∀ p ∈ parts, Apart p part)
    (ht : t = { data := Base.splice s.data part.1 part.2
                skippedBytes := s.skippedBytes - part.2.length }) :
    Fed file (parts ++ [part]) t := by
  have hget := getElem?_splice hinside
  have hlength : t.data.length = s.data.length := by
    rw [ht]
    exact Base.length_splice hinside
  refine ⟨?_, ?_, ?_, ?_⟩
  · intro p hp j hj hj'
    rw [ht]
    change (Base.splice s.data part.1 part.2)[j]? = _
    rw [hget]
    rcases List.mem_append.mp hp with hp | hp
    · -- the part writes over no byte of an older one
      have hnot : ¬(part.1 ≤ j ∧ j < part.1 + part.2.length) := by
        rcases hapart p hp with hempty | hempty | hbefore | hbehind
        · rw [hempty, List.length_nil] at hj'
          omega
        · rw [hempty, List.length_nil]
          omega
        · omega
        · omega
      rw [if_neg hnot]
      exact h.bytes p hp j hj hj'
    · obtain rfl := List.mem_singleton.mp hp
      obtain ⟨d, rfl⟩ := Nat.exists_eq_add_of_le hj
      rw [if_pos ⟨hj, hj'⟩, Nat.add_sub_cancel_left, hpart d (by omega)]
  · intro p hp hne
    rw [hlength]
    rcases List.mem_append.mp hp with hp | hp
    · exact h.reach p hp hne
    · rw [List.mem_singleton.mp hp]
      exact hinside
  · rcases h.last with hempty | ⟨p, hp, hne, hlast⟩
    · exact Or.inl (List.length_eq_zero_iff.mp (hlength.trans (by rw [hempty]; rfl)))
    · exact Or.inr ⟨p, List.mem_append_left _ hp, hne, hlength.trans hlast⟩
  · have hoffset := h.offset
    unfold currentOffset at hoffset ⊢
    rw [hlength, sum_concat, ht]
    push_cast
    push_cast at hoffset
    omega

/-- An empty part changes nothing. -/
theorem Fed.skip {file : List UInt8} {parts : List (ℕ × List UInt8)} {s : FileLoader}
    (h : Fed file parts s) (offset : ℕ) : Fed file (parts ++ [(offset, [])]) s where
  bytes := by
    intro p hp j hj hj'
    rcases List.mem_append.mp hp with hp | hp
    · exact h.bytes p hp j hj hj'
    · rw [List.mem_singleton.mp hp] at hj hj'
      exact absurd hj' (by simpa using hj)
  reach := by
    intro p hp hne
    rcases List.mem_append.mp hp with hp | hp
    · exact h.reach p hp hne
    · rw [List.mem_singleton.mp hp] at hne
      exact absurd rfl hne
  last := h.last.imp_right fun ⟨p, hp, hlast⟩ => ⟨p, List.mem_append_left _ hp, hlast⟩
  offset := by
    rw [h.offset, sum_concat]
    rfl

section Branches

variable (filler : ℕ → UInt8) {s : FileLoader} {offset : ℕ} {buffer : List UInt8}
  (hnew : buffer.isEmpty = false)
include hnew

theorem writeResultPart_of_lt (h : s.data.length < offset) :
    s.writeResultPart filler offset buffer =
      { data := resize filler s.data offset ++ buffer
        skippedBytes := s.skippedBytes + (offset - s.data.length) } := by
  unfold FileLoader.writeResultPart
  simp only [hnew, Bool.false_eq_true, if_false, if_pos h]
  rw [if_pos (length_resize filler h.le).symm]

theorem writeResultPart_of_eq (h : offset = s.data.length) :
    s.writeResultPart filler offset buffer = { s with data := s.data ++ buffer } := by
  unfold FileLoader.writeResultPart
  simp only [hnew, Bool.false_eq_true, if_false]
  rw [if_neg (show ¬s.data.length < offset by omega), if_pos h]

theorem writeResultPart_of_inside (h : offset + buffer.length ≤ s.data.length) :
    s.writeResultPart filler offset buffer =
      { data := Base.splice s.data offset buffer
        skippedBytes := s.skippedBytes - buffer.length } := by
  have hpos : 0 < buffer.length := List.length_pos_iff.mpr (by rintro rfl; exact nomatch hnew)
  unfold FileLoader.writeResultPart
  simp only [hnew, Bool.false_eq_true, if_false]
  rw [if_neg (show ¬s.data.length < offset by omega), if_neg (by omega), if_neg (by omega)]

end Branches

/-- What has been loaded ends with a part, so that a part apart from it is before the end as a
whole or not at all. -/
theorem Fed.inside {file : List UInt8} {parts : List (ℕ × List UInt8)} {s : FileLoader}
    {part : ℕ × List UInt8} (h : Fed file parts s) (hnew : part.2 ≠ [])
    (hapart : ∀ p ∈ parts, Apart p part) (hlt : part.1 < s.data.length) :
    part.1 + part.2.length ≤ s.data.length := by
  rcases h.last with hempty | ⟨p, hp, hne, hlast⟩
  · rw [hempty] at hlt
    exact absurd hlt (Nat.not_lt_zero _)
  · rcases hapart p hp with hempty | hempty | hbefore | hbehind
    · exact absurd hempty hne
    · exact absurd hempty hnew
    · omega
    · omega

theorem Fed.writeResultPart {file : List UInt8} {parts : List (ℕ × List UInt8)} {s : FileLoader}
    {part : ℕ × List UInt8} (h : Fed file parts s) (filler : ℕ → UInt8)
    (hpart : PartOf file part) (hapart : ∀ p ∈ parts, Apart p part) :
    Fed file (parts ++ [part]) (s.writeResultPart filler part.1 part.2) := by
  obtain ⟨offset, buffer⟩ := part
  rcases List.eq_nil_or_concat buffer with rfl | ⟨front, byte, hbuffer⟩
  · exact h.skip offset
  have hne : buffer ≠ [] := by simp [hbuffer]
  have hnew : buffer.isEmpty = false := by simp [hbuffer]
  rcases lt_trichotomy offset s.data.length with hlt | heq | hgt
  · -- the skipped bytes are paid back, and the size stays
    have hinside := h.inside hne hapart hlt
    exact h.fill hpart hinside hapart (writeResultPart_of_inside filler hnew hinside)
  · have hwrite := writeResultPart_of_eq filler hnew heq
    apply h.append hpart hne heq.ge
    · rw [hwrite]
      exact List.length_append.trans (by rw [heq])
    · intro j hj
      rw [hwrite]
      exact List.getElem?_append_left hj
    · intro j hj
      rw [hwrite]
      change (s.data ++ buffer)[offset + j]? = _
      rw [List.getElem?_append_right (by omega), heq, Nat.add_sub_cancel_left]
    · rw [hwrite]
      simp only [currentOffset, List.length_append]
      omega
  · -- the hole in front of the part is counted as skipped
    have hwrite := writeResultPart_of_lt filler hnew hgt
    have hlength := length_resize filler hgt.le
    apply h.append hpart hne hgt.le
    · rw [hwrite]
      exact List.length_append.trans (by rw [hlength])
    · intro j hj
      rw [hwrite]
      change (resize filler s.data offset ++ buffer)[j]? = _
      rw [List.getElem?_append_left (by omega), getElem?_resize filler hgt.le hj]
    · intro j hj
      rw [hwrite]
      change (resize filler s.data offset ++ buffer)[offset + j]? = _
      rw [List.getElem?_append_right (by omega), hlength, Nat.add_sub_cancel_left]
    · rw [hwrite]
      simp only [currentOffset, List.length_append, hlength]
      omega

theorem Fed.feed {file : List UInt8} {fed parts : List (ℕ × List UInt8)} {s : FileLoader}
    (h : Fed file fed s) (filler : ℕ → UInt8) (hparts : ∀ p ∈ parts, PartOf file p)
    (hapart : (fed ++ parts).Pairwise Apart) : Fed file (fed ++ parts) (s.feed filler parts) := by
  induction parts generalizing fed s with
  | nil => rwa [List.append_nil]
  | cons part parts ih =>
    have hfirst : ∀ p ∈ fed, Apart p part := fun p hp =>
      (List.pairwise_append.mp hapart).2.2 p hp part List.mem_cons_self
    have hnext := h.writeResultPart filler (hparts part List.mem_cons_self) hfirst
    rw [List.append_cons] at hapart ⊢
    exact ih hnext (fun p hp => hparts p (List.mem_cons_of_mem _ hp)) hapart

/-- The part that the server sends for the offset of the index. -/
def part (file : List UInt8) (i : ℕ) : ℕ × List UInt8 :=
  (i * kDownloadPartSize, Base.slice file (i * kDownloadPartSize) kDownloadPartSize)

theorem length_part (file : List UInt8) (i : ℕ) :
    (part file i).2.length = min kDownloadPartSize (file.length - i * kDownloadPartSize) := by
  rw [part, Base.slice, List.length_take, List.length_drop]

theorem partOf_part (file : List UInt8) (i : ℕ) : PartOf file (part file i) := by
  intro j hj
  rw [length_part] at hj
  rw [part, Base.slice, List.getElem?_take_of_lt (by omega), List.getElem?_drop]

theorem apart_part (file : List UInt8) {i j : ℕ} (h : i ≠ j) :
    Apart (part file i) (part file j) := by
  have hi : (part file i).2.length ≤ kDownloadPartSize := length_part file i ▸ min_le_left _ _
  have hj : (part file j).2.length ≤ kDownloadPartSize := length_part file j ▸ min_le_left _ _
  rcases Nat.lt_or_gt_of_ne h with hlt | hgt
  · have := Nat.mul_le_mul_right kDownloadPartSize hlt
    rw [Nat.succ_mul] at this
    exact Or.inr (Or.inr (Or.inl ((Nat.add_le_add_left hi _).trans this)))
  · have := Nat.mul_le_mul_right kDownloadPartSize hgt
    rw [Nat.succ_mul] at this
    exact Or.inr (Or.inr (Or.inr ((Nat.add_le_add_left hj _).trans this)))

theorem sum_range_part (file : List UInt8) (n : ℕ) :
    ∑ i ∈ Finset.range n, (part file i).2.length = min (n * kDownloadPartSize) file.length := by
  induction n with
  | zero => simp
  | succ n ih =>
    rw [Finset.sum_range_succ, ih, length_part, Nat.succ_mul]
    omega

/-- Aligned parts that cover the file have as many bytes together. -/
theorem sum_parts {file : List UInt8} {order : List ℕ} (hnodup : order.Nodup)
    (hcover : ∀ i, i * kDownloadPartSize < file.length → i ∈ order) :
    ((order.map (part file)).map fun p => p.2.length).sum = file.length := by
  have hpart : 0 < kDownloadPartSize := by decide
  have hempty : ∀ i, file.length ≤ i * kDownloadPartSize → (part file i).2.length = 0 := by
    intro i hi
    rw [length_part]
    omega
  have hbig : file.length ≤ file.length * kDownloadPartSize := Nat.le_mul_of_pos_right _ hpart
  calc ((order.map (part file)).map fun p => p.2.length).sum
      = (order.map fun i => (part file i).2.length).sum := by
        rw [List.map_map]
        rfl
    _ = ∑ i ∈ order.toFinset, (part file i).2.length := (List.sum_toFinset _ hnodup).symm
    _ = ∑ i ∈ order.toFinset ∪ Finset.range file.length, (part file i).2.length := by
        apply Finset.sum_subset Finset.subset_union_left
        intro i _ hi
        apply hempty i
        by_contra hlt
        exact hi (List.mem_toFinset.mpr (hcover i (by omega)))
    -- indices that are fed or counted in vain are behind the file, where parts are empty
    _ = ∑ i ∈ Finset.range file.length, (part file i).2.length := by
        symm
        apply Finset.sum_subset Finset.subset_union_right
        intro i _ hi
        apply hempty i
        rw [Finset.mem_range, Nat.not_lt] at hi
        exact hbig.trans (Nat.mul_le_mul_right _ hi)
    _ = file.length := by
        rw [sum_range_part]
        exact min_eq_right hbig

theorem pairwise_part (file : List UInt8) {order : List ℕ} (hnodup : order.Nodup) :
    (order.map (part file)).Pairwise Apart := by
  rw [List.pairwise_map]
  exact hnodup.imp fun hne => apart_part file hne

/-- The aligned parts of a file, each fed once and in any order: the offset counts the bytes fed
and the file comes out whole, without holes. -/
theorem any_order (filler : ℕ → UInt8) (file : List UInt8) {order : List ℕ}
    (hnodup : order.Nodup) (hcover : ∀ i, i * kDownloadPartSize < file.length → i ∈ order) :
    (∀ n, (feed filler {} ((order.map (part file)).take n)).currentOffset =
      ((((order.map (part file)).take n).map fun p => p.2.length).sum : ℕ)) ∧
    (feed filler {} (order.map (part file))).data = file ∧
    (feed filler {} (order.map (part file))).currentOffset = file.length ∧
    (feed filler {} (order.map (part file))).skippedBytes = 0 := by
  have hparts : ∀ p ∈ order.map (part file), PartOf file p := by
    intro p hp
    obtain ⟨i, -, rfl⟩ := List.mem_map.mp hp
    exact partOf_part file i
  have hapart := pairwise_part file hnodup
  have hall : Fed file (order.map (part file)) (feed filler {} (order.map (part file))) :=
    (Fed.start file).feed filler hparts hapart
  have hoffset := hall.offset
  rw [sum_parts hnodup hcover] at hoffset
  have hpart : 0 < kDownloadPartSize := by decide
  have hin : ∀ j < file.length, ∃ p ∈ order.map (part file),
      p.1 ≤ j ∧ j < p.1 + p.2.length := by
    intro j hj
    have hmod := Nat.div_add_mod j kDownloadPartSize
    have hlt := Nat.mod_lt j hpart
    rw [Nat.mul_comm] at hmod
    refine ⟨part file (j / kDownloadPartSize), List.mem_map_of_mem (hcover _ (by omega)), ?_, ?_⟩
    · change j / kDownloadPartSize * kDownloadPartSize ≤ j
      omega
    · rw [length_part]
      change j < j / kDownloadPartSize * kDownloadPartSize + _
      omega
  have hlength : (feed filler {} (order.map (part file))).data.length = file.length := by
    apply le_antisymm
    · rcases hall.last with hempty | ⟨p, hp, hne, hlast⟩
      · simp [hempty]
      · obtain ⟨i, -, rfl⟩ := List.mem_map.mp hp
        have hpos := List.length_pos_iff.mpr hne
        rw [hlast]
        rw [length_part] at hpos ⊢
        change i * kDownloadPartSize + _ ≤ _
        omega
    · by_contra hshort
      obtain ⟨p, hp, hle, hlt⟩ := hin (file.length - 1) (by omega)
      have hreach := hall.reach p hp (by rintro heq; simp [heq] at hlt; omega)
      omega
  refine ⟨fun n => ?_, ?_, hoffset, ?_⟩
  · have hfed := (Fed.start file).feed filler
      (fun p hp => hparts p (List.mem_of_mem_take (i := n) hp))
      (hapart.sublist (List.take_sublist n _))
    exact hfed.offset
  · apply List.ext_getElem?
    intro j
    rcases Nat.lt_or_ge j file.length with hj | hj
    · obtain ⟨p, hp, hle, hlt⟩ := hin j hj
      exact hall.bytes p hp j hle hlt
    · rw [List.getElem?_eq_none (by omega), List.getElem?_eq_none hj]
  · unfold currentOffset at hoffset
    omega

/-- The short part at the end comes first, then a hole is left and filled. -/
theorem any_order_last_first :
    (feed (fun _ => 0) {} ([2, 0, 1].map
      (part (List.replicate (2 * kDownloadPartSize + 3) 7)))).data =
        List.replicate (2 * kDownloadPartSize + 3) 7 ∧
    (feed (fun _ => 0) {} ([2, 0, 1].map
      (part (List.replicate (2 * kDownloadPartSize + 3) 7)))).skippedBytes = 0 := by
  have hcover : ∀ i, i * kDownloadPartSize <
      (List.replicate (2 * kDownloadPartSize + 3) (7 : UInt8)).length → i ∈ [2, 0, 1] := by
    intro i hi
    rw [List.length_replicate, kDownloadPartSize] at hi
    simp only [List.mem_cons, List.not_mem_nil, or_false]
    omega
  have hnodup : [2, 0, 1].Nodup := by decide
  obtain ⟨-, hdata, -, hskipped⟩ := any_order (fun _ => 0) _ hnodup hcover
  exact ⟨hdata, hskipped⟩

end FileLoader

end TelegramDesktop.Storage
