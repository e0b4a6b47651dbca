import TelegramDesktop.Storage.WriteManager

namespace TelegramDesktop.Storage
open Base FileUtilities

abbrev FileKey := UInt64

/-- One digit, of a number less than 16. -/
def filePartDigit (v : UInt8) : Char :=
  if v < 0x0A then .ofNat ('0'.toNat + v.toNat) else .ofNat ('A'.toNat + (v - 0x0A).toNat)

/-- The loop of `toFilePart`, with so many digits to go. -/
def filePartLoop : ℕ → FileKey → List Char
  | 0, _ => []
  | count + 1, val => filePartDigit (val &&& 0x0F).toUInt8 :: filePartLoop count (val >>> 4)

def toFilePart (val : FileKey) : String := .ofList (filePartLoop 0x10 val)

theorem filePartDigit_injective : ∀ v w : Fin 16,
    filePartDigit (.ofNat v.val) = filePartDigit (.ofNat w.val) → v = w := by
  decide

theorem filePartLoop_injective (count : ℕ) (val val' : FileKey)
    (h : filePartLoop count val = filePartLoop count val') :
    val.toNat % 16 ^ count = val'.toNat % 16 ^ count := by
  induction count generalizing val val' with
  | zero => rw [pow_zero, Nat.mod_one, Nat.mod_one]
  | succ count ih =>
    have hlow (x : FileKey) :
        (x &&& 0x0F).toUInt8 = .ofNat (⟨x.toNat % 16, by omega⟩ : Fin 16) := by
      apply UInt8.toNat_inj.mp
      rw [UInt64.toNat_toUInt8, UInt64.toNat_and]
      show (x.toNat &&& (2 ^ 4 - 1)) % 256 = x.toNat % 16 % 256
      rw [Nat.and_two_pow_sub_one_eq_mod]
    have hrest (x : FileKey) : (x >>> 4).toNat = x.toNat / 16 := by
      rw [UInt64.toNat_shiftRight]
      exact Nat.shiftRight_eq_div_pow x.toNat 4
    rw [filePartLoop, filePartLoop, List.cons.injEq, hlow, hlow] at h
    have hdigit := congrArg Fin.val (filePartDigit_injective _ _ h.1)
    have hmore := ih _ _ h.2
    rw [hrest, hrest] at hmore
    rw [pow_succ', Nat.mod_mul, Nat.mod_mul, hmore]
    exact congrArg (· + _) hdigit

/-- Different keys have different names. -/
theorem toFilePart_injective : Function.Injective toFilePart := by
  intro val val' h
  have hmod := filePartLoop_injective 0x10 val val' (String.ofList_injective h)
  have hsize : 16 ^ 0x10 = 2 ^ 64 := by norm_num
  rw [hsize, Nat.mod_eq_of_lt val.toNat_lt, Nat.mod_eq_of_lt val'.toNat_lt] at hmod
  exact UInt64.toNat_inj.mp hmod

namespace WriteManager

/-- What a write leaves when it is not interrupted. -/
def written (outcome : Outcome) (entry : FileUtilities.WriteEntry) (d : Directory) : Directory :=
  (FileUtilities.writeNow outcome entry d).getLastD d

/-- The files of each base after the writes; the file system has an outcome for each of them. -/
def filesAfter (outcome : ℕ → Outcome) :
    ℕ → (String → Directory) → List WriteEntry → String → Directory
  | _, files, [] => files
  | count, files, entry :: rest =>
    filesAfter outcome (count + 1) (Function.update files entry.base
      (written (outcome count) entry.file (files entry.base))) rest

/-- Only the last write of a base matters when the files are saved. -/
theorem filesAfter_saved {outcome : ℕ → Outcome} (files : String → Directory) (base : String)
    (hsaved : ∀ n, (outcome n).saveOpened = true ∧ (outcome n).committed = true)
    (count : ℕ) (out : List WriteEntry) :
    filesAfter outcome count files out base = files base ∧ latest WriteEntry.base base out = none ∨
    ∃ entry time, latest WriteEntry.base base out = some entry ∧
      filesAfter outcome count files out base = ⟨some ⟨fileOf entry.file, time⟩, none, none⟩ := by
  induction out generalizing count files with
  | nil => exact .inl ⟨rfl, rfl⟩
  | cons first rest ih =>
    rw [filesAfter, latest_cons]
    rcases ih (Function.update files first.base
      (written (outcome count) first.file (files first.base))) (count + 1) with
      ⟨hfiles, hnone⟩ | ⟨entry, time, hlast, hfiles⟩
    · rw [hfiles, hnone, Option.none_or]
      by_cases hbase : first.base = base
      · right
        refine ⟨first, (outcome count).modified (fileOf first.file).length, if_pos hbase, ?_⟩
        rw [hbase, Function.update_self, written, FileUtilities.writeNow, (hsaved count).1,
          (hsaved count).2]
        rfl
      · exact .inl ⟨Function.update_of_ne (Ne.symm hbase) _ _, if_neg hbase⟩
    · rw [hlast, Option.some_or]
      exact .inr ⟨entry, time, rfl, hfiles⟩

end WriteManager

/-- What the program does with the files of one folder, besides reading them. -/
inductive Use
  | finish (key : FileKey) (datas : List (Option (List UInt8))) (sync : Bool)
  | sync
  | stop
  | thread

namespace Use

variable (md5 : List UInt8 → List UInt8) (basePath : String)

/-- What `FileWriteDescriptor::finish` hands over. -/
def entry (key : FileKey) (datas : List (Option (List UInt8))) : WriteManager.WriteEntry :=
  ⟨basePath ++ toFilePart key, FileUtilities.written md5 datas⟩

def event : Use → AsyncWriteManager.Event
  | .finish key datas true => .writeSync (entry md5 basePath key datas)
  | .finish key datas false => .write (entry md5 basePath key datas)
  | .sync => .sync
  | .stop => .stop
  | .thread => .thread

/-- The key and the data that a use writes. -/
def written : Use → List (FileKey × List (Option (List UInt8)))
  | .finish key datas _ => [(key, datas)]
  | .sync | .stop | .thread => []

/-- What was written last for a key. -/
def lastData (key : FileKey) (uses : List Use) : Option (List (Option (List UInt8))) :=
  (latest Prod.fst key (uses.flatMap written)).map Prod.snd

/-- What the callers and the thread did, and what was written. -/
def after (uses : List Use) : AsyncWriteManager × List WriteManager.WriteEntry :=
  run AsyncWriteManager.step {} (uses.map (event md5 basePath))

variable {md5 basePath}

theorem entries_event (use : Use) :
    (event md5 basePath use).entries =
      (written use).map fun saved => entry md5 basePath saved.1 saved.2 := by
  cases use with
  | finish key datas sync => cases sync <;> rfl
  | sync => rfl
  | stop => rfl
  | thread => rfl

theorem base_injective : Function.Injective fun key => basePath ++ toFilePart key := by
  intro key key' h
  exact toFilePart_injective ((String.append_right_inj basePath).mp h)

/-- The last entry of the base of a key is that of the last data of the key. -/
theorem latest_entries (key : FileKey) (uses : List Use) :
    latest WriteManager.WriteEntry.base (basePath ++ toFilePart key)
        ((uses.map (event md5 basePath)).flatMap AsyncWriteManager.Event.entries) =
      (lastData key uses).map (entry md5 basePath key) := by
  have hentries : (uses.map (event md5 basePath)).flatMap AsyncWriteManager.Event.entries =
      (uses.flatMap written).map fun saved => entry md5 basePath saved.1 saved.2 := by
    rw [List.flatMap_map, List.map_flatMap]
    exact List.flatMap_congr fun use _ => entries_event use
  rw [hentries, lastData, Option.map_map]
  have hkey (saved : FileKey × List (Option (List UInt8))) :
      (entry md5 basePath saved.1 saved.2).base = basePath ++ toFilePart key ↔ saved.1 = key :=
    base_injective.eq_iff
  rw [latest_map hkey]
  cases hlast : latest Prod.fst key (uses.flatMap written) with
  | none => rfl
  | some saved =>
    rw [Option.map_some, Option.map_some, ← (mem_of_latest hlast).2]
    rfl

theorem readFile_saved {entry : FileUtilities.WriteEntry} (hmd5 : ∀ x, (md5 x).length = 16)
    (hsigned : entry.md5 = signature md5 AppVersion entry.data) (time : ℕ) :
    (readFile md5 ⟨some ⟨fileOf entry, time⟩, none, none⟩).map Prod.fst =
      some ⟨AppVersion, entry.data⟩ := by
  have hread : readFile md5 ⟨some ⟨fileOf entry, time⟩, none, none⟩ =
      some (⟨AppVersion, entry.data⟩, ⟨some ⟨fileOf entry, time⟩, none, none⟩) := by
    have hcheck : checkNamed md5 ⟨some ⟨fileOf entry, time⟩, none, none⟩ .s =
        some ⟨AppVersion, entry.data⟩ := checkFile_fileOf hmd5 hsigned
    rw [readFile, toTry]
    dsimp only
    rw [hcheck]
  rw [hread, Option.map_some]

/-- Once nothing is pending, reading a key gives what was written last for it, and a key that
was not written reads as before. -/
theorem read_after (hmd5 : ∀ x, (md5 x).length = 16) {outcome : ℕ → Outcome}
    (hsaved : ∀ n, (outcome n).saveOpened = true ∧ (outcome n).committed = true)
    (files : String → Directory) (uses : List Use) (key : FileKey)
    (hpending : (after md5 basePath uses).1.pending = []) :
    (readFile md5 (WriteManager.filesAfter outcome 0 files (after md5 basePath uses).2
        (basePath ++ toFilePart key))).map Prod.fst =
      (lastData key uses).elim ((readFile md5 (files (basePath ++ toFilePart key))).map Prod.fst)
        fun datas => some ⟨AppVersion, (FileUtilities.written md5 datas).data⟩ := by
  have hlatest := ((AsyncWriteManager.keeps_run (uses.map (event md5 basePath))).2
    (basePath ++ toFilePart key)).2
  rw [latest_entries] at hlatest
  rw [← after, hpending, List.append_nil] at hlatest
  rcases WriteManager.filesAfter_saved files (basePath ++ toFilePart key) hsaved 0
    (after md5 basePath uses).2 with ⟨hfiles, hnone⟩ | ⟨last, time, hlast, hfiles⟩
  · rw [hnone] at hlatest
    rw [hfiles, Option.map_eq_none_iff.mp hlatest.symm, Option.elim_none]
  · rw [hlast] at hlatest
    obtain ⟨datas, hdatas, hentry⟩ := Option.map_eq_some_iff.mp hlatest.symm
    rw [hfiles, hdatas, ← hentry, Option.elim_some]
    exact readFile_saved hmd5 (written_signed datas) time

theorem pending_sync (uses : List Use) :
    (after md5 basePath (uses ++ [.sync])).1.pending = [] := by
  have hvalid := (AsyncWriteManager.keeps_run (uses.map (event md5 basePath))).1
  rw [after, List.map_append, List.map_singleton, run_concat]
  exact (AsyncWriteManager.keeps_sync hvalid).2.1

theorem pending_stop (uses : List Use) :
    (after md5 basePath (uses ++ [.stop])).1.pending = [] := by
  rw [after, List.map_append, List.map_singleton, run_concat]
  rfl

/-- The tasks that the thread has left, each use of it taking one. -/
theorem run_thread (m : WriteManager) (count : ℕ) (finished : Bool) :
    run AsyncWriteManager.step ⟨some m, finished⟩ (List.replicate count .thread) =
      (⟨some (WriteManager.threads count m).1, finished⟩, (WriteManager.threads count m).2) := by
  induction count generalizing m with
  | zero => rfl
  | succ count ih =>
    rw [List.replicate_succ, run_cons]
    show ((run AsyncWriteManager.step ⟨some (WriteManager.thread m).1, finished⟩
        (List.replicate count .thread)).1, (WriteManager.thread m).2 ++
      (run AsyncWriteManager.step ⟨some (WriteManager.thread m).1, finished⟩
        (List.replicate count .thread)).2) = _
    rw [ih]
    rfl

theorem run_thread_none (count : ℕ) (finished : Bool) :
    run AsyncWriteManager.step ⟨none, finished⟩ (List.replicate count .thread) =
      (⟨none, finished⟩, []) := by
  induction count with
  | zero => rfl
  | succ count ih =>
    rw [List.replicate_succ, run_cons]
    show ((run AsyncWriteManager.step ⟨none, finished⟩ (List.replicate count .thread)).1,
      [] ++ (run AsyncWriteManager.step ⟨none, finished⟩ (List.replicate count .thread)).2) = _
    rw [ih]
    rfl

/-- A bound for the tasks of the thread after some uses. -/
def work (md5 : List UInt8 → List UInt8) (basePath : String) (uses : List Use) : ℕ :=
  ((after md5 basePath uses).1.manager.getD {}).work

theorem pending_thread (uses : List Use) {count : ℕ} (h : work md5 basePath uses ≤ count) :
    (after md5 basePath (uses ++ List.replicate count .thread)).1.pending = [] := by
  have hvalid := (AsyncWriteManager.keeps_run (uses.map (event md5 basePath))).1
  rw [after, List.map_append, List.map_replicate, run_append]
  rw [work, after] at h
  generalize (run AsyncWriteManager.step {} (uses.map (event md5 basePath))).1 = a at h hvalid
  obtain ⟨manager, finished⟩ := a
  cases manager with
  | none =>
    show (run AsyncWriteManager.step ⟨none, finished⟩ (List.replicate count .thread)).1.pending = []
    rw [run_thread_none]
    rfl
  | some m =>
    show (run AsyncWriteManager.step ⟨some m, finished⟩
      (List.replicate count .thread)).1.pending = []
    rw [run_thread]
    exact WriteManager.pending_settled hvalid h

/-- What ends with everything written: a call that waits for it, or the thread left to itself. -/
inductive Ending (md5 : List UInt8 → List UInt8) (basePath : String) (uses : List Use) :
    List Use → Prop
  | sync : Ending md5 basePath uses [.sync]
  | stop : Ending md5 basePath uses [.stop]
  | thread {count : ℕ} (h : work md5 basePath uses ≤ count) :
      Ending md5 basePath uses (List.replicate count .thread)

theorem Ending.pending {uses ending : List Use} (h : Ending md5 basePath uses ending) :
    (after md5 basePath (uses ++ ending)).1.pending = [] := by
  cases h with
  | sync => exact pending_sync uses
  | stop => exact pending_stop uses
  | thread h => exact pending_thread uses h

theorem Ending.lastData {uses ending : List Use} (h : Ending md5 basePath uses ending)
    (key : FileKey) : Use.lastData key (uses ++ ending) = Use.lastData key uses := by
  have hnone : ending.flatMap Use.written = [] := by
    cases h with
    | sync => rfl
    | stop => rfl
    | thread h =>
      apply List.flatMap_eq_nil_iff.mpr
      intro use huse
      rw [List.eq_of_mem_replicate huse]
      rfl
  rw [Use.lastData, List.flatMap_append, hnone, List.append_nil]
  rfl

/-- After any uses in any order and such an ending, each key reads as the data written last for
it, however the writes of the keys were put together. -/
theorem read_saved (hmd5 : ∀ x, (md5 x).length = 16) {outcome : ℕ → Outcome}
    (hsaved : ∀ n, (outcome n).saveOpened = true ∧ (outcome n).committed = true)
    (files : String → Directory) {uses ending : List Use} (hend : Ending md5 basePath uses ending)
    (key : FileKey) :
    (readFile md5 (WriteManager.filesAfter outcome 0 files
        (after md5 basePath (uses ++ ending)).2 (basePath ++ toFilePart key))).map Prod.fst =
      (lastData key uses).elim ((readFile md5 (files (basePath ++ toFilePart key))).map Prod.fst)
        fun datas => some ⟨AppVersion, (FileUtilities.written md5 datas).data⟩ := by
  have hread := read_after hmd5 hsaved files (uses ++ ending) key hend.pending
  rw [hend.lastData] at hread
  exact hread

/-- Two keys, the first of them written again before the thread came to it. -/
def twice : List Use :=
  [.finish 1 [some [1]] false, .finish 2 [some [2]] false, .thread, .finish 1 [some [3]] false]

def savedOutcome (_ : ℕ) : Outcome := { wholeOutcome with committed := true }

example :
    (readFile noHash (WriteManager.filesAfter savedOutcome 0 (fun _ => {})
        (after noHash "tdata/" (twice ++ [.sync])).2 ("tdata/" ++ toFilePart 1))).map Prod.fst =
      some ⟨AppVersion, [0, 0, 0, 1, 3]⟩ :=
  (read_saved (fun _ => List.length_replicate) (fun _ => ⟨rfl, rfl⟩) (fun _ => {}) .sync 1).trans
    (by decide +kernel)

end Use
end TelegramDesktop.Storage
