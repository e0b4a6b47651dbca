import TelegramDesktop.Storage.FileUtilities

namespace TelegramDesktop.Storage.FileUtilities
open Base

variable {md5 : List UInt8 → List UInt8} {d d' : Directory} {entry : WriteEntry}
  {old : FileReadDescriptor} {outcome : Outcome}

theorem length_ofWord_reverse (x : UInt32) : (Words.ofWord x).reverse.length = 4 := by
  rw [List.length_reverse, Words.length_ofWord]

/-- The checksum is fed what is written. -/
theorem writeData_fed (datas : List (Option (List UInt8))) (w : FileWriteDescriptor)
    (hfed : w.fed = w.safeData) (hsize : w.fullSize = w.safeData.length) :
    (datas.foldl FileWriteDescriptor.writeData w).fed =
        (datas.foldl FileWriteDescriptor.writeData w).safeData ∧
      (datas.foldl FileWriteDescriptor.writeData w).fullSize =
        (datas.foldl FileWriteDescriptor.writeData w).safeData.length := by
  induction datas generalizing w with
  | nil => exact ⟨hfed, hsize⟩
  | cons data datas ih =>
    apply ih
    · rw [FileWriteDescriptor.writeData, hfed]
    · rw [FileWriteDescriptor.writeData]
      dsimp only
      rw [List.length_append, hsize]
      cases data with
      | none =>
        rw [streamed, length_ofWord_reverse, Option.getD_none, List.length_nil]
      | some data =>
        rw [streamed, List.length_append, length_ofWord_reverse, Option.getD_some]
        omega

theorem written_signed (datas : List (Option (List UInt8))) :
    (written md5 datas).md5 = signature md5 AppVersion (written md5 datas).data := by
  obtain ⟨hfed, hsize⟩ := writeData_fed datas {} rfl rfl
  rw [written, FileWriteDescriptor.finish, signature]
  dsimp only
  rw [hfed, hsize]

theorem checkFile_fileOf (hmd5 : ∀ x, (md5 x).length = 16)
    (hentry : entry.md5 = signature md5 AppVersion entry.data) :
    checkFile md5 (fileOf entry) = some ⟨AppVersion, entry.data⟩ := by
  have hlength : entry.md5.length = 16 := by
    rw [hentry, signature, hmd5]
  have hsize : (entry.data ++ entry.md5).length - 16 = entry.data.length := by
    rw [List.length_append, hlength, Nat.add_sub_cancel]
  have henough : ¬ (entry.data ++ entry.md5).length < 16 := by
    rw [List.length_append, hlength]
    omega
  have hversion : (⟨Words.word 0xE0 0x5A 0x4C 0x00⟩ : Int32) = AppVersion := by decide
  have hcons : fileOf entry = 0x54 :: 0x44 :: 0x46 :: 0x24 :: 0xE0 :: 0x5A :: 0x4C :: 0x00 ::
      (entry.data ++ entry.md5) := by
    have hbytes : int32Bytes AppVersion = [0xE0, 0x5A, 0x4C, 0x00] := by decide
    rw [fileOf, hbytes, List.append_assoc, List.append_assoc]
    rfl
  have hmagic : ¬ [0x54, 0x44, 0x46, 0x24] ≠ TdfMagic := not_not.mpr rfl
  have hown : ¬ AppVersion < AppVersion := by decide
  rw [hcons, checkFile, hversion, hsize, List.take_left, List.drop_left, if_neg hmagic,
    if_neg hown, if_neg henough, if_neg (not_not.mpr hentry.symm)]

/-- What is read is the data of the entry or the data that was read before. -/
def Survives (md5 : List UInt8 → List UInt8) (entry : WriteEntry) (old : FileReadDescriptor)
    (d : Directory) : Prop :=
  ∃ result d', readFile md5 d = some (result, d') ∧
    (result.data = entry.data ∨ result.data = old.data)

/-- One file holds such data. -/
def Passes (md5 : List UInt8 → List UInt8) (entry : WriteEntry) (old : FileReadDescriptor)
    (file : File) : Prop :=
  ∃ result, checkFile md5 file.content = some result ∧
    (result.data = entry.data ∨ result.data = old.data)

/-- With one file to try, what is read is what that file holds. -/
theorem survives_of_one {file : File} (name : Postfix) (horder : toTry d = (name, none))
    (h : d.file name = some file) : Survives md5 entry old d ↔ Passes md5 entry old file := by
  have hcheck : checkNamed md5 d name = checkFile md5 file.content := by
    rw [checkNamed, h, Option.bind_some]
  rw [Survives, Passes, readFile, horder]
  dsimp only
  rw [hcheck]
  cases checkFile md5 file.content with
  | none =>
    exact iff_of_false (fun ⟨_, _, hnone, _⟩ => nomatch hnone) fun ⟨_, hnone, _⟩ => nomatch hnone
  | some result =>
    constructor
    · rintro ⟨_, _, ⟨⟩, hdata⟩
      exact ⟨result, rfl, hdata⟩
    · rintro ⟨_, ⟨⟩, hdata⟩
      exact ⟨result, d, rfl, hdata⟩

theorem survives_safe {file : File} (h : d.safe = some file) :
    Survives md5 entry old d ↔ Passes md5 entry old file :=
  survives_of_one .s (by rw [toTry, h]) h

theorem survives_simple {file : File} (hsafe : d.safe = none) (h : d.simple = some file)
    (hbackup : d.backup = none) : Survives md5 entry old d ↔ Passes md5 entry old file :=
  survives_of_one .zero (by rw [toTry, hsafe, h, hbackup]) h

/-- With two files to try, the first one that passes the checks is read. -/
theorem survives_of_two {first second : File} (names : Postfix × Postfix)
    (horder : toTry d = (names.1, some names.2)) (hfirst : d.file names.1 = some first)
    (hsecond : d.file names.2 = some second) :
    Survives md5 entry old d ↔ Passes md5 entry old first ∨
      (checkFile md5 first.content = none ∧ Passes md5 entry old second) := by
  have hcheck₁ : checkNamed md5 d names.1 = checkFile md5 first.content := by
    rw [checkNamed, hfirst, Option.bind_some]
  have hcheck₂ : checkNamed md5 d names.2 = checkFile md5 second.content := by
    rw [checkNamed, hsecond, Option.bind_some]
  rw [Survives, Passes, Passes, readFile, horder]
  dsimp only
  rw [hcheck₁]
  cases checkFile md5 first.content with
  | none =>
    dsimp only
    rw [hcheck₂]
    cases checkFile md5 second.content with
    | none =>
      refine iff_of_false (fun ⟨_, _, hnone, _⟩ => nomatch hnone) ?_
      rintro (⟨_, hnone, _⟩ | ⟨-, _, hnone, _⟩)
      · exact nomatch hnone
      · exact nomatch hnone
    | some result =>
      constructor
      · rintro ⟨_, _, ⟨⟩, hdata⟩
        exact .inr ⟨rfl, result, rfl, hdata⟩
      · rintro (⟨_, hnone, _⟩ | ⟨-, _, ⟨⟩, hdata⟩)
        · exact nomatch hnone
        · exact ⟨result, _, rfl, hdata⟩
  | some result =>
    constructor
    · rintro ⟨_, _, ⟨⟩, hdata⟩
      exact .inl ⟨result, rfl, hdata⟩
    · rintro (⟨_, ⟨⟩, hdata⟩ | ⟨hnone, -⟩)
      · exact ⟨result, _, rfl, hdata⟩
      · exact nomatch hnone

/-- A file that is not read as something else. -/
def Harmless (md5 : List UInt8 → List UInt8) (entry : WriteEntry) (old : FileReadDescriptor)
    (file : File) : Prop :=
  ∀ result, checkFile md5 file.content = some result →
    result.data = entry.data ∨ result.data = old.data

theorem passes_or_none {file : File} : Harmless md5 entry old file ↔
    Passes md5 entry old file ∨ checkFile md5 file.content = none := by
  rw [Harmless, Passes]
  cases checkFile md5 file.content with
  | none => exact iff_of_true (fun _ hnone => nomatch hnone) (.inr rfl)
  | some result =>
    constructor
    · exact fun h => .inl ⟨result, rfl, h result rfl⟩
    · rintro (⟨_, ⟨⟩, hdata⟩ | hnone)
      · rintro _ ⟨⟩
        exact hdata
      · exact nomatch hnone

/-- With a backup that holds the data, the file beside it may only not be taken for other data,
and may be that when the backup is newer. -/
theorem survives_both {simple backup : File} (hsafe : d.safe = none)
    (hsimple : d.simple = some simple)
    (hbackup : d.backup = some backup) (hpasses : Passes md5 entry old backup) :
    Survives md5 entry old d ↔
      (backup.lastModified ≤ simple.lastModified → Harmless md5 entry old simple) := by
  by_cases htime : simple.lastModified < backup.lastModified
  · have horder : toTry d = (.one, some .zero) := by
      rw [toTry, hsafe, hsimple, hbackup]
      exact if_pos htime
    rw [survives_of_two (.one, .zero) horder hbackup hsimple]
    exact iff_of_true (.inl hpasses) fun h => absurd htime (not_lt.mpr h)
  · have horder : toTry d = (.zero, some .one) := by
      rw [toTry, hsafe, hsimple, hbackup]
      exact if_neg htime
    rw [survives_of_two (.zero, .one) horder hsimple hbackup,
      imp_iff_right (not_lt.mp htime), passes_or_none]
    exact or_congr_right (and_iff_left hpasses)

/-- With a file that has not passed a check the backup has to hold the data. -/
theorem survives_unread {simple backup : File} (hsafe : d.safe = none)
    (hsimple : d.simple = some simple) (hbackup : d.backup = some backup)
    (hnone : checkFile md5 simple.content = none) :
    Survives md5 entry old d ↔ Passes md5 entry old backup := by
  have hsimpleFails : ¬ Passes md5 entry old simple := by
    rintro ⟨_, hsome, -⟩
    exact nomatch (hnone ▸ hsome)
  by_cases htime : simple.lastModified < backup.lastModified
  · have horder : toTry d = (.one, some .zero) := by
      rw [toTry, hsafe, hsimple, hbackup]
      exact if_pos htime
    rw [survives_of_two (.one, .zero) horder hbackup hsimple]
    exact or_iff_left fun h => hsimpleFails h.2
  · have horder : toTry d = (.zero, some .one) := by
      rw [toTry, hsafe, hsimple, hbackup]
      exact if_neg htime
    rw [survives_of_two (.zero, .one) horder hsimple hbackup]
    exact (or_iff_right hsimpleFails).trans (and_iff_right hnone)

/-- What keeps the data through a plain write: all that was stored in the end is a file with
data to keep, and until then there is such a file beside it. -/
def PlainKeeps (md5 : List UInt8 → List UInt8) (outcome : Outcome) (entry : WriteEntry)
    (old : FileReadDescriptor) (d : Directory) : Prop :=
  Passes md5 entry old (plainFile outcome entry outcome.stored) ∧
    (d.safe.isSome = true ∨ ∃ backup, d.backup = some backup ∧ Passes md5 entry old backup ∧
      ∀ size ≤ outcome.stored, backup.lastModified ≤ outcome.modified size →
        Harmless md5 entry old (plainFile outcome entry size))

theorem survives_saveSteps (hpasses : ∀ time, Passes md5 entry old ⟨fileOf entry, time⟩) :
    ∀ d₁ ∈ saveSteps outcome entry d, Survives md5 entry old d₁ := by
  intro d₁ hd₁
  have hsafe : ∃ time, d₁.safe = some ⟨fileOf entry, time⟩ := by
    simp only [saveSteps, List.mem_cons, List.not_mem_nil, or_false] at hd₁
    rcases hd₁ with rfl | rfl | rfl <;> exact ⟨_, rfl⟩
  obtain ⟨time, hsafe⟩ := hsafe
  exact (survives_safe hsafe).mpr (hpasses time)

theorem survives_plainSteps_iff (h : Survives md5 entry old d) :
    (∀ d₁ ∈ plainSteps outcome entry d, Survives md5 entry old d₁) ↔
      PlainKeeps md5 outcome entry old d := by
  have hlast : Survives md5 entry old
      (if outcome.renamed then
        { d with
          safe := some (plainFile outcome entry outcome.stored)
          simple := none
          backup := none }
      else { d with
        safe := none, simple := some (plainFile outcome entry outcome.stored), backup := none }) ↔
      Passes md5 entry old (plainFile outcome entry outcome.stored) := by
    split_ifs with hrenamed
    · exact survives_safe rfl
    · exact survives_simple rfl rfl rfl
  have hsteps : (∀ d₁ ∈ plainSteps outcome entry d, Survives md5 entry old d₁) ↔
      (∀ size ≤ outcome.stored,
        Survives md5 entry old { d with simple := some (plainFile outcome entry size) }) ∧
      Survives md5 entry old { d with
        simple := some (plainFile outcome entry outcome.stored), backup := none } ∧
      Passes md5 entry old (plainFile outcome entry outcome.stored) := by
    rw [← hlast, plainSteps]
    simp only [List.forall_mem_append, List.forall_mem_map, List.mem_range, Nat.lt_succ_iff,
      List.forall_mem_cons, List.not_mem_nil, IsEmpty.forall_iff, implies_true, and_true]
    exact Iff.rfl
  rw [hsteps, PlainKeeps]
  cases hsafe : d.safe with
  | some file =>
    -- The safe file is read until the last step.
    have hfile := (survives_safe hsafe).mp h
    have hother : ∀ d₁ : Directory, d₁.safe = some file → Survives md5 entry old d₁ :=
      fun _ h => (survives_safe h).mpr hfile
    constructor
    · exact fun hall => ⟨hall.2.2, .inl rfl⟩
    · exact fun hkeeps => ⟨fun size _ => hother _ rfl, hother _ rfl, hkeeps.1⟩
  | none =>
    have hempty : checkFile md5 (plainFile outcome entry 0).content = none := rfl
    have halone : Survives md5 entry old
        ⟨none, some (plainFile outcome entry outcome.stored), none⟩ ↔
        Passes md5 entry old (plainFile outcome entry outcome.stored) :=
      survives_simple rfl rfl rfl
    rw [halone]
    cases hbackup : d.backup with
    | none =>
      have hzero : ¬ Survives md5 entry old ⟨none, some (plainFile outcome entry 0), none⟩ := by
        rw [survives_simple rfl rfl rfl]
        rintro ⟨_, hsome, -⟩
        exact nomatch hempty ▸ hsome
      refine iff_of_false (fun hall => hzero (hall.1 0 (Nat.zero_le _))) ?_
      rintro ⟨-, hsome | ⟨_, hsome, -⟩⟩
      · exact nomatch hsome
      · exact nomatch hsome
    | some backup =>
      constructor
      · rintro ⟨hsizes, -, hstored⟩
        have hpasses := (survives_unread rfl rfl rfl hempty).mp (hsizes 0 (Nat.zero_le _))
        refine ⟨hstored, .inr ⟨backup, rfl, hpasses, fun size hsize => ?_⟩⟩
        exact (survives_both rfl rfl rfl hpasses).mp (hsizes size hsize)
      · rintro ⟨hstored, hsome | ⟨_, ⟨⟩, hpasses, hharmless⟩⟩
        · exact nomatch hsome
        · refine ⟨fun size hsize => ?_, hstored, hstored⟩
          exact (survives_both rfl rfl rfl hpasses).mpr (hharmless size hsize)

/-- When an interrupted write leaves the data of the entry or the data before it. -/
theorem writeNow_survives_iff (hmd5 : ∀ x, (md5 x).length = 16) (d : Directory)
    (hread : readFile md5 d = some (old, d')) (outcome : Outcome)
    (datas : List (Option (List UInt8))) :
    (∀ d₁ ∈ writeNow outcome (written md5 datas) d, Survives md5 (written md5 datas) old d₁) ↔
      (outcome.saveOpened && outcome.committed) = true ∨ outcome.plainOpened = false ∨
        PlainKeeps md5 outcome (written md5 datas) old d := by
  have hbefore : Survives md5 (written md5 datas) old d := ⟨old, d', hread, .inr rfl⟩
  have hpasses : ∀ time, Passes md5 (written md5 datas) old ⟨fileOf (written md5 datas), time⟩ :=
    fun _ => ⟨_, checkFile_fileOf hmd5 (written_signed datas), .inl rfl⟩
  rw [writeNow]
  by_cases hsaved : (outcome.saveOpened && outcome.committed) = true
  · rw [if_pos hsaved, List.forall_mem_cons]
    exact iff_of_true ⟨hbefore, survives_saveSteps hpasses⟩ (.inl hsaved)
  · rw [if_neg hsaved, or_iff_right hsaved]
    cases outcome.plainOpened with
    | false =>
      refine iff_of_true (fun d₁ hd₁ => ?_) (.inl rfl)
      rw [List.mem_singleton.mp hd₁]
      exact hbefore
    | true =>
      rw [if_pos rfl, List.forall_mem_cons, and_iff_right hbefore, survives_plainSteps_iff hbefore]
      exact (or_iff_right Bool.noConfusion).symm

def noHash (_ : List UInt8) : List UInt8 := List.replicate 16 0

def legacy : Directory :=
  { simple := some ⟨fileOf (written noHash [some [1]]), 0⟩ }

def modern : Directory :=
  { safe := some ⟨fileOf (written noHash [some [1]]), 0⟩ }

/-- No commit, and all of the plain file is written. -/
def wholeOutcome : Outcome where
  saveOpened := true
  committed := false
  plainOpened := true
  stored := 29
  modified _ := 1
  renamed := true

/-- No commit, and there is place for nine bytes. -/
def fullDisk : Outcome := { wholeOutcome with stored := 9 }

theorem writeNow_survives_modern :
    readFile noHash modern = some (⟨AppVersion, [0, 0, 0, 1, 1]⟩, modern) ∧
      ∀ d₁ ∈ writeNow wholeOutcome (written noHash [some [2]]) modern,
        Survives noHash (written noHash [some [2]]) ⟨AppVersion, [0, 0, 0, 1, 1]⟩ d₁ := by
  have hread : readFile noHash modern = some (⟨AppVersion, [0, 0, 0, 1, 1]⟩, modern) := by
    decide +kernel
  refine ⟨hread, ?_⟩
  apply (writeNow_survives_iff (fun _ => List.length_replicate) modern hread wholeOutcome
    [some [2]]).mpr
  refine .inr (.inr ⟨⟨⟨AppVersion, [0, 0, 0, 1, 2]⟩, by decide +kernel, .inl ?_⟩, .inl rfl⟩)
  decide +kernel

theorem legacy_and_modern_lost :
    (readFile noHash legacy = some (⟨AppVersion, [0, 0, 0, 1, 1]⟩, legacy) ∧
      ∃ d₁ ∈ writeNow wholeOutcome (written noHash [some [2]]) legacy,
        readFile noHash d₁ = none) ∧
    readFile noHash modern = some (⟨AppVersion, [0, 0, 0, 1, 1]⟩, modern) ∧
      ∃ d₁ ∈ writeNow fullDisk (written noHash [some [2]]) modern, readFile noHash d₁ = none := by
  decide +kernel

end TelegramDesktop.Storage.FileUtilities
