import TelegramDesktop.Data.GroupCallUpdates

namespace TelegramDesktop.Data.GroupCall

variable {α : Type*} {s : GroupCall α} {u : MTPUpdate α}

def MTPUpdate.version : MTPUpdate α → ℤ
  | groupCall _ version => version
  | groupCallDiscarded _ => 0
  | groupCallParticipants _ version => version

def MTPUpdate.isVersioned : MTPUpdate α → Bool
  | groupCall _ _ => false
  | groupCallDiscarded _ => false
  | groupCallParticipants participants _ => increment participants

def MTPUpdate.type : MTPUpdate α → QueuedType
  | groupCall _ _ => .call
  | groupCallDiscarded _ => .call
  | groupCallParticipants participants _ =>
    if increment participants then .versionedParticipant else .participant

def MTPUpdate.key (u : MTPUpdate α) : Key := (u.version, u.type)

theorem type_versioned_iff : u.type = .versionedParticipant ↔ u.isVersioned = true := by
  cases u with
  | groupCall _ _ => exact iff_of_false nofun nofun
  | groupCallDiscarded _ => exact iff_of_false nofun nofun
  | groupCallParticipants participants _ =>
    rw [MTPUpdate.type, MTPUpdate.isVersioned]
    cases increment participants
    · exact iff_of_false nofun nofun
    · exact iff_of_true rfl rfl

theorem Key.le_total (a b : Key) : Key.Le a b ∨ Key.Le b a := by
  rw [Key.Le, Key.Le]
  omega

theorem Key.le_trans {a b c : Key} (hab : Key.Le a b) (hbc : Key.Le b c) : Key.Le a c := by
  rw [Key.Le] at *
  omega

theorem mem_emplace {key : Key} {l : List (Key × MTPUpdate α)} {e : Key × MTPUpdate α} :
    e ∈ emplace key u l ↔ e = (key, u) ∨ e ∈ l := by
  induction l with
  | nil => rw [emplace, List.mem_singleton, or_iff_left List.not_mem_nil]
  | cons first l ih =>
    rw [emplace]
    split_ifs
    · rw [List.mem_cons, ih, List.mem_cons]
      exact or_left_comm
    · rw [List.mem_cons]

theorem length_emplace {key : Key} (l : List (Key × MTPUpdate α)) :
    (emplace key u l).length = l.length + 1 := by
  induction l with
  | nil => rfl
  | cons first l ih =>
    rw [emplace]
    split_ifs
    · rw [List.length_cons, ih, List.length_cons]
    · rfl

theorem emplace_sorted {key : Key} {l : List (Key × MTPUpdate α)}
    (h : l.Pairwise fun a b => Key.Le a.1 b.1) :
    (emplace key u l).Pairwise fun a b => Key.Le a.1 b.1 := by
  induction l with
  | nil => exact List.pairwise_singleton _ _
  | cons first l ih =>
    obtain ⟨hfirst, hrest⟩ := List.pairwise_cons.mp h
    rw [emplace]
    split_ifs with hle
    · refine List.pairwise_cons.mpr ⟨fun e he => ?_, ih hrest⟩
      rcases mem_emplace.mp he with rfl | he
      · exact hle
      · exact hfirst e he
    · have hkey := (Key.le_total first.1 key).resolve_left hle
      refine List.pairwise_cons.mpr ⟨fun e he => ?_, h⟩
      rcases List.mem_cons.mp he with rfl | he
      · exact hkey
      · exact Key.le_trans hkey (hfirst e he)

def Event.version : Event α → ℤ
  | delivered _ version => version
  | applied _ version => version

/-- The versioned updates that were applied, from the first to the last. -/
def appliedVersioned : List (Event α) → List (MTPUpdate α)
  | [] => []
  | .delivered _ _ :: log => appliedVersioned log
  | .applied u _ :: log =>
    if u.isVersioned then appliedVersioned log ++ [u] else appliedVersioned log

/-- Whenever an update is applied, the others of the versions before it that came in time were. -/
def Timely : List (Event α) → Prop
  | [] => True
  | .delivered _ _ :: log => Timely log
  | .applied u _ :: log =>
    (∀ v version, .delivered v version ∈ log → v.isVersioned = false → version ≤ v.version →
      v.version < u.version → ∃ version', .applied v version' ∈ log) ∧ Timely log

/-- A versioned update is the one of its version. -/
def Valid (numbered : ℤ → MTPUpdate α) (u : MTPUpdate α) : Prop :=
  u.isVersioned = true → u = numbered u.version

/-- The order so far, where the updates of `W` need not be applied or queued. -/
structure Ordered (v₀ : ℤ) (numbered : ℤ → MTPUpdate α) (W : MTPUpdate α → Prop)
    (s : GroupCall α) : Prop where
  le : v₀ ≤ s.version
  keys : ∀ e ∈ s.queuedUpdates, e.1 = e.2.key
  sorted : s.queuedUpdates.Pairwise fun a b => Key.Le a.1 b.1
  above : ∀ e ∈ s.queuedUpdates, e.2.isVersioned = false → s.version ≤ e.2.version
  valid : ∀ e ∈ s.queuedUpdates, Valid numbered e.2
  inside : ∀ updates ∈ s.inside, ∀ u ∈ updates, Valid numbered u
  versioned : appliedVersioned s.log =
    (List.range (s.version - v₀).toNat).map fun i : ℕ => numbered (v₀ + 1 + i)
  inVersion : ∀ u version, .applied u version ∈ s.log → u.isVersioned = false →
    version = u.version
  ascending : (s.version :: s.log.map Event.version).Pairwise fun a b => b ≤ a
  pending : ∀ u version, .delivered u version ∈ s.log → u.isVersioned = false →
    version ≤ u.version →
    W u ∨ (∃ version', .applied u version' ∈ s.log) ∨ (u.key, u) ∈ s.queuedUpdates
  timely : Timely s.log

variable {v₀ : ℤ} {numbered : ℤ → MTPUpdate α} {W : MTPUpdate α → Prop}

theorem Ordered.note (hs : Ordered v₀ numbered W s) (u : MTPUpdate α) :
    Ordered v₀ numbered (fun v => v = u ∨ W v) (s.note (.delivered u s.version)) := by
  refine ⟨hs.le, hs.keys, hs.sorted, hs.above, hs.valid, hs.inside, hs.versioned, ?_, ?_, ?_,
    hs.timely⟩
  · intro v version happlied
    rcases List.mem_cons.mp happlied with heq | happlied
    · exact nomatch heq
    · exact hs.inVersion v version happlied
  · have hascending := hs.ascending
    rw [GroupCall.note, List.map_cons]
    refine List.pairwise_cons.mpr ⟨fun version hversion => ?_, hascending⟩
    rcases List.mem_cons.mp hversion with rfl | hversion
    · exact le_rfl
    · exact List.rel_of_pairwise_cons hascending hversion
  · intro v version hdelivered hplain hle
    rcases List.mem_cons.mp hdelivered with heq | hdelivered
    · exact .inl (.inl (by cases heq; rfl))
    · rcases hs.pending v version hdelivered hplain hle with hw | ⟨version', happlied⟩ | hqueued
      · exact .inl (.inr hw)
      · exact .inr (.inl ⟨version', List.mem_cons_of_mem _ happlied⟩)
      · exact .inr (.inr hqueued)

/-- An update that comes too late is dropped. -/
theorem Ordered.noteLate (hs : Ordered v₀ numbered W s)
    (hlate : u.isVersioned = false → u.version < s.version) :
    Ordered v₀ numbered W (s.note (.delivered u s.version)) := by
  refine { hs.note u with pending := fun v version hdelivered hplain hle => ?_ }
  rcases List.mem_cons.mp hdelivered with heq | hdelivered
  · cases heq
    exact absurd (hlate hplain) (not_lt.mpr hle)
  · rcases hs.pending v version hdelivered hplain hle with hw | ⟨version', happlied⟩ | hqueued
    · exact .inl hw
    · exact .inr (.inl ⟨version', List.mem_cons_of_mem _ happlied⟩)
    · exact .inr (.inr hqueued)

/-- An update that waits for its version. -/
theorem Ordered.queue (hs : Ordered v₀ numbered W s) (hu : Valid numbered u)
    (habove : u.isVersioned = false → s.version ≤ u.version) :
    Ordered v₀ numbered (fun v => v ≠ u ∧ W v) (s.queue u.key u) := by
  have hmem : ∀ e, e ∈ (s.queue u.key u).queuedUpdates ↔ e = (u.key, u) ∨ e ∈ s.queuedUpdates :=
    fun e => mem_emplace
  refine ⟨hs.le, fun e he => ?_, emplace_sorted hs.sorted, fun e he => ?_, fun e he => ?_,
    hs.inside, hs.versioned, hs.inVersion, hs.ascending, fun v version hdelivered hplain hle => ?_,
    hs.timely⟩
  · rcases (hmem e).mp he with rfl | he
    · rfl
    · exact hs.keys e he
  · rcases (hmem e).mp he with rfl | he
    · exact habove
    · exact hs.above e he
  · rcases (hmem e).mp he with rfl | he
    · exact hu
    · exact hs.valid e he
  · by_cases hv : v = u
    · exact .inr (.inr ((hmem _).mpr (.inl (by rw [hv]))))
    · rcases hs.pending v version hdelivered hplain hle with hw | happlied | hqueued
      · exact .inl ⟨hv, hw⟩
      · exact .inr (.inl happlied)
      · exact .inr (.inr ((hmem _).mpr (.inr hqueued)))

theorem Ordered.mono {W' : MTPUpdate α → Prop} (hs : Ordered v₀ numbered W s)
    (h : ∀ u version, .delivered u version ∈ s.log → u.isVersioned = false →
      version ≤ u.version → W u → W' u) : Ordered v₀ numbered W' s :=
  { hs with
    pending := fun u version hdelivered hplain hle =>
      (hs.pending u version hdelivered hplain hle).imp_left (h u version hdelivered hplain hle) }

/-- The branches of `enqueueUpdate`. -/
theorem enqueueWith_cases (apply : GroupCall α → MTPUpdate α → GroupCall α)
    (hpos : 1 ≤ s.version) (u : MTPUpdate α) :
    (enqueueWith apply s u = apply (s.note (.delivered u s.version)) u ∧
      s.applyingQueuedUpdates = false ∧
      u.version = if u.isVersioned then s.version + 1 else s.version) ∨
    (enqueueWith apply s u = (s.note (.delivered u s.version)).queue u.key u ∧
      if u.isVersioned then s.version < u.version else s.version ≤ u.version) ∨
    (enqueueWith apply s u = s.note (.delivered u s.version) ∧
      (u.isVersioned = false → u.version < s.version)) := by
  cases u with
  | groupCallDiscarded content => exact .inr (.inr ⟨rfl, fun _ => by rw [MTPUpdate.version]; omega⟩)
  | groupCall content version =>
    by_cases hnow : s.applyingQueuedUpdates = false ∧ (s.version = 0 ∨ s.version = version)
    · exact .inl ⟨if_pos hnow, hnow.1, (hnow.2.resolve_left (by omega)).symm⟩
    · by_cases hlater : s.version = 0 ∨ s.version ≤ version
      · exact .inr (.inl ⟨(if_neg hnow).trans (if_pos hlater), hlater.resolve_left (by omega)⟩)
      · refine .inr (.inr ⟨(if_neg hnow).trans (if_neg hlater), fun _ => ?_⟩)
        rw [MTPUpdate.version]
        omega
  | groupCallParticipants participants version =>
    by_cases hnow : s.applyingQueuedUpdates = false ∧
      s.version = if increment participants then version - 1 else version
    · refine .inl ⟨if_pos hnow, hnow.1, ?_⟩
      have hversion := hnow.2
      rw [MTPUpdate.version, MTPUpdate.isVersioned]
      split_ifs at hversion ⊢
      · omega
      · omega
    · by_cases hlater : s.version ≤ if increment participants then version - 1 else version
      · refine .inr (.inl ⟨(if_neg hnow).trans (if_pos hlater), ?_⟩)
        rw [MTPUpdate.version, MTPUpdate.isVersioned]
        split_ifs at hlater ⊢
        · omega
        · exact hlater
      · refine .inr (.inr ⟨(if_neg hnow).trans (if_neg hlater), fun hplain => ?_⟩)
        rw [MTPUpdate.isVersioned] at hplain
        rw [if_neg (by rw [hplain]; exact Bool.false_ne_true)] at hlater
        exact not_le.mp hlater

/-- What a delivery from inside of an application does. -/
theorem Ordered.enqueueInside (hpos : 1 ≤ v₀) (hs : Ordered v₀ numbered (fun _ => False) s)
    (happlying : s.applyingQueuedUpdates = true) (hu : Valid numbered u) :
    Ordered v₀ numbered (fun _ => False) (s.enqueueInside u) ∧
      (s.enqueueInside u).applyingQueuedUpdates = true ∧
      (s.enqueueInside u).inside = s.inside ∧ (s.enqueueInside u).version = s.version ∧
      (s.enqueueInside u).queuedUpdates.length ≤ s.queuedUpdates.length + 1 := by
  have hle := hpos.trans hs.le
  rw [GroupCall.enqueueInside]
  rcases enqueueWith_cases (fun s _ => s) hle u with ⟨-, hnot, -⟩ | ⟨heq, hwaits⟩ | ⟨heq, hlate⟩
  · rw [happlying] at hnot
    exact nomatch hnot
  · rw [heq]
    refine ⟨?_, happlying, rfl, rfl, (length_emplace _).le⟩
    apply ((hs.note u).queue hu fun hplain => ?_).mono
    · rintro v version - - - ⟨hne, heq | hfalse⟩
      · exact hne heq
      · exact hfalse
    · rw [if_neg (by rw [hplain]; exact Bool.false_ne_true)] at hwaits
      exact hwaits
  · rw [heq]
    exact ⟨hs.noteLate hlate, happlying, rfl, rfl, Nat.le_succ _⟩

theorem Ordered.enqueueAllInside (hpos : 1 ≤ v₀) (hs : Ordered v₀ numbered (fun _ => False) s)
    (happlying : s.applyingQueuedUpdates = true) {updates : List (MTPUpdate α)}
    (hupdates : ∀ u ∈ updates, Valid numbered u) :
    Ordered v₀ numbered (fun _ => False) (updates.foldl GroupCall.enqueueInside s) ∧
      (updates.foldl GroupCall.enqueueInside s).inside = s.inside ∧
      (updates.foldl GroupCall.enqueueInside s).version = s.version ∧
      (updates.foldl GroupCall.enqueueInside s).queuedUpdates.length ≤
        s.queuedUpdates.length + updates.length := by
  induction updates generalizing s with
  | nil => exact ⟨hs, rfl, rfl, le_rfl⟩
  | cons u updates ih =>
    obtain ⟨hu, hrest⟩ := List.forall_mem_cons.mp hupdates
    obtain ⟨hone, happlying', hinside, hversion, hlength⟩ := hs.enqueueInside hpos happlying hu
    obtain ⟨hall, hinside', hversion', hlength'⟩ := ih hone happlying' hrest
    refine ⟨hall, hinside'.trans hinside, hversion'.trans hversion, ?_⟩
    rw [List.length_cons]
    rw [List.foldl_cons]
    omega

theorem Ordered.applying (hs : Ordered v₀ numbered W s) (applying : Bool) :
    Ordered v₀ numbered W { s with applyingQueuedUpdates := applying } :=
  ⟨hs.le, hs.keys, hs.sorted, hs.above, hs.valid, hs.inside, hs.versioned, hs.inVersion,
    hs.ascending, hs.pending, hs.timely⟩

theorem appliedVersion_eq (hpos : 1 ≤ s.version)
    (hversion : u.version = if u.isVersioned then s.version + 1 else s.version) :
    s.appliedVersion u = u.version := by
  cases u with
  | groupCallDiscarded content =>
    change (0 : ℤ) = s.version at hversion
    omega
  | groupCall content version =>
    change version = s.version at hversion
    exact if_neg (by omega)
  | groupCallParticipants participants version =>
    refine if_neg fun hzero => ?_
    rw [MTPUpdate.version] at hversion
    split_ifs at hversion
    · omega
    · omega

/-- An update is applied in its version, and nothing that is queued comes before it. -/
theorem Ordered.noteApplied (hs : Ordered v₀ numbered (fun v => v = u) s) (hu : Valid numbered u)
    (hversion : u.version = if u.isVersioned then s.version + 1 else s.version)
    (hfirst : ∀ e ∈ s.queuedUpdates, e.2.isVersioned = false → u.version ≤ e.2.version)
    (applying : Bool) (inside : List (List (MTPUpdate α)))
    (hinside : ∀ updates ∈ inside, ∀ u ∈ updates, Valid numbered u) :
    Ordered v₀ numbered (fun _ => False) { s.note (.applied u s.version) with
      applyingQueuedUpdates := applying, version := u.version, inside := inside } := by
  have hle : s.version ≤ u.version := by
    rw [hversion]
    split_ifs
    · omega
    · rfl
  refine ⟨hs.le.trans hle, hs.keys, hs.sorted, hfirst, hs.valid, hinside, ?_, ?_, ?_, ?_, ?_⟩
  · have hold := hs.versioned
    dsimp only [GroupCall.note]
    rw [appliedVersioned]
    cases hversioned : u.isVersioned with
    | true =>
      rw [hversioned, if_pos rfl] at hversion
      have hnext : (u.version - v₀).toNat = (s.version - v₀).toNat + 1 := by
        have hbelow := hs.le
        omega
      have hlast : v₀ + 1 + ((s.version - v₀).toNat : ℤ) = u.version := by
        have hbelow := hs.le
        omega
      rw [if_pos rfl, hold, hnext, List.range_succ, List.map_append, List.map_singleton, hlast,
        ← hu hversioned]
    | false =>
      rw [hversioned, if_neg Bool.false_ne_true] at hversion
      rw [if_neg Bool.false_ne_true, hold, hversion]
  · intro v version happlied hplain
    rcases List.mem_cons.mp happlied with heq | happlied
    · cases heq
      rw [hversion, if_neg (by rw [hplain]; exact Bool.false_ne_true)]
    · exact hs.inVersion v version happlied hplain
  · have hascending := hs.ascending
    rw [List.pairwise_cons] at hascending
    dsimp only [GroupCall.note]
    rw [List.map_cons, List.pairwise_cons, List.pairwise_cons]
    refine ⟨fun version hmem => ?_, hascending⟩
    rcases List.mem_cons.mp hmem with rfl | hmem
    · exact hle
    · exact (hascending.1 version hmem).trans hle
  · intro v version hdelivered hplain hbefore
    rcases List.mem_cons.mp hdelivered with heq | hdelivered
    · exact nomatch heq
    · refine .inr ?_
      rcases hs.pending v version hdelivered hplain hbefore with
        rfl | ⟨version', happlied⟩ | hqueued
      · exact .inl ⟨_, List.mem_cons_self⟩
      · exact .inl ⟨version', List.mem_cons_of_mem _ happlied⟩
      · exact .inr hqueued
  · refine ⟨fun v version hdelivered hplain hbefore hless => ?_, hs.timely⟩
    rcases hs.pending v version hdelivered hplain hbefore with rfl | happlied | hqueued
    · exact absurd hless (lt_irrefl _)
    · exact happlied
    · exact absurd (hfirst _ hqueued hplain) (not_le.mpr hless)

/-- An application with what comes from inside of it. -/
theorem Ordered.applyEnqueuedUpdate (hpos : 1 ≤ v₀) (hs : Ordered v₀ numbered (fun v => v = u) s)
    (hu : Valid numbered u)
    (hversion : u.version = if u.isVersioned then s.version + 1 else s.version)
    (hfirst : ∀ e ∈ s.queuedUpdates, e.2.isVersioned = false → u.version ≤ e.2.version) :
    Ordered v₀ numbered (fun _ => False) (s.applyEnqueuedUpdate u) ∧
      (s.applyEnqueuedUpdate u).applyingQueuedUpdates = false ∧
      (s.applyEnqueuedUpdate u).version = u.version ∧
      (s.applyEnqueuedUpdate u).rounds ≤ s.rounds := by
  have happlied := appliedVersion_eq (hpos.trans hs.le) hversion
  have hall : ∀ updates ∈ s.inside.tail, ∀ u ∈ updates, Valid numbered u :=
    fun updates hupdates => hs.inside updates (List.mem_of_mem_tail hupdates)
  have hhead : ∀ u ∈ s.inside.headD [], Valid numbered u := by
    intro v hv
    cases hinside : s.inside with
    | nil =>
      rw [hinside] at hv
      exact nomatch hv
    | cons updates rest =>
      rw [hinside] at hv
      exact hs.inside updates (hinside ▸ List.mem_cons_self) v hv
  obtain ⟨hdone, hinside, hversion', hlength⟩ :=
    (hs.noteApplied hu hversion hfirst true _ hall).enqueueAllInside hpos rfl hhead
  rw [GroupCall.applyEnqueuedUpdate, happlied]
  refine ⟨hdone.applying false, rfl, hversion', ?_⟩
  rw [rounds, rounds]
  dsimp only at hlength ⊢
  rw [hinside]
  cases hrest : s.inside with
  | nil =>
    rw [hrest] at hlength
    exact Nat.add_le_add_right hlength _
  | cons updates rest =>
    rw [hrest] at hlength
    change _ ≤ s.queuedUpdates.length + updates.length at hlength
    rw [List.map_cons, List.sum_cons, ← Nat.add_assoc]
    exact Nat.add_le_add_right hlength _

/-- What is queued is for later versions. -/
def Settled (s : GroupCall α) : Prop :=
  ∀ e ∈ s.queuedUpdates,
    if e.2.isVersioned then s.version + 1 < e.2.version else s.version < e.2.version

theorem settled_of_first {key : Key} {rest : List (Key × MTPUpdate α)}
    (hs : Ordered v₀ numbered W s) (hqueue : s.queuedUpdates = (key, u) :: rest)
    (hold : ¬ (key.1 < s.version ∨ (key.1 = s.version ∧ key.2 = .versionedParticipant)))
    (hnow : ¬ (key.1 = s.version ∨ (key.1 = s.version + 1 ∧ key.2 = .versionedParticipant))) :
    Settled s := by
  intro e he
  have hkey := hs.keys e he
  have hle : Key.Le key e.1 := by
    have hsorted := hs.sorted
    rw [hqueue] at hsorted he
    rcases List.mem_cons.mp he with rfl | he
    · exact .inr ⟨rfl, le_rfl⟩
    · exact List.rel_of_pairwise_cons hsorted he
  rw [hkey] at hle
  have hlater : s.version < key.1 := by omega
  have hle' : key.1 ≤ e.2.version := hle.elim le_of_lt fun h => h.1.le
  split_ifs with hversioned
  · rcases hle with hless | ⟨heq, hrank⟩
    · change key.1 < e.2.version at hless
      omega
    · change key.1 = e.2.version at heq
      rw [MTPUpdate.key, type_versioned_iff.mpr hversioned] at hrank
      have hfirst : key.2 = .versionedParticipant := by
        cases htype : key.2 with
        | versionedParticipant => rfl
        | participant =>
          rw [htype] at hrank
          exact absurd hrank (Nat.not_succ_le_zero _)
        | call =>
          rw [htype] at hrank
          exact absurd hrank (Nat.not_succ_le_zero _)
      by_contra hnot
      exact hnow (.inr ⟨by omega, hfirst⟩)
  · omega

/-- The first update without it and its application. -/
theorem Ordered.popped {key : Key} {rest : List (Key × MTPUpdate α)}
    (hs : Ordered v₀ numbered (fun _ => False) s) (hqueue : s.queuedUpdates = (key, u) :: rest) :
    Ordered v₀ numbered (fun v => v = u) { s with queuedUpdates := rest } ∧
      key = u.key ∧ Valid numbered u ∧ ∀ e ∈ rest, Key.Le key e.1 ∧ e.1 = e.2.key := by
  have hin : ∀ e ∈ rest, e ∈ s.queuedUpdates := fun e he => hqueue ▸ List.mem_cons_of_mem _ he
  have hfirst : (key, u) ∈ s.queuedUpdates := hqueue ▸ List.mem_cons_self
  have hsorted := hs.sorted
  rw [hqueue] at hsorted
  refine ⟨⟨hs.le, fun e he => hs.keys e (hin e he), hsorted.of_cons,
    fun e he => hs.above e (hin e he), fun e he => hs.valid e (hin e he), hs.inside, hs.versioned,
    hs.inVersion, hs.ascending, fun v version hdelivered hplain hle => ?_, hs.timely⟩,
    hs.keys _ hfirst, hs.valid _ hfirst,
    fun e he => ⟨List.rel_of_pairwise_cons hsorted he, hs.keys e (hin e he)⟩⟩
  rcases hs.pending v version hdelivered hplain hle with hfalse | happlied | hqueued
  · exact hfalse.elim
  · exact .inr (.inl happlied)
  · rw [hqueue] at hqueued
    rcases List.mem_cons.mp hqueued with heq | hqueued
    · exact .inl (congrArg Prod.snd heq)
    · exact .inr (.inr hqueued)

/-- The loop applies what may be applied and stops at later versions. -/
theorem Ordered.drain (hpos : 1 ≤ v₀) {n : ℕ} (hs : Ordered v₀ numbered (fun _ => False) s)
    (happlying : s.applyingQueuedUpdates = false) (hn : s.rounds ≤ n) :
    Ordered v₀ numbered (fun _ => False) (drain n s) ∧ Settled (drain n s) ∧
      (drain n s).applyingQueuedUpdates = false ∧ s.version ≤ (drain n s).version := by
  induction n generalizing s with
  | zero =>
    have hempty : s.queuedUpdates = [] := by
      rw [rounds] at hn
      exact List.length_eq_zero_iff.mp (by omega)
    refine ⟨hs, fun e he => ?_, happlying, le_rfl⟩
    rw [GroupCall.drain, hempty] at he
    exact nomatch he
  | succ n ih =>
    rw [GroupCall.drain]
    split
    · next hempty =>
      refine ⟨hs, fun e he => ?_, happlying, le_rfl⟩
      rw [hempty] at he
      exact nomatch he
    · next version type update rest hqueue =>
      obtain ⟨hpopped, hkey, hvalid, hrest⟩ := hs.popped hqueue
      have hversion : version = update.version := congrArg Prod.fst hkey
      have htype : type = update.type := congrArg Prod.snd hkey
      have hincremented : type = .versionedParticipant ↔ update.isVersioned = true := by
        rw [htype]
        exact type_versioned_iff
      have hrounds : GroupCall.rounds { s with queuedUpdates := rest } + 1 = s.rounds := by
        rw [rounds, rounds, hqueue, List.length_cons]
        dsimp only
        omega
      by_cases hold : version < s.version ∨ (version = s.version ∧ type = .versionedParticipant)
      · rw [if_pos hold]
        refine ih (hpopped.mono ?_) happlying (by omega)
        rintro v - - hplain - rfl
        have habove := hs.above _ (hqueue ▸ List.mem_cons_self) hplain
        rw [hincremented, hplain] at hold
        change s.version ≤ v.version at habove
        simp only [Bool.false_eq_true, and_false, or_false] at hold
        omega
      · rw [if_neg hold]
        by_cases hnow : version = s.version ∨
          (version = s.version + 1 ∧ type = .versionedParticipant)
        · rw [if_pos hnow]
          have hupdate : update.version =
              if update.isVersioned then s.version + 1 else s.version := by
            rw [hincremented] at hold hnow
            split_ifs with hversioned
            · rw [hversioned] at hold hnow
              simp only [and_true] at hold hnow
              omega
            · rw [Bool.not_eq_true] at hversioned
              rw [hversioned] at hold hnow
              simp only [Bool.false_eq_true, and_false, or_false] at hold hnow
              omega
          have hfirst : ∀ e ∈ rest, e.2.isVersioned = false → update.version ≤ e.2.version := by
            intro e he _
            obtain ⟨hle, hkey'⟩ := hrest e he
            rw [hkey, hkey'] at hle
            exact hle.elim le_of_lt fun h => h.1.le
          obtain ⟨hdone, happlying', hversion', hrounds'⟩ :=
            hpopped.applyEnqueuedUpdate hpos hvalid hupdate hfirst
          obtain ⟨hall, hsettled, hfinal, hle⟩ := ih hdone happlying' (by omega)
          refine ⟨hall, hsettled, hfinal, le_trans ?_ hle⟩
          rw [hversion', hupdate]
          split_ifs
          · omega
          · rfl
        · rw [if_neg hnow]
          exact ⟨hs, settled_of_first hs hqueue hold hnow, happlying, le_rfl⟩

theorem Ordered.timer (hs : Ordered v₀ numbered W s) (active : Bool) :
    Ordered v₀ numbered W { s with reloadByQueuedUpdatesTimer := active } :=
  ⟨hs.le, hs.keys, hs.sorted, hs.above, hs.valid, hs.inside, hs.versioned, hs.inVersion,
    hs.ascending, hs.pending, hs.timely⟩

/-- What holds between two deliveries. -/
structure Waits (v₀ : ℤ) (numbered : ℤ → MTPUpdate α) (s : GroupCall α) : Prop where
  ordered : Ordered v₀ numbered (fun _ => False) s
  settled : Settled s
  applying : s.applyingQueuedUpdates = false

/-- What is applied is applied, and the timer is for what is left. -/
theorem Ordered.processQueuedUpdates (hpos : 1 ≤ v₀) (hs : Ordered v₀ numbered (fun _ => False) s)
    (happlying : s.applyingQueuedUpdates = false) :
    Waits v₀ numbered s.processQueuedUpdates ∧ s.version ≤ s.processQueuedUpdates.version ∧
      (s.processQueuedUpdates.reloadByQueuedUpdatesTimer = true ↔
        s.processQueuedUpdates.queuedUpdates ≠ []) := by
  have hgo : ¬ (s.version = 0 ∨ s.applyingQueuedUpdates = true) := by
    rw [happlying]
    have hle := hs.le
    simp only [Bool.false_eq_true, or_false]
    omega
  obtain ⟨hall, hsettled, hfinal, hle⟩ := hs.drain hpos happlying le_rfl
  rw [GroupCall.processQueuedUpdates, if_neg hgo]
  dsimp only
  generalize GroupCall.drain s.rounds s = s₂ at hall hsettled hfinal hle
  by_cases hqueue : s₂.queuedUpdates = []
  · rw [if_pos (List.isEmpty_iff.mpr hqueue)]
    exact ⟨⟨hall.timer _, hsettled, hfinal⟩, hle, iff_of_false Bool.false_ne_true fun h => h hqueue⟩
  · rw [if_neg fun hempty => hqueue (List.isEmpty_iff.mp hempty)]
    split_ifs with hrestart
    · exact ⟨⟨hall.timer _, hsettled, hfinal⟩, hle, iff_of_true rfl hqueue⟩
    · rw [not_or, Bool.not_eq_false] at hrestart
      exact ⟨⟨hall, hsettled, hfinal⟩, hle, iff_of_true hrestart.2 hqueue⟩

/-- One delivery. -/
theorem Waits.enqueueUpdate (hpos : 1 ≤ v₀) (hs : Waits v₀ numbered s) (hu : Valid numbered u) :
    Waits v₀ numbered (s.enqueueUpdate u) ∧ s.version ≤ (s.enqueueUpdate u).version ∧
      ((s.enqueueUpdate u).reloadByQueuedUpdatesTimer = true ↔
        (s.enqueueUpdate u).queuedUpdates ≠ []) := by
  have hnone : Ordered v₀ numbered (fun v => v = u) (s.note (.delivered u s.version)) := by
    apply (hs.ordered.note u).mono
    rintro v - - - - (rfl | hfalse)
    · rfl
    · exact hfalse.elim
  have key : ∀ s' : GroupCall α, Ordered v₀ numbered (fun _ => False) s' →
      s'.applyingQueuedUpdates = false → s.version ≤ s'.version →
      Waits v₀ numbered s'.processQueuedUpdates ∧ s.version ≤ s'.processQueuedUpdates.version ∧
        (s'.processQueuedUpdates.reloadByQueuedUpdatesTimer = true ↔
          s'.processQueuedUpdates.queuedUpdates ≠ []) := by
    intro s' hs' happlying hle
    obtain ⟨hwaits, hle', htimer⟩ := hs'.processQueuedUpdates hpos happlying
    exact ⟨hwaits, hle.trans hle', htimer⟩
  rw [GroupCall.enqueueUpdate]
  rcases enqueueWith_cases GroupCall.applyEnqueuedUpdate (hpos.trans hs.ordered.le) u with
    ⟨heq, -, hversion⟩ | ⟨heq, hwaits⟩ | ⟨heq, hlate⟩
  · rw [heq]
    have hfirst : ∀ e ∈ s.queuedUpdates, e.2.isVersioned = false → u.version ≤ e.2.version := by
      intro e he hplain
      have hlater := hs.settled e he
      rw [if_neg (by rw [hplain]; exact Bool.false_ne_true)] at hlater
      rw [hversion]
      split_ifs
      · omega
      · exact hlater.le
    obtain ⟨hdone, happlying, hversion', -⟩ :=
      hnone.applyEnqueuedUpdate hpos hu hversion hfirst
    refine key _ hdone happlying ?_
    rw [hversion', hversion]
    split_ifs
    · omega
    · rfl
  · rw [heq]
    refine key ((s.note (.delivered u s.version)).queue u.key u) ?_ hs.applying le_rfl
    apply (hnone.queue hu fun hplain => ?_).mono
    · rintro v - - - - ⟨hne, heq⟩
      exact hne heq
    · rw [if_neg (by rw [hplain]; exact Bool.false_ne_true)] at hwaits
      exact hwaits
  · rw [heq]
    exact key _ (hs.ordered.noteLate hlate) hs.applying le_rfl

theorem Waits.run (hpos : 1 ≤ v₀) (hs : Waits v₀ numbered s) {deliveries : List (MTPUpdate α)}
    (hdeliveries : ∀ u ∈ deliveries, Valid numbered u) :
    Waits v₀ numbered (s.run deliveries) ∧ s.version ≤ (s.run deliveries).version ∧
      (deliveries ≠ [] → ((s.run deliveries).reloadByQueuedUpdatesTimer = true ↔
        (s.run deliveries).queuedUpdates ≠ [])) := by
  induction deliveries using List.reverseRecOn with
  | nil => exact ⟨hs, le_rfl, fun h => absurd rfl h⟩
  | append_singleton deliveries u ih =>
    obtain ⟨hbefore, hu⟩ := List.forall_mem_append.mp hdeliveries
    obtain ⟨hwaits, hle, -⟩ := ih hbefore
    obtain ⟨hwaits', hle', htimer⟩ :=
      hwaits.enqueueUpdate hpos (hu u (List.mem_singleton.mpr rfl))
    have hrun : s.run (deliveries ++ [u]) = (s.run deliveries).enqueueUpdate u := by
      rw [GroupCall.run, List.foldl_append]
      rfl
    rw [hrun]
    exact ⟨hwaits', hle.trans hle', fun _ => htimer⟩

/-- A loaded call with nothing queued; `inside` are the deliveries from inside of applications. -/
def loaded (version : ℤ) (inside : List (List (MTPUpdate α))) (timer : Bool) : GroupCall α where
  version := version
  reloadByQueuedUpdatesTimer := timer
  inside := inside

theorem Waits.loaded {inside : List (List (MTPUpdate α))}
    (hinside : ∀ updates ∈ inside, ∀ u ∈ updates, Valid numbered u) (timer : Bool) :
    Waits v₀ numbered (loaded v₀ inside timer) where
  ordered := {
    le := le_rfl
    keys := fun _ he => nomatch he
    sorted := .nil
    above := fun _ he => nomatch he
    valid := fun _ he => nomatch he
    inside := hinside
    versioned := by
      rw [GroupCall.loaded]
      dsimp only
      rw [sub_self]
      rfl
    inVersion := fun _ _ happlied => nomatch happlied
    ascending := List.pairwise_singleton _ _
    pending := fun _ _ hdelivered => nomatch hdelivered
    timely := trivial }
  settled _ he := nomatch he
  applying := rfl

/-- In whatever order updates come, the versioned ones are applied once and one after another,
the others in their versions, none that came in time is skipped, and what is left in the queue is
for later versions. -/
theorem run_versions_ordered (hpos : 1 ≤ v₀) {inside : List (List (MTPUpdate α))}
    (hinside : ∀ updates ∈ inside, ∀ u ∈ updates, Valid numbered u) (timer : Bool)
    {deliveries : List (MTPUpdate α)} (hdeliveries : ∀ u ∈ deliveries, Valid numbered u) :
    let s := (loaded v₀ inside timer).run deliveries
    (s.version :: s.log.map Event.version).Pairwise (fun a b => b ≤ a) ∧
    appliedVersioned s.log =
      ((List.range (s.version - v₀).toNat).map fun i : ℕ => numbered (v₀ + 1 + i)) ∧
    (∀ u version, .applied u version ∈ s.log → u.isVersioned = false → version = u.version) ∧
    Timely s.log ∧
    Settled s ∧
    (deliveries ≠ [] → (s.reloadByQueuedUpdatesTimer = true ↔ s.queuedUpdates ≠ [])) := by
  intro s
  obtain ⟨hwaits, -, htimer⟩ := (Waits.loaded hinside timer).run hpos hdeliveries
  have hordered := hwaits.ordered
  exact ⟨hordered.ascending, hordered.versioned, hordered.inVersion, hordered.timely,
    hwaits.settled, htimer⟩

def versionedUpdate (version : ℤ) : MTPUpdate Unit := .groupCallParticipants [((), true)] version

theorem run_versions_ordered_three :
    (appliedVersioned ((loaded 1 [[versionedUpdate 3]] false).run
      [versionedUpdate 4, versionedUpdate 2]).log) =
        (List.range (((loaded 1 [[versionedUpdate 3]] false).run
          [versionedUpdate 4, versionedUpdate 2]).version - 1).toNat).map
            fun i : ℕ => versionedUpdate (1 + 1 + i) := by
  apply (run_versions_ordered (show (1 : ℤ) ≤ 1 by decide) _ false _).2.1
  · intro updates hupdates u hu _
    cases List.mem_singleton.mp hupdates
    cases List.mem_singleton.mp hu
    rfl
  · intro u hu _
    rcases List.mem_cons.mp hu with rfl | hu
    · rfl
    · cases List.mem_singleton.mp hu
      rfl

end TelegramDesktop.Data.GroupCall
