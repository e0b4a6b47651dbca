import TelegramDesktop.Data.StoriesSets

namespace TelegramDesktop.Data.StoriesSets
open Base
open StoriesSlices (StoryId StoriesIds respectingPinned)

variable {s s' : Stories} {set : Set} {ids : StoriesIds} {id : StoryId} {kind : Kind}

structure Set.Sound (set : Set) : Prop where
  total : set.total = -1 ∨ (set.ids.list.length : ℤ) ≤ set.total
  loaded : set.loaded = true → set.total = set.ids.list.length

/-- The set has the id, or it counts it, or there is room for it. A total that counts it is still
an `int`. -/
def Set.Counts (set : Set) (id : StoryId) : Prop :=
  id ∈ set.ids.list ∨ set.total < 0 ∨ (set.lastId < id ∧ set.total + 1 < 2 ^ 31) ∨
    (id ≤ set.lastId ∧ set.loaded = false ∧ set.ids.list.length < set.total)

theorem mem_emplace {x : StoryId} : x ∈ (emplace ids id).list ↔ x = id ∨ x ∈ ids.list :=
  @FlatSet.mem_insertElem ℤᵒᵈ _ id x ids.list

theorem mem_remove {x : StoryId} : x ∈ (remove ids id).list ↔ x ∈ ids.list ∧ x ≠ id := by
  unfold remove
  rw [List.mem_filter, decide_eq_true_iff]

theorem nodup_list (ids : StoriesIds) : ids.list.Nodup := ids.descending.imp fun h => h.ne'

theorem length_emplace (h : id ∉ ids.list) :
    (emplace ids id).list.length = ids.list.length + 1 := by
  have hperm : (emplace ids id).list.Perm (id :: ids.list) := by
    apply (List.perm_ext_iff_of_nodup (nodup_list _) (List.nodup_cons.mpr ⟨h, nodup_list _⟩)).mpr
    intro x
    rw [mem_emplace, List.mem_cons]
  exact hperm.length_eq

theorem length_remove (h : id ∈ ids.list) :
    (remove ids id).list.length + 1 = ids.list.length := by
  have hperm : ids.list.Perm (id :: (remove ids id).list) := by
    apply (List.perm_ext_iff_of_nodup (nodup_list _) (List.nodup_cons.mpr ⟨?_, nodup_list _⟩)).mpr
    · intro x
      rw [List.mem_cons, mem_remove]
      by_cases hx : x = id
      · subst hx
        exact iff_of_true h (.inl rfl)
      · exact ⟨fun hmem => .inr ⟨hmem, hx⟩, fun hmem => (hmem.resolve_left hx).1⟩
    · exact fun hmem => (mem_remove.mp hmem).2 rfl
  exact hperm.length_eq.symm

theorem Set.Sound.add (h : set.Sound) (hcounts : set.Counts id) : (set.add id).Sound := by
  obtain ⟨htotal, hloaded⟩ := h
  unfold Set.add
  split_ifs with hmem hnew
  · exact ⟨htotal, hloaded⟩
  · have hlength := length_emplace hmem
    have hroom : set.total + 1 < 2 ^ 31 := by
      rcases hcounts.resolve_left hmem with hnone | habove | hbelow
      · exact absurd hnew.1 (not_le.mpr hnone)
      · exact habove.2
      · exact absurd hnew.2 (not_lt.mpr hbelow.1)
    have hnext : int32Add set.total 1 = set.total + 1 := int32Add_of_range (by omega) hroom
    refine ⟨?_, fun hall => ?_⟩
    · dsimp only
      omega
    · have hall := hloaded hall
      dsimp only
      omega
  · have hlength := length_emplace hmem
    have huncounted : set.total < 0 ∨ (set.loaded = false ∧
        set.ids.list.length < set.total) := by
      rcases hcounts.resolve_left hmem with hnone | habove | hroom
      · exact .inl hnone
      · exact .inl (not_le.mp fun hknown => hnew ⟨hknown, habove.1⟩)
      · exact .inr hroom.2
    refine ⟨?_, fun hall => ?_⟩
    · dsimp only
      rcases huncounted with hnone | ⟨-, hroom⟩
      · exact .inl (htotal.resolve_right (by omega))
      · exact .inr (by omega)
    · have hsize := hloaded hall
      rcases huncounted with hnone | ⟨hnot, -⟩
      · omega
      · exact nomatch hall.symm.trans hnot

theorem Set.Sound.remove (h : set.Sound) (id : StoryId) : (set.remove id).Sound := by
  obtain ⟨htotal, hloaded⟩ := h
  unfold Set.remove
  split_ifs with hmem
  · have hlength := length_remove hmem
    unfold decrease
    refine ⟨?_, fun hall => ?_⟩
    · dsimp only
      split_ifs
      all_goals omega
    · have hsize := hloaded hall
      dsimp only
      split_ifs
      all_goals omega
  · exact ⟨htotal, hloaded⟩

/-- Where an id that is put to the profile is counted, the total is still an `int`. -/
def Set.CountsToggled (set : Set) (loaded : Bool) (lastId id : StoryId) (inProfile : Bool) : Prop :=
  inProfile = true → (loaded = true ∨ lastId ≤ id) → id ∉ set.ids.list → set.total + 1 < 2 ^ 31

theorem Set.Sound.toggled (h : set.Sound) {loaded : Bool} {lastId id : StoryId}
    {inProfile : Bool} (hcounts : set.CountsToggled loaded lastId id inProfile) :
    (set.toggled loaded lastId id inProfile).Sound := by
  unfold Set.toggled
  split_ifs with hin hskip hknown
  · exact h
  · have hmem : id ∉ set.ids.list := fun hmem => hskip (by rw [decide_eq_true hmem, Bool.or_true])
    have hlength := length_emplace hmem
    have hreached : loaded = true ∨ lastId ≤ id := by
      by_contra hnone
      rw [not_or, Bool.not_eq_true] at hnone
      exact hskip (by rw [hnone.1, decide_eq_false hnone.2]; rfl)
    have hroom := hcounts hin hreached hmem
    have hnext : int32Add set.total 1 = set.total + 1 := int32Add_of_range (by omega) hroom
    obtain ⟨htotal, hloaded⟩ := h
    refine ⟨?_, fun hall => ?_⟩
    · dsimp only
      omega
    · have hsize := hloaded hall
      dsimp only
      omega
  · have hmem : id ∉ set.ids.list := fun hmem => hskip (by rw [decide_eq_true hmem, Bool.or_true])
    obtain ⟨htotal, hloaded⟩ := h
    refine ⟨.inl (htotal.resolve_right (by omega)), fun hall => ?_⟩
    have hsize := hloaded hall
    omega
  · exact h.remove id

theorem Set.sound_finish (set : Set) (loaded : Bool) : (set.finish loaded).Sound := by
  unfold Set.finish
  refine ⟨.inr ?_, fun hall => ?_⟩
  · dsimp only
    split_ifs
    · exact le_rfl
    · exact le_max_right _ _
  · dsimp only
    rw [if_pos hall]

theorem mem_add {x : StoryId} : x ∈ (set.add id).ids.list ↔ x = id ∨ x ∈ set.ids.list := by
  unfold Set.add
  split_ifs with hmem
  · exact ⟨.inr, fun hx => hx.elim (fun heq => heq ▸ hmem) fun hold => hold⟩
  · exact mem_emplace
  · exact mem_emplace

theorem mem_setRemove {x : StoryId} :
    x ∈ (set.remove id).ids.list ↔ x ∈ set.ids.list ∧ x ≠ id := by
  unfold Set.remove
  split_ifs with hmem
  · exact mem_remove
  · refine (and_iff_left_of_imp fun hx heq => ?_).symm
    subst heq
    exact hmem hx

theorem sets_change (s : Stories) (kind : Kind) (f : Set → Set) :
    (s.change kind f).sets kind = f (s.sets kind) := Function.update_self ..

theorem sets_change_of_ne {other : Kind} (h : other ≠ kind) (s : Stories) (f : Set → Set) :
    (s.change kind f).sets other = s.sets other := Function.update_of_ne h ..

/-- A change of one set, for any of them. -/
theorem sound_change {f : Set → Set} {other : Kind} (h : (s.sets other).Sound)
    (hf : other = kind → (s.sets kind).Sound → (f (s.sets kind)).Sound) :
    ((s.change kind f).sets other).Sound := by
  by_cases hkind : other = kind
  · subst hkind
    rw [sets_change]
    exact hf rfl h
  · rw [sets_change_of_ne hkind]
    exact h

/-- An item of a story that is taken adds it to the archive when it is new, and to the saved
stories when it comes to the profile. -/
def Stories.Adds (s : Stories) : StoryItem → Kind → Prop
  | .storyItem id media _, .archive => media = true ∧ s.stories id = none
  | .storyItem id media isPinned, .saved =>
    media = true ∧ isPinned = true ∧ ∀ story, s.stories id = some story → story.inProfile = false
  | .storyItemDeleted _, _ => False

def Stories.Counted (s : Stories) (item : StoryItem) (kind : Kind) : Prop :=
  s.Adds item kind → (s.sets kind).Counts item.id

theorem sound_applyDeleted (h : (s.sets kind).Sound) (id : StoryId) :
    ((s.applyDeleted id).sets kind).Sound := by
  unfold Stories.applyDeleted
  cases s.stories id with
  | none => exact h
  | some story =>
    have harchive : (((s.setStory id none).change .archive (·.remove id)).sets kind).Sound :=
      sound_change (s := s.setStory id none) h fun _ h => h.remove id
    dsimp only
    split_ifs
    · exact sound_change harchive fun _ h => h.remove id
    · exact harchive

theorem sound_applyFields {was isPinned : Bool} (h : (s.sets kind).Sound)
    (hcounts : kind = .saved → was = false → isPinned = true → (s.sets .saved).Counts id) :
    ((s.applyFields id was isPinned).sets kind).Sound := by
  unfold Stories.applyFields Stories.savedStateChanged
  dsimp only
  split_ifs with hchanged hpinned
  · apply sound_change (s := s.setStory id (some ⟨isPinned⟩)) h
    intro hkind hsaved
    apply hsaved.add
    refine hcounts hkind ?_ hpinned
    cases was with
    | false => rfl
    | true => exact absurd hpinned.symm hchanged
  · apply sound_change (s := s.setStory id (some ⟨isPinned⟩)) h
    exact fun _ hsaved => hsaved.remove id
  · exact h

theorem sets_applyFields (s : Stories) (id : StoryId) (was isPinned : Bool) :
    (s.applyFields id was isPinned).sets .archive = s.sets .archive := by
  unfold Stories.applyFields Stories.savedStateChanged
  dsimp only
  have hne : Kind.archive ≠ Kind.saved := by decide
  split_ifs
  · exact sets_change_of_ne hne _ _
  · exact sets_change_of_ne hne _ _
  · rfl

theorem sound_parse {item : StoryItem} (h : (s.sets kind).Sound) (hcounted : s.Counted item kind) :
    ((s.parseAndApply item).1.sets kind).Sound := by
  cases item with
  | storyItemDeleted id => exact sound_applyDeleted h id
  | storyItem id media isPinned =>
    unfold Stories.parseAndApply
    cases media with
    | false => exact sound_applyDeleted h id
    | true =>
      dsimp only
      rw [Bool.not_true, if_neg Bool.false_ne_true]
      cases hstory : s.stories id with
      | some story =>
        apply sound_applyFields h
        rintro rfl hwas hpinned
        refine hcounted ⟨rfl, hpinned, fun found hfound => ?_⟩
        cases hstory.symm.trans hfound
        exact hwas
      | none =>
        dsimp only
        have hfields : ((s.applyFields id false isPinned).sets kind).Sound := by
          apply sound_applyFields h
          rintro rfl _ hpinned
          exact hcounted ⟨rfl, hpinned, fun _ hfound => nomatch hstory.symm.trans hfound⟩
        apply sound_change hfields
        rintro rfl harchive
        apply harchive.add
        rw [sets_applyFields]
        exact hcounted ⟨rfl, hstory⟩

/-- What is archived is known, the ids aside that are just being loaded. -/
structure Archived (s : Stories) (loading : List StoryId) : Prop where
  known : ∀ id ∈ (s.sets .archive).ids.list, id ∈ loading ∨ s.stories id ≠ none
  unpinned : (s.sets .archive).ids.pinnedToTop = []

variable {loading : List StoryId}

theorem Set.pinned_remove (set : Set) (id : StoryId) :
    (set.remove id).ids.pinnedToTop = set.ids.pinnedToTop := by
  unfold Set.remove
  split_ifs
  all_goals rfl

theorem Set.pinned_add (set : Set) (id : StoryId) :
    (set.add id).ids.pinnedToTop = set.ids.pinnedToTop := by
  unfold Set.add
  split_ifs
  all_goals rfl

theorem archived_saved (h : Archived s loading) (f : Set → Set) :
    Archived (s.change .saved f) loading := by
  have harchive : (s.change .saved f).sets .archive = s.sets .archive :=
    sets_change_of_ne (by decide) s f
  refine ⟨?_, ?_⟩
  · rw [harchive]
    exact h.known
  · rw [harchive]
    exact h.unpinned

theorem archived_applyDeleted (h : Archived s loading) (id : StoryId) :
    Archived (s.applyDeleted id) loading := by
  unfold Stories.applyDeleted
  cases s.stories id with
  | none => exact h
  | some story =>
    have hremoved : Archived ((s.setStory id none).change .archive (·.remove id)) loading := by
      refine ⟨?_, ?_⟩
      · rw [sets_change]
        intro x hx
        obtain ⟨hmem, hne⟩ := mem_setRemove.mp hx
        refine (h.known x hmem).imp_right fun hknown => ?_
        change Function.update s.stories id none x ≠ none
        rw [Function.update_of_ne hne]
        exact hknown
      · rw [sets_change, Set.pinned_remove]
        exact h.unpinned
    dsimp only
    split_ifs
    · exact archived_saved hremoved _
    · exact hremoved

theorem stories_applyFields (s : Stories) (id : StoryId) (was isPinned : Bool) :
    (s.applyFields id was isPinned).stories = Function.update s.stories id (some ⟨isPinned⟩) := by
  unfold Stories.applyFields
  dsimp only
  split_ifs
  all_goals rfl

/-- A story that is known stays known. -/
theorem archived_setStory (h : Archived s loading) (id : StoryId) (story : Story) :
    Archived (s.setStory id (some story)) loading := by
  refine ⟨fun x hx => (h.known x hx).imp_right fun hknown => ?_, h.unpinned⟩
  change Function.update s.stories id (some story) x ≠ none
  by_cases hid : x = id
  · rw [hid, Function.update_self]
    exact Option.some_ne_none _
  · rw [Function.update_of_ne hid]
    exact hknown

theorem archived_applyFields (h : Archived s loading) (id : StoryId) (was isPinned : Bool) :
    Archived (s.applyFields id was isPinned) loading := by
  have hset := archived_setStory h id ⟨isPinned⟩
  unfold Stories.applyFields
  dsimp only
  split_ifs
  · exact archived_saved hset _
  · exact hset

theorem archived_parse (h : Archived s loading) (item : StoryItem) :
    Archived (s.parseAndApply item).1 loading := by
  cases item with
  | storyItemDeleted id => exact archived_applyDeleted h id
  | storyItem id media isPinned =>
    unfold Stories.parseAndApply
    cases media with
    | false => exact archived_applyDeleted h id
    | true =>
      dsimp only
      rw [Bool.not_true, if_neg Bool.false_ne_true]
      cases s.stories id with
      | some story => exact archived_applyFields h id _ isPinned
      | none =>
        have hfields := archived_applyFields h id false isPinned
        refine ⟨?_, ?_⟩
        · dsimp only
          rw [sets_change]
          intro x hx
          rcases mem_add.mp hx with rfl | hold
          · refine .inr ?_
            change (s.applyFields x false isPinned).stories x ≠ none
            rw [stories_applyFields, Function.update_self]
            exact Option.some_ne_none _
          · exact hfields.known x hold
        · dsimp only
          rw [sets_change, Set.pinned_add]
          exact hfields.unpinned

/-- A story that was taken is known. -/
theorem known_parse {item : StoryItem} (h : (s.parseAndApply item).2 = true) :
    (s.parseAndApply item).1.stories item.id ≠ none := by
  cases item with
  | storyItemDeleted id => exact absurd h Bool.false_ne_true
  | storyItem id media isPinned =>
    unfold Stories.parseAndApply at h ⊢
    cases media with
    | false => exact absurd h Bool.false_ne_true
    | true =>
      dsimp only
      rw [Bool.not_true, if_neg Bool.false_ne_true]
      have hstory (was : Bool) : (s.applyFields id was isPinned).stories id ≠ none := by
        rw [stories_applyFields, Function.update_self]
        exact Option.some_ne_none _
      cases s.stories id with
      | some story => exact hstory story.inProfile
      | none => exact hstory false

/-- What an item adds to the other set is counted there. -/
def Stories.PageCounted (kind : Kind) : List StoryItem → Stories → Prop
  | [], _ => True
  | item :: rest, s =>
    (∀ other ≠ kind, s.Counted item other) ∧ PageCounted kind rest (s.pageItem kind item)

theorem adds_change (s : Stories) (kind : Kind) (f : Set → Set) (item : StoryItem)
    (other : Kind) : (s.change kind f).Adds item other ↔ s.Adds item other := by
  cases item with
  | storyItemDeleted id => exact Iff.rfl
  | storyItem id media isPinned =>
    cases other
    all_goals exact Iff.rfl

theorem sound_pageItem {other : Kind} {item : StoryItem} (h : (s.sets other).Sound)
    (hother : other ≠ kind) (hcounted : s.Counted item other) :
    ((s.pageItem kind item).sets other).Sound := by
  have hplaced := sets_change_of_ne hother s fun set =>
    { set with ids := emplace set.ids item.id, lastId := item.id }
  have hparsed := sound_parse (hplaced.symm ▸ h) fun hadds =>
    hplaced.symm ▸ hcounted ((adds_change s kind _ item other).mp hadds)
  unfold Stories.pageItem
  dsimp only
  split_ifs
  · exact hparsed
  · exact sound_change hparsed fun heq => absurd heq hother

theorem archived_pageItem (h : Archived s []) (kind : Kind) (item : StoryItem) :
    Archived (s.pageItem kind item) [] := by
  cases kind with
  | saved =>
    have hparsed := archived_parse (archived_saved h fun set =>
      { set with ids := emplace set.ids item.id, lastId := item.id }) item
    unfold Stories.pageItem
    dsimp only
    split_ifs
    · exact hparsed
    · exact archived_saved hparsed _
  | archive =>
    have hplaced : Archived (s.change .archive fun set =>
        { set with ids := emplace set.ids item.id, lastId := item.id }) [item.id] := by
      refine ⟨?_, ?_⟩
      · rw [sets_change]
        intro x hx
        rcases mem_emplace.mp hx with rfl | hold
        · exact .inl (List.mem_singleton_self _)
        · exact .inr ((h.known x hold).resolve_left List.not_mem_nil)
      · rw [sets_change]
        exact h.unpinned
    have hparsed := archived_parse hplaced item
    unfold Stories.pageItem
    dsimp only
    split_ifs with hparse
    · refine ⟨fun x hx => .inr ?_, hparsed.unpinned⟩
      rcases hparsed.known x hx with hitem | hknown
      · rw [List.mem_singleton.mp hitem]
        exact known_parse hparse
      · exact hknown
    · refine ⟨?_, ?_⟩
      · rw [sets_change]
        intro x hx
        obtain ⟨hmem, hne⟩ := mem_remove.mp hx
        refine .inr ((hparsed.known x hmem).resolve_left fun hitem => ?_)
        exact hne (List.mem_singleton.mp hitem)
      · rw [sets_change]
        exact hparsed.unpinned

theorem kept_pageItems {items : List StoryItem} (h : ∀ other ≠ kind, (s.sets other).Sound)
    (harchived : Archived s []) (hcounted : Stories.PageCounted kind items s) :
    (∀ other ≠ kind, ((s.pageItems kind items).sets other).Sound) ∧
      Archived (s.pageItems kind items) [] := by
  induction items generalizing s with
  | nil => exact ⟨h, harchived⟩
  | cons item items ih =>
    obtain ⟨hitem, hrest⟩ := hcounted
    exact ih (fun other hother => sound_pageItem (h other hother) hother (hitem other hother))
      (archived_pageItem harchived kind item) hrest

structure Kept (s : Stories) : Prop where
  sound : ∀ kind, (s.sets kind).Sound
  archived : Archived s []

theorem archived_change {f : Set → Set} (h : Archived s loading)
    (hf : ∀ set, (f set).ids = set.ids) (kind : Kind) : Archived (s.change kind f) loading := by
  cases kind with
  | saved => exact archived_saved h f
  | archive =>
    refine ⟨?_, ?_⟩
    · rw [sets_change, hf]
      exact h.known
    · rw [sets_change, hf]
      exact h.unpinned

theorem kept_page {count : ℤ} {items : List StoryItem} (h : Kept s)
    (hcounted : Stories.PageCounted kind items
      (s.change kind fun set => { set with total := count })) :
    Kept (s.page kind count items) := by
  have hstart := archived_change h.archived (f := fun set => { set with total := count })
    (fun _ => rfl) kind
  obtain ⟨hsound, harchived⟩ := kept_pageItems (fun other hother => by
    rw [sets_change_of_ne hother]
    exact h.sound other) hstart hcounted
  refine ⟨fun other => ?_, archived_change harchived (f := fun set => set.finish items.isEmpty)
    (fun _ => rfl) kind⟩
  unfold Stories.page
  by_cases hother : other = kind
  · rw [hother, sets_change]
    exact Set.sound_finish _ _
  · rw [sets_change_of_ne hother]
    exact hsound other hother

theorem kept_fail (h : Kept s) (kind : Kind) : Kept (s.fail kind) := by
  refine ⟨fun other => ?_, archived_change h.archived (f := fun set => set.finish true)
    (fun _ => rfl) kind⟩
  exact sound_change (h.sound other) fun _ _ => Set.sound_finish _ _

theorem kept_setPinnedToTop (h : Kept s) (pinnedToTop : List StoryId) :
    Kept (s.setPinnedToTop pinnedToTop) := by
  refine ⟨fun other => ?_, archived_saved h.archived _⟩
  exact sound_change (h.sound other) fun _ hsaved => ⟨hsaved.total, hsaved.loaded⟩

/-- What an answer to `toggleInProfileList` puts to the profile is counted by an `int`. -/
def Stories.TogglesCounted (loaded : Bool) (lastId : StoryId) (inProfile : Bool) :
    List StoryId → Stories → Prop
  | [], _ => True
  | id :: rest, s =>
    (s.stories id ≠ none → (s.sets .saved).CountsToggled loaded lastId id inProfile) ∧
      TogglesCounted loaded lastId inProfile rest (s.toggleStory loaded lastId inProfile id)

theorem kept_toggleStory (h : Kept s) {loaded : Bool} {lastId : StoryId} {inProfile : Bool}
    {id : StoryId}
    (hcounts : s.stories id ≠ none → (s.sets .saved).CountsToggled loaded lastId id inProfile) :
    Kept (s.toggleStory loaded lastId inProfile id) := by
  unfold Stories.toggleStory
  cases hstory : s.stories id with
  | none => exact h
  | some story =>
    have hset := archived_setStory h.archived id ⟨inProfile⟩
    have hcounts := hcounts (hstory ▸ Option.some_ne_none story)
    refine ⟨fun other => ?_, archived_saved hset _⟩
    exact sound_change (s := s.setStory id (some ⟨inProfile⟩)) (h.sound other)
      fun _ hsaved => hsaved.toggled hcounts

theorem kept_toggles (h : Kept s) {loaded : Bool} {lastId : StoryId} {inProfile : Bool}
    {ids : List StoryId} (hcounted : Stories.TogglesCounted loaded lastId inProfile ids s) :
    Kept (ids.foldl (fun s id => s.toggleStory loaded lastId inProfile id) s) := by
  induction ids generalizing s with
  | nil => exact h
  | cons id ids ih => exact ih (kept_toggleStory h hcounted.1) hcounted.2

theorem kept_parse {item : StoryItem} (h : Kept s) (hcounted : ∀ kind, s.Counted item kind) :
    Kept (s.parseAndApply item).1 :=
  ⟨fun kind => sound_parse (h.sound kind) (hcounted kind), archived_parse h.archived item⟩

theorem kept_applyDeleted (h : Kept s) (id : StoryId) : Kept (s.applyDeleted id) :=
  ⟨fun kind => sound_applyDeleted (h.sound kind) id, archived_applyDeleted h.archived id⟩

theorem mem_respectingPinned_iff {x : StoryId} :
    x ∈ respectingPinned ids ↔ x ∈ ids.pinnedToTop ∨ x ∈ ids.list := by
  unfold respectingPinned
  split_ifs with hempty
  · rw [List.isEmpty_iff.mp hempty]
    exact (or_iff_right List.not_mem_nil).symm
  · rw [List.mem_append, List.mem_filter]
    by_cases hpinned : x ∈ ids.pinnedToTop
    · exact iff_of_true (.inl hpinned) (.inl hpinned)
    · refine or_congr_right (and_iff_left ?_)
      rw [Bool.not_eq_true', List.contains_eq_mem]
      exact decide_eq_false hpinned

/-- A story that is not pinned to the top, and is in the profile where it is among the saved. -/
def Stories.DeletesWhole (s : Stories) (id : StoryId) : Prop :=
  id ∉ (s.sets .saved).ids.pinnedToTop ∧
    (id ∈ (s.sets .saved).ids.list → ∃ story, s.stories id = some story ∧ story.inProfile = true)

theorem gone_archive (h : Archived s []) (id : StoryId) :
    id ∉ respectingPinned ((s.applyDeleted id).sets .archive).ids := by
  rw [mem_respectingPinned_iff, (archived_applyDeleted h id).unpinned, not_or]
  refine ⟨List.not_mem_nil, ?_⟩
  unfold Stories.applyDeleted
  cases hstory : s.stories id with
  | none =>
    exact fun hmem => ((h.known id hmem).resolve_left List.not_mem_nil) hstory
  | some story =>
    have hremoved : id ∉ (((s.setStory id none).change .archive
        (·.remove id)).sets .archive).ids.list := by
      rw [sets_change, mem_setRemove]
      exact fun hmem => hmem.2 rfl
    have hne : Kind.archive ≠ Kind.saved := by decide
    dsimp only
    split_ifs
    · rw [sets_change_of_ne hne]
      exact hremoved
    · exact hremoved

theorem gone_saved_iff (s : Stories) (id : StoryId) :
    id ∉ respectingPinned ((s.applyDeleted id).sets .saved).ids ↔ s.DeletesWhole id := by
  rw [mem_respectingPinned_iff, not_or]
  unfold Stories.applyDeleted Stories.DeletesWhole
  have hne : Kind.saved ≠ Kind.archive := by decide
  cases hstory : s.stories id with
  | none =>
    refine and_congr_right fun _ => ⟨fun hnot hmem => absurd hmem hnot, fun himp hmem => ?_⟩
    obtain ⟨_, hnone, -⟩ := himp hmem
    exact nomatch hnone
  | some story =>
    have harchive : ((s.setStory id none).change .archive (·.remove id)).sets .saved =
        s.sets .saved := sets_change_of_ne hne _ _
    dsimp only
    split_ifs with hin
    · rw [sets_change, harchive, Set.pinned_remove, mem_setRemove]
      refine and_congr_right fun _ => iff_of_true (fun hmem => hmem.2 rfl) fun _ => ?_
      exact ⟨story, rfl, hin⟩
    · rw [harchive]
      refine and_congr_right fun _ => ⟨fun hnot hmem => absurd hmem hnot, fun himp hmem => ?_⟩
      obtain ⟨found, hfound, hpinned⟩ := himp hmem
      cases hfound
      exact hin hpinned

/-- The steps after which the totals agree and a deleted story is gone. -/
def Stories.Follows (s : Stories) : Event → Prop
  | .archivePage count items =>
    Stories.PageCounted .archive items (s.change .archive fun set => { set with total := count })
  | .archiveFail => True
  | .savedPage count items _ =>
    Stories.PageCounted .saved items (s.change .saved fun set => { set with total := count })
  | .savedFail => True
  | .story item => ∀ kind, s.Counted item kind
  | .applyDeleted id => s.DeletesWhole id
  | .toggledInProfile ids inProfile =>
    Stories.TogglesCounted (s.sets .saved).loaded (s.sets .saved).listLastId inProfile ids s
  | .pinnedToTop _ => True

theorem kept_step {event : Event} (h : Kept s) (hfollows : s.Follows event) :
    Kept (s.step event) := by
  cases event with
  | archivePage count items => exact kept_page h hfollows
  | archiveFail => exact kept_fail h .archive
  | savedPage count items pinnedToTop =>
    exact kept_setPinnedToTop (kept_page h hfollows) pinnedToTop
  | savedFail => exact kept_fail h .saved
  | story item => exact kept_parse h hfollows
  | applyDeleted id => exact kept_applyDeleted h id
  | toggledInProfile ids inProfile => exact kept_toggles h hfollows
  | pinnedToTop ids => exact kept_setPinnedToTop h ids

theorem kept_start : Kept .start where
  sound := fun _ => ⟨.inl rfl, fun h => absurd h Bool.false_ne_true⟩
  archived := ⟨fun _ h => absurd h List.not_mem_nil, rfl⟩

inductive Followed : Stories → Prop
  | start : Followed .start
  | step {s : Stories} (before : Followed s) (event : Event) (follows : s.Follows event) :
    Followed (s.step event)

theorem kept_of_followed (h : Followed s) : Kept s := by
  induction h with
  | start => exact kept_start
  | step _ event follows ih => exact kept_step ih follows

/-- The totals against the loaded ids after a step, and a deleted story in neither set. -/
structure Consistent (event : Event) (after : Stories) : Prop where
  total : ∀ kind, (after.sets kind).total = -1 ∨
    ((after.sets kind).ids.list.length : ℤ) ≤ (after.sets kind).total
  loaded : ∀ kind, (after.sets kind).loaded = true →
    (after.sets kind).total = (after.sets kind).ids.list.length
  gone : ∀ id, event = .applyDeleted id → ∀ kind, id ∉ respectingPinned (after.sets kind).ids

theorem sets_consistent (h : Followed s) (event : Event) (hfollows : s.Follows event) :
    Consistent event (s.step event) := by
  have hkept := kept_of_followed h
  have hafter := kept_step hkept hfollows
  refine ⟨fun kind => (hafter.sound kind).total, fun kind => (hafter.sound kind).loaded, ?_⟩
  rintro id rfl kind
  cases kind with
  | archive => exact gone_archive hkept.archived id
  | saved => exact (gone_saved_iff s id).mpr hfollows

/-- One saved story, the whole list of them loaded. -/
def oneSaved : Stories :=
  (Stories.start.step (.savedPage 1 [.storyItem 5 true true] [5])).step (.savedPage 1 [] [5])

theorem followed_oneSaved : Followed oneSaved := by
  refine .step (.step .start (.savedPage 1 [.storyItem 5 true true] [5]) ⟨?_, trivial⟩)
    (.savedPage 1 [] [5]) trivial
  intro other hother _
  cases other with
  | saved => exact absurd rfl hother
  | archive => exact .inr (.inl (by decide))

theorem sets_consistent_toggled : (oneSaved.sets .saved).ids.list = [5] ∧
    Consistent (.toggledInProfile [5] false) (oneSaved.step (.toggledInProfile [5] false)) :=
  ⟨by decide, sets_consistent followed_oneSaved _ ⟨fun _ hin => Bool.noConfusion hin, trivial⟩⟩

/-- An older story that comes to the profile is not counted, and a deleted one stays pinned. -/
theorem not_consistent_oneSaved :
    ¬ Consistent (.story (.storyItem 3 true true)) (oneSaved.step (.story (.storyItem 3 true true)))
      ∧ ¬ Consistent (.applyDeleted 5) (oneSaved.step (.applyDeleted 5)) := by
  constructor
  · intro h
    exact absurd (h.loaded .saved (by decide)) (by decide)
  · intro h
    exact absurd (h.gone 5 rfl .saved) (by decide)

end TelegramDesktop.Data.StoriesSets
