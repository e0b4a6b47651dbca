import TelegramDesktop.Core.RecentEmoji

namespace TelegramDesktop.Core.Settings

variable {Emoji : Type*}

/-- No id is twice in the list, the ratings go down, and none is out of its range. -/
structure Good (list : List (RecentEmoji Emoji)) : Prop where
  nodup : (list.map RecentEmoji.id).Nodup
  sorted : list.Pairwise fun a b => b.rating ≤ a.rating
  rated : ∀ data ∈ list, 1 ≤ data.rating ∧ data.rating ≤ 0x8000

theorem Good.nil : Good ([] : List (RecentEmoji Emoji)) where
  nodup := List.nodup_nil
  sorted := .nil
  rated _ hdata := absurd hdata List.not_mem_nil

theorem Good.sublist {list list' : List (RecentEmoji Emoji)} (h : Good list')
    (hsub : List.Sublist list list') : Good list where
  nodup := h.nodup.sublist (hsub.map _)
  sorted := h.sorted.sublist hsub
  rated data hdata := h.rated data (hsub.subset hdata)

/-- The lowest rating goes to the end. -/
theorem Good.push {list : List (RecentEmoji Emoji)} (h : Good list) {id : RecentEmojiId Emoji}
    (hid : id ∉ list.map RecentEmoji.id) : Good (list ++ [⟨id, 1⟩]) where
  nodup := by
    rw [List.map_append]
    exact List.Nodup.append h.nodup (List.nodup_singleton _) (by simpa using hid)
  sorted := by
    refine List.pairwise_append.mpr ⟨h.sorted, List.pairwise_singleton _ _, ?_⟩
    intro data hdata last hlast
    rw [List.mem_singleton.mp hlast]
    exact (h.rated data hdata).1
  rated data hdata := by
    rcases List.mem_append.mp hdata with hdata | hdata
    · exact h.rated data hdata
    · rw [List.mem_singleton.mp hdata]
      exact ⟨le_rfl, show 1 ≤ 0x8000 by decide⟩

/-- The element passes those before it that are rated no higher. -/
theorem climb_append (front back : List (RecentEmoji Emoji)) (data : RecentEmoji Emoji) :
    ∃ kept moved, front = kept ++ moved ∧
      climb front.length (front ++ data :: back) = kept ++ data :: (moved ++ back) ∧
      (∀ other ∈ moved, other.rating ≤ data.rating) ∧
      ∀ last ∈ kept.getLast?, data.rating < last.rating := by
  induction front using List.reverseRecOn generalizing back with
  | nil =>
    refine ⟨[], [], rfl, rfl, fun other ho => absurd ho List.not_mem_nil, fun last hlast => ?_⟩
    exact absurd hlast (Option.not_mem_none last)
  | append_singleton front before ih =>
    have hlength : (front ++ [before]).length = front.length + 1 := by simp
    have hbefore : (front ++ [before] ++ data :: back)[front.length]? = some before := by simp
    have hdata : (front ++ [before] ++ data :: back)[front.length + 1]? = some data := by simp
    rw [hlength, climb, hbefore, hdata]
    dsimp only
    by_cases hhigher : before.rating > data.rating
    · rw [if_pos hhigher]
      refine ⟨front ++ [before], [], (List.append_nil _).symm, rfl,
        fun other ho => absurd ho List.not_mem_nil, fun last hlast => ?_⟩
      rw [List.getLast?_concat, Option.mem_some_iff] at hlast
      rwa [← hlast]
    · rw [if_neg hhigher]
      have hswap : ((front ++ [before] ++ data :: back).set front.length data).set
          (front.length + 1) before = front ++ data :: before :: back := by
        simp
      rw [hswap]
      obtain ⟨kept, moved, hfront, hclimb, hmoved, hkept⟩ := ih (before :: back)
      refine ⟨kept, moved ++ [before], ?_, ?_, ?_, hkept⟩
      · rw [hfront, List.append_assoc]
      · rw [hclimb, List.append_assoc, List.singleton_append]
      · intro other hother
        rcases List.mem_append.mp hother with hother | hother
        · exact hmoved other hother
        · rw [List.mem_singleton.mp hother]
          exact not_lt.mp hhigher

theorem lt_of_lt_getLast {kept : List (RecentEmoji Emoji)} {rating : ℕ}
    (hsorted : kept.Pairwise fun a b => b.rating ≤ a.rating)
    (hlast : ∀ last ∈ kept.getLast?, rating < last.rating) :
    ∀ data ∈ kept, rating < data.rating := by
  intro data hdata
  rcases List.eq_nil_or_concat' kept with rfl | ⟨init, last, rfl⟩
  · exact absurd hdata List.not_mem_nil
  · have hrating := hlast last (by rw [List.getLast?_concat]; rfl)
    rcases List.mem_append.mp hdata with hdata | hdata
    · have hle := (List.pairwise_append.mp hsorted).2.2 data hdata last
        (List.mem_singleton_self last)
      omega
    · rwa [List.mem_singleton.mp hdata]

/-- Climbing in an ordered list stops below all that is rated higher. -/
theorem climb_place {front : List (RecentEmoji Emoji)} (back : List (RecentEmoji Emoji))
    (data : RecentEmoji Emoji) (hsorted : front.Pairwise fun a b => b.rating ≤ a.rating) :
    ∃ kept moved, front = kept ++ moved ∧
      climb front.length (front ++ data :: back) = kept ++ data :: (moved ++ back) ∧
      (∀ other ∈ kept, data.rating < other.rating) ∧
      ∀ other ∈ moved, other.rating ≤ data.rating := by
  obtain ⟨kept, moved, hfront, hclimb, hmoved, hkept⟩ := climb_append front back data
  refine ⟨kept, moved, hfront, hclimb, ?_, hmoved⟩
  rw [hfront] at hsorted
  exact lt_of_lt_getLast (List.pairwise_append.mp hsorted).1 hkept

theorem climb_perm (front back : List (RecentEmoji Emoji)) (data : RecentEmoji Emoji) :
    (climb front.length (front ++ data :: back)).Perm (front ++ data :: back) := by
  obtain ⟨kept, moved, hfront, hclimb, -, -⟩ := climb_append front back data
  rw [hclimb, hfront, List.append_assoc]
  exact List.Perm.append_left kept List.perm_middle.symm

/-- An element that is rated no lower than those after it climbs to its place. -/
theorem good_climb {front back : List (RecentEmoji Emoji)} {data : RecentEmoji Emoji}
    (hnodup : ((front ++ data :: back).map RecentEmoji.id).Nodup)
    (hsorted : (front ++ back).Pairwise fun a b => b.rating ≤ a.rating)
    (hback : ∀ other ∈ back, other.rating ≤ data.rating)
    (hrated : ∀ other ∈ front ++ data :: back, 1 ≤ other.rating ∧ other.rating ≤ 0x8000) :
    Good (climb front.length (front ++ data :: back)) where
  nodup := ((climb_perm front back data).map _).nodup_iff.mpr hnodup
  rated other hother := hrated other ((climb_perm front back data).mem_iff.mp hother)
  sorted := by
    obtain ⟨kept, moved, hfront, hclimb, hlower, hmoved⟩ :=
      climb_place back data (List.pairwise_append.mp hsorted).1
    rw [hclimb]
    rw [hfront, List.append_assoc, List.pairwise_append] at hsorted
    obtain ⟨hkeptSorted, hrest, hacross⟩ := hsorted
    refine List.pairwise_append.mpr ⟨hkeptSorted, List.pairwise_cons.mpr ⟨?_, hrest⟩, ?_⟩
    · intro other hother
      rcases List.mem_append.mp hother with hother | hother
      · exact hmoved other hother
      · exact hback other hother
    · intro higher hhigher other hother
      rcases List.mem_cons.mp hother with rfl | hother
      · exact (hlower higher hhigher).le
      · exact hacross higher hhigher other hother

theorem halved_le {data other : RecentEmoji Emoji} (h : other.rating ≤ data.rating) :
    (halved other).rating ≤ (halved data).rating := by
  simp only [halved]
  split <;> split <;> omega

theorem halved_rated {data : RecentEmoji Emoji} (h : data.rating ≤ 0x8001) :
    1 ≤ (halved data).rating ∧ (halved data).rating ≤ 0x8000 := by
  simp only [halved]
  split <;> omega

/-- One more use of an emoji of the list. -/
theorem Good.rerated {front back : List (RecentEmoji Emoji)} {data : RecentEmoji Emoji}
    (h : Good (front ++ data :: back)) :
    let list := front ++ incremented data :: back
    Good (climb front.length
      (if (incremented data).rating > 0x8000 then list.map halved else list)) := by
  have hrating : (incremented data).rating = data.rating + 1 := by
    have hdata := (h.rated data (List.mem_append_right _ List.mem_cons_self)).2
    rw [incremented, Nat.mod_eq_of_lt (by omega)]
  have hids : (front ++ incremented data :: back).map RecentEmoji.id =
      (front ++ data :: back).map RecentEmoji.id := by
    rw [List.map_append, List.map_append, List.map_cons, List.map_cons]
    rfl
  have hsorted : (front ++ back).Pairwise fun a b => b.rating ≤ a.rating :=
    h.sorted.sublist (List.Sublist.append_left (List.sublist_cons_self data back) front)
  have hback : ∀ other ∈ back, other.rating ≤ (incremented data).rating := by
    intro other hother
    have hle := (List.pairwise_cons.mp (List.pairwise_append.mp h.sorted).2.1).1 other hother
    omega
  have hbound : ∀ other ∈ front ++ incremented data :: back,
      1 ≤ other.rating ∧ other.rating ≤ 0x8001 := by
    intro other hother
    rw [List.mem_append, List.mem_cons] at hother
    rcases hother with hother | rfl | hother
    · have hother := h.rated other (List.mem_append_left _ hother)
      omega
    · have hdata := h.rated data (List.mem_append_right _ List.mem_cons_self)
      omega
    · have hother := h.rated other (List.mem_append_right _ (List.mem_cons_of_mem _ hother))
      omega
  intro list
  split
  · have hlist : list.map halved =
        front.map halved ++ halved (incremented data) :: back.map halved := by
      rw [List.map_append, List.map_cons]
    rw [hlist, ← List.length_map (f := halved)]
    apply good_climb
    · rw [← hlist, List.map_map]
      exact hids ▸ h.nodup
    · rw [← List.map_append, List.pairwise_map]
      exact hsorted.imp halved_le
    · intro other hother
      obtain ⟨other, hin, rfl⟩ := List.mem_map.mp hother
      exact halved_le (hback other hin)
    · intro other hother
      rw [← hlist] at hother
      obtain ⟨other, hin, rfl⟩ := List.mem_map.mp hother
      exact halved_rated (hbound other hin).2
  · next hlow =>
    apply good_climb (hids ▸ h.nodup) hsorted hback
    intro other hother
    have hother' := hbound other hother
    rw [List.mem_append, List.mem_cons] at hother
    rcases hother with hother | rfl | hother
    · exact h.rated other (List.mem_append_left _ hother)
    · omega
    · exact h.rated other (List.mem_append_right _ (List.mem_cons_of_mem _ hother))

/-- The list that a rating was raised in, with the ratings halved when it got too high. -/
theorem rerated_eq (front back : List (RecentEmoji Emoji)) (data : RecentEmoji Emoji) :
    ∃ f : RecentEmoji Emoji → RecentEmoji Emoji, (∀ other, (f other).id = other.id) ∧
      (∀ a b : RecentEmoji Emoji, b.rating ≤ a.rating → (f b).rating ≤ (f a).rating) ∧
      (if (incremented data).rating > 0x8000 then (front ++ incremented data :: back).map halved
        else front ++ incremented data :: back) =
        front.map f ++ f (incremented data) :: back.map f := by
  split
  · refine ⟨halved, fun other => rfl, fun a b hle => halved_le hle, ?_⟩
    rw [List.map_append, List.map_cons]
  · refine ⟨id, fun other => rfl, fun a b hle => hle, ?_⟩
    rw [List.map_id, List.map_id, id]

/-- What holds of the recent emoji in every state. -/
structure Valid (s : Settings Emoji) : Prop where
  good : Good s.recentEmoji
  sorted : s.recentEmojiPreload.Pairwise fun a b => b.rating ≤ a.rating
  rated : ∀ data ∈ s.recentEmojiPreload, 1 ≤ data.rating ∧ data.rating ≤ 0x8000
  fresh : s.recentEmoji = [] ∨ s.recentEmojiPreload = []
  hidden : ∀ emoji ∈ s.recentEmojiSkip, .emoji emoji ∉ s.recentEmoji.map RecentEmoji.id
  unsaved : ∀ emoji ∈ s.recentEmojiSkip, .emoji emoji ∉ s.recentEmojiPreload.map RecentEmoji.id

theorem valid_of_good {s : Settings Emoji} (hpreload : s.recentEmojiPreload = [])
    (hgood : Good s.recentEmoji)
    (hhidden : ∀ emoji ∈ s.recentEmojiSkip, .emoji emoji ∉ s.recentEmoji.map RecentEmoji.id) :
    s.Valid where
  good := hgood
  sorted := hpreload ▸ List.Pairwise.nil
  rated _ hdata := absurd (hpreload ▸ hdata) List.not_mem_nil
  fresh := .inr hpreload
  hidden := hhidden
  unsaved _ _ hin := absurd (hpreload ▸ hin) List.not_mem_nil

theorem Valid.restart {s : Settings Emoji} (h : s.Valid) : s.addFromSerialized.Valid := by
  have hdata : s.recentEmojiPreloadData = s.recentEmoji ∨
      s.recentEmojiPreloadData = s.recentEmojiPreload := by
    rw [recentEmojiPreloadData]
    exact ite_eq_or_eq _ _ _
  refine ⟨Good.nil, ?_, ?_, .inl rfl, fun emoji _ hin => absurd hin List.not_mem_nil, ?_⟩
  · change s.recentEmojiPreloadData.Pairwise _
    rcases hdata with hdata | hdata <;> rw [hdata]
    · exact h.good.sorted
    · exact h.sorted
  · change ∀ data ∈ s.recentEmojiPreloadData, _
    rcases hdata with hdata | hdata <;> rw [hdata]
    · exact h.good.rated
    · exact h.rated
  · change ∀ emoji ∈ s.recentEmojiSkip, .emoji emoji ∉ s.recentEmojiPreloadData.map RecentEmoji.id
    rcases hdata with hdata | hdata <;> rw [hdata]
    · exact h.hidden
    · exact h.unsaved

variable [DecidableEq Emoji]

theorem haveAlready_iff (list : List (RecentEmoji Emoji)) (id : RecentEmojiId Emoji) :
    haveAlready list id = true ↔ id ∈ list.map RecentEmoji.id := by
  rw [haveAlready, List.any_eq_true, List.mem_map]
  constructor
  · rintro ⟨data, hdata, hid⟩
    exact ⟨data, hdata, of_decide_eq_true hid⟩
  · rintro ⟨data, hdata, hid⟩
    exact ⟨data, hdata, decide_eq_true hid⟩

theorem pushPreload_sublist (preload list : List (RecentEmoji Emoji)) :
    List.Sublist (pushPreload preload list) preload := by
  induction preload generalizing list with
  | nil => exact .slnil
  | cons data preload ih =>
    rw [pushPreload]
    split
    · exact (ih list).cons data
    · exact (ih _).cons_cons data

theorem pushPreload_nodup (preload : List (RecentEmoji Emoji)) {list : List (RecentEmoji Emoji)}
    (h : (list.map RecentEmoji.id).Nodup) :
    ((list ++ pushPreload preload list).map RecentEmoji.id).Nodup := by
  induction preload generalizing list with
  | nil =>
    rw [pushPreload, List.append_nil]
    exact h
  | cons data preload ih =>
    rw [pushPreload]
    split
    · exact ih h
    · next hnew =>
      have hid : data.id ∉ list.map RecentEmoji.id := fun hin =>
        hnew ((haveAlready_iff list data.id).mpr hin)
      have hnodup : ((list ++ [data]).map RecentEmoji.id).Nodup := by
        rw [List.map_append]
        exact List.Nodup.append h (List.nodup_singleton _) (by simpa using hid)
      have hrest := ih hnodup
      rwa [List.append_assoc, List.singleton_append] at hrest

/-- The defaults that were hidden are not pushed. -/
theorem pushDefaults_good (skip : List Emoji) (size : ℕ) (defaults : List Emoji)
    {list : List (RecentEmoji Emoji)} (h : Good list)
    (hskip : ∀ emoji ∈ skip, .emoji emoji ∉ list.map RecentEmoji.id) :
    Good (pushDefaults skip size defaults list) ∧
      ∀ emoji ∈ skip, .emoji emoji ∉ (pushDefaults skip size defaults list).map RecentEmoji.id := by
  induction defaults generalizing list with
  | nil => exact ⟨h, hskip⟩
  | cons first defaults ih =>
    rw [pushDefaults]
    split
    · exact ⟨h, hskip⟩
    split
    · exact ih h hskip
    · next hshown =>
      split
      · exact ih h hskip
      · next hnew =>
        refine ih (h.push fun hin => hnew ((haveAlready_iff list _).mpr hin)) ?_
        intro emoji hemoji hin
        rw [List.map_append, List.mem_append] at hin
        rcases hin with hin | hin
        · exact hskip emoji hemoji hin
        · rw [List.map_singleton, List.mem_singleton, RecentEmojiId.emoji.injEq] at hin
          rw [hin] at hemoji
          exact hshown hemoji

variable (defaults : List Emoji)

theorem Valid.resolve {s : Settings Emoji} (h : s.Valid) :
    (s.resolveRecentEmoji defaults).Valid := by
  have hsub := pushPreload_sublist s.recentEmojiPreload s.recentEmoji
  have hgood : Good (s.recentEmoji ++ pushPreload s.recentEmojiPreload s.recentEmoji) := by
    rcases h.fresh with hempty | hempty
    · rw [hempty] at hsub ⊢
      have hnodup := pushPreload_nodup s.recentEmojiPreload Good.nil.nodup
      exact ⟨hnodup, h.sorted.sublist hsub, fun data hdata => h.rated data (hsub.subset hdata)⟩
    · rw [hempty, pushPreload, List.append_nil]
      exact h.good
  have hskip : ∀ emoji ∈ s.recentEmojiSkip, .emoji emoji ∉
      (s.recentEmoji ++ pushPreload s.recentEmojiPreload s.recentEmoji).map RecentEmoji.id := by
    intro emoji hemoji hin
    rw [List.map_append, List.mem_append] at hin
    rcases hin with hin | hin
    · exact h.hidden emoji hemoji hin
    · exact h.unsaved emoji hemoji ((hsub.map _).subset hin)
  obtain ⟨hpushed, hhidden⟩ := pushDefaults_good s.recentEmojiSkip
    (specialCount (pushPreload s.recentEmojiPreload s.recentEmoji) + kRecentEmojiLimit) defaults
    hgood hskip
  exact ⟨hpushed, .nil, fun data hdata => absurd hdata List.not_mem_nil, .inr rfl, hhidden,
    fun emoji _ hin => absurd hin List.not_mem_nil⟩

/-- The list of an id that was used. -/
theorem increment_spec (id : RecentEmojiId Emoji) (list : List (RecentEmoji Emoji)) :
    (∃ front data back, list = front ++ data :: back ∧ data.id = id ∧
      increment id list = climb front.length
        (if (incremented data).rating > 0x8000 then
          (front ++ incremented data :: back).map halved
        else front ++ incremented data :: back)) ∨
    (id ∉ list.map RecentEmoji.id ∧
      increment id list = (climb list.length (list ++ [⟨id, 1⟩])).take
        (specialCount (climb list.length (list ++ [⟨id, 1⟩])) + kRecentEmojiLimit - 1)) := by
  rcases hfound : list[list.findIdx fun data => data.id = id]? with _ | data
  · refine .inr ⟨fun hin => ?_, by rw [increment, hfound]⟩
    obtain ⟨data, hdata, hid⟩ := List.mem_map.mp hin
    have hlt : list.findIdx (fun data => data.id = id) < list.length :=
      List.findIdx_lt_length.mpr ⟨data, hdata, decide_eq_true hid⟩
    exact absurd hlt (not_lt.mpr (List.getElem?_eq_none_iff.mp hfound))
  · obtain ⟨hlt, hdata⟩ := List.getElem?_eq_some_iff.mp hfound
    have hlength : (list.take (list.findIdx fun data => data.id = id)).length =
        list.findIdx fun data => data.id = id := List.length_take_of_le hlt.le
    refine .inl ⟨list.take (list.findIdx fun data => data.id = id), data,
      list.drop (list.findIdx (fun data => data.id = id) + 1), ?_, ?_, ?_⟩
    · rw [← hdata, List.getElem_cons_drop, List.take_append_drop]
    · rw [← hdata]
      exact of_decide_eq_true (List.findIdx_getElem (w := hlt))
    · rw [increment, hfound, hlength]
      dsimp only
      rw [List.set_eq_take_append_cons_drop, if_pos hlt]

theorem Good.increment {list : List (RecentEmoji Emoji)} (h : Good list)
    (id : RecentEmojiId Emoji) : Good (Settings.increment id list) := by
  obtain ⟨front, data, back, rfl, -, hlist⟩ | ⟨hid, hlist⟩ := increment_spec id list
  · rw [hlist]
    exact h.rerated
  · rw [hlist]
    have hpush := h.push hid
    refine Good.sublist (good_climb hpush.nodup ?_ ?_ hpush.rated) (List.take_sublist _ _)
    · rw [List.append_nil]
      exact h.sorted
    · exact fun other hother => absurd hother List.not_mem_nil

/-- The place of an id that was used. -/
theorem increment_place {list : List (RecentEmoji Emoji)} (h : Good list)
    (id : RecentEmojiId Emoji) :
    (∃ kept data rest, Settings.increment id list = kept ++ data :: rest ∧ data.id = id ∧
      (∀ other ∈ kept, data.rating < other.rating) ∧
      ∀ other ∈ rest, other.rating ≤ data.rating) ∨
    (id ∉ list.map RecentEmoji.id ∧ id ∉ (Settings.increment id list).map RecentEmoji.id ∧
      53 ≤ (Settings.increment id list).length ∧
      ∀ other ∈ Settings.increment id list, 1 < other.rating) := by
  have hgood := h.increment id
  obtain ⟨front, data, back, rfl, hid, hlist⟩ | ⟨hid, hlist⟩ := increment_spec id list
  · left
    obtain ⟨f, hids, hmono, heq⟩ := rerated_eq front back data
    have hsorted : (front.map f).Pairwise fun a b => b.rating ≤ a.rating :=
      List.pairwise_map.mpr ((List.pairwise_append.mp h.sorted).1.imp (hmono _ _))
    obtain ⟨kept, moved, -, hclimb, hhigher, -⟩ :=
      climb_place (back.map f) (f (incremented data)) hsorted
    rw [List.length_map, ← heq, ← hlist] at hclimb
    rw [hclimb] at hgood ⊢
    refine ⟨kept, f (incremented data), moved ++ back.map f, rfl, ?_, hhigher, ?_⟩
    · rw [hids]
      exact hid
    · exact (List.pairwise_cons.mp (List.pairwise_append.mp hgood.sorted).2.1).1
  · obtain ⟨kept, moved, hsplit, hclimb, hhigher, hmoved⟩ :=
      climb_place [] ⟨id, 1⟩ h.sorted
    rw [List.append_nil] at hclimb
    rw [hlist, hclimb]
    generalize hspecial : specialCount (kept ++ ⟨id, 1⟩ :: moved) = special
    by_cases hfull : kept.length < special + kRecentEmojiLimit - 1
    · left
      obtain ⟨n, hn⟩ := Nat.exists_eq_add_of_lt hfull
      refine ⟨kept, ⟨id, 1⟩, moved.take n, ?_, rfl, hhigher, fun other hother =>
        hmoved other (List.mem_of_mem_take hother)⟩
      rw [hn, Nat.add_assoc, List.take_length_add_append, List.take_succ_cons]
    · right
      rw [List.take_append_of_le_length (not_lt.mp hfull)]
      refine ⟨hid, fun hin => hid ?_, ?_,
        fun other hother => hhigher other (List.mem_of_mem_take hother)⟩
      · rw [hsplit, List.map_append]
        exact List.mem_append_left _ (((List.take_sublist _ _).map _).subset hin)
      · rw [List.length_take_of_le (not_lt.mp hfull), kRecentEmojiLimit]
        omega

theorem increment_ids {id other : RecentEmojiId Emoji} {list : List (RecentEmoji Emoji)}
    (h : other ∈ (increment id list).map RecentEmoji.id) :
    other = id ∨ other ∈ list.map RecentEmoji.id := by
  obtain ⟨front, data, back, rfl, -, hlist⟩ | ⟨-, hlist⟩ := increment_spec id list
  · right
    rw [hlist] at h
    obtain ⟨f, hids, -, heq⟩ := rerated_eq front back data
    rw [heq, ← List.length_map (f := f)] at h
    have hmem := ((climb_perm _ _ _).map RecentEmoji.id).mem_iff.mp h
    have hcomp : RecentEmoji.id ∘ f = RecentEmoji.id := funext hids
    rw [List.map_append, List.map_cons, List.map_map, List.map_map, hcomp, hids] at hmem
    rw [List.map_append, List.map_cons]
    exact hmem
  · rw [hlist] at h
    have hin := ((List.take_sublist _ _).map RecentEmoji.id).subset h
    have hmem := ((climb_perm list [] ⟨id, 1⟩).map RecentEmoji.id).mem_iff.mp hin
    rw [List.map_append, List.mem_append, List.map_singleton, List.mem_singleton] at hmem
    exact hmem.symm

theorem Valid.increment {s : Settings Emoji} (h : s.Valid) (id : RecentEmojiId Emoji) :
    (s.incrementRecentEmoji defaults id).Valid := by
  have hresolved := h.resolve defaults
  refine valid_of_good rfl (hresolved.good.increment id) fun emoji hemoji hin => ?_
  have hskip : emoji ∈ (s.resolveRecentEmoji defaults).recentEmojiSkip ∧ .emoji emoji ≠ id := by
    cases id with
    | emoji e =>
      obtain ⟨hmem, hne⟩ := List.mem_filter.mp hemoji
      exact ⟨hmem, fun heq => of_decide_eq_true hne (RecentEmojiId.emoji.inj heq)⟩
    | document i test => exact ⟨hemoji, by simp⟩
  rcases increment_ids hin with heq | hin
  · exact hskip.2 heq
  · exact hresolved.hidden emoji hskip.1 hin

theorem Valid.hide {s : Settings Emoji} (h : s.Valid) (id : RecentEmojiId Emoji) :
    (s.hideRecentEmoji defaults id).Valid := by
  have hresolved := h.resolve defaults
  refine valid_of_good rfl (hresolved.good.sublist List.filter_sublist) fun emoji hemoji hin => ?_
  obtain ⟨data, hdata, hid⟩ := List.mem_map.mp hin
  obtain ⟨hmem, hne⟩ := List.mem_filter.mp hdata
  have hskip : emoji ∈ (s.resolveRecentEmoji defaults).recentEmojiSkip ∨ id = .emoji emoji := by
    cases id with
    | document i test => exact .inl hemoji
    | emoji e =>
      change emoji ∈ ite _ _ _ at hemoji
      split at hemoji
      · rcases List.mem_append.mp hemoji with hemoji | hemoji
        · exact .inl hemoji
        · exact .inr (congrArg _ (List.mem_singleton.mp hemoji).symm)
      · exact .inl hemoji
  rcases hskip with hskip | rfl
  · exact hresolved.hidden emoji hskip (List.mem_map.mpr ⟨data, hmem, hid⟩)
  · exact of_decide_eq_true hne hid

theorem Valid.show {s : Settings Emoji} (h : s.Valid) : (s.showRecentEmoji defaults).Valid := by
  rw [showRecentEmoji]
  split
  · exact h
  · exact Valid.resolve defaults ⟨h.good, h.sorted, h.rated, h.fresh, h.hidden, h.unsaved⟩

theorem Valid.step {s : Settings Emoji} (h : s.Valid) (operation : Operation Emoji) :
    (Settings.step defaults s operation).Valid := by
  cases operation with
  | «show» => exact h.show defaults
  | increment id => exact h.increment defaults id
  | hide id => exact h.hide defaults id
  | reset => exact valid_of_good rfl Good.nil fun emoji hemoji => absurd hemoji List.not_mem_nil
  | lastLogout => exact valid_of_good rfl Good.nil fun _ _ => List.not_mem_nil
  | restart => exact h.restart

theorem Valid.steps {s : Settings Emoji} (h : s.Valid) (operations : List (Operation Emoji)) :
    (operations.foldl (Settings.step defaults) s).Valid := by
  induction operations generalizing s with
  | nil => exact h
  | cons operation operations ih => exact ih (h.step defaults operation)

/-- However the recent emoji are used, none is twice among them, they are ordered by a rating that
stays within its bounds, and a hidden one is not shown. -/
theorem recentEmoji_ordered (operations : List (Operation Emoji)) :
    let s := operations.foldl (step defaults) {}
    (s.recentEmoji.map RecentEmoji.id).Nodup ∧
      (s.recentEmoji.Pairwise fun a b => b.rating ≤ a.rating) ∧
      (∀ data ∈ s.recentEmoji, 1 ≤ data.rating ∧ data.rating ≤ 0x8000) ∧
      ∀ emoji ∈ s.recentEmojiSkip, .emoji emoji ∉ s.recentEmoji.map RecentEmoji.id := by
  have hstart : Valid ({} : Settings Emoji) :=
    valid_of_good rfl Good.nil fun emoji hemoji => absurd hemoji List.not_mem_nil
  have h := hstart.steps defaults operations
  exact ⟨h.good.nodup, h.good.sorted, h.good.rated, h.hidden⟩

/-- An emoji that was just used stands before all that are rated no higher. Only where each of the
others, as many as are kept, was used more than once is a new one dropped again. -/
theorem recentEmoji_used (operations : List (Operation Emoji)) (id : RecentEmojiId Emoji) :
    let before := resolveRecentEmoji defaults (operations.foldl (step defaults) {})
    let list := (step defaults (operations.foldl (step defaults) {}) (.increment id)).recentEmoji
    (∃ kept data rest, list = kept ++ data :: rest ∧ data.id = id ∧
      (∀ other ∈ kept, data.rating < other.rating) ∧
      ∀ other ∈ rest, other.rating ≤ data.rating) ∨
    (id ∉ before.recentEmoji.map RecentEmoji.id ∧ id ∉ list.map RecentEmoji.id ∧
      53 ≤ list.length ∧ ∀ other ∈ list, 1 < other.rating) := by
  have hstart : Valid ({} : Settings Emoji) :=
    valid_of_good rfl Good.nil fun emoji hemoji => absurd hemoji List.not_mem_nil
  have hvalid := (hstart.steps defaults operations).resolve defaults
  exact increment_place hvalid.good id

end TelegramDesktop.Core.Settings
