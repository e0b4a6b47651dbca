import TelegramDesktop.Data.StoriesStripShown

namespace TelegramDesktop.Data.StoriesStrip
open Base
open StoriesResolve (PeerId StoryId FullStoryId)

variable {peers : Peers} {s s' : Stories} {peer : PeerId} {id : FullStoryId}

def Stories.Listed (s : Stories) (peer : PeerId) : Prop :=
  ∃ list, ∃ info ∈ s.sources list, info.id = peer

/-- Without the story nothing is active, or the last date and the counts stay as they are. -/
def StoriesSource.Lasts (peers : Peers) (source : StoriesSource) (id : StoryId) : Prop :=
  ∀ rest, source.removed id = some rest → rest.ids = ∅ ∨ rest.info peers = source.info peers

def Stories.Keeps (s : Stories) (peers : Peers) (id : FullStoryId) : Prop :=
  s.Listed id.peer → ∀ source, s.all id.peer = some source → source.Lasts peers id.story

/-- The same where the id is active twice, with other dates. -/
def Stories.KeepsAll (s : Stories) (peers : Peers) (id : FullStoryId) : Prop :=
  s.Listed id.peer → ∀ source, s.all id.peer = some source →
    source.Lasts peers id.story ∧
      ∀ rest, source.removed id.story = some rest → rest.Lasts peers id.story

/-- The item is one of a story that is kept. -/
def StoryItem.kept (peers : Peers) (peer : PeerId) (now : TimeId) : StoryItem → Bool
  | .storyItem _ _ expires media isPinned =>
    !(!media || (expires ≤ now && !isPinned && !peers.hasArchive peer))
  | .storyItemSkipped _ _ expires => decide (¬ expires ≤ now) || peers.hasArchive peer
  | .storyItemDeleted _ => false

/-- A known story keeps its dates. -/
def Stories.datesOf (s : Stories) (peer : PeerId) : StoryItem → StoryIdDates
  | .storyItem id date expires _ _ =>
    ((s.stories ⟨peer, id⟩).map fun story => ⟨id, story.date, story.expires⟩).getD
      ⟨id, date, expires⟩
  | .storyItemSkipped id date expires => ⟨id, date, expires⟩
  | .storyItemDeleted _ => noDates

def Stories.StaysActive (s : Stories) (peers : Peers) (peer : PeerId) (now : TimeId)
    (story : StoryItem) : Prop :=
  story.kept peers peer now = true ∧ now < (s.datesOf peer story).expires

/-- Reading one's own new story does not change the counts. -/
def Stories.OwnRead (s : Stories) (peers : Peers) (idDates : StoryIdDates) : Prop :=
  s.Listed peers.self → ∀ source, s.all peers.self = some source → idDates ∉ source.ids →
    source.readTill < idDates.id →
      ({ source with ids := source.ids.insert idDates, readTill := idDates.id } :
          StoriesSource).info peers =
        ({ source with ids := source.ids.insert idDates } : StoriesSource).info peers

/-- The steps that bring the copies in the lists up to date. -/
def Stories.Follows (s : Stories) (peers : Peers) : Event → Prop
  | .updateStory peer story now =>
    (¬ s.StaysActive peers peer now story → s.KeepsAll peers ⟨peer, story.id⟩) ∧
      (s.StaysActive peers peer now story → peer = peers.self →
        s.OwnRead peers (s.datesOf peer story))
  | .updateReadStories peer maxId =>
    s.Listed peer → ∀ source, s.all peer = some source → source.readTill < maxId →
      source.unreadCount ≠ ({ source with readTill := maxId } : StoriesSource).unreadCount →
        ({ source with readTill := maxId } : StoriesSource).unreadCount ≤ kMaxSegmentsCount
  | .peerStories .. => True
  | .requestDone flags data _ =>
    ∀ peer ≠ data.peer, s.Listed peer →
      (s.setHidden flags).hasStoriesHidden peer = s.hasStoriesHidden peer
  | .requestFail _ => True
  | .applyDeleted id => s.Keeps peers id
  | .applyExpired id => s.Keeps peers id
  | .toggleHidden .. => True

theorem removed_peer {source rest : StoriesSource} {id : StoryId}
    (h : source.removed id = some rest) : rest.peer = source.peer := by
  unfold StoriesSource.removed at h
  obtain ⟨j, -, hj⟩ := Option.bind_eq_some_iff.mp h
  split_ifs at hj
  cases hj
  rfl

theorem local_applyRemovedFromActive (s : Stories) (id : FullStoryId) :
    Local peers id.peer s (s.applyRemovedFromActive id) := by
  unfold Stories.applyRemovedFromActive
  cases hremoved : (s.all id.peer).bind (·.removed id.story) with
  | none => exact .refl s
  | some rest =>
    obtain ⟨source, hsource, hrest⟩ := Option.bind_eq_some_iff.mp hremoved
    dsimp only
    split_ifs
    · have hnone : Local peers id.peer s (s.setAll id.peer none) := local_setAll fun _ => nofun
      exact hnone.trans (local_unlistBoth _ id.peer)
    · refine local_setAll fun hown found hfound => ?_
      cases hfound
      exact (removed_peer hrest).trans (hown source hsource)

theorem shown_applyRemovedFromActive (h : Shown peers s) (hkeeps : s.Keeps peers id) :
    Shown peers (s.applyRemovedFromActive id) := by
  have hlocal : Local peers id.peer s (s.applyRemovedFromActive id) :=
    local_applyRemovedFromActive s id
  refine ((h.off id.peer).of_local hlocal).shown ?_
  unfold Stories.applyRemovedFromActive
  cases hremoved : (s.all id.peer).bind (·.removed id.story) with
  | none => exact fun list info hinfo _ => h.right list info hinfo
  | some rest =>
    obtain ⟨source, hsource, hrest⟩ := Option.bind_eq_some_iff.mp hremoved
    dsimp only
    split_ifs with hempty
    · intro list info hinfo hid
      have hunlisted := sources_unlistBoth (s.setAll id.peer none) id.peer list
      exact absurd hid (mem_unlist (h.tidy list).ids (hunlisted ▸ hinfo)).2
    · intro list info hinfo hid
      obtain ⟨hlist, found, hfound, heq⟩ := h.right list info hinfo
      refine ⟨hlist, rest, ?_, ?_⟩
      · rw [hid]
        exact all_setAll s id.peer (some rest)
      · rw [hid, hsource] at hfound
        cases hfound
        have hlasts := hkeeps ⟨list, info, hinfo, hid⟩ source hsource rest hrest
        refine heq.trans (hlasts.resolve_left fun hnone => hempty ?_).symm
        exact FlatSet.isEmpty_iff.mpr hnone

theorem same_setStory (s : Stories) (id : FullStoryId) (story : Option Story) :
    SameStrip s (s.setStory id story) := ⟨rfl, rfl, rfl⟩

theorem SameStrip.refl (s : Stories) : SameStrip s s := ⟨rfl, rfl, rfl⟩

theorem SameStrip.trans {s'' : Stories} (h : SameStrip s s') (h' : SameStrip s' s'') :
    SameStrip s s'' :=
  ⟨h'.all.trans h.all, h'.hidden.trans h.hidden, h'.sources.trans h.sources⟩

theorem same_applyExpired (s : Stories) (peers : Peers) (id : FullStoryId) :
    SameStrip (s.applyRemovedFromActive id) (s.applyExpired peers id) := by
  unfold Stories.applyExpired
  cases s.stories id with
  | none => exact .refl _
  | some story =>
    dsimp only
    split_ifs
    · exact same_setStory _ id none
    · exact .refl _

theorem SameStrip.removed (h : SameStrip s s') (id : FullStoryId) :
    SameStrip (s.applyRemovedFromActive id) (s'.applyRemovedFromActive id) := by
  obtain ⟨hall, hhidden, hsources⟩ := h
  unfold Stories.applyRemovedFromActive
  rw [hall]
  cases (s.all id.peer).bind (·.removed id.story) with
  | none => exact ⟨hall, hhidden, hsources⟩
  | some rest =>
    dsimp only
    split_ifs
    · refine ⟨?_, hhidden, ?_⟩
      · change Function.update s'.all _ _ = Function.update s.all _ _
        rw [hall]
      · funext list
        have hleft := sources_unlistBoth (s'.setAll id.peer none) id.peer list
        have hright := sources_unlistBoth (s.setAll id.peer none) id.peer list
        refine hleft.trans (Eq.trans ?_ hright.symm)
        change unlist (s'.sources list) _ = unlist (s.sources list) _
        rw [hsources]
    · refine ⟨?_, hhidden, hsources⟩
      change Function.update s'.all _ _ = Function.update s.all _ _
      rw [hall]

/-- A story that is not kept is removed; of the kept ones only those that expired may be. -/
theorem parse_cases (s : Stories) (peers : Peers) (peer : PeerId) (now : TimeId)
    (story : StoryItem) :
    (story.kept peers peer now = false ∧ (s.parse peers peer now story).2 = noDates ∧
        SameStrip (s.applyRemovedFromActive ⟨peer, story.id⟩) (s.parse peers peer now story).1) ∨
      (story.kept peers peer now = true ∧
        (s.parse peers peer now story).2 = s.datesOf peer story ∧
        (SameStrip s (s.parse peers peer now story).1 ∨
          ((s.datesOf peer story).expires ≤ now ∧
            SameStrip (s.applyRemovedFromActive ⟨peer, story.id⟩)
              (s.parse peers peer now story).1))) := by
  cases story with
  | storyItem id date expires media isPinned =>
    unfold Stories.parse StoryItem.kept
    dsimp only
    split_ifs with hkept
    · exact .inl ⟨by rw [hkept]; rfl, rfl, same_setStory _ _ none⟩
    · refine .inr ⟨(Bool.not_eq_true' _).mpr (Bool.eq_false_of_not_eq_true hkept), ?_⟩
      unfold Stories.parseStory Stories.datesOf
      dsimp only
      cases hstory : s.stories ⟨peer, id⟩ with
      | some story => exact ⟨rfl, .inl (same_setStory _ _ _)⟩
      | none =>
        refine ⟨rfl, ?_⟩
        dsimp only [Option.map_none, Option.getD_none]
        split_ifs with hexpired
        · refine .inr ⟨hexpired, ?_⟩
          exact ((same_setStory s ⟨peer, id⟩ _).removed _).trans (same_applyExpired _ peers _)
        · exact .inl (same_setStory _ _ _)
  | storyItemSkipped id date expires =>
    unfold Stories.parse StoryItem.kept
    dsimp only
    by_cases hexpired : expires ≤ now
    · rw [if_neg (not_not.mpr hexpired), decide_eq_false (not_not.mpr hexpired), Bool.false_or]
      cases harchive : peers.hasArchive peer with
      | false => exact .inl ⟨rfl, rfl, same_setStory _ _ none⟩
      | true => exact .inr ⟨rfl, rfl, .inr ⟨hexpired, same_applyExpired s peers _⟩⟩
    · rw [if_pos hexpired, decide_eq_true hexpired]
      exact .inr ⟨rfl, rfl, .inl (.refl s)⟩
  | storyItemDeleted id => exact .inl ⟨rfl, rfl, same_setStory _ _ none⟩

theorem local_parse (s : Stories) (peers : Peers) (peer : PeerId) (now : TimeId)
    (story : StoryItem) : Local peers peer s (s.parse peers peer now story).1 := by
  have hremoved : Local peers peer s (s.applyRemovedFromActive ⟨peer, story.id⟩) :=
    local_applyRemovedFromActive s ⟨peer, story.id⟩
  rcases parse_cases s peers peer now story with ⟨-, -, hsame⟩ | ⟨-, -, hsame | ⟨-, hsame⟩⟩
  · exact hremoved.trans (hsame.isLocal peers peer)
  · exact hsame.isLocal peers peer
  · exact hremoved.trans (hsame.isLocal peers peer)

theorem id_datesOf {story : StoryItem} {now : TimeId} (h : story.kept peers peer now = true) :
    (s.datesOf peer story).id = story.id := by
  cases story with
  | storyItem id date expires media isPinned =>
    unfold Stories.datesOf
    dsimp only
    cases s.stories ⟨peer, id⟩ with
    | none => rfl
    | some story => rfl
  | storyItemSkipped id date expires => rfl
  | storyItemDeleted id => exact absurd h Bool.false_ne_true

/-- The active stories after the new one, which one's own are read up to. -/
def StoriesSource.withNew (source : StoriesSource) (peers : Peers) (peer : PeerId)
    (idDates : StoryIdDates) : StoriesSource :=
  if peer = peers.self && source.readTill < idDates.id then
    { source with ids := source.ids.insert idDates, readTill := idDates.id }
  else { source with ids := source.ids.insert idDates }

theorem same_addActive (s : Stories) (peers : Peers) (peer : PeerId) (source : StoriesSource)
    (idDates : StoryIdDates) :
    SameStrip
      (if source.info peers = ({ source with ids := source.ids.insert idDates } :
          StoriesSource).info peers then
        s.setAll peer (some (source.withNew peers peer idDates))
      else
        (s.setAll peer (some (source.withNew peers peer idDates))).setSources
          (listOf (s.hasStoriesHidden peer))
          (refresh peers peer (fun _ => ({ source with ids := source.ids.insert idDates } :
            StoriesSource).info peers) (s.sources (listOf (s.hasStoriesHidden peer)))))
      (s.addActive peers peer source idDates) := by
  unfold Stories.addActive StoriesSource.withNew
  dsimp only
  split_ifs
  all_goals exact ⟨rfl, rfl, rfl⟩

theorem shown_addActive {source : StoriesSource} {idDates : StoryIdDates} (h : Shown peers s)
    (hsource : s.all peer = some source)
    (hread : s.Listed peer → (source.withNew peers peer idDates).info peers =
      ({ source with ids := source.ids.insert idDates } : StoriesSource).info peers) :
    Shown peers (s.addActive peers peer source idDates) := by
  refine Shown.congr ?_ (same_addActive s peers peer source idDates)
  have hpeer := h.own peer source hsource
  have hnew : (source.withNew peers peer idDates).peer = peer := by
    unfold StoriesSource.withNew
    split_ifs
    all_goals exact hpeer
  have hall : Local peers peer s
      (s.setAll peer (some (source.withNew peers peer idDates))) := by
    refine local_setAll fun _ found hfound => ?_
    cases hfound
    exact hnew
  split_ifs with hsame
  · refine ((h.off peer).of_local hall).shown fun list info hinfo hid => ?_
    obtain ⟨hlist, found, hfound, heq⟩ := h.right list info hinfo
    refine ⟨hlist, source.withNew peers peer idDates, ?_, ?_⟩
    · rw [hid]
      exact all_setAll s peer _
    · rw [hid, hsource] at hfound
      cases hfound
      exact heq.trans (hsame.trans (hread ⟨list, info, hinfo, hid⟩).symm)
  · have hlist : Local peers peer (s.setAll peer (some (source.withNew peers peer idDates)))
        ((s.setAll peer (some (source.withNew peers peer idDates))).setSources
          (listOf (s.hasStoriesHidden peer)) (refresh peers peer
            (fun _ => ({ source with ids := source.ids.insert idDates } :
              StoriesSource).info peers) (s.sources (listOf (s.hasStoriesHidden peer))))) := by
      apply local_setSources
      · exact fun htidy => tidy_refresh htidy fun _ _ => hpeer
      · intro htidy info hinfo hid
        rcases mem_refresh htidy hinfo with ⟨hold, -⟩ | ⟨_, _, _, rfl⟩
        · exact hold
        · exact absurd hpeer hid
    refine ((h.off peer).of_local (hall.trans hlist)).shown fun list info hinfo hid => ?_
    by_cases hindex : list = listOf (s.hasStoriesHidden peer)
    · subst hindex
      rw [sources_setSources] at hinfo
      rcases mem_refresh (h.tidy _) hinfo with ⟨_, hne⟩ | ⟨old, hold, holdId, rfl⟩
      · exact absurd hid hne
      · refine ⟨by rw [hid]; rfl, _, ?_, (hread ⟨_, old, hold, holdId⟩).symm⟩
        rw [hid]
        exact all_setAll s peer _
    · rw [sources_setSources_of_ne hindex] at hinfo
      refine absurd ?_ hindex
      exact hid ▸ (h.right list info hinfo).1

theorem Stories.Listed.congr (h : SameStrip s s') (hlisted : s'.Listed peer) : s.Listed peer := by
  obtain ⟨list, info, hinfo, hid⟩ := hlisted
  exact ⟨list, info, h.sources ▸ hinfo, hid⟩

theorem Stories.Keeps.congr (h : SameStrip s s') (hkeeps : s.Keeps peers id) :
    s'.Keeps peers id :=
  fun hlisted source hsource => hkeeps (hlisted.congr h) source (h.all ▸ hsource)

/-- The second of two entries with one id. -/
theorem keeps_again (hkeeps : s.KeepsAll peers id) :
    (s.applyRemovedFromActive id).Keeps peers id := by
  unfold Stories.applyRemovedFromActive
  cases hremoved : (s.all id.peer).bind (·.removed id.story) with
  | none => exact fun hlisted source hsource => (hkeeps hlisted source hsource).1
  | some rest =>
    obtain ⟨source, hsource, hrest⟩ := Option.bind_eq_some_iff.mp hremoved
    dsimp only
    split_ifs
    · intro _ found hfound
      have hnone : (s.setAll id.peer none).all id.peer = none := all_setAll s id.peer none
      exact nomatch hnone.symm.trans hfound
    · intro hlisted found hfound
      cases (all_setAll s id.peer (some rest)).symm.trans hfound
      exact (hkeeps hlisted source hsource).2 rest hrest

theorem shown_applyUpdateStory {story : StoryItem} {now : TimeId} (h : Shown peers s)
    (hgone : ¬ s.StaysActive peers peer now story → s.KeepsAll peers ⟨peer, story.id⟩)
    (hread : s.StaysActive peers peer now story → peer = peers.self →
      s.OwnRead peers (s.datesOf peer story)) :
    Shown peers (s.applyUpdateStory peers peer story now) := by
  have hremoved (hkeeps : s.KeepsAll peers ⟨peer, story.id⟩) :
      Shown peers (s.applyRemovedFromActive ⟨peer, story.id⟩) :=
    shown_applyRemovedFromActive h fun hlisted source hsource => (hkeeps hlisted source hsource).1
  unfold Stories.applyUpdateStory
  rcases parse_cases s peers peer now story with
    ⟨hkept, hdates, hsame⟩ | ⟨hkept, hdates, hcases⟩
  · have hkeeps := hgone fun hstays =>
      absurd (hkept.symm.trans hstays.1) Bool.false_ne_true
    dsimp only
    rw [hdates, if_pos (show noDates.id = 0 from rfl)]
    exact (hremoved hkeeps).congr hsame
  · have hid : (s.datesOf peer story).id = story.id := id_datesOf hkept
    dsimp only
    rw [hdates]
    by_cases hexpired : (s.datesOf peer story).expires ≤ now
    · have hkeeps := hgone fun hstays => absurd hstays.2 (not_lt.mpr hexpired)
      have hfirst : Shown peers (s.parse peers peer now story).1 := by
        rcases hcases with hsame | ⟨-, hsame⟩
        · exact h.congr hsame
        · exact (hremoved hkeeps).congr hsame
      have hsecond : (s.parse peers peer now story).1.Keeps peers ⟨peer, story.id⟩ := by
        rcases hcases with hsame | ⟨-, hsame⟩
        · exact Stories.Keeps.congr hsame fun hlisted source hsource =>
            (hkeeps hlisted source hsource).1
        · exact (keeps_again hkeeps).congr hsame
      rw [if_pos hexpired, hid]
      split_ifs
      · exact hfirst
      · exact (shown_applyRemovedFromActive hfirst hsecond).congr (same_applyExpired _ peers _)
    · have hsame : SameStrip s (s.parse peers peer now story).1 :=
        hcases.resolve_right fun hexpires => hexpired hexpires.1
      have hfirst := h.congr hsame
      rw [if_neg hexpired]
      split_ifs with hzero
      · exact hfirst
      · cases hsource : (s.parse peers peer now story).1.all peer with
        | none => exact hfirst
        | some source =>
          dsimp only
          split_ifs with hold
          · exact hfirst
          · refine shown_addActive hfirst hsource fun hlisted => ?_
            unfold StoriesSource.withNew
            split_ifs with hown
            · obtain ⟨hself, hless⟩ := Bool.and_eq_true_iff.mp hown
              have hpeer := of_decide_eq_true hself
              subst hpeer
              exact hread ⟨hkept, not_le.mp hexpired⟩ rfl (hlisted.congr hsame) source
                (hsame.all ▸ hsource) hold (of_decide_eq_true hless)
            · rfl

theorem info_read (source : StoriesSource) (maxId : StoryId) :
    ({ source with readTill := maxId } : StoriesSource).info peers =
      { source.info peers with
        unreadCount := min ({ source with readTill := maxId } : StoriesSource).unreadCount
          kMaxSegmentsCount } := rfl

theorem local_refreshBoth (s : Stories) (peer : PeerId) (count : ℕ) :
    Local peers peer s { s with
      sources := fun list => refresh peers peer (setUnread count) (s.sources list) } where
  all := fun _ _ => rfl
  hidden := fun _ _ => rfl
  own := fun h => h
  tidy := fun _ htidy => tidy_refresh htidy fun _ h => h
  others := by
    intro list htidy info hinfo hid
    rcases mem_refresh htidy hinfo with ⟨hold, -⟩ | ⟨old, -, hold, rfl⟩
    · exact hold
    · exact absurd hold hid

theorem shown_bumpReadTill {maxId : StoryId} (h : Shown peers s)
    (hread : s.Listed peer → ∀ source, s.all peer = some source → source.readTill < maxId →
      source.unreadCount ≠ ({ source with readTill := maxId } : StoriesSource).unreadCount →
        ({ source with readTill := maxId } : StoriesSource).unreadCount ≤ kMaxSegmentsCount) :
    Shown peers (s.bumpReadTill peers peer maxId) := by
  unfold Stories.bumpReadTill
  dsimp only
  have hsame : SameStrip s { s with
      readTill := Function.update s.readTill peer (max (s.readTill peer) maxId) } :=
    ⟨rfl, rfl, rfl⟩
  have hbumped := h.congr hsame
  cases hsource : s.all peer with
  | none => exact hbumped
  | some source =>
    have hall : Local peers peer { s with
        readTill := Function.update s.readTill peer (max (s.readTill peer) maxId) }
        (Stories.setAll { s with
          readTill := Function.update s.readTill peer (max (s.readTill peer) maxId) } peer
          (some { source with readTill := maxId })) := by
      refine local_setAll fun hown found hfound => ?_
      cases hfound
      exact hown source hsource
    dsimp only
    split_ifs with htill hcount
    · exact hbumped
    · refine ((hbumped.off peer).of_local hall).shown fun list info hinfo hid => ?_
      obtain ⟨hlist, found, hfound, heq⟩ := h.right list info hinfo
      refine ⟨hlist, { source with readTill := maxId }, ?_, ?_⟩
      · rw [hid]
        exact all_setAll _ peer _
      · rw [hid, hsource] at hfound
        cases hfound
        rw [info_read, ← hcount]
        exact heq
    · have hlocal := hall.trans (local_refreshBoth _ peer
        ({ source with readTill := maxId } : StoriesSource).unreadCount)
      refine ((hbumped.off peer).of_local hlocal).shown fun list info hinfo hid => ?_
      rcases mem_refresh (h.tidy list) hinfo with ⟨-, hne⟩ | ⟨old, hold, holdId, rfl⟩
      · exact absurd hid hne
      · obtain ⟨hlist, found, hfound, heq⟩ := h.right list old hold
        rw [holdId, hsource] at hfound
        cases hfound
        refine ⟨?_, { source with readTill := maxId }, ?_, ?_⟩
        · exact hlist
        · rw [hid]
          exact all_setAll _ peer _
        · have hcap := hread ⟨list, old, hold, holdId⟩ source hsource (not_le.mp htill)
            hcount
          have hbits : ({ source with readTill := maxId } : StoriesSource).unreadCount < 2 ^ 15 :=
            hcap.trans_lt (by decide)
          rw [info_read, min_eq_left hcap, heq, setUnread, Nat.mod_eq_of_lt hbits]

theorem local_parseAll (s : Stories) (peers : Peers) (peer : PeerId) (now : TimeId)
    (stories : List StoryItem) : Local peers peer s (s.parseAll peers peer now stories).1 := by
  refine List.foldlRecOn
    (motive := fun parsed : Stories × FlatSet StoryIdDates => Local peers peer s parsed.1)
    stories _ (.refl s) ?_
  intro parsed hparsed story _
  exact hparsed.trans (local_parse parsed.1 peers peer now story)

theorem other_ne (list : StorySourcesList) : list ≠ other list := by
  cases list
  all_goals exact nofun

theorem eq_or_other (list index : StorySourcesList) : index = list ∨ index = other list := by
  cases list
  all_goals cases index
  · exact .inl rfl
  · exact .inr rfl
  · exact .inr rfl
  · exact .inl rfl

theorem shown_addPeer {source : StoriesSource} (h : ShownOff peers source.peer s)
    (hsource : s.all source.peer = some source) : Shown peers (s.addPeer peers source) := by
  unfold Stories.addPeer
  split_ifs with hstrip
  · have hadd : Local peers source.peer s (s.setSources (listOf (s.hasStoriesHidden source.peer))
        (addToList peers (source.info peers)
          (s.sources (listOf (s.hasStoriesHidden source.peer))))) := by
      refine local_setSources _ (fun htidy => tidy_addToList htidy _) ?_
      intro htidy info hinfo hid
      rcases mem_addToList htidy hinfo with ⟨hold, -⟩ | rfl
      · exact hold
      · exact absurd rfl hid
    have hdeleted := hadd.trans (local_applyDeletedFromSources _ source.peer
      (other (listOf (s.hasStoriesHidden source.peer))))
    refine (h.of_local hdeleted).shown fun list info hinfo hid => ?_
    rcases eq_or_other (listOf (s.hasStoriesHidden source.peer)) list with rfl | rfl
    · unfold Stories.applyDeletedFromSources at hinfo
      rw [sources_setSources_of_ne (other_ne _), sources_setSources] at hinfo
      rcases mem_addToList (h.tidy _) hinfo with ⟨-, hne⟩ | rfl
      · exact absurd hid hne
      · exact ⟨rfl, source, hsource, rfl⟩
    · unfold Stories.applyDeletedFromSources at hinfo
      rw [sources_setSources] at hinfo
      exact absurd hid (mem_unlist (hadd.tidy _ (h.tidy _)).ids hinfo).2
  · exact h.unlistBoth

theorem local_setReadTill (s : Stories) (readTill : PeerId → StoryId) :
    Local peers peer s { s with readTill := readTill } :=
  ⟨fun _ _ => rfl, fun _ _ => rfl, fun h => h, fun _ h => h, fun _ _ _ h _ => h⟩

theorem shown_applyPeerStories {data : PeerStories} {now : TimeId}
    (h : ShownOff peers data.peer s) : Shown peers (s.applyPeerStories peers data now) := by
  have hparsed := h.of_local (local_parseAll s peers data.peer now data.stories)
  unfold Stories.applyPeerStories
  dsimp only
  cases (s.parseAll peers data.peer now data.stories).2.elems.getLast? with
  | none => exact hparsed.unlistBoth
  | some back =>
    refine shown_addPeer (hparsed.of_local ((local_setReadTill _ _).trans
      (local_setAll fun _ found hfound => ?_))) (all_setAll _ _ _)
    cases hfound
    rfl

/-- An answer may say of other peers, too, that they are hidden. -/
theorem off_setHidden {flags : List (PeerId × Bool)} (h : Shown peers s)
    (hflags : ∀ id ≠ peer, s.Listed id →
      (s.setHidden flags).hasStoriesHidden id = s.hasStoriesHidden id) :
    ShownOff peers peer (s.setHidden flags) := by
  refine ⟨h.tidy, h.own, fun list info hinfo hid => ?_⟩
  obtain ⟨hlist, hentry⟩ := h.right list info hinfo
  refine ⟨?_, hentry⟩
  rw [hflags info.id hid ⟨list, info, hinfo, rfl⟩]
  exact hlist

theorem shown_absent (h : Shown peers s) (peer : PeerId) :
    Shown peers ((s.unlistBoth peer).setAll peer none) := by
  have hnone : Local peers peer (s.unlistBoth peer) ((s.unlistBoth peer).setAll peer none) :=
    local_setAll fun _ => nofun
  refine (((h.off peer).unlistBoth.off peer).of_local hnone).shown fun list info hinfo hid => ?_
  have hunlisted : info ∈ unlist (s.sources list) peer := sources_unlistBoth s peer list ▸ hinfo
  exact absurd hid (mem_unlist (h.tidy list).ids hunlisted).2

theorem listOf_not (hidden : Bool) : listOf (!hidden) = other (listOf hidden) := by
  cases hidden
  all_goals rfl

theorem shown_toggleHidden {hidden : Bool} {now : TimeId} (h : Shown peers s) :
    Shown peers (s.toggleHidden peers peer hidden now) := by
  unfold Stories.toggleHidden
  split_ifs
  · exact shown_absent h peer
  · have hhidden (id : PeerId) (hid : id ≠ peer) :
        (s.setHidden [(peer, hidden)]).hasStoriesHidden id = s.hasStoriesHidden id :=
      Function.update_of_ne hid _ _
    have hset : (s.setHidden [(peer, hidden)]).hasStoriesHidden peer = hidden :=
      Function.update_self ..
    have hoff := off_setHidden h fun id hid _ => hhidden id hid
    dsimp only
    cases hsource : (s.setHidden [(peer, hidden)]).all peer with
    | none =>
      refine hoff.shown fun list info hinfo hid => ?_
      obtain ⟨-, found, hfound, -⟩ := h.right list info hinfo
      rw [hid] at hfound
      exact nomatch hfound.symm.trans hsource
    | some source =>
      have hpeer : source.peer = peer := h.own peer source hsource
      have hall : Local peers peer (s.setHidden [(peer, hidden)])
          ((s.setHidden [(peer, hidden)]).setAll peer (some { source with hidden := hidden })) := by
        refine local_setAll fun _ found hfound => ?_
        cases hfound
        exact hpeer
      have hgone := hall.trans (local_applyDeletedFromSources _ peer (listOf !hidden))
      have htidy := hgone.tidy (listOf hidden) (h.tidy _)
      have hput := hgone.trans (local_setSources (listOf hidden)
        (fun htidy =>
          tidy_put htidy (({ source with hidden := hidden } : StoriesSource).info peers))
        fun htidy info hinfo hid => by
          rcases mem_put htidy (mem_sort.mp hinfo) with ⟨hold, -⟩ | rfl
          · exact hold
          · exact absurd hpeer hid)
      refine (hoff.of_local hput).shown fun list info hinfo hid => ?_
      rcases eq_or_other (listOf hidden) list with rfl | rfl
      · rw [sources_setSources] at hinfo
        rcases mem_put htidy (mem_sort.mp hinfo) with ⟨-, hne⟩ | rfl
        · exact absurd (hid.trans hpeer.symm) hne
        · refine ⟨?_, { source with hidden := hidden }, ?_, rfl⟩
          · rw [hid]
            exact congrArg listOf hset.symm
          · rw [hid]
            exact all_setAll _ peer _
      · rw [sources_setSources_of_ne (other_ne _).symm] at hinfo
        unfold Stories.applyDeletedFromSources at hinfo
        rw [listOf_not, sources_setSources] at hinfo
        exact absurd hid (mem_unlist (h.tidy _).ids hinfo).2

theorem shown_start (hidden : PeerId → Bool) : Shown peers (.start hidden) where
  tidy := fun _ => ⟨.nil, List.nodup_nil⟩
  own := nofun
  right := nofun

theorem shown_step {event : Event} (h : Shown peers s) (hfollows : s.Follows peers event) :
    Shown peers (s.step peers event) := by
  cases event with
  | updateStory peer story now => exact shown_applyUpdateStory h hfollows.1 hfollows.2
  | updateReadStories peer maxId => exact shown_bumpReadTill h hfollows
  | peerStories peer data now =>
    cases data with
    | none => exact shown_absent h peer
    | some data => exact shown_applyPeerStories (h.off data.peer)
  | requestDone flags data now => exact shown_applyPeerStories (off_setHidden h hfollows)
  | requestFail peer => exact (h.off peer).unlistBoth
  | applyDeleted id =>
    exact (shown_applyRemovedFromActive h hfollows).congr (same_setStory _ id none)
  | applyExpired id =>
    exact (shown_applyRemovedFromActive h hfollows).congr (same_applyExpired s peers id)
  | toggleHidden peer hidden now => exact shown_toggleHidden h

/-- Runs of steps that the lists are brought up to date by. -/
inductive Followed (peers : Peers) : Stories → Prop
  | start (hidden : PeerId → Bool) : Followed peers (.start hidden)
  | step {s : Stories} (before : Followed peers s) (event : Event)
      (follows : s.Follows peers event) : Followed peers (s.step peers event)

theorem shown_of_followed (h : Followed peers s) : Shown peers s := by
  induction h with
  | start hidden => exact shown_start hidden
  | step _ event follows ih => exact shown_step ih follows

/-- A peer is in one list once, as its active stories are, and both lists are in order. -/
structure Stories.Shows (s : Stories) (peers : Peers) : Prop where
  once : ((s.sources .NotHidden ++ s.sources .Hidden).map StoriesSourceInfo.id).Nodup
  entry : ∀ list, ∀ info ∈ s.sources list,
    ∃ source, s.all info.id = some source ∧ info = source.info peers
  hidden : ∀ list, ∀ info ∈ s.sources list,
    (list = .Hidden ↔ s.hasStoriesHidden info.id = true)
  sorted : ∀ list, (s.sources list).Pairwise fun a b => sortKey peers b < sortKey peers a

theorem listOf_eq_hidden (hidden : Bool) : listOf hidden = .Hidden ↔ hidden = true := by
  cases hidden
  · exact ⟨nofun, nofun⟩
  · exact ⟨fun _ => rfl, fun _ => rfl⟩

theorem Shown.shows (h : Shown peers s) : s.Shows peers where
  once := by
    rw [List.map_append]
    refine (h.tidy _).ids.append (h.tidy _).ids fun id hmain hhidden => ?_
    obtain ⟨a, ha, rfl⟩ := List.mem_map.mp hmain
    obtain ⟨b, hb, hid⟩ := List.mem_map.mp hhidden
    have hlist := (h.right _ b hb).1.trans (congrArg (listOf ∘ s.hasStoriesHidden) hid)
    exact nomatch (h.right _ a ha).1.trans hlist.symm
  entry := fun list info hinfo => (h.right list info hinfo).2
  hidden := by
    intro list info hinfo
    rw [(h.right list info hinfo).1]
    exact listOf_eq_hidden _
  sorted := fun list => (h.tidy list).sorted

theorem strip_shows (h : Followed peers s) : s.Shows peers := (shown_of_followed h).shows

def contactPeers : Peers where
  self := 1
  isUser := fun _ => true
  isPremium := fun _ => false
  isBot := fun _ => false
  isContact := fun peer => peer = 5 ∨ peer = 6
  isServiceUser := fun _ => false
  isChannel := fun _ => false
  amIn := fun _ => false
  hasArchive := fun peer => peer = 1

def twoStories : PeerStories :=
  ⟨5, 0, [.storyItem 1 10 1000 true false, .storyItem 2 20 1000 true false]⟩

def withTwoStories : Stories :=
  (Stories.start fun _ => false).step contactPeers (.peerStories 5 (some twoStories) 100)

/-- Another peer comes after them, and the stories of the first one are read. -/
def withOneMore : Stories :=
  withTwoStories.step contactPeers
    (.peerStories 6 (some ⟨6, 0, [.storyItem 4 30 1000 true false]⟩) 100)

theorem strip_shows_twoStories :
    ((withOneMore.step contactPeers (.updateReadStories 5 2)).sources .NotHidden).map
        StoriesSourceInfo.id = [6, 5] ∧
      (withOneMore.step contactPeers (.updateReadStories 5 2)).Shows contactPeers := by
  refine ⟨by decide, strip_shows (.step (.step (.step (.start _)
    (.peerStories 5 (some twoStories) 100) trivial) (.peerStories 6 _ 100) trivial)
    (.updateReadStories 5 2) ?_)⟩
  intro _ source hsource _ _
  have hall : (withOneMore.all 5).map (fun source =>
      ({ source with readTill := 2 } : StoriesSource).unreadCount) = some 0 := by decide
  have hcount := congrArg (Option.map fun source : StoriesSource =>
    ({ source with readTill := 2 } : StoriesSource).unreadCount) hsource
  have hzero : ({ source with readTill := 2 } : StoriesSource).unreadCount = 0 :=
    Option.some.inj (hcount.symm.trans hall)
  rw [hzero]
  exact Nat.zero_le _

/-- The second story is deleted, and its date is still shown. -/
theorem not_shows_deleted :
    ¬ (withTwoStories.step contactPeers (.updateStory 5 (.storyItemDeleted 2) 100)).Shows
      contactPeers := by
  intro h
  have hlisted : (⟨5, 20, 2, 2, false⟩ : StoriesSourceInfo) ∈
      (withTwoStories.step contactPeers (.updateStory 5 (.storyItemDeleted 2) 100)).sources
        .NotHidden := by decide
  obtain ⟨source, hsource, heq⟩ := h.entry _ _ hlisted
  have hinfo : ((withTwoStories.step contactPeers (.updateStory 5 (.storyItemDeleted 2)
      100)).all 5).map (StoriesSource.info contactPeers) = some ⟨5, 10, 1, 1, false⟩ := by decide
  rw [hsource, Option.map_some, ← heq] at hinfo
  exact absurd (Option.some.inj hinfo) (by decide)

end TelegramDesktop.Data.StoriesStrip
