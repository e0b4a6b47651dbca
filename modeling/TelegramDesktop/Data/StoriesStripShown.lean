import TelegramDesktop.Data.StoriesStrip

namespace TelegramDesktop.Data.StoriesStrip
open Base
open StoriesResolve (PeerId StoryId FullStoryId)

variable {peers : Peers} {sources : List StoriesSourceInfo} {peer : PeerId}
  {info : StoriesSourceInfo} {f : StoriesSourceInfo → StoriesSourceInfo}

structure Tidy (peers : Peers) (sources : List StoriesSourceInfo) : Prop where
  sorted : sources.Pairwise fun a b => sortKey peers b < sortKey peers a
  ids : (sources.map StoriesSourceInfo.id).Nodup

theorem Tidy.sublist {rest : List StoriesSourceInfo} (h : Tidy peers sources)
    (hrest : rest.Sublist sources) : Tidy peers rest :=
  ⟨h.sorted.sublist hrest, h.ids.sublist (hrest.map _)⟩

theorem Tidy.eq_of_id (h : Tidy peers sources) {a b : StoriesSourceInfo} (ha : a ∈ sources)
    (hb : b ∈ sources) (hab : a.id = b.id) : a = b :=
  List.inj_on_of_nodup_map h.ids ha hb hab

theorem mem_sort {a : StoriesSourceInfo} : a ∈ sort peers sources ↔ a ∈ sources :=
  (List.perm_insertionSort _ _).mem_iff

/-- Entries of different peers have different keys. -/
theorem tidy_sort (h : (sources.map StoriesSourceInfo.id).Nodup) :
    Tidy peers (sort peers sources) := by
  have hids : ((sort peers sources).map StoriesSourceInfo.id).Nodup :=
    ((List.perm_insertionSort _ _).map _).nodup_iff.mpr h
  refine ⟨?_, hids⟩
  have hsorted : (sort peers sources).Pairwise fun a b => sortKey peers b ≤ sortKey peers a :=
    List.pairwise_insertionSort _ _
  refine (hsorted.and (List.pairwise_map.mp hids)).imp fun {a b} hab => ?_
  refine lt_of_le_of_ne hab.1 fun heq => hab.2 ?_
  exact (congrArg (fun key => (ofLex key).2) heq).symm

theorem ids_change (hf : ∀ a, a.id = peer → (f a).id = peer) :
    (change peer f sources).map StoriesSourceInfo.id = sources.map StoriesSourceInfo.id := by
  induction sources with
  | nil => rfl
  | cons a rest ih =>
    unfold change
    split_ifs with ha
    · rw [List.map_cons, List.map_cons, hf a ha, ha]
    · rw [List.map_cons, List.map_cons, ih]

theorem mem_change {a : StoriesSourceInfo} (hids : (sources.map StoriesSourceInfo.id).Nodup)
    (ha : a ∈ change peer f sources) :
    (a ∈ sources ∧ a.id ≠ peer) ∨ ∃ old ∈ sources, old.id = peer ∧ a = f old := by
  induction sources with
  | nil => exact absurd ha List.not_mem_nil
  | cons b rest ih =>
    rw [List.map_cons, List.nodup_cons] at hids
    unfold change at ha
    split_ifs at ha with hb
    · rcases List.mem_cons.mp ha with rfl | ha
      · exact .inr ⟨b, List.mem_cons_self, hb, rfl⟩
      · refine .inl ⟨List.mem_cons_of_mem _ ha, fun hpeer => hids.1 ?_⟩
        exact hb.trans hpeer.symm ▸ List.mem_map_of_mem ha
    · rcases List.mem_cons.mp ha with rfl | ha
      · exact .inl ⟨List.mem_cons_self, hb⟩
      · rcases ih hids.2 ha with ⟨hrest, hne⟩ | ⟨old, hold, hpeer, rfl⟩
        · exact .inl ⟨List.mem_cons_of_mem _ hrest, hne⟩
        · exact .inr ⟨old, List.mem_cons_of_mem _ hold, hpeer, rfl⟩

theorem mem_unlist {a : StoriesSourceInfo} (hids : (sources.map StoriesSourceInfo.id).Nodup)
    (ha : a ∈ unlist sources peer) : a ∈ sources ∧ a.id ≠ peer := by
  refine ⟨List.mem_of_mem_eraseP ha, ?_⟩
  induction sources with
  | nil => exact absurd ha List.not_mem_nil
  | cons b rest ih =>
    rw [List.map_cons, List.nodup_cons] at hids
    unfold unlist at ha
    rw [List.eraseP_cons] at ha
    by_cases hb : b.id = peer
    · rw [decide_eq_true hb, cond_true] at ha
      exact fun hpeer => hids.1 (hb.trans hpeer.symm ▸ List.mem_map_of_mem ha)
    · rw [decide_eq_false hb, cond_false] at ha
      rcases List.mem_cons.mp ha with rfl | ha
      · exact hb
      · exact ih hids.2 ha

theorem Tidy.unlist (h : Tidy peers sources) (peer : PeerId) : Tidy peers (unlist sources peer) :=
  h.sublist List.eraseP_sublist

theorem isListed_iff : isListed sources peer = true ↔ ∃ a ∈ sources, a.id = peer := by
  unfold isListed
  rw [List.any_eq_true]
  exact exists_congr fun a => and_congr_right fun _ => decide_eq_true_iff

theorem tidy_refresh (h : Tidy peers sources) (hf : ∀ a, a.id = peer → (f a).id = peer) :
    Tidy peers (refresh peers peer f sources) := by
  unfold refresh
  split_ifs
  · apply tidy_sort
    rw [ids_change hf]
    exact h.ids
  · exact h

theorem mem_refresh {a : StoriesSourceInfo} (h : Tidy peers sources)
    (ha : a ∈ refresh peers peer f sources) :
    (a ∈ sources ∧ a.id ≠ peer) ∨ ∃ old ∈ sources, old.id = peer ∧ a = f old := by
  unfold refresh at ha
  split_ifs at ha with hlisted
  · exact mem_change h.ids (mem_sort.mp ha)
  · exact .inl ⟨ha, fun hpeer => hlisted (isListed_iff.mpr ⟨a, ha, hpeer⟩)⟩

theorem mem_put {a : StoriesSourceInfo} (h : Tidy peers sources) (ha : a ∈ put info sources) :
    (a ∈ sources ∧ a.id ≠ info.id) ∨ a = info := by
  unfold put at ha
  split_ifs at ha with hlisted
  · exact (mem_change h.ids ha).imp_right fun ⟨_, _, _, heq⟩ => heq
  · rcases List.mem_append.mp ha with ha | ha
    · exact .inl ⟨ha, fun hid => hlisted (isListed_iff.mpr ⟨a, ha, hid⟩)⟩
    · exact .inr (List.mem_singleton.mp ha)

theorem tidy_put (h : Tidy peers sources) (info : StoriesSourceInfo) :
    Tidy peers (sort peers (put info sources)) := by
  apply tidy_sort
  unfold put
  split_ifs with hlisted
  · rw [ids_change fun _ _ => rfl]
    exact h.ids
  · rw [List.map_append]
    refine h.ids.append (List.nodup_singleton _) fun id hid hinfo => hlisted ?_
    obtain ⟨a, ha, rfl⟩ := List.mem_map.mp hid
    exact isListed_iff.mpr ⟨a, ha, List.mem_singleton.mp hinfo⟩

theorem tidy_addToList (h : Tidy peers sources) (info : StoriesSourceInfo) :
    Tidy peers (addToList peers info sources) := by
  unfold addToList
  split_ifs
  · exact h
  · exact tidy_put h info

theorem mem_addToList {a : StoriesSourceInfo} (h : Tidy peers sources)
    (ha : a ∈ addToList peers info sources) : (a ∈ sources ∧ a.id ≠ info.id) ∨ a = info := by
  unfold addToList at ha
  split_ifs at ha with hfind
  · by_cases hid : a.id = info.id
    · exact .inr (h.eq_of_id ha (List.mem_of_find?_eq_some hfind) hid)
    · exact .inl ⟨ha, hid⟩
  · exact mem_put h (mem_sort.mp ha)

/-- The entry is the one that the peer's stories give, in the list that the peer belongs to. -/
def Stories.Right (s : Stories) (peers : Peers) (list : StorySourcesList)
    (info : StoriesSourceInfo) : Prop :=
  list = listOf (s.hasStoriesHidden info.id) ∧
    ∃ source, s.all info.id = some source ∧ info = source.info peers

/-- All that is shown, the entries of one peer aside. -/
structure ShownOff (peers : Peers) (peer : PeerId) (s : Stories) : Prop where
  tidy : ∀ list, Tidy peers (s.sources list)
  own : ∀ id source, s.all id = some source → source.peer = id
  right : ∀ list, ∀ info ∈ s.sources list, info.id ≠ peer → s.Right peers list info

structure Shown (peers : Peers) (s : Stories) : Prop where
  tidy : ∀ list, Tidy peers (s.sources list)
  own : ∀ id source, s.all id = some source → source.peer = id
  right : ∀ list, ∀ info ∈ s.sources list, s.Right peers list info

/-- What a step does to the stories of one peer. -/
structure Local (peers : Peers) (peer : PeerId) (s s' : Stories) : Prop where
  all : ∀ id ≠ peer, s'.all id = s.all id
  hidden : ∀ id ≠ peer, s'.hasStoriesHidden id = s.hasStoriesHidden id
  own : (∀ source, s.all peer = some source → source.peer = peer) →
    ∀ source, s'.all peer = some source → source.peer = peer
  tidy : ∀ list, Tidy peers (s.sources list) → Tidy peers (s'.sources list)
  others : ∀ list, Tidy peers (s.sources list) → ∀ info ∈ s'.sources list, info.id ≠ peer →
    info ∈ s.sources list

variable {s s' s'' : Stories}

theorem Shown.off (h : Shown peers s) (peer : PeerId) : ShownOff peers peer s :=
  ⟨h.tidy, h.own, fun list info hinfo _ => h.right list info hinfo⟩

theorem Local.refl (s : Stories) : Local peers peer s s :=
  ⟨fun _ _ => rfl, fun _ _ => rfl, fun h => h, fun _ h => h, fun _ _ _ h _ => h⟩

theorem Local.trans (h : Local peers peer s s') (h' : Local peers peer s' s'') :
    Local peers peer s s'' where
  all := fun id hid => (h'.all id hid).trans (h.all id hid)
  hidden := fun id hid => (h'.hidden id hid).trans (h.hidden id hid)
  own := fun hown => h'.own (h.own hown)
  tidy := fun list htidy => h'.tidy list (h.tidy list htidy)
  others := fun list htidy info hinfo hid =>
    h.others list htidy info (h'.others list (h.tidy list htidy) info hinfo hid) hid

theorem ShownOff.of_local (h : ShownOff peers peer s) (hlocal : Local peers peer s s') :
    ShownOff peers peer s' := by
  refine ⟨fun list => hlocal.tidy list (h.tidy list), ?_, ?_⟩
  · intro id source hsource
    by_cases hid : id = peer
    · subst hid
      exact hlocal.own (h.own id) source hsource
    · rw [hlocal.all id hid] at hsource
      exact h.own id source hsource
  · intro list info hinfo hid
    obtain ⟨hlist, source, hsource, heq⟩ :=
      h.right list info (hlocal.others list (h.tidy list) info hinfo hid) hid
    refine ⟨?_, source, ?_, heq⟩
    · rw [hlocal.hidden info.id hid]
      exact hlist
    · rw [hlocal.all info.id hid]
      exact hsource

theorem ShownOff.shown (h : ShownOff peers peer s)
    (hpeer : ∀ list, ∀ info ∈ s.sources list, info.id = peer → s.Right peers list info) :
    Shown peers s := by
  refine ⟨h.tidy, h.own, fun list info hinfo => ?_⟩
  by_cases hid : info.id = peer
  · exact hpeer list info hinfo hid
  · exact h.right list info hinfo hid

/-- Where nothing but single stories changes. -/
structure SameStrip (s s' : Stories) : Prop where
  all : s'.all = s.all
  hidden : s'.hasStoriesHidden = s.hasStoriesHidden
  sources : s'.sources = s.sources

theorem SameStrip.isLocal (h : SameStrip s s') (peers : Peers) (peer : PeerId) :
    Local peers peer s s' where
  all := fun id _ => congrFun h.all id
  hidden := fun id _ => congrFun h.hidden id
  own := fun hown source hsource => hown source (h.all ▸ hsource)
  tidy := fun list htidy => h.sources ▸ htidy
  others := fun list _ info hinfo _ => h.sources ▸ hinfo

theorem Shown.congr (h : Shown peers s) (hsame : SameStrip s s') : Shown peers s' := by
  obtain ⟨hall, hhidden, hsources⟩ := hsame
  refine ⟨fun list => hsources ▸ h.tidy list, fun id => hall ▸ h.own id, fun list info hinfo => ?_⟩
  unfold Stories.Right
  rw [hall, hhidden]
  exact h.right list info (hsources ▸ hinfo)

theorem all_setAll (s : Stories) (peer : PeerId) (source : Option StoriesSource) :
    (s.setAll peer source).all peer = source := Function.update_self ..

theorem sources_setSources (s : Stories) (list : StorySourcesList)
    (rest : List StoriesSourceInfo) : (s.setSources list rest).sources list = rest :=
  Function.update_self ..

theorem sources_setSources_of_ne {list index : StorySourcesList} (h : index ≠ list) (s : Stories)
    (rest : List StoriesSourceInfo) : (s.setSources list rest).sources index = s.sources index :=
  Function.update_of_ne h ..

theorem local_setAll {source : Option StoriesSource}
    (hsource : (∀ found, s.all peer = some found → found.peer = peer) →
      ∀ found, source = some found → found.peer = peer) :
    Local peers peer s (s.setAll peer source) where
  all := fun id hid => Function.update_of_ne hid _ _
  hidden := fun _ _ => rfl
  own := fun hown found hfound => hsource hown found (all_setAll s peer source ▸ hfound)
  tidy := fun _ h => h
  others := fun _ _ _ h _ => h

theorem local_setSources (list : StorySourcesList) {rest : List StoriesSourceInfo}
    (htidy : Tidy peers (s.sources list) → Tidy peers rest)
    (hothers : Tidy peers (s.sources list) → ∀ info ∈ rest, info.id ≠ peer →
      info ∈ s.sources list) : Local peers peer s (s.setSources list rest) where
  all := fun _ _ => rfl
  hidden := fun _ _ => rfl
  own := fun h => h
  tidy := by
    intro index h
    by_cases hindex : index = list
    · subst hindex
      rw [sources_setSources]
      exact htidy h
    · rw [sources_setSources_of_ne hindex]
      exact h
  others := by
    intro index h info hinfo hid
    by_cases hindex : index = list
    · subst hindex
      rw [sources_setSources] at hinfo
      exact hothers h info hinfo hid
    · rw [sources_setSources_of_ne hindex] at hinfo
      exact hinfo

theorem local_applyDeletedFromSources (s : Stories) (peer : PeerId) (list : StorySourcesList) :
    Local peers peer s (s.applyDeletedFromSources peer list) :=
  local_setSources list (fun h => h.unlist peer) fun h _ hinfo _ => (mem_unlist h.ids hinfo).1

theorem local_unlistBoth (s : Stories) (peer : PeerId) : Local peers peer s (s.unlistBoth peer) :=
  (local_applyDeletedFromSources s peer _).trans (local_applyDeletedFromSources _ peer _)

theorem sources_unlistBoth (s : Stories) (peer : PeerId) (list : StorySourcesList) :
    (s.unlistBoth peer).sources list = unlist (s.sources list) peer := by
  cases list with
  | NotHidden => rfl
  | Hidden => rfl

theorem ShownOff.unlistBoth (h : ShownOff peers peer s) : Shown peers (s.unlistBoth peer) := by
  refine (h.of_local (local_unlistBoth s peer)).shown fun list info hinfo hid => ?_
  rw [sources_unlistBoth] at hinfo
  exact absurd hid (mem_unlist (h.tidy list).ids hinfo).2

end TelegramDesktop.Data.StoriesStrip
