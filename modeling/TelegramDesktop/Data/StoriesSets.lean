import TelegramDesktop.Base.FlatSet
import TelegramDesktop.Base.Int32
import TelegramDesktop.Data.StoriesIds

namespace TelegramDesktop.Data.StoriesSets
open Base
open StoriesSlices (StoryId StoriesIds respectingPinned)

def emplace (ids : StoriesIds) (id : StoryId) : StoriesIds where
  list := @FlatSet.insertElem ℤᵒᵈ _ id ids.list
  descending := @FlatSet.insertElem_sorted ℤᵒᵈ _ id _ ids.descending
  pinnedToTop := ids.pinnedToTop

def remove (ids : StoriesIds) (id : StoryId) : StoriesIds where
  list := ids.list.filter (· ≠ id)
  descending := ids.descending.filter _
  pinnedToTop := ids.pinnedToTop

structure Set where
  ids : StoriesIds := .empty
  total : ℤ := -1
  lastId : StoryId := 0
  loaded : Bool := false

structure Story where
  inProfile : Bool

inductive Kind
  | archive
  | saved
  deriving DecidableEq

/-- A set that is not there yet is an empty one. -/
structure Stories where
  stories : StoryId → Option Story
  sets : Kind → Set

def Stories.start : Stories := ⟨fun _ => none, fun _ => {}⟩

def Stories.change (s : Stories) (kind : Kind) (f : Set → Set) : Stories :=
  { s with sets := Function.update s.sets kind (f (s.sets kind)) }

def Stories.setStory (s : Stories) (id : StoryId) (story : Option Story) : Stories :=
  { s with stories := Function.update s.stories id story }

/-- A new id is counted above the last one that was loaded. -/
def Set.add (set : Set) (id : StoryId) : Set :=
  if id ∈ set.ids.list then set
  else { set with
    ids := emplace set.ids id
    total := if 0 ≤ set.total ∧ set.lastId < id then int32Add set.total 1 else set.total }

def decrease (total : ℤ) : ℤ := if 0 < total then total - 1 else total

def Set.remove (set : Set) (id : StoryId) : Set :=
  if id ∈ set.ids.list then
    { set with ids := StoriesSets.remove set.ids id, total := decrease set.total }
  else set

/-- A page has no skipped items. -/
inductive StoryItem
  | storyItem (id : StoryId) (media isPinned : Bool)
  | storyItemDeleted (id : StoryId)

def StoryItem.id : StoryItem → StoryId
  | .storyItem id .. => id
  | .storyItemDeleted id => id

def Stories.savedStateChanged (s : Stories) (id : StoryId) (inProfile : Bool) : Stories :=
  s.change .saved fun saved => if inProfile then saved.add id else saved.remove id

def Stories.applyDeleted (s : Stories) (id : StoryId) : Stories :=
  match s.stories id with
  | none => s
  | some story =>
    let s := (s.setStory id none).change .archive (·.remove id)
    if story.inProfile then s.change .saved (·.remove id) else s

/-- A new story is not in the profile before its fields are applied. -/
def Stories.applyFields (s : Stories) (id : StoryId) (was isPinned : Bool) : Stories :=
  let s := s.setStory id (some ⟨isPinned⟩)
  if was ≠ isPinned then s.savedStateChanged id isPinned else s

/-- Whether the dates of a story came out of the item. With an archive an expired story is kept. -/
def Stories.parseAndApply (s : Stories) : StoryItem → Stories × Bool
  | .storyItem id media isPinned =>
    if !media then (s.applyDeleted id, false)
    else
      match s.stories id with
      | some story => (s.applyFields id story.inProfile isPinned, id ≠ 0)
      | none => ((s.applyFields id false isPinned).change .archive (·.add id), id ≠ 0)
  | .storyItemDeleted id => (s.applyDeleted id, false)

/-- One item of a page. -/
def Stories.pageItem (s : Stories) (kind : Kind) (item : StoryItem) : Stories :=
  let (s, parsed) := (s.change kind fun set =>
    { set with ids := emplace set.ids item.id, lastId := item.id }).parseAndApply item
  if parsed then s
  else s.change kind fun set =>
    { set with ids := StoriesSets.remove set.ids item.id, total := decrease set.total }

def Stories.pageItems (s : Stories) (kind : Kind) (items : List StoryItem) : Stories :=
  items.foldl (fun s item => s.pageItem kind item) s

def Set.finish (set : Set) (loaded : Bool) : Set :=
  let ids : ℤ := set.ids.list.length
  { set with loaded := loaded, total := if loaded then ids else max set.total ids }

/-- What `archiveLoadMore` and `savedLoadMore` do with an answer. -/
def Stories.page (s : Stories) (kind : Kind) (count : ℤ) (items : List StoryItem) : Stories :=
  ((s.change kind fun set => { set with total := count }).pageItems kind items).change kind
    (·.finish items.isEmpty)

def Stories.fail (s : Stories) (kind : Kind) : Stories := s.change kind (·.finish true)

def Stories.archiveLoadMoreDone (s : Stories) (count : ℤ) (items : List StoryItem) : Stories :=
  s.page .archive count items

def Stories.archiveLoadMoreFail (s : Stories) : Stories := s.fail .archive

def Stories.setPinnedToTop (s : Stories) (pinnedToTop : List StoryId) : Stories :=
  s.change .saved fun saved => { saved with ids := { saved.ids with pinnedToTop := pinnedToTop } }

def Stories.savedLoadMoreDone (s : Stories) (count : ℤ) (items : List StoryItem)
    (pinnedToTop : List StoryId) : Stories :=
  (s.page .saved count items).setPinnedToTop pinnedToTop

def Stories.savedLoadMoreFail (s : Stories) : Stories := s.fail .saved

/-- An id that was put to the profile is counted wherever it is. -/
def Set.toggled (saved : Set) (loaded : Bool) (lastId id : StoryId) (inProfile : Bool) : Set :=
  if inProfile then
    if !(loaded || lastId ≤ id) || id ∈ saved.ids.list then saved
    else { saved with
      ids := emplace saved.ids id
      total := if 0 ≤ saved.total then int32Add saved.total 1 else saved.total }
  else saved.remove id

def Stories.toggleStory (s : Stories) (loaded : Bool) (lastId : StoryId) (inProfile : Bool)
    (id : StoryId) : Stories :=
  match s.stories id with
  | none => s
  | some _ =>
    (s.setStory id (some ⟨inProfile⟩)).change .saved (·.toggled loaded lastId id inProfile)

/-- The last id of the list, from which on ids are put to it while it is not loaded. -/
def Set.listLastId (saved : Set) : StoryId :=
  saved.ids.list.getLast?.getD (if saved.lastId ≠ 0 then saved.lastId else 2 ^ 31 - 1)

/-- The answer to `toggleInProfileList`; what is missing is asked by `savedLoadMore`. -/
def Stories.toggleInProfileListDone (s : Stories) (ids : List StoryId) (inProfile : Bool) :
    Stories :=
  let saved := s.sets .saved
  ids.foldl (fun s id => s.toggleStory saved.loaded saved.listLastId inProfile id) s

inductive Event
  | archivePage (count : ℤ) (items : List StoryItem)
  | archiveFail
  | savedPage (count : ℤ) (items : List StoryItem) (pinnedToTop : List StoryId)
  | savedFail
  | story (item : StoryItem)
  | applyDeleted (id : StoryId)
  | toggledInProfile (ids : List StoryId) (inProfile : Bool)
  | pinnedToTop (ids : List StoryId)

def Stories.step (s : Stories) : Event → Stories
  | .archivePage count items => s.archiveLoadMoreDone count items
  | .archiveFail => s.archiveLoadMoreFail
  | .savedPage count items pinnedToTop => s.savedLoadMoreDone count items pinnedToTop
  | .savedFail => s.savedLoadMoreFail
  | .story item => (s.parseAndApply item).1
  | .applyDeleted id => s.applyDeleted id
  | .toggledInProfile ids inProfile => s.toggleInProfileListDone ids inProfile
  | .pinnedToTop ids => s.setPinnedToTop ids

end TelegramDesktop.Data.StoriesSets
