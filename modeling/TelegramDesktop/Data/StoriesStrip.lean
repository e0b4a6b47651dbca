import TelegramDesktop.Base.FlatSet
import TelegramDesktop.Data.StoriesResolve

namespace TelegramDesktop.Data.StoriesStrip
open Base
open StoriesResolve (PeerId StoryId FullStoryId)

abbrev TimeId := ℤ

structure StoryIdDates where
  id : StoryId
  date : TimeId
  expires : TimeId
  deriving DecidableEq

/-- Compared field by field. -/
instance : LinearOrder StoryIdDates :=
  LinearOrder.lift' (fun d => toLex (d.id, toLex (d.date, d.expires))) fun a b h => by
    cases a
    cases b
    simp_all

structure StoriesSourceInfo where
  id : PeerId
  last : TimeId
  count : ℕ
  unreadCount : ℕ
  premium : Bool
  deriving DecidableEq

structure StoriesSource where
  peer : PeerId
  ids : FlatSet StoryIdDates
  readTill : StoryId
  hidden : Bool

/-- What the peers are, which stays as it is. -/
structure Peers where
  self : PeerId
  isUser : PeerId → Bool
  isPremium : PeerId → Bool
  isBot : PeerId → Bool
  isContact : PeerId → Bool
  isServiceUser : PeerId → Bool
  isChannel : PeerId → Bool
  amIn : PeerId → Bool
  hasArchive : PeerId → Bool

def kMaxSegmentsCount : ℕ := 180
def kServiceNotificationsId : PeerId := 777000

def StoriesSource.unreadCount (source : StoriesSource) : ℕ :=
  source.ids.size - source.ids.lowerBound ⟨source.readTill + 1, 0, 0⟩

def StoriesSource.info (peers : Peers) (source : StoriesSource) : StoriesSourceInfo where
  id := source.peer
  last := (source.ids.elems.getLast?.map StoryIdDates.date).getD 0
  count := min source.ids.size kMaxSegmentsCount
  unreadCount := min source.unreadCount kMaxSegmentsCount
  premium := peers.isUser source.peer && peers.isPremium source.peer

inductive StorySourcesList
  | NotHidden
  | Hidden
  deriving DecidableEq

structure Story where
  date : TimeId
  expires : TimeId
  inProfile : Bool

structure Stories where
  stories : FullStoryId → Option Story
  all : PeerId → Option StoriesSource
  readTill : PeerId → StoryId
  hasStoriesHidden : PeerId → Bool
  sources : StorySourcesList → List StoriesSourceInfo

def Stories.start (hasStoriesHidden : PeerId → Bool) : Stories where
  stories := fun _ => none
  all := fun _ => none
  readTill := fun _ => 0
  hasStoriesHidden := hasStoriesHidden
  sources := fun _ => []

def Stories.setAll (s : Stories) (peer : PeerId) (source : Option StoriesSource) : Stories :=
  { s with all := Function.update s.all peer source }

def Stories.setSources (s : Stories) (list : StorySourcesList)
    (sources : List StoriesSourceInfo) : Stories :=
  { s with sources := Function.update s.sources list sources }

def sortKey (peers : Peers) (info : StoriesSourceInfo) : ℤ ×ₗ PeerId :=
  toLex (info.last + (if info.premium then 2 ^ 47 else 0) +
    (if info.id = kServiceNotificationsId then 2 ^ 47 else 0) +
    (if 0 < info.unreadCount then 2 ^ 49 else 0) + (if info.id = peers.self then 2 ^ 50 else 0),
    info.id)

def sort (peers : Peers) (sources : List StoriesSourceInfo) : List StoriesSourceInfo :=
  sources.insertionSort fun a b => sortKey peers b ≤ sortKey peers a

def isListed (sources : List StoriesSourceInfo) (peer : PeerId) : Bool :=
  sources.any (·.id = peer)

/-- `*i = f(*i)` for the first entry of the peer. -/
def change (peer : PeerId) (f : StoriesSourceInfo → StoriesSourceInfo) :
    List StoriesSourceInfo → List StoriesSourceInfo
  | [] => []
  | info :: rest => if info.id = peer then f info :: rest else info :: change peer f rest

def unlist (sources : List StoriesSourceInfo) (peer : PeerId) : List StoriesSourceInfo :=
  sources.eraseP (·.id = peer)

/-- `refreshInList`, which a list without the peer is not changed by. -/
def refresh (peers : Peers) (peer : PeerId) (f : StoriesSourceInfo → StoriesSourceInfo)
    (sources : List StoriesSourceInfo) : List StoriesSourceInfo :=
  if isListed sources peer then sort peers (change peer f sources) else sources

/-- The peer's entry where there is one, else a new one at the end. -/
def put (info : StoriesSourceInfo) (sources : List StoriesSourceInfo) : List StoriesSourceInfo :=
  if isListed sources info.id then change info.id (fun _ => info) sources
  else sources ++ [info]

def Stories.applyDeletedFromSources (s : Stories) (peer : PeerId) (list : StorySourcesList) :
    Stories :=
  s.setSources list (unlist (s.sources list) peer)

/-- What is left of the active stories when one with the id is there. -/
def StoriesSource.removed (source : StoriesSource) (id : StoryId) : Option StoriesSource :=
  (source.ids.elems.find? fun j => (⟨id, 0, 0⟩ : StoryIdDates) ≤ j).bind fun j =>
    if j.id = id then some { source with ids := source.ids.remove j } else none

def Stories.applyRemovedFromActive (s : Stories) (id : FullStoryId) : Stories :=
  match (s.all id.peer).bind (·.removed id.story) with
  | none => s
  | some source =>
    if source.ids.isEmpty then
      ((s.setAll id.peer none).applyDeletedFromSources id.peer .NotHidden).applyDeletedFromSources
        id.peer .Hidden
    else s.setAll id.peer (some source)

def Stories.setStory (s : Stories) (id : FullStoryId) (story : Option Story) : Stories :=
  { s with stories := Function.update s.stories id story }

def Stories.applyDeleted (s : Stories) (id : FullStoryId) : Stories :=
  (s.applyRemovedFromActive id).setStory id none

def Stories.applyExpired (s : Stories) (peers : Peers) (id : FullStoryId) : Stories :=
  match s.stories id with
  | none => s.applyRemovedFromActive id
  | some story =>
    if !peers.hasArchive id.peer && !story.inProfile then s.applyDeleted id
    else s.applyRemovedFromActive id

inductive StoryItem
  | storyItem (id : StoryId) (date expires : TimeId) (media isPinned : Bool)
  | storyItemSkipped (id : StoryId) (date expires : TimeId)
  | storyItemDeleted (id : StoryId)

def StoryItem.id : StoryItem → StoryId
  | .storyItem id .. => id
  | .storyItemSkipped id .. => id
  | .storyItemDeleted id => id

def noDates : StoryIdDates := ⟨0, 0, 0⟩

/-- A known story is changed and keeps its dates, else it is made. -/
def Stories.parseStory (s : Stories) (peers : Peers) (id : FullStoryId) (date expires : TimeId)
    (isPinned : Bool) (now : TimeId) : Stories × StoryIdDates :=
  match s.stories id with
  | some story =>
    (s.setStory id (some { story with inProfile := isPinned }),
      ⟨id.story, story.date, story.expires⟩)
  | none =>
    let s := s.setStory id (some ⟨date, expires, isPinned⟩)
    (if expires ≤ now then s.applyExpired peers id else s, ⟨id.story, date, expires⟩)

def Stories.parse (s : Stories) (peers : Peers) (peer : PeerId) (now : TimeId) :
    StoryItem → Stories × StoryIdDates
  | .storyItem id date expires media isPinned =>
    if !media || (expires ≤ now && !isPinned && !peers.hasArchive peer) then
      (s.applyDeleted ⟨peer, id⟩, noDates)
    else s.parseStory peers ⟨peer, id⟩ date expires isPinned now
  | .storyItemSkipped id date expires =>
    if ¬ expires ≤ now then (s, ⟨id, date, expires⟩)
    else if !peers.hasArchive peer then (s.applyDeleted ⟨peer, id⟩, noDates)
    else (s.applyExpired peers ⟨peer, id⟩, ⟨id, date, expires⟩)
  | .storyItemDeleted id => (s.applyDeleted ⟨peer, id⟩, noDates)

def listOf (hidden : Bool) : StorySourcesList := if hidden then .Hidden else .NotHidden

/-- The new story among the active ones. The entry is made before one's own stories are read. -/
def Stories.addActive (s : Stories) (peers : Peers) (peer : PeerId) (source : StoriesSource)
    (idDates : StoryIdDates) : Stories :=
  let added := { source with ids := source.ids.insert idDates }
  let own : Bool := peer = peers.self && source.readTill < idDates.id
  let s := s.setAll peer
    (some (if own then { added with readTill := idDates.id } else added))
  let s := if own then { s with readTill := Function.update s.readTill peer idDates.id } else s
  if source.info peers = added.info peers then s
  else
    let list := listOf (s.hasStoriesHidden peer)
    s.setSources list (refresh peers peer (fun _ => added.info peers) (s.sources list))

/-- `apply` of an `updateStory`. Where nothing is active yet the peer's stories are requested. -/
def Stories.applyUpdateStory (s : Stories) (peers : Peers) (peer : PeerId) (story : StoryItem)
    (now : TimeId) : Stories :=
  let (s, idDates) := s.parse peers peer now story
  if idDates.id = 0 then s
  else if idDates.expires ≤ now then s.applyExpired peers ⟨peer, idDates.id⟩
  else
    match s.all peer with
    | none => s
    | some source =>
      if idDates ∈ source.ids then s else s.addActive peers peer source idDates

/-- `i->unreadCount = nowUnreadCount` in its fifteen bits. -/
def setUnread (nowUnreadCount : ℕ) (info : StoriesSourceInfo) : StoriesSourceInfo :=
  { info with unreadCount := nowUnreadCount % 2 ^ 15 }

def Stories.bumpReadTill (s : Stories) (peers : Peers) (peer : PeerId) (maxReadTill : StoryId) :
    Stories :=
  let s := { s with
    readTill := Function.update s.readTill peer (max (s.readTill peer) maxReadTill) }
  match s.all peer with
  | none => s
  | some source =>
    if maxReadTill ≤ source.readTill then s
    else
      let read := { source with readTill := maxReadTill }
      let s := s.setAll peer (some read)
      if source.unreadCount = read.unreadCount then s
      else { s with
        sources := fun list => refresh peers peer (setUnread read.unreadCount) (s.sources list) }

structure PeerStories where
  peer : PeerId
  maxReadId : StoryId
  stories : List StoryItem

/-- The ids of the items one after another. -/
def Stories.parseAll (s : Stories) (peers : Peers) (peer : PeerId) (now : TimeId)
    (stories : List StoryItem) : Stories × FlatSet StoryIdDates :=
  stories.foldl
    (fun (s, ids) story =>
      let (s, idDates) := s.parse peers peer now story
      (s, if idDates.id = 0 then ids else ids.insert idDates))
    (s, ∅)

/-- `add`, which leaves a list alone where the entry is right. -/
def addToList (peers : Peers) (info : StoriesSourceInfo) (sources : List StoriesSourceInfo) :
    List StoriesSourceInfo :=
  if sources.find? (·.id = info.id) = some info then sources else sort peers (put info sources)

def Peers.inStrip (peers : Peers) (peer : PeerId) : Bool :=
  peer = peers.self || (peers.isChannel peer && peers.amIn peer) ||
    (peers.isUser peer && (peers.isBot peer || peers.isContact peer)) || peers.isServiceUser peer

def Stories.unlistBoth (s : Stories) (peer : PeerId) : Stories :=
  (s.applyDeletedFromSources peer .NotHidden).applyDeletedFromSources peer .Hidden

def other : StorySourcesList → StorySourcesList
  | .NotHidden => .Hidden
  | .Hidden => .NotHidden

def Stories.addPeer (s : Stories) (peers : Peers) (source : StoriesSource) : Stories :=
  if peers.inStrip source.peer then
    let list := listOf (s.hasStoriesHidden source.peer)
    let s := s.setSources list (addToList peers (source.info peers) (s.sources list))
    s.applyDeletedFromSources source.peer (other list)
  else s.unlistBoth source.peer

def Stories.applyPeerStories (s : Stories) (peers : Peers) (data : PeerStories) (now : TimeId) :
    Stories :=
  let readTill := max data.maxReadId (s.readTill data.peer)
  let hidden := s.hasStoriesHidden data.peer
  let (s, ids) := s.parseAll peers data.peer now data.stories
  match ids.elems.getLast? with
  | none => s.unlistBoth data.peer
  | some back =>
    let readTill := if data.peer = peers.self then back.id else readTill
    let source : StoriesSource := ⟨data.peer, ids, readTill, hidden⟩
    ({ s with readTill := Function.update s.readTill data.peer readTill }.setAll data.peer
      (some source)).addPeer peers source

/-- `apply` of the stories of a peer, which may be absent. -/
def Stories.apply (s : Stories) (peers : Peers) (peer : PeerId) (data : Option PeerStories)
    (now : TimeId) : Stories :=
  match data with
  | none => (s.unlistBoth peer).setAll peer none
  | some data => s.applyPeerStories peers data now

/-- `processUsers` and `processChats` of an answer. -/
def Stories.setHidden (s : Stories) (flags : List (PeerId × Bool)) : Stories :=
  { s with
    hasStoriesHidden := flags.foldl (fun hidden flag => Function.update hidden flag.1 flag.2)
      s.hasStoriesHidden }

def Stories.toggleHidden (s : Stories) (peers : Peers) (peer : PeerId) (hidden : Bool)
    (now : TimeId) : Stories :=
  if peers.isServiceUser peer && hidden then s.apply peers peer none now
  else
    let s := s.setHidden [(peer, hidden)]
    match s.all peer with
    | none => s
    | some source =>
      let source := { source with hidden := hidden }
      let s := (s.setAll peer (some source)).applyDeletedFromSources peer (listOf !hidden)
      s.setSources (listOf hidden)
        (sort peers (put (source.info peers) (s.sources (listOf hidden))))

inductive Event
  | updateStory (peer : PeerId) (story : StoryItem) (now : TimeId)
  | updateReadStories (peer : PeerId) (maxId : StoryId)
  | peerStories (peer : PeerId) (data : Option PeerStories) (now : TimeId)
  | requestDone (flags : List (PeerId × Bool)) (data : PeerStories) (now : TimeId)
  | requestFail (peer : PeerId)
  | applyDeleted (id : FullStoryId)
  | applyExpired (id : FullStoryId)
  | toggleHidden (peer : PeerId) (hidden : Bool) (now : TimeId)

def Stories.step (s : Stories) (peers : Peers) : Event → Stories
  | .updateStory peer story now => s.applyUpdateStory peers peer story now
  | .updateReadStories peer maxId => s.bumpReadTill peers peer maxId
  | .peerStories peer data now => s.apply peers peer data now
  | .requestDone flags data now => (s.setHidden flags).applyPeerStories peers data now
  | .requestFail peer => s.unlistBoth peer
  | .applyDeleted id => s.applyDeleted id
  | .applyExpired id => s.applyExpired peers id
  | .toggleHidden peer hidden now => s.toggleHidden peers peer hidden now

end TelegramDesktop.Data.StoriesStrip
