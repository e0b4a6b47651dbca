import Mathlib

/-! The recent emoji of the settings, ordered by how often they are used. Saved ids are given as
what they are parsed to. -/

namespace TelegramDesktop.Core

inductive RecentEmojiId (Emoji : Type*)
  | emoji (emoji : Emoji)
  | document (id : ℕ) (test : Bool)
  deriving DecidableEq

structure RecentEmoji (Emoji : Type*) where
  id : RecentEmojiId Emoji
  rating : ℕ

structure Settings (Emoji : Type*) where
  recentEmoji : List (RecentEmoji Emoji) := []
  recentEmojiPreload : List (RecentEmoji Emoji) := []
  recentEmojiSkip : List Emoji := []
  recentEmojiResolved : Bool := false

namespace Settings
variable {Emoji : Type*} [DecidableEq Emoji]

def kRecentEmojiLimit : ℕ := 54

def haveAlready (list : List (RecentEmoji Emoji)) (id : RecentEmojiId Emoji) : Bool :=
  list.any fun data => data.id = id

def isTest (data : RecentEmoji Emoji) : Bool :=
  match data.id with
  | .emoji _ => false
  | .document _ test => test

def isNonTest (data : RecentEmoji Emoji) : Bool :=
  match data.id with
  | .emoji _ => false
  | .document _ test => !test

def specialCount (list : List (RecentEmoji Emoji)) : ℕ :=
  max (list.countP isTest) (list.countP isNonTest)

/-- The saved emoji that are not there yet. -/
def pushPreload : List (RecentEmoji Emoji) → List (RecentEmoji Emoji) → List (RecentEmoji Emoji)
  | [], _ => []
  | data :: preload, list =>
    if haveAlready list data.id then pushPreload preload list
    else data :: pushPreload preload (list ++ [data])

/-- The default emoji that are not there yet, up to a size of the list. -/
def pushDefaults (skip : List Emoji) (size : ℕ) :
    List Emoji → List (RecentEmoji Emoji) → List (RecentEmoji Emoji)
  | [], list => list
  | emoji :: defaults, list =>
    if size ≤ list.length then list
    else if emoji ∈ skip then pushDefaults skip size defaults list
    else if haveAlready list (.emoji emoji) then pushDefaults skip size defaults list
    else pushDefaults skip size defaults (list ++ [⟨.emoji emoji, 1⟩])

/-- The element at an index is exchanged with the one before it, until that is rated higher. -/
def climb : ℕ → List (RecentEmoji Emoji) → List (RecentEmoji Emoji)
  | 0, list => list
  | i + 1, list =>
    match list[i]?, list[i + 1]? with
    | some before, some data =>
      if before.rating > data.rating then list
      else climb i ((list.set i data).set (i + 1) before)
    | _, _ => list

def halved (data : RecentEmoji Emoji) : RecentEmoji Emoji :=
  { data with rating := if data.rating > 1 then data.rating / 2 else 1 }

/-- A `ushort` is incremented. -/
def incremented (data : RecentEmoji Emoji) : RecentEmoji Emoji :=
  { data with rating := (data.rating + 1) % 2 ^ 16 }

variable (defaults : List Emoji)

def resolveRecentEmoji (s : Settings Emoji) : Settings Emoji :=
  let pushed := pushPreload s.recentEmojiPreload s.recentEmoji
  { s with
    recentEmoji := pushDefaults s.recentEmojiSkip (specialCount pushed + kRecentEmojiLimit)
      defaults (s.recentEmoji ++ pushed)
    recentEmojiPreload := [] }

/-- What is shown. -/
def showRecentEmoji (s : Settings Emoji) : Settings Emoji :=
  if s.recentEmojiResolved then s
  else { s with recentEmojiResolved := true }.resolveRecentEmoji defaults

def unskip (id : RecentEmojiId Emoji) (skip : List Emoji) : List Emoji :=
  match id with
  | .emoji emoji => skip.filter fun e => e ≠ emoji
  | .document _ _ => skip

/-- An id of the list climbs by its new rating, another is put at the end and climbs from there. -/
def increment (id : RecentEmojiId Emoji) (list : List (RecentEmoji Emoji)) :
    List (RecentEmoji Emoji) :=
  let i := list.findIdx fun data => data.id = id
  match list[i]? with
  | some data =>
    let list := list.set i (incremented data)
    climb i (if (incremented data).rating > 0x8000 then list.map halved else list)
  | none =>
    let list := climb list.length (list ++ [⟨id, 1⟩])
    -- the last ones are dropped until there are fewer
    list.take (specialCount list + kRecentEmojiLimit - 1)

def incrementRecentEmoji (id : RecentEmojiId Emoji) (s : Settings Emoji) : Settings Emoji :=
  let s := s.resolveRecentEmoji defaults
  { s with
    recentEmojiSkip := unskip id s.recentEmojiSkip
    recentEmoji := increment id s.recentEmoji }

def skipped (id : RecentEmojiId Emoji) (skip : List Emoji) : List Emoji :=
  match id with
  | .emoji emoji => if emoji ∈ defaults ∧ emoji ∉ skip then skip ++ [emoji] else skip
  | .document _ _ => skip

def hideRecentEmoji (id : RecentEmojiId Emoji) (s : Settings Emoji) : Settings Emoji :=
  let s := s.resolveRecentEmoji defaults
  { s with
    recentEmoji := s.recentEmoji.filter fun data => data.id ≠ id
    recentEmojiSkip := skipped defaults id s.recentEmojiSkip }

def resetRecentEmoji (s : Settings Emoji) : Settings Emoji :=
  let s := s.resolveRecentEmoji defaults
  { s with
    recentEmoji := []
    recentEmojiSkip := []
    recentEmojiPreload := []
    recentEmojiResolved := false }

def resetOnLastLogout (s : Settings Emoji) : Settings Emoji :=
  { s with
    recentEmojiPreload := []
    recentEmoji := [] }

/-- What is saved of the list, if it was used. -/
def recentEmojiPreloadData (s : Settings Emoji) : List (RecentEmoji Emoji) :=
  if s.recentEmojiPreload.isEmpty then s.recentEmoji else s.recentEmojiPreload

/-- New settings are filled from what these save. -/
def addFromSerialized (s : Settings Emoji) : Settings Emoji where
  recentEmojiPreload := s.recentEmojiPreloadData
  recentEmojiSkip := s.recentEmojiSkip

inductive Operation (Emoji : Type*)
  | show
  | increment (id : RecentEmojiId Emoji)
  | hide (id : RecentEmojiId Emoji)
  | reset
  | lastLogout
  | restart

def step (s : Settings Emoji) : Operation Emoji → Settings Emoji
  | .show => s.showRecentEmoji defaults
  | .increment id => s.incrementRecentEmoji defaults id
  | .hide id => s.hideRecentEmoji defaults id
  | .reset => s.resetRecentEmoji defaults
  | .lastLogout => s.resetOnLastLogout
  | .restart => s.addFromSerialized

end Settings
end TelegramDesktop.Core
