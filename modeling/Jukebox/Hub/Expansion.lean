import Jukebox.Number.Binary
import Jukebox.Program
import Jukebox.Text.Blank

/-!
# Expanding requested media

What is enqueued for a request: the tracks of a playlist, an album or an artist, the episodes of a
podcast from the one to play on, an audiobook with the point to resume it from. Playing a
container is recorded.
-/

namespace Jukebox

/-- The list with the tracks added whose uris it does not have yet. -/
def addUnseen (known : List MediaItem) : List MediaItem → List MediaItem
  | [] => known
  | track :: more =>
    if known.any (·.sameMedia track) then addUnseen known more
    else addUnseen (known ++ [track]) more

/-- Whether a start item, given by item id or by uri, names an item. -/
def MediaItem.isNamed (m : MediaItem) (start : String) : Bool :=
  start = m.itemId || start = m.uri

/-- The available tracks, from the first one that the start item names. -/
def tracksFrom (start : Option String) (tracks : List MediaItem) : List MediaItem :=
  let available := tracks.filter (·.available)
  match start with
  | none => available
  | some start => available.dropWhile fun t => !t.isNamed start

/-- A number of at most 32 bits, written in decimal digits with or without a plus sign. -/
def parseUnsigned32 (cs : List Char) : Option UInt32 :=
  let digits :=
    match cs with
    | '+' :: rest => rest
    | _ => cs
  if digits.isEmpty || !digits.all Char.isDigit then none
  else
    let n := digits.foldl (fun n c => n * 10 + (c.toNat - '0'.toNat)) 0
    if n < UInt32.size then some (UInt32.ofNat n) else none

/-- The start in milliseconds of the chapter that a text numbers. -/
def chapterStart? (chapters : List Chapter) (chapter : String) : Option UInt64 := do
  let position ← parseUnsigned32 (Text.trimmed chapter.toList)
  let c ← chapters.find? fun c => c.position = position
  return Number.toUnsigned64 (c.start * 1000)

/-- The milliseconds to resume an audiobook from. -/
def ResumeInfo.point (info : Option ResumeInfo) : UInt64 :=
  match info with
  | some info => if info.fullyPlayed then 0 else info.positionMs.getD 0
  | none => 0

/-- The position of the episode to play: the one that is named, or the first that was not fully
played, or the first. -/
def episodeIndex? (start : Option String) (episodes : List MediaItem) : Option Nat :=
  match start with
  | some start => episodes.findIdx? (·.isNamed start)
  | none =>
    (episodes.findIdx? fun e => !e.fullyPlayed).orElse fun _ =>
      if episodes.isEmpty then none else some 0

namespace Command

/-- A list in a drawn order. -/
def shuffled {α : Type} (xs : List α) : Command (List α) :=
  step fun _ h =>
    let (ys, draws) := h.draws.shuffle xs
    (.ok ys, { h with draws })

/-- The item that a uri names. -/
def itemByUri (pace : Pace) (uri : String) : Command MediaItem := do
  awaitTurn pace
  call (.itemByUri uri)

/-- Playing a container is recorded soon after. -/
def recordContainer (m : MediaItem) : Command Unit :=
  change fun o h => h.spawn o (.markPlayed (.ofContainer m))

/-- The tracks of albums, each uri once. -/
def albumsTracks (pace : Pace) (known : List MediaItem) : List MediaItem → Command (List MediaItem)
  | [] => return known
  | album :: more => do
    awaitTurn pace
    let tracks ← call (.albumTracks album false)
    albumsTracks pace (addUnseen known tracks) more

/-- The tracks that an artist stands for, in a drawn order. -/
def artistTracks (pace : Pace) (artist : MediaItem) : Command (List MediaItem) := do
  let select ← look fun _ h => h.config.artistSelect
  awaitTurn pace
  if select.byAlbum then
    let albums ← call (.artistAlbums artist select.libraryOnly)
    shuffled (← albumsTracks pace [] albums)
  else shuffled (← call (.artistTracks artist select.libraryOnly))

/-- The episodes of a podcast from the one to play on. -/
def episodes (pace : Pace) (podcast : ItemRef) (start : Option String) :
    Command (List MediaItem) := do
  awaitTurn pace
  let episodes ← call (.podcastEpisodes podcast)
  match episodeIndex? start episodes with
  | some index => return episodes.drop index
  | none => throw (.noEpisode podcast.name)

/-- The milliseconds to start an audiobook at: those of a chapter, or those where it was left. -/
def bookStart (pace : Pace) (book : MediaItem) (chapters : List Chapter) (chapter : Option String) :
    Command UInt64 := do
  match chapter with
  | some chapter =>
    match chapterStart? chapters chapter with
    | some ms => return ms
    | none => throw (.noChapter chapter book.name)
  | none =>
    awaitTurn pace
    return ResumeInfo.point (← call (.resumeInfo book))

/-- The items to enqueue for a requested one. -/
def expand (pace : Pace) (m : MediaItem) (start : Option String) : Command (List MediaItem) :=
  match m.kind with
  | .playlist => do
    recordContainer m
    awaitTurn pace
    return tracksFrom start (← call (.playlistTracks m))
  | .artist => do
    recordContainer m
    artistTracks pace m
  | .album => do
    recordContainer m
    let select ← look fun _ h => h.config.albumSelect
    awaitTurn pace
    return tracksFrom start (← call (.albumTracks m (select = .libraryTracks)))
  | .audiobook chapters _ => do
    let ms ← bookStart pace m chapters start
    return [if 0 < ms then m.withResumePosition (some ms) else m]
  | .podcast => do
    recordContainer m
    episodes pace m.toRef start
  | .podcastEpisode (some podcast) _ => episodes pace podcast (some m.uri)
  | .podcastEpisode none _ => throw (.episodeWithoutPodcast m.name)
  | _ => return [m]

end Command

end Jukebox
