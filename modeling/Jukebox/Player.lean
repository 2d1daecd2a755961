import Jukebox.Media

/-!
# Players

What a player reports about itself and what it is handed to play.
-/

namespace Jukebox

/-- What a player does; a queue is buffering while the stream of a requested item is looked up. -/
inductive PlayerState where
  | idle
  | playing
  | paused
  | buffering
  deriving DecidableEq, Repr, Inhabited

namespace PlayerState

def name : PlayerState → String
  | idle => "idle"
  | playing => "playing"
  | paused => "paused"
  | buffering => "buffering"

def all : List PlayerState := [idle, playing, paused, buffering]

end PlayerState

instance : Coded PlayerState where
  encode s := .text s.name
  decode := Json.decodeName (PlayerState.all.map fun s => (s.name, s))

/-- The media a player renders, as far as it knows where the media came from. -/
structure CurrentMedia where
  uri : Option String := none
  queueId : Option String := none
  queueItemId : Option String := none
  deriving DecidableEq, Repr, Inhabited

instance : Coded CurrentMedia where
  encode m := .object [("uri", encode m.uri), ("queue_id", encode m.queueId),
    ("queue_item_id", encode m.queueItemId)]
  decode j := do
    match ← Json.parts ["uri", "queue_id", "queue_item_id"] j with
    | [uri, queueId, queueItemId] =>
      return {
        uri := ← uri.optional
        queueId := ← queueId.optional
        queueItemId := ← queueItemId.optional }
    | _ => none

/-- What a player tells on every tick; a player has the same id as its queue. -/
structure PlayerReport where
  playerId : String
  displayName : String
  available : Bool
  powered : Bool
  state : Option PlayerState := none
  /-- The queue or the foreign source that feeds the player. -/
  activeSource : Option String := none
  /-- The player that this one follows. -/
  syncedTo : Option String := none
  /-- The group that is active for this player. -/
  activeGroup : Option String := none
  elapsedTime : Option Float := none
  /-- When the elapsed time was taken, in seconds of the wall clock. -/
  elapsedUpdated : Option Float := none
  currentMedia : Option CurrentMedia := none
  announcementInProgress : Bool
  deriving Repr, Inhabited

instance : Coded PlayerReport where
  encode r := .object [("player_id", encode r.playerId), ("display_name", encode r.displayName),
    ("available", encode r.available), ("powered", encode r.powered), ("state", encode r.state),
    ("active_source", encode r.activeSource), ("synced_to", encode r.syncedTo),
    ("active_group", encode r.activeGroup), ("elapsed_time", encode r.elapsedTime),
    ("elapsed_time_last_updated", encode r.elapsedUpdated),
    ("current_media", encode r.currentMedia),
    ("announcement_in_progress", encode r.announcementInProgress)]
  decode j := do
    match ← Json.parts ["player_id", "display_name", "available", "powered", "state",
      "active_source", "synced_to", "active_group", "elapsed_time", "elapsed_time_last_updated",
      "current_media", "announcement_in_progress"] j with
    | [playerId, displayName, available, powered, state, activeSource, syncedTo, activeGroup,
        elapsedTime, elapsedUpdated, currentMedia, announcementInProgress] =>
      return {
        playerId := ← playerId.required
        displayName := ← displayName.required
        available := ← available.required
        powered := ← powered.required
        state := ← state.optional
        activeSource := ← activeSource.optional
        syncedTo := ← syncedTo.optional
        activeGroup := ← activeGroup.optional
        elapsedTime := ← elapsedTime.optional
        elapsedUpdated := ← elapsedUpdated.optional
        currentMedia := ← currentMedia.optional
        announcementInProgress := ← announcementInProgress.required }
    | _ => none

namespace PlayerReport

/-- The elapsed seconds at a time: while playing they went on since they were taken. -/
def elapsedAt (r : PlayerReport) (now : Float) : Option Float :=
  match r.elapsedTime with
  | none => none
  | some elapsed =>
    match r.state, r.elapsedUpdated with
    | some .playing, some updated =>
      if updated < now then some (elapsed + (now - updated)) else some elapsed
    | _, _ => some elapsed

/-- Whether the player follows another one. -/
def isGrouped (r : PlayerReport) : Bool := r.activeGroup.isSome || r.syncedTo.isSome

end PlayerReport

/-- What a player is handed to play. -/
structure PlayerMedia where
  uri : String
  mediaType : MediaType
  title : Option String := none
  artist : Option String := none
  album : Option String := none
  imageUrl : Option String := none
  duration : Option UInt32 := none
  queueId : Option String := none
  queueItemId : Option String := none
  deriving DecidableEq, Repr, Inhabited

instance : Coded PlayerMedia where
  encode m := .object [("uri", encode m.uri), ("media_type", encode m.mediaType),
    ("title", encode m.title), ("artist", encode m.artist), ("album", encode m.album),
    ("image_url", encode m.imageUrl), ("duration", encode m.duration),
    ("queue_id", encode m.queueId), ("queue_item_id", encode m.queueItemId)]
  decode j := do
    match ← Json.parts ["uri", "media_type", "title", "artist", "album", "image_url", "duration",
      "queue_id", "queue_item_id"] j with
    | [uri, mediaType, title, artist, album, imageUrl, duration, queueId, queueItemId] =>
      return {
        uri := ← uri.required
        mediaType := ← mediaType.required
        title := ← title.optional
        artist := ← artist.optional
        album := ← album.optional
        imageUrl := ← imageUrl.optional
        duration := ← duration.optional
        queueId := ← queueId.optional
        queueItemId := ← queueItemId.optional }
    | _ => none

end Jukebox
