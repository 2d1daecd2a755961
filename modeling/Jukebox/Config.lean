import Jukebox.Queue.Basic
import Jukebox.Table
import Jukebox.Text.Blank

/-!
# Configuration

How requested media is enqueued by default, how containers are expanded, how long things wait, and
the settings of single players. What is not configured has a default.
-/

namespace Jukebox

/-- Which tracks an artist stands for. -/
inductive ArtistSelect where
  | libraryTracks
  | libraryAlbumTracks
  | allTracks
  | allAlbumTracks
  deriving DecidableEq, Repr, Inhabited

namespace ArtistSelect

def libraryOnly : ArtistSelect → Bool
  | libraryTracks => true
  | libraryAlbumTracks => true
  | _ => false

/-- Whether the tracks are taken from the albums of the artist. -/
def byAlbum : ArtistSelect → Bool
  | libraryAlbumTracks => true
  | allAlbumTracks => true
  | _ => false

end ArtistSelect

/-- Which tracks an album stands for. -/
inductive AlbumSelect where
  | libraryTracks
  | allTracks
  deriving DecidableEq, Repr, Inhabited

/-- How long things wait, in milliseconds. -/
structure Timings where
  playDelay : Nat := 100
  /-- The wait when the player may still hold the item before. -/
  playDebounce : Nat := 1000
  radioFillDelay : Nat := 5000
  clearCheckInterval : Nat := 1000
  clearCheckAttempts : Nat := 5
  /-- The wait after a group was dissolved. -/
  groupDissolveDelay : Nat := 3000
  /-- The least time between two background calls to the catalog. -/
  catalogInterval : Nat := 0
  deriving DecidableEq, Repr, Inhabited

structure PlayerConfig where
  /-- Whether the player gets its queue as one continuous stream. -/
  flowMode : Bool := false
  crossfade : Bool := false
  deriving DecidableEq, Repr, Inhabited

structure Config where
  /-- The configured way to enqueue media of a type. -/
  enqueue : MediaType → Option EnqueueOption := fun _ => none
  artistSelect : ArtistSelect := .allTracks
  albumSelect : AlbumSelect := .allTracks
  timings : Timings := {}
  players : Table PlayerConfig := {}
  /-- The file that keeps snapshots; they are kept in memory without one. -/
  snapshotPath : Option String := none
  deriving Inhabited

namespace Config

/-- How media of a type is enqueued when the request does not say: a track is played at once,
anything else replaces the queue. -/
def defaultOption (c : Config) (type : MediaType) : EnqueueOption :=
  let configured := c.enqueue (if type = .flowStream then .unknown else type)
  configured.getD (if type = .track then .play else .replace)

def flowMode (c : Config) (playerId : String) : Bool := (c.players.get? playerId).any (·.flowMode)

def crossfade (c : Config) (playerId : String) : Bool :=
  (c.players.get? playerId).any (·.crossfade)

/-! ## Reading a configuration -/

/-- A part that may be missing, read by a function of its own. -/
def partWith {α : Type} (read : Json → Option α) : Json.Part → Option (Option α)
  | .given .null => some none
  | .given j => (read j).map some
  | .unnamed => some none
  | .beyond => none

def readArtistSelect (form : Json.Form) : Json → Option ArtistSelect :=
  Json.decodeNameIn form [("library_tracks", .libraryTracks),
    ("library_album_tracks", .libraryAlbumTracks), ("all_tracks", .allTracks),
    ("all_album_tracks", .allAlbumTracks)]

def readAlbumSelect (form : Json.Form) : Json → Option AlbumSelect :=
  Json.decodeNameIn form [("library_tracks", .libraryTracks), ("all_tracks", .allTracks)]

/-- The types that have an enqueue default, in the order of their fields. -/
def enqueueTypes : List MediaType :=
  [.artist, .album, .track, .radio, .playlist, .audiobook, .podcast, .podcastEpisode, .folder,
    .unknown]

/-- The enqueue defaults and the selections for artists and albums. -/
def readEnqueue (form : Json.Form) (j : Json) :
    Option ((MediaType → Option EnqueueOption) × ArtistSelect × AlbumSelect) := do
  let names := enqueueTypes.map MediaType.name ++ ["artist_select", "album_select"]
  let parts ← Json.partsIn form names j
  let options ← (parts.take enqueueTypes.length).mapM
    (partWith (Json.decodeNameIn form EnqueueOption.named))
  match parts.drop enqueueTypes.length with
  | [artist, album] =>
    let artist ← partWith (readArtistSelect form) artist
    let album ← partWith (readAlbumSelect form) album
    let table := enqueueTypes.zip options
    return (fun type => ((table.find? fun e => e.1 = type).map (·.2)).join,
      artist.getD .allTracks, album.getD .allTracks)
  | _ => none

def readTimings (form : Json.Form) (j : Json) : Option Timings := do
  match ← Json.partsIn form ["play_delay_ms", "play_debounce_ms", "radio_fill_delay_ms",
    "clear_check_interval_ms", "clear_check_attempts", "group_dissolve_delay_ms",
    "catalog_min_interval_ms"] j with
  | [playDelay, playDebounce, radioFill, clearInterval, clearAttempts, dissolve, catalog] =>
    let d : Timings := {}
    let wait (part : Json.Part) (default : Nat) : Option Nat := do
      return ((← part.optional (α := UInt64)).map UInt64.toNat).getD default
    return {
      playDelay := ← wait playDelay d.playDelay
      playDebounce := ← wait playDebounce d.playDebounce
      radioFillDelay := ← wait radioFill d.radioFillDelay
      clearCheckInterval := ← wait clearInterval d.clearCheckInterval
      clearCheckAttempts := ((← clearAttempts.optional).map UInt32.toNat).getD d.clearCheckAttempts
      groupDissolveDelay := ← wait dissolve d.groupDissolveDelay
      catalogInterval := ← wait catalog d.catalogInterval }
  | _ => none

def readPlayer (form : Json.Form) (j : Json) : Option PlayerConfig := do
  match ← Json.partsIn form ["flow_mode", "crossfade"] j with
  | [flow, fade] =>
    return { flowMode := (← flow.optional).getD false, crossfade := (← fade.optional).getD false }
  | _ => none

def readPlayers (form : Json.Form) : Json → Option (Table PlayerConfig)
  | .object fields => do
    let players ← fields.mapM fun f => do return (f.1, ← readPlayer form f.2)
    return Table.ofList players
  | _ => none

/-- The configured path, if there is more to it than blanks. -/
def pathOf (text : String) : Option String :=
  let path := Text.trim text
  if path.isEmpty then none else some path

/-- The configuration that a record stands for; wrong types and unknown names are refused. -/
def ofRecord (form : Json.Form) (j : Json) : Option Config := do
  match ← Json.partsIn form ["enqueue", "timing", "players", "snapshot_db_path"] j with
  | [enqueue, timing, players, path] =>
    let enqueue ← partWith (readEnqueue form) enqueue
    let timing ← partWith (readTimings form) timing
    let players ← partWith (readPlayers form) players
    let path : Option String ← path.optional
    let (option, artist, album) := enqueue.getD (fun _ => none, .allTracks, .allTracks)
    return {
      enqueue := option
      artistSelect := artist
      albumSelect := album
      timings := timing.getD {}
      players := players.getD {}
      snapshotPath := path.bind pathOf }
  | _ => none

def ofJson (j : Json) : Option Config := ofRecord .json j

end Config

end Jukebox
