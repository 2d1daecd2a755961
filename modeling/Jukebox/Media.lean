import Jukebox.Json.Coded

/-!
# Media

What the catalog offers: tracks, containers of tracks, live radio, audiobooks and podcasts. An
item is identified by its uri.
-/

namespace Jukebox

/-- What a queue item or a stream is called. -/
inductive MediaType where
  | track
  | album
  | artist
  | playlist
  | radio
  | audiobook
  | podcast
  | podcastEpisode
  | folder
  | flowStream
  | unknown
  deriving DecidableEq, Repr, Inhabited

namespace MediaType

def name : MediaType → String
  | track => "track"
  | album => "album"
  | artist => "artist"
  | playlist => "playlist"
  | radio => "radio"
  | audiobook => "audiobook"
  | podcast => "podcast"
  | podcastEpisode => "podcast_episode"
  | folder => "folder"
  | flowStream => "flow_stream"
  | unknown => "unknown"

def all : List MediaType :=
  [track, album, artist, playlist, radio, audiobook, podcast, podcastEpisode, folder, flowStream,
    unknown]

end MediaType

instance : Coded MediaType where
  encode t := .text t.name
  decode := Json.decodeName (MediaType.all.map fun t => (t.name, t))

/-- A reference to a related item, such as the album of a track. -/
structure ItemRef where
  itemId : String
  provider : String
  name : String
  uri : String
  deriving DecidableEq, Repr, Inhabited

instance : Coded ItemRef where
  encode r := .object [("item_id", encode r.itemId), ("provider", encode r.provider),
    ("name", encode r.name), ("uri", encode r.uri)]
  decode j := do
    match ← Json.parts ["item_id", "provider", "name", "uri"] j with
    | [itemId, provider, name, uri] =>
      return {
        itemId := ← itemId.required
        provider := ← provider.required
        name := ← name.required
        uri := ← uri.required }
    | _ => none

/-- A chapter of an audiobook: its number counted from one and its start in seconds. -/
structure Chapter where
  position : UInt32
  name : String
  start : Float
  deriving Repr, Inhabited

instance : Coded Chapter where
  encode c := .object [("position", encode c.position), ("name", encode c.name),
    ("start", encode c.start)]
  decode j := do
    match ← Json.parts ["position", "name", "start"] j with
    | [position, name, start] =>
      return {
        position := ← position.required
        name := ← name.required
        start := ← start.required }
    | _ => none

/-- How far an audiobook or an episode was heard. -/
structure Resume where
  positionMs : Option UInt64 := none
  fullyPlayed : Bool := false
  deriving DecidableEq, Repr, Inhabited

/-- What an item is, with the details of its kind. -/
inductive MediaKind where
  | track (album : Option ItemRef) (artist : Option String)
  | album
  | artist
  | playlist
  | radio
  | audiobook (chapters : List Chapter) (resume : Resume)
  | podcast
  | podcastEpisode (podcast : Option ItemRef) (resume : Resume)
  | folder
  | unknown
  deriving Repr, Inhabited

namespace MediaKind

def mediaType : MediaKind → MediaType
  | track .. => .track
  | album => .album
  | artist => .artist
  | playlist => .playlist
  | radio => .radio
  | audiobook .. => .audiobook
  | podcast => .podcast
  | podcastEpisode .. => .podcastEpisode
  | folder => .folder
  | unknown => .unknown

/-- The fields behind the type name. -/
def details : MediaKind → List (String × Json)
  | track albumRef artistText => [("album", encode albumRef), ("artist", encode artistText)]
  | audiobook chapters resume => [("chapters", encode chapters),
      ("resume_position_ms", encode resume.positionMs),
      ("fully_played", encode resume.fullyPlayed)]
  | podcastEpisode series resume => [("podcast", encode series),
      ("resume_position_ms", encode resume.positionMs),
      ("fully_played", encode resume.fullyPlayed)]
  | _ => []

/-- A kind without details: the rest of a record may hold any fields, that of a list is empty. -/
def bare (kind : MediaKind) : Json → Option MediaKind
  | .list (_ :: _) => none
  | _ => some kind

/-- The kind of a given type, its details read from the rest of the record. -/
def ofDetails (type : MediaType) (rest : Json) : Option MediaKind :=
  match type with
  | .track => do
    match ← Json.parts ["album", "artist"] rest with
    | [albumRef, artistText] => return track (← albumRef.orElse none) (← artistText.orElse none)
    | _ => none
  | .audiobook => do
    match ← Json.parts ["chapters", "resume_position_ms", "fully_played"] rest with
    | [chapters, position, played] =>
      return audiobook (← chapters.orElse []) ⟨← position.orElse none, ← played.orElse false⟩
    | _ => none
  | .podcastEpisode => do
    match ← Json.parts ["podcast", "resume_position_ms", "fully_played"] rest with
    | [series, position, played] =>
      return podcastEpisode (← series.orElse none) ⟨← position.orElse none, ← played.orElse false⟩
    | _ => none
  | .album => album.bare rest
  | .artist => artist.bare rest
  | .playlist => playlist.bare rest
  | .radio => radio.bare rest
  | .podcast => podcast.bare rest
  | .folder => folder.bare rest
  | .unknown => unknown.bare rest
  | .flowStream => none

end MediaKind

/-- The type named by a value. -/
def MediaType.ofName? : Json → Option MediaType
  | .text s => MediaType.all.find? fun t => t.name = s
  | _ => none

/-- A kind is a record that names its type in the field `media_type`; a list names it first. -/
instance : Coded MediaKind where
  encode k := .object (("media_type", encode k.mediaType) :: k.details)
  decode
    | .object fields =>
      match Json.named "media_type" fields with
      | [tag] => do
        MediaKind.ofDetails (← MediaType.ofName? tag)
          (.object (fields.filter fun f => f.1 ≠ "media_type"))
      | _ => none
    | .list (tag :: rest) => do MediaKind.ofDetails (← MediaType.ofName? tag) (.list rest)
    | _ => none

/-- An item of the catalog; `available` is false once it was found to be unplayable. -/
structure MediaItem where
  itemId : String
  provider : String
  name : String
  uri : String
  duration : Option UInt32 := none
  available : Bool
  image : Option String := none
  kind : MediaKind
  deriving Repr, Inhabited

instance : Coded MediaItem where
  encode m := .object [("item_id", encode m.itemId), ("provider", encode m.provider),
    ("name", encode m.name), ("uri", encode m.uri), ("duration", encode m.duration),
    ("available", encode m.available), ("image", encode m.image), ("kind", encode m.kind)]
  decode j := do
    match ← Json.parts ["item_id", "provider", "name", "uri", "duration", "available", "image",
      "kind"] j with
    | [itemId, provider, name, uri, duration, available, image, kind] =>
      return {
        itemId := ← itemId.required
        provider := ← provider.required
        name := ← name.required
        uri := ← uri.required
        duration := ← duration.orElse none
        available := ← available.required
        image := ← image.orElse none
        kind := ← kind.required }
    | _ => none

namespace MediaItem

def mediaType (m : MediaItem) : MediaType := m.kind.mediaType

/-- The album of a track. -/
def album (m : MediaItem) : Option ItemRef :=
  match m.kind with
  | .track album _ => album
  | _ => none

/-- The artists of a track as one text. -/
def artist (m : MediaItem) : Option String :=
  match m.kind with
  | .track _ artist => artist
  | _ => none

/-- How far an audiobook or an episode was heard; other kinds can not be resumed. -/
def resume? (m : MediaItem) : Option Resume :=
  match m.kind with
  | .audiobook _ resume => some resume
  | .podcastEpisode _ resume => some resume
  | _ => none

def resumePositionMs (m : MediaItem) : Option UInt64 := m.resume?.bind (·.positionMs)

def fullyPlayed (m : MediaItem) : Bool := m.resume?.any (·.fullyPlayed)

/-- The item with another resume position; nothing changes for a kind that can not be resumed. -/
def withResumePosition (m : MediaItem) (position : Option UInt64) : MediaItem :=
  match m.kind with
  | .audiobook chapters resume =>
    { m with kind := .audiobook chapters { resume with positionMs := position } }
  | .podcastEpisode podcast resume =>
    { m with kind := .podcastEpisode podcast { resume with positionMs := position } }
  | _ => m

/-- Requests of these kinds are remembered as seeds for radio. -/
def seedsRadio (m : MediaItem) : Bool :=
  m.mediaType ∈ [MediaType.track, .album, .playlist, .artist]

def sameMedia (a b : MediaItem) : Bool := a.uri = b.uri

/-- The item as a reference. -/
def toRef (m : MediaItem) : ItemRef := ⟨m.itemId, m.provider, m.name, m.uri⟩

end MediaItem

end Jukebox
