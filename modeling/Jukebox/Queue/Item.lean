import Jukebox.Media

/-!
# Queue items

One entry of a play list: a media item or a bare stream, with the details of its stream once they
were looked up.
-/

namespace Jukebox

/-- What was found out about the stream of an item right before playing it. -/
structure StreamDetails where
  provider : String
  itemId : String
  mediaType : Option MediaType := none
  /-- The length of the stream in seconds. -/
  duration : Option UInt32 := none
  /-- The seconds left out at the start. -/
  seekPosition : UInt32
  fadeIn : Bool
  /-- The current title of a live stream. -/
  streamTitle : Option String := none
  contentType : Option String := none
  preferAlbumLoudness : Bool
  stripSilenceBegin : Bool
  stripSilenceEnd : Bool
  deriving DecidableEq, Repr, Inhabited

instance : Coded StreamDetails where
  encode d := .object [("provider", encode d.provider), ("item_id", encode d.itemId),
    ("media_type", encode d.mediaType), ("duration", encode d.duration),
    ("seek_position", encode d.seekPosition), ("fade_in", encode d.fadeIn),
    ("stream_title", encode d.streamTitle), ("content_type", encode d.contentType),
    ("prefer_album_loudness", encode d.preferAlbumLoudness),
    ("strip_silence_begin", encode d.stripSilenceBegin),
    ("strip_silence_end", encode d.stripSilenceEnd)]
  decode j := do
    match ← Json.parts ["provider", "item_id", "media_type", "duration", "seek_position", "fade_in",
      "stream_title", "content_type", "prefer_album_loudness", "strip_silence_begin",
      "strip_silence_end"] j with
    | [provider, itemId, mediaType, duration, seekPosition, fadeIn, streamTitle, contentType,
        preferAlbumLoudness, stripSilenceBegin, stripSilenceEnd] =>
      return {
        provider := ← provider.required
        itemId := ← itemId.required
        mediaType := ← mediaType.optional
        duration := ← duration.optional
        seekPosition := ← seekPosition.required
        fadeIn := ← fadeIn.required
        streamTitle := ← streamTitle.optional
        contentType := ← contentType.optional
        preferAlbumLoudness := ← preferAlbumLoudness.required
        stripSilenceBegin := ← stripSilenceBegin.required
        stripSilenceEnd := ← stripSilenceEnd.required }
    | _ => none

/-- An entry of a play list. -/
structure QueueItem where
  id : String
  queueId : String
  name : String
  uri : String
  duration : Option UInt32 := none
  /-- The place of the item when it was inserted; shuffling does not change it. -/
  sortIndex : Nat
  /-- Nothing for a bare stream. -/
  media : Option MediaItem := none
  stream : Option StreamDetails := none
  image : Option String := none
  available : Bool
  deriving Repr, Inhabited

instance : Coded QueueItem where
  encode i := .object [("queue_item_id", encode i.id), ("queue_id", encode i.queueId),
    ("name", encode i.name), ("uri", encode i.uri), ("duration", encode i.duration),
    ("sort_index", encode i.sortIndex), ("media_item", encode i.media),
    ("streamdetails", encode i.stream), ("image", encode i.image),
    ("available", encode i.available)]
  decode j := do
    match ← Json.parts ["queue_item_id", "queue_id", "name", "uri", "duration", "sort_index",
      "media_item", "streamdetails", "image", "available"] j with
    | [id, queueId, name, uri, duration, sortIndex, media, stream, image, available] =>
      return {
        id := ← id.required
        queueId := ← queueId.required
        name := ← name.required
        uri := ← uri.required
        duration := ← duration.optional
        sortIndex := ← sortIndex.required
        media := ← media.optional
        stream := ← stream.orElse none
        image := ← image.orElse none
        available := ← available.required }
    | _ => none

namespace QueueItem

/-- A fresh entry for a media item. -/
def ofMedia (id queueId : String) (media : MediaItem) : QueueItem :=
  { id, queueId
    name := media.name
    uri := media.uri
    duration := media.duration
    sortIndex := 0
    media := some media
    image := media.image
    available := media.available }

/-- The number that 64 bits hold of the place of the item, which goes on growing with every batch that
comes in before it. -/
def number (i : QueueItem) : UInt64 := .ofNat i.sortIndex

def mediaType (i : QueueItem) : MediaType := (i.media.map (·.mediaType)).getD .unknown

/-- Whether the item is passed over: it or its media was found to be unplayable. -/
def isUnplayable (i : QueueItem) : Bool := !i.available || i.media.any fun m => !m.available

/-- The item with itself and its media marked as unplayable. -/
def markUnavailable (i : QueueItem) : QueueItem :=
  { i with available := false, media := i.media.map fun m => { m with available := false } }

/-- The same entry in another queue. -/
def inQueue (i : QueueItem) (queueId : String) : QueueItem := { i with queueId }

theorem isUnplayable_markUnavailable (i : QueueItem) : i.markUnavailable.isUnplayable = true := by
  simp [isUnplayable, markUnavailable]

end QueueItem

/-- How an item of a list is named: by its position or by its id. -/
inductive ItemKey where
  | index (index : Nat)
  | id (id : String)
  deriving DecidableEq, Repr, Inhabited

/-- The position of the item with an id. -/
def indexOf? (items : List QueueItem) (id : String) : Option Nat :=
  items.findIdx? fun i => i.id = id

/-- The item that a key names. -/
def findItem? (items : List QueueItem) : ItemKey → Option QueueItem
  | .index n => items[n]?
  | .id id => items.find? fun i => i.id = id

end Jukebox
