import Jukebox.Failure
import Jukebox.Player
import Jukebox.Queue.Item

/-!
# Collaborators

The calls that the hub makes to the media catalog, the players and the streams, and what each of
them answers. Any call may fail.
-/

namespace Jukebox

/-- How far an audiobook was heard, as its provider or the play log knows. -/
structure ResumeInfo where
  fullyPlayed : Bool := false
  positionMs : Option UInt64 := none
  deriving DecidableEq, Repr, Inhabited

/-- An entry for the play log; a container is played without saying how far. -/
structure PlayedReport where
  mediaType : MediaType
  itemId : String
  provider : String
  fullyPlayed : Option Bool := none
  seconds : Option UInt32 := none
  deriving DecidableEq, Repr, Inhabited

/-- The report that a container was played. -/
def PlayedReport.ofContainer (m : MediaItem) : PlayedReport :=
  { mediaType := m.mediaType, itemId := m.itemId, provider := m.provider }

/-- How the stream of an item is wanted. -/
structure StreamRequest where
  seekPosition : UInt32 := 0
  fadeIn : Bool := false
  preferAlbumLoudness : Bool := false
  deriving DecidableEq, Repr, Inhabited

/-- A call to a collaborator. -/
inductive Call where
  | itemByUri (uri : String)
  /-- The copy of an item in the library. -/
  | libraryItem (item : MediaItem)
  | artistTracks (artist : MediaItem) (libraryOnly : Bool)
  | artistAlbums (artist : MediaItem) (libraryOnly : Bool)
  | albumTracks (album : MediaItem) (libraryOnly : Bool)
  | playlistTracks (playlist : MediaItem)
  | podcastEpisodes (podcast : ItemRef)
  /-- The tracks that radio for an item starts from. -/
  | radioBase (item : MediaItem)
  | similarTracks (track : MediaItem) (allowLookup : Bool)
  | resumeInfo (book : MediaItem)
  | markPlayed (report : PlayedReport)
  | streamDetails (item : QueueItem) (request : StreamRequest)
  /-- How long a stream was heard. -/
  | streamed (details : StreamDetails) (seconds : UInt32) (fully : Bool)
  | playMedia (playerId : String) (media : PlayerMedia)
  /-- What the player is to go on with. -/
  | enqueueNext (playerId : String) (media : PlayerMedia)
  | play (playerId : String)
  | pause (playerId : String)
  | stop (playerId : String)
  | power (playerId : String) (on : Bool)
  deriving Repr, Inhabited

/-- What a call answers when it does not fail. -/
def Call.Answer : Call → Type
  | itemByUri _ => MediaItem
  | libraryItem _ => Option MediaItem
  | artistTracks .. => List MediaItem
  | artistAlbums .. => List MediaItem
  | albumTracks .. => List MediaItem
  | playlistTracks _ => List MediaItem
  | podcastEpisodes _ => List MediaItem
  | radioBase _ => List MediaItem
  | similarTracks .. => List MediaItem
  | resumeInfo _ => Option ResumeInfo
  | markPlayed _ => Unit
  | streamDetails .. => StreamDetails
  | streamed .. => Unit
  | playMedia .. => Unit
  | enqueueNext .. => Unit
  | play _ => Unit
  | pause _ => Unit
  | stop _ => Unit
  | power .. => Unit

/-- The outcome of a call. -/
abbrev Call.Reply (c : Call) : Type := Except Failure c.Answer

end Jukebox
