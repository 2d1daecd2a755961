/-!
# Failures

Why a command fails. The causes that the hub finds itself have constructors of their own among the
functions below; a collaborator may fail with any of the kinds.
-/

namespace Jukebox

inductive Failure where
  /-- Media can not be found or played. -/
  | notFound (what : String)
  /-- Nothing playable is left. -/
  | queueEmpty (what : String)
  /-- The player or its queue does not exist. -/
  | unavailable (what : String)
  /-- No source offers the feature. -/
  | unsupported (what : String)
  /-- The command does not fit the state of the queue. -/
  | invalidCommand (what : String)
  /-- The request is not clear. -/
  | invalidData (what : String)
  /-- The item was already played or handed to the player. -/
  | alreadyBuffered (index : Nat)
  /-- Something else went wrong in a collaborator. -/
  | collaborator (what : String)
  deriving DecidableEq, Repr, Inhabited

namespace Failure

def message : Failure → String
  | notFound what => "media not found: " ++ what
  | queueEmpty what => "queue is empty: " ++ what
  | unavailable what => "player unavailable: " ++ what
  | unsupported what => "unsupported feature: " ++ what
  | invalidCommand what => "invalid command: " ++ what
  | invalidData what => "invalid data: " ++ what
  | alreadyBuffered index =>
    "item at index " ++ toString index ++ " is already played/buffered"
  | collaborator what => what

/-- Whether the failure marks a single item as unplayable. -/
def isNotFound : Failure → Bool
  | notFound _ => true
  | _ => false

/-! ## Causes -/

def noQueue (queueId : String) : Failure :=
  .unavailable ("queue " ++ queueId ++ " is not available")

/-- A command names an item that is not in the list. -/
def noItem (itemId : String) : Failure := .notFound ("queue item " ++ itemId)

/-- A command names a position behind the list. -/
def noIndex (index : Nat) : Failure := .notFound ("queue index " ++ toString index)

/-- An item that should be played is not in the list. -/
def unknownItem (itemId : String) : Failure := .notFound ("unknown queue item " ++ itemId)

/-- A position that should be played lies behind the list. -/
def unknownIndex (index : Nat) : Failure := .notFound ("unknown queue index " ++ toString index)

def nothingPlayable : Failure := .notFound "no playable items found"

def noTracksLeft : Failure := .queueEmpty "no more (playable) tracks left in the queue"

def nothingToResume (displayName : String) : Failure :=
  .queueEmpty ("resume requested but queue " ++ displayName ++ " is empty")

def nothingLoaded (displayName : String) : Failure :=
  .invalidCommand ("queue " ++ displayName ++ " has no item(s) loaded")

def seekWithoutDuration : Failure := .invalidCommand "can not seek items without duration"

def seekOutsideDuration : Failure := .invalidCommand "can not seek outside of duration range"

def dontStopUnsupported : Failure :=
  .unsupported "don't stop the music is not supported by any of the available sources"

def noRadio : Failure := .unsupported "radio mode not available for source items"

def noChapter (chapter book : String) : Failure :=
  .invalidData ("unable to resolve chapter " ++ chapter ++ " of audiobook " ++ book)

def noEpisode (podcast : String) : Failure :=
  .invalidData ("unable to resolve episode to play for podcast " ++ podcast)

def episodeWithoutPodcast (episode : String) : Failure :=
  .invalidData ("episode " ++ episode ++ " has no podcast")

end Failure

end Jukebox
