import Jukebox.Hub.Playback

/-!
# Handing over the next item

While an item plays, the one behind it is loaded and handed to the player, so that it goes on
without a gap. Items that can not be played are marked and passed over.
-/

namespace Jukebox.Command

/-- The items behind the current position are loaded in turn, at most `tries` of them, until one
can be played. -/
def loadFrom (queueId : String) : Nat → Nat → Command QueueItem
  | 0, _ => throw .noTracksLeft
  | tries + 1, position => do
    let e ← entry queueId
    let mode := e.queue.repeatMode
    match nextIndex e.items.length mode (some position) false true with
    | none => throw .noTracksLeft
    | some index =>
      match e.items[index]? with
      | none => throw .noTracksLeft
      | some item =>
        let following := nextIndex e.items.length mode (some index) false false
        match ← outcome (loadItem queueId item following false 0 false) with
        | .ok loaded => return loaded
        | .error failure =>
          if failure.isNotFound then
            let _ ← updateItem queueId item.id QueueItem.markUnavailable
            loadFrom queueId tries (position + 1)
          else throw failure

/-- The item that plays after another one, loaded. -/
def loadNextItem (queueId currentItemId : String) : Command QueueItem := do
  let e ← entry queueId
  match indexOf? e.items currentItemId with
  | none => throw (.noItem currentItemId)
  | some index => loadFrom queueId e.items.length index

/-- The next item is loaded and handed to the player, unless it was before; a continuous stream
needs no handing over. -/
def enqueueNext (queueId currentItemId : String) : Command Unit := do
  let item ← loadNextItem queueId currentItemId
  let q ← queue queueId
  if q.enqueuedNext = some item.id then pure ()
  else
    if !q.flowMode then
      let url ← look fun o _ => o.streamUrl item false
      call (.enqueueNext queueId (PlayerMedia.ofItem url item false))
    let _ ← modifyQueue queueId fun q => { q with enqueuedNext := some item.id }

/-- The next item is handed over, and the claim on it ends, whether that went well or not. -/
def preload (queueId currentItemId : String) : Command Unit := do
  let result ← outcome (enqueueNext queueId currentItemId)
  change fun _ h => h.modifyQueue queueId fun q => { q with preloading := none }
  match result with
  | .ok () => pure ()
  | .error failure => throw failure

end Jukebox.Command
