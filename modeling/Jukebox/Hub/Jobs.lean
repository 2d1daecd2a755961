import Jukebox.Hub.Enqueue
import Jukebox.Hub.Preload

/-!
# Background work

What each job of the hub does once it starts.
-/

namespace Jukebox

/-- Whether a queue stays at its end: idle, with nothing behind its position. -/
def Entry.isAtEnd (e : Entry) : Bool :=
  e.queue.state = .idle && e.queue.nextItem.isNone &&
    decide (e.items.length ≤ e.queue.currentIndex.getD 0 + 1)

namespace Command

/-- The queue is cleared when it is at its end at each of a number of checks. -/
def clearCheck (queueId : String) : Nat → Command Unit
  | 0 => step fun o h => h.clear o queueId
  | checks + 1 => do
    sleep (← look fun _ h => h.timings.clearCheckInterval)
    match ← look fun _ h => h.entry? queueId with
    | none => pure ()
    | some e => if e.isAtEnd then clearCheck queueId checks else pure ()

end Command

/-- What a job does. -/
def Job.command : Job → Command Unit
  | dispatch queueId media => Command.call (.playMedia queueId media)
  | preload queueId currentItemId => Command.preload queueId currentItemId
  | fillRadio queueId => Command.fillRadio queueId
  | clearCheck queueId => do
    Command.clearCheck queueId (← Command.look fun _ h => h.timings.clearCheckAttempts)
  | stop queueId => Command.stop queueId
  | markPlayed report => Command.call (.markPlayed report)
  | streamed details seconds fully => Command.call (.streamed details seconds fully)

end Jukebox
