import Jukebox.Hub.Jobs
import Jukebox.Hub.Reports

/-!
# Sessions

A hub with all that goes on in it. Every program, of a command or of a job, goes on by one stop at
a time: it sees the hub and changes it at one instant, or a call is answered. Between two stops of
one program anything else may happen, a waiting job may start at any time, and a call may be
answered by anything. On a timeline the same stops happen in one certain order
(`Session.exists_run_of_instant`).
-/

namespace Jukebox

/-- What a client can ask of a hub. -/
inductive Request where
  | setShuffle (queueId : String) (enabled : Bool)
  | setRepeat (queueId : String) (mode : RepeatMode)
  | setDontStop (queueId : String) (enabled : Bool)
  | playMedia (queueId : String) (media : List MediaRef) (option : Option EnqueueOption)
      (radio : Bool) (start : Option String)
  | moveItem (queueId itemId : String) (shift : Int)
  | deleteItem (queueId : String) (key : ItemKey)
  | clear (queueId : String)
  | stop (queueId : String)
  | play (queueId : String)
  | pause (queueId : String)
  | playPause (queueId : String)
  | next (queueId : String)
  | previous (queueId : String)
  | skip (queueId : String) (seconds : Int)
  | seek (queueId : String) (position : Int)
  | resume (queueId : String) (fadeIn : Option Bool)
  | playIndex (queueId : String) (key : ItemKey) (seek : UInt32) (fadeIn debounce : Bool)
  | transfer (sourceId targetId : String) (autoPlay : Option Bool)
  | loadNextItem (queueId currentItemId : String)
  | trackLoaded (queueId itemId : String)
  | logFlow (queueId : String) (entry : FlowEntry Float)
  | fillRadio (queueId : String)
  | shutdown

def Request.command : Request → Command Unit
  | setShuffle queueId enabled => .step fun o h => h.setShuffle o queueId enabled
  | setRepeat queueId mode => .step fun o h => h.setRepeat o queueId mode
  | setDontStop queueId enabled => .step fun o h => h.setDontStop o queueId enabled
  | playMedia queueId media option radio start =>
    Command.playMedia queueId media option radio start
  | moveItem queueId itemId shift => .step fun o h => h.moveItem o queueId itemId shift
  | deleteItem queueId key => .step fun o h => h.deleteItem o queueId key
  | clear queueId => .step fun o h => h.clear o queueId
  | stop queueId => Command.stop queueId
  | play queueId => Command.play queueId
  | pause queueId => Command.pause queueId
  | playPause queueId => Command.playPause queueId
  | next queueId => Command.next queueId
  | previous queueId => Command.previous queueId
  | skip queueId seconds => Command.skip queueId seconds
  | seek queueId position => Command.seek queueId position
  | resume queueId fadeIn => Command.resume queueId fadeIn
  | playIndex queueId key position fadeIn debounce =>
    Command.playIndex queueId key position fadeIn debounce
  | transfer sourceId targetId autoPlay => Command.transfer sourceId targetId autoPlay
  | loadNextItem queueId currentItemId => do
    let _ ← Command.loadNextItem queueId currentItemId
  | trackLoaded queueId itemId => .step fun o h => h.trackLoaded o queueId itemId
  | logFlow queueId entry => .step fun _ h => h.logFlow queueId entry
  | fillRadio queueId => Command.fillRadio queueId
  | shutdown => Command.shutdown

/-- The answer that each call would get. -/
abbrev Answers : Type := (c : Call) → c.Reply

namespace Program

variable {α : Type}

/-- A program goes on by one stop. -/
def advance (o : Outside) (answers : Answers) (h : Hub) : Program α → Program α × Hub
  | done value => (done value, h)
  | read next =>
    match next o h with
    | write h rest => (rest, h)
    | rest => (rest, h)
  | write h next => (next, h)
  | call c next => (next (answers c), h)
  | sleep _ next => (next, h)
  | turn next => (next, { h with throttle := (h.throttle.acquire .background o.now).2 })

def isDone : Program α → Bool
  | done _ => true
  | _ => false

end Program

/-- A command or a job under way. -/
structure Activity where
  /-- Nothing for a command. -/
  job : Option Job
  program : Program (Except Failure Unit)

structure Session where
  hub : Hub
  active : List Activity := []

/-- What can happen in a session at one instant. -/
inductive Move where
  | report (r : PlayerReport)
  | register (r : PlayerReport)
  | remove (playerId : String)
  | ask (request : Request)
  /-- The waiting job of a number starts. -/
  | start (number : Nat)
  /-- An activity goes on by one stop. -/
  | proceed (index : Nat) (answers : Answers)

namespace Session

/-- A session with an empty hub. -/
def start (config : Config) (store : Store) (draws : Draws) (nextItem : Nat) : Session :=
  { hub := Hub.start config store draws nextItem }

/-- The waiting job of a number. -/
def waiting? (s : Session) (number : Nat) : Option (Waiting Job) :=
  s.hub.schedule.waiting.find? (·.number = number)

/-- The activities after one of them went on; a finished one is gone. -/
def replace (active : List Activity) (index : Nat) (a : Activity) : List Activity :=
  if a.program.isDone then active.eraseIdx index else active.set index a

def step (s : Session) (o : Outside) : Move → Session
  | .report r => { s with hub := s.hub.onReport o r }
  | .register r => { s with hub := (s.hub.onRegister o r).2 }
  | .remove playerId => { s with hub := s.hub.onRemove o playerId }
  | .ask request => { s with active := s.active ++ [⟨none, request.command.run⟩] }
  | .start number =>
    match s.waiting? number with
    | none => s
    | some w =>
      { hub := { s.hub with schedule := s.hub.schedule.remove number }
        active := s.active ++ [⟨some w.job, w.job.command.run⟩] }
  | .proceed index answers =>
    match s.active[index]? with
    | none => s
    | some a =>
      let (program, hub) := a.program.advance o answers s.hub
      { hub, active := replace s.active index { a with program } }

/-- A session after a sequence of moves, each at an instant of its own. -/
def run (s : Session) (moves : List (Outside × Move)) : Session :=
  moves.foldl (fun s m => s.step m.1 m.2) s

end Session

end Jukebox
