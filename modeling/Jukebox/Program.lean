import Jukebox.Hub.Editing

/-!
# Programs

A command of the hub that takes time is a program: it reads and changes the state of the hub, and
it stops where it calls a collaborator, sleeps, or waits for its turn to make a background call.
What happens between two stops happens at one instant. The reader of a program decides what is
answered and what goes on meanwhile.
-/

namespace Jukebox

inductive Program (α : Type) : Type where
  | done (value : α)
  | read (next : Outside → Hub → Program α)
  | write (hub : Hub) (next : Program α)
  | call (c : Call) (next : c.Reply → Program α)
  | sleep (ms : Nat) (next : Program α)
  /-- Waits for the turn of a background call. -/
  | turn (next : Program α)

namespace Program

variable {α β γ : Type}

def bind : Program α → (α → Program β) → Program β
  | done value, f => f value
  | read next, f => read fun o h => (next o h).bind f
  | write hub next, f => write hub (next.bind f)
  | call c next, f => call c fun reply => (next reply).bind f
  | sleep ms next, f => sleep ms (next.bind f)
  | turn next, f => turn (next.bind f)

instance : Monad Program where
  pure := done
  bind := bind

@[simp] theorem pure_eq (value : α) : (pure value : Program α) = done value := rfl

@[simp] theorem bind_eq (p : Program α) (f : α → Program β) : p >>= f = p.bind f := rfl

theorem bind_done (p : Program α) : p.bind done = p := by
  induction p with
  | done _ => rfl
  | read next ih => simp only [bind]; congr; funext o h; exact ih o h
  | write hub next ih => simp only [bind, ih]
  | call c next ih => simp only [bind]; congr; funext reply; exact ih reply
  | sleep ms next ih => simp only [bind, ih]
  | turn next ih => simp only [bind, ih]

theorem bind_assoc (p : Program α) (f : α → Program β) (g : β → Program γ) :
    (p.bind f).bind g = p.bind fun value => (f value).bind g := by
  induction p with
  | done _ => rfl
  | read next ih => simp only [bind]; congr; funext o h; exact ih o h
  | write hub next ih => simp only [bind, ih]
  | call c next ih => simp only [bind]; congr; funext reply; exact ih reply
  | sleep ms next ih => simp only [bind, ih]
  | turn next ih => simp only [bind, ih]

instance : LawfulMonad Program :=
  LawfulMonad.mk' Program (fun p => bind_done p) (fun _ _ => rfl) (fun p f g => bind_assoc p f g)

/-- An instant step of the hub. -/
def instant (f : Outside → Hub → α × Hub) : Program α :=
  read fun o h => write (f o h).2 (done (f o h).1)

end Program

/-- A program that may fail. -/
abbrev Command (α : Type) : Type := ExceptT Failure Program α

namespace Command

variable {α : Type}

/-- Something seen of the hub and the world. -/
def look (f : Outside → Hub → α) : Command α :=
  ExceptT.mk (.read fun o h => .done (.ok (f o h)))

/-- An instant change of the hub. -/
def change (f : Outside → Hub → Hub) : Command Unit :=
  ExceptT.mk (.instant fun o h => (.ok (), f o h))

/-- An instant step of the hub that may fail. -/
def step (f : Outside → Hub → Hub.Outcome α) : Command α := ExceptT.mk (.instant f)

/-- The outcome of a call to a collaborator. -/
def call (c : Call) : Command c.Answer := ExceptT.mk (.call c .done)

def sleep (ms : Nat) : Command Unit := ExceptT.mk (.sleep ms (.done (.ok ())))

/-- Waits for the turn of a background call; a call that a listener waits for has none. -/
def awaitTurn : Pace → Command Unit
  | .interactive => pure ()
  | .background => ExceptT.mk (.turn (.done (.ok ())))

/-- The outcome of a command as a value. -/
def outcome (c : Command α) : Command (Except Failure α) :=
  ExceptT.mk (do return .ok (← c.run))

/-! ## Queues -/

/-- The queue with its items. -/
def entry (queueId : String) : Command Entry := do
  match ← look fun _ h => h.entry? queueId with
  | some e => return e
  | none => throw (.noQueue queueId)

def queue (queueId : String) : Command Queue := do return (← entry queueId).queue

/-- The items of a queue, none for an unknown one. -/
def items (queueId : String) : Command (List QueueItem) := look fun _ h => h.items queueId

/-- A queue changed in place, and what it was before. -/
def modifyQueue (queueId : String) (f : Queue → Queue) : Command Queue :=
  step fun _ h =>
    match h.queue? queueId with
    | none => (.error (.noQueue queueId), h)
    | some q => (.ok q, h.modifyQueue queueId f)

/-- The report of a player, if it is known. -/
def report? (playerId : String) : Command (Option PlayerReport) :=
  look fun o _ => o.report? playerId

/-- A change of a queue is published and stored. -/
def signal (queueId : String) (itemsChanged : Bool) : Command Unit :=
  change fun o h => h.signal o queueId itemsChanged

end Command

end Jukebox
