import Jukebox.Hub.Jobs

/-!
# Timelines

A clock under which commands and jobs run side by side. A program runs until it has to wait, at one
instant; then the one whose time comes first goes on. Of those due at one time a command that is
waited for comes first, and then the order in which they began to wait decides.
-/

namespace Jukebox

/-- What answers the programs: what it can be seen to be, how long a call takes, and what the call
answers in the end. It is told when a client's program is finished. -/
structure World (σ ρ : Type) where
  outside : σ → Nat → Outside
  hear : σ → Nat → Call → σ × Nat
  answer : σ → (c : Call) → c.Reply
  finished : σ → Nat → Nat → ρ → σ

/-- A program that waits, possibly for the answer of a call. -/
inductive Paused (α : Type) where
  | rest (program : Program α)
  | answered (c : Call) (next : c.Reply → Program α)

/-- How a program stopped: finished, or paused until a time. -/
inductive Stop (α : Type) where
  | done (value : α)
  | paused (due : Nat) (paused : Paused α)

/-- A program runs at one instant until it is finished or has to wait. -/
def Program.run {σ ρ α : Type} (w : World σ ρ) (now : Nat) :
    Program α → σ → Hub → σ × Hub × Stop α
  | done value, s, h => (s, h, .done value)
  | read next, s, h => (next (w.outside s now) h).run w now s h
  | write h next, s, _ => next.run w now s h
  | call c next, s, h =>
    let (s, ms) := w.hear s now c
    if ms = 0 then (next (w.answer s c)).run w now s h
    else (s, h, .paused (now + ms) (.answered c next))
  | sleep ms next, s, h =>
    if ms = 0 then next.run w now s h else (s, h, .paused (now + ms) (.rest next))
  | turn next, s, h =>
    let (granted, throttle) := h.throttle.acquire .background now
    let h := { h with throttle }
    if granted ≤ now then next.run w now s h else (s, h, .paused granted (.rest next))

/-- A client's program, or a job, that waits in a hub. -/
structure Task (ρ : Type) where
  due : Nat
  /-- Nothing for a command that is waited for. -/
  number : Option Nat
  hub : Nat
  paused : Paused (Option (Nat × ρ))

/-- Where a hub keeps its snapshots. -/
inductive Volume where
  | shared
  | file (path : String)
  | memory (number : Nat)
  deriving DecidableEq, Repr, Inhabited

/-- A hub with the place of its snapshots. -/
structure Installation where
  hub : Hub
  volume : Volume
  deriving Inhabited

/-- All that goes on. Hubs that were replaced may still have work to end; all of them share the
random draws, the numbers of new items, and the places where snapshots are kept. -/
structure Timeline (σ ρ : Type) where
  now : Nat := 0
  state : σ
  hubs : List Installation
  tasks : List (Task ρ) := []
  draws : Draws
  nextItem : Nat := 1
  stores : List (Volume × Store) := []

namespace Timeline

variable {σ ρ : Type}

/-! ## Hubs -/

def storeOf (t : Timeline σ ρ) (v : Volume) : Store :=
  ((t.stores.find? fun e => e.1 = v).map (·.2)).getD Store.empty

def putStore (t : Timeline σ ρ) (v : Volume) (s : Store) : Timeline σ ρ :=
  { t with stores := (v, s) :: t.stores.filter fun e => e.1 ≠ v }

/-- The number of the hub that commands go to. -/
def current (t : Timeline σ ρ) : Nat := t.hubs.length - 1

/-- A hub with what it shares with the others. -/
def checkOut (t : Timeline σ ρ) (n : Nat) : Hub :=
  let i := t.hubs[n]?.getD default
  { i.hub with store := t.storeOf i.volume, draws := t.draws, nextItem := t.nextItem }

/-- A hub is put back. -/
def checkIn (t : Timeline σ ρ) (n : Nat) (h : Hub) : Timeline σ ρ :=
  let i := t.hubs[n]?.getD default
  { t.putStore i.volume h.store with
    hubs := t.hubs.set n { i with hub := h }
    draws := h.draws
    nextItem := h.nextItem }

/-- The hub that commands go to. -/
def hub (t : Timeline σ ρ) : Hub := t.checkOut t.current

def modifyHub (t : Timeline σ ρ) (f : Hub → Hub) : Timeline σ ρ := t.checkIn t.current (f t.hub)

/-- A new hub takes the place of the current one, whose waiting jobs are cancelled. -/
def install (t : Timeline σ ρ) (config : Config) (volume : Volume) : Timeline σ ρ :=
  let t := t.modifyHub fun h => { h with schedule := h.schedule.cancelAll }
  { t with hubs := t.hubs ++ [⟨Hub.start config {} t.draws t.nextItem, volume⟩] }

/-! ## Running -/

/-- A program runs in a hub until it stops; what it is then waits, or is told to the world. -/
def resume (w : World σ ρ) (t : Timeline σ ρ) (n : Nat) (number : Option Nat)
    (p : Program (Option (Nat × ρ))) : Timeline σ ρ :=
  let (state, h, stop) := p.run w t.now t.state (t.checkOut n)
  match stop with
  | .done none => { t with state }.checkIn n h
  | .done (some (client, value)) =>
    { t with state := w.finished state t.now client value }.checkIn n h
  | .paused due paused =>
    match number with
    | none => { t.checkIn n h with state, tasks := t.tasks ++ [⟨due, none, n, paused⟩] }
    | some _ =>
      let (number, schedule) := h.schedule.fresh
      { t.checkIn n { h with schedule } with
        state, tasks := t.tasks ++ [⟨due, some number, n, paused⟩] }

/-- What can go on next: a task, or a job that waits in a hub. -/
inductive Candidate (ρ : Type) where
  | task (index : Nat) (task : Task ρ)
  | job (hub : Nat) (waiting : Waiting Job)

namespace Candidate

def due : Candidate ρ → Nat
  | task _ t => t.due
  | job _ w => w.due

/-- The place among those due at one time. -/
def rank : Candidate ρ → Nat
  | task _ t => (t.number.map (· + 1)).getD 0
  | job _ w => w.number + 1

def before (a b : Candidate ρ) : Bool :=
  a.due < b.due || (a.due == b.due && a.rank < b.rank)

end Candidate

def candidates (t : Timeline σ ρ) : List (Candidate ρ) :=
  t.tasks.mapIdx Candidate.task ++
    (t.hubs.mapIdx fun n i => (i.hub.schedule.first?.map (Candidate.job n)).toList).flatten

/-- The candidate whose time comes first. -/
def first? (t : Timeline σ ρ) : Option (Candidate ρ) :=
  t.candidates.foldl (fun best c =>
    match best with
    | none => some c
    | some b => if c.before b then some c else some b) none

/-- A job as a program without a client. -/
def jobProgram (j : Job) : Program (Option (Nat × ρ)) := do
  let _ ← j.command.run
  return none

/-- The candidate goes on at its time. -/
def proceed (w : World σ ρ) (t : Timeline σ ρ) (c : Candidate ρ) : Timeline σ ρ :=
  let t := { t with now := max t.now c.due }
  match c with
  | .task index task =>
    let t := { t with tasks := t.tasks.eraseIdx index }
    match task.paused with
    | .rest p => t.resume w task.hub task.number p
    | .answered call next => t.resume w task.hub task.number (next (w.answer t.state call))
  | .job n waiting =>
    let h := t.checkOut n
    let t := t.checkIn n { h with schedule := h.schedule.remove waiting.number }
    t.resume w n (some waiting.number) (jobProgram waiting.job)

/-- Everything due at the present time goes on, in at most `fuel` turns. -/
def settle (w : World σ ρ) : Nat → Timeline σ ρ → Timeline σ ρ
  | 0, t => t
  | fuel + 1, t =>
    match t.first? with
    | none => t
    | some c => if c.due ≤ t.now then settle w fuel (t.proceed w c) else t

/-- Whether a command is waited for. -/
def isWaitedFor (t : Timeline σ ρ) : Bool := t.tasks.any fun task => task.number.isNone

/-- Time goes on until no command is waited for, in at most `fuel` turns. -/
def await (w : World σ ρ) : Nat → Timeline σ ρ → Timeline σ ρ
  | 0, t => t
  | fuel + 1, t =>
    if t.isWaitedFor then
      match t.first? with
      | none => t
      | some c => await w fuel (t.proceed w c)
    else t

/-- How many turns are taken at most for one command. -/
def turnLimit : Nat := 1000000

/-- A client's command is run to its end, and then everything else that is due. -/
def perform (w : World σ ρ) (t : Timeline σ ρ) (client : Nat) (p : Program ρ) : Timeline σ ρ :=
  let p : Program (Option (Nat × ρ)) := do return some (client, ← p)
  settle w turnLimit (await w turnLimit (t.resume w t.current none p))

/-- A client's command is begun and not waited for. -/
def launch (w : World σ ρ) (t : Timeline σ ρ) (client : Nat) (p : Program ρ) : Timeline σ ρ :=
  let p : Program (Option (Nat × ρ)) := do return some (client, ← p)
  settle w turnLimit (t.resume w t.current (some 0) p)

end Timeline

end Jukebox
