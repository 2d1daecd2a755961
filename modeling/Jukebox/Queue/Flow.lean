import Jukebox.Queue.Basic

/-!
# Positions in a continuous stream

In flow mode a player renders the items of a queue as one stream and reports the seconds since it
began. The log of the entries put into the stream tells which item that is and how far into it.
The rule needs only addition, subtraction and order, so it is stated over any type of seconds.
-/

namespace Jukebox.Flow

/-- The position in a queue that a time in the stream stands for. -/
structure Position (τ : Type) where
  index : Option Nat
  elapsed : τ
  deriving Repr

/-- An entry of the log as the walk sees it: the seconds it lasts, its place in the list, and the
seconds left out at its start. -/
structure Span (τ : Type) where
  length : τ
  index : Option Nat
  seek : τ

section

variable {τ : Type} [Add τ] [Sub τ] [LT τ] [DecidableLT τ]

/-- The span that holds the time `total`, and the seconds played before it. -/
def locate (total : τ) : τ → List (Span τ) → Option (Span τ × τ)
  | _, [] => none
  | played, span :: more =>
    if played + span.length < total then locate total (played + span.length) more
    else some (span, played)

/-- The position of the time `total` in a log. Without a current index nothing is known; behind
the end of the log the current item has just begun. -/
def position (zero : τ) (current : Option Nat) (spans : List (Span τ)) (total : τ) : Position τ :=
  match current with
  | none => ⟨none, total⟩
  | some current =>
    match locate total zero spans with
    | none => ⟨some current, zero⟩
    | some (span, played) =>
      ⟨span.index.orElse fun _ => some current, total + span.seek - played⟩

end

/-- The seconds assumed of an entry that tells no length: a week. -/
def unknownLength : Nat := 3600 * 24 * 7

/-- The seconds an entry lasts; a stream that broke may have lasted none. -/
def effectiveLength {τ : Type} (seconds : Nat → τ) (e : FlowEntry τ) : τ :=
  match e.streamed with
  | some streamed => streamed
  | none => seconds ((e.duration.map (·.toNat)).getD unknownLength)

/-- The seconds left out at the start of the item at a position. -/
def seekAt (items : List QueueItem) (index : Option Nat) : Nat :=
  (((index.bind (items[·]?)).bind (·.stream)).map (·.seekPosition.toNat)).getD 0

/-- An entry of the log beside the list it was streamed from. -/
def span {τ : Type} (seconds : Nat → τ) (items : List QueueItem) (e : FlowEntry τ) : Span τ :=
  let index := indexOf? items e.itemId
  { length := effectiveLength seconds e, index, seek := seconds (seekAt items index) }

/-- The position in the queue after `total` seconds of the stream. -/
def streamPosition {τ : Type} [Add τ] [Sub τ] [LT τ] [DecidableLT τ] (seconds : Nat → τ)
    (current : Option Nat) (log : List (FlowEntry τ)) (items : List QueueItem) (total : τ) :
    Position τ :=
  position (seconds 0) current (log.map (span seconds items)) total

end Jukebox.Flow
