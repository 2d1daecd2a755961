import Jukebox.Queue.Basic

/-!
# The order of play

Which position follows another one, and which of the following ones can be played.
-/

namespace Jukebox

/-- The position that follows `current` in a list of `length` items. Repeating one item ends when
the listener skips. -/
def nextIndex (length : Nat) (mode : RepeatMode) (current : Option Nat) (skipping mayRepeat : Bool) :
    Option Nat :=
  match current with
  | none => none
  | some current =>
    if length = 0 then none
    else if mode = .one ∧ !skipping then
      if mayRepeat then some current else none
    else if length - 1 ≤ current then
      if mayRepeat ∧ mode = .all then some 0 else none
    else some (current + 1)

/-- The first playable position reached from `cursor` in at most `tries` moves. -/
def seekPlayable (items : List QueueItem) (mode : RepeatMode) : Nat → Option Nat → Option Nat
  | 0, _ => none
  | tries + 1, cursor =>
    match nextIndex items.length mode cursor false true with
    | none => none
    | some index =>
      match items[index]? with
      | none => none
      | some item =>
        if item.isUnplayable then seekPlayable items mode tries (some index) else some index

/-- The position of the first playable item behind `current`; each item is looked at once. -/
def nextPlayable (items : List QueueItem) (mode : RepeatMode) (current : Option Nat) : Option Nat :=
  seekPlayable items mode items.length current

/-- The first playable item behind `current`. -/
def nextPlayableItem (items : List QueueItem) (mode : RepeatMode) (current : Option Nat) :
    Option QueueItem :=
  (nextPlayable items mode current).bind (items[·]?)

end Jukebox
