import Jukebox.Queue.Basic

/-!
# Observations

The part of a queue that is compared from one report to the next, and what changed between two of
them.
-/

namespace Jukebox

/-- What can be seen of a queue on a report. -/
structure Observation where
  state : PlayerState := .idle
  currentItemId : Option String := none
  nextItemId : Option String := none
  /-- Whole seconds. -/
  elapsed : Int := 0
  streamTitle : Option String := none
  contentType : Option String := none
  deriving DecidableEq, Repr, Inhabited

/-- Which parts differ between two observations. -/
structure Change where
  state : Bool := false
  currentItem : Bool := false
  nextItem : Bool := false
  elapsed : Bool := false
  streamTitle : Bool := false
  contentType : Bool := false
  deriving DecidableEq, Repr, Inhabited

namespace Observation

/-- What can be seen of a queue. -/
def ofQueue (q : Queue) : Observation :=
  let stream := q.currentItem.bind (·.stream)
  { state := q.state
    currentItemId := q.currentItem.map (·.id)
    nextItemId := q.nextItem.map (·.id)
    elapsed := Number.toSigned64 q.elapsed
    streamTitle := stream.bind (·.streamTitle)
    contentType := stream.bind (·.contentType) }

/-- The change from one observation to a newer one. -/
def changeTo (old new : Observation) : Change :=
  { state := old.state ≠ new.state
    currentItem := old.currentItemId ≠ new.currentItemId
    nextItem := old.nextItemId ≠ new.nextItemId
    elapsed := old.elapsed ≠ new.elapsed
    streamTitle := old.streamTitle ≠ new.streamTitle
    contentType := old.contentType ≠ new.contentType }

end Observation

namespace Change

def isEmpty (c : Change) : Bool := c = {}

/-- Whether the time went on and nothing else happened. -/
def onlyElapsed (c : Change) : Bool := c = { elapsed := true }

/-- Whether the queue points at other items. -/
def affectsItems (c : Change) : Bool := c.currentItem || c.nextItem

end Change

theorem Observation.changeTo_isEmpty_iff (a b : Observation) :
    (a.changeTo b).isEmpty = true ↔ a = b := by
  cases a; cases b
  simp [Observation.changeTo, Change.isEmpty]

end Jukebox
