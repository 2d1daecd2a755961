import Jukebox.Table

/-!
# Snapshot stores

Texts under a base and a key. A queue keeps its state and its items under a base of its own, so
that they survive a restart.
-/

namespace Jukebox

structure Store where
  bases : Table (Table String) := {}
  deriving Repr, Inhabited

namespace Store

def empty : Store := {}

def get? (s : Store) (base key : String) : Option String :=
  (s.bases.get? base).bind (·.get? key)

/-- The store with a text put in place of any other under its base and key. -/
def set (s : Store) (base key value : String) : Store :=
  ⟨s.bases.insert base (((s.bases.get? base).getD Table.empty).insert key value)⟩

/-- The store without anything under a base. -/
def delete (s : Store) (base : String) : Store := ⟨s.bases.erase base⟩

/-- The number of texts. -/
def size (s : Store) : Nat := (s.bases.values.flatMap fun t => t.entries).length

/-- The base under which a queue is kept. -/
def queueBase (queueId : String) : String := "player_queue_state/" ++ queueId

def stateKey : String := "state"

def itemsKey : String := "items"

end Store

/-- Which uses of a store fail. -/
structure StoreFaults where
  reading : String → String → Bool := fun _ _ => false
  writing : String → String → Bool := fun _ _ => false
  deleting : String → Bool := fun _ => false

/-- A store that always works. -/
def StoreFaults.none : StoreFaults := {}

instance : Inhabited StoreFaults := ⟨.none⟩

end Jukebox
