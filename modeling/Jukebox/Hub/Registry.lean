import Jukebox.Hub.Basic
import Jukebox.Json.Reader
import Jukebox.Json.Writer
import Jukebox.Queue.Edit

/-!
# Registered queues

Queues come with their players and go with them. A snapshot of each queue is stored after every
change and restored when its player registers again; a snapshot that can not be read or does not
fit is dropped, and the queue starts empty.
-/

namespace Jukebox.Hub

/-! ## Snapshots -/

/-- A stored text, `none` when it is missing or can not be read. -/
def stored? (h : Hub) (o : Outside) (base key : String) : Option String :=
  if o.faults.reading base key then none else h.store.get? base key

/-- What a stored text stands for. -/
def parse? {α : Type} [Coded α] (text : String) : Option α := (Json.read text).bind decode

/-- The stored items of a queue: none at all if nothing is stored, `none` on any fault. -/
def storedItems? (h : Hub) (o : Outside) (base : String) : Option (List QueueItem) :=
  if o.faults.reading base Store.itemsKey then none
  else
    match h.store.get? base Store.itemsKey with
    | none => some []
    | some text => parse? text

/-- A restored queue as it looks after a restart: nothing plays, nothing is handed to the player,
and the position counts as buffered. -/
def settled (q : Queue) (items : List QueueItem) : Queue :=
  { q with
    active := false
    state := .idle
    nextItem := none
    enqueuedNext := none
    flowLog := []
    bufferedIndex := q.currentIndex
    currentItem := q.currentIndex.bind (items[·]?) }

/-- Whether a queue and a list belong together and to an id: the position lies in the list, and the
items have the id as their owner. -/
def belong (queueId : String) (q : Queue) (items : List QueueItem) : Bool :=
  q.id = queueId && q.currentIndex.all (· < items.length) &&
    items.all fun i => i.queueId = queueId

/-- The stored queue and its items, when they belong together and to this queue. -/
def restored? (h : Hub) (o : Outside) (queueId : String) : Option (Queue × List QueueItem) :=
  let base := Store.queueBase queueId
  match h.stored? o base Store.stateKey with
  | none => none
  | some text =>
    match (parse? text : Option Queue), h.storedItems? o base with
    | some q, some items =>
      if belong queueId q items then some (settled q items, items) else none
    | _, _ => none

/-- The store with the snapshot of a queue; the first write that fails ends it. -/
def writeSnapshot (o : Outside) (store : Store) (q : Queue) (items : Option (List QueueItem)) :
    Store :=
  let base := Store.queueBase q.id
  let writeState (store : Store) : Store :=
    if o.faults.writing base Store.stateKey then store
    else store.set base Store.stateKey (encode q).toText
  match items with
  | none => writeState store
  | some items =>
    if o.faults.writing base Store.itemsKey then store
    else writeState (store.set base Store.itemsKey (encode items).toText)

/-- The state of a queue is stored, with its items if they changed. -/
def persist (h : Hub) (o : Outside) (queueId : String) (itemsChanged : Bool) : Hub :=
  match h.entry? queueId with
  | none => h
  | some e =>
    { h with store := writeSnapshot o h.store e.queue (if itemsChanged then some e.items else none) }

/-- A change of a queue is published and stored. -/
def signal (h : Hub) (o : Outside) (queueId : String) (itemsChanged : Bool) : Hub :=
  match h.queue? queueId with
  | none => h
  | some q =>
    let h := if itemsChanged then h.publish (.itemsUpdated q.id q.itemCount) else h
    (h.publish (.queueUpdated q)).persist o queueId itemsChanged

/-! ## Coming and going -/

/-- The queue of a player, restored if possible. -/
def register (h : Hub) (o : Outside) (queueId displayName : String) (available : Bool) :
    Queue × Hub :=
  let (q, items) :=
    (h.restored? o queueId).getD (Queue.empty queueId displayName available, [])
  let q := { q with displayName, available, itemCount := items.length }
  (q, h.putEntry queueId { queue := q, items })

/-- The queue is dropped with its snapshot; tells whether there was one. -/
def deregister (h : Hub) (o : Outside) (queueId : String) : Bool × Hub :=
  let base := Store.queueBase queueId
  (h.contains queueId,
    { h with
      queues := h.queues.erase queueId
      store := if o.faults.deleting base then h.store else h.store.delete base })

/-! ## Items -/

/-- The items of a queue are replaced and counted. -/
def putItems (h : Hub) (queueId : String) (q : Queue) (items : List QueueItem) : Hub :=
  h.modifyEntry queueId fun e =>
    { e with queue := { q with itemCount := items.length }, items }

/-- The list of a queue was changed: nothing is handed to the player any more, and the change is
signalled. -/
def commit (h : Hub) (o : Outside) (queueId : String) (q : Queue) (items : List QueueItem) : Hub :=
  (h.putItems queueId { q with enqueuedNext := none } items).signal o queueId true

/-- One item changed wherever it is in the list, and with it the current item of the same id. -/
def updateItem (h : Hub) (queueId itemId : String) (f : QueueItem → QueueItem) :
    Except Failure (Option QueueItem) × Hub :=
  match h.entry? queueId with
  | none => (.error (.noQueue queueId), h)
  | some e =>
    match indexOf? e.items itemId, e.items.find? (fun i => i.id = itemId) with
    | some index, some item =>
      let item := f item
      let current :=
        e.queue.currentItem.map fun c => if c.id = itemId then item else c
      (.ok (some item),
        h.putItems queueId { e.queue with currentItem := current } (e.items.set index item))
    | _, _ => (.ok none, h.putItems queueId e.queue e.items)

end Jukebox.Hub
