import Jukebox.Draws
import Jukebox.Failure
import Jukebox.Queue.Basic

/-!
# Edits of a play list

Splicing a batch into a list, moving and deleting an item, and turning shuffle on and off. Items
are numbered when they are inserted, so that the order of insertion can be restored.
-/

namespace Jukebox

/-- Where a batch goes and what becomes of the items around it. -/
structure LoadOptions where
  insertAt : Nat := 0
  /-- Whether the items from `insertAt` on are kept behind the batch. -/
  keepRemaining : Bool := true
  /-- Whether the items before `insertAt` are kept. -/
  keepPlayed : Bool := true
  /-- Whether everything from `insertAt` on is shuffled. -/
  shuffle : Bool := false
  deriving DecidableEq, Repr, Inhabited

/-- The options that drop the whole list. -/
def LoadOptions.replacing : LoadOptions := { keepRemaining := false, keepPlayed := false }

namespace Edit

/-- A batch numbered from `first` on. -/
def numbered (first : Nat) (batch : List QueueItem) : List QueueItem :=
  batch.mapIdx fun offset i => { i with sortIndex := first + offset }

/-- Items numbered above `offset` more than before. -/
def renumbered (offset : Nat) (items : List QueueItem) : List QueueItem :=
  items.map fun i => { i with sortIndex := i.sortIndex + offset }

/-- What comes from the place of insertion on, before it is shuffled. -/
def upcoming (items batch : List QueueItem) (options : LoadOptions) : List QueueItem :=
  let place := min options.insertAt items.length
  numbered place batch ++
    (if options.keepRemaining then renumbered (place + batch.length) (items.drop place) else [])

/-- The list with a batch spliced in. -/
def splice (draws : Draws) (items batch : List QueueItem) (options : LoadOptions) :
    List QueueItem × Draws :=
  let played := if options.keepPlayed then items.take options.insertAt else []
  let (behind, draws) :=
    if options.shuffle then draws.shuffle (upcoming items batch options)
    else (upcoming items batch options, draws)
  (played ++ behind, draws)

/-- Where a move by `shift` takes the item at `index`; no shift means right behind the current
item. -/
def target (q : Queue) (index : Nat) (shift : Int) : Int :=
  let current : Int := q.currentIndex.getD 0
  if shift = 0 then (if q.state = .playing then current + 1 else current) else index + shift

/-- The list with an item moved, `none` when its target lies outside the upcoming part. -/
def move (q : Queue) (items : List QueueItem) (itemId : String) (shift : Int) :
    Except Failure (Option (List QueueItem)) :=
  match indexOf? items itemId, items.find? (fun i => i.id = itemId) with
  | some index, some item =>
    if q.isBuffered index then .error (.alreadyBuffered index)
    else
      let target := target q index shift
      if target < (q.currentIndex.getD 0 : Nat) ∨ (items.length : Int) < target then .ok none
      else
        let others := items.eraseIdx index
        .ok (some (others.insertIdx (min target.toNat others.length) item))
  | _, _ => .error (.noItem itemId)

/-- The position that a key names. -/
def position (items : List QueueItem) : ItemKey → Except Failure Nat
  | .index index => if index < items.length then .ok index else .error (.noIndex index)
  | .id id =>
    match indexOf? items id with
    | some index => .ok index
    | none => .error (.noItem id)

/-- The list without an item, `none` when it was played or buffered. -/
def delete (q : Queue) (items : List QueueItem) (key : ItemKey) :
    Except Failure (Option (List QueueItem)) :=
  match position items key with
  | .error failure => .error failure
  | .ok index => if q.isBuffered index then .ok none else .ok (some (items.eraseIdx index))

/-- The first position that neither was played nor is buffered. -/
def firstUpcoming (q : Queue) : Nat :=
  match q.bufferedIndex.orElse fun _ => q.currentIndex with
  | some index => index + 1
  | none => 0

/-- The list with its upcoming items shuffled, or put back in the order of insertion. -/
def reorder (draws : Draws) (q : Queue) (items : List QueueItem) (shuffle : Bool) :
    List QueueItem × Draws :=
  let first := firstUpcoming q
  let next := items.drop first
  let next :=
    if shuffle then next else next.mergeSort fun a b => decide (a.sortIndex ≤ b.sortIndex)
  splice draws items next { insertAt := first, keepRemaining := false, shuffle }

theorem length_numbered (first : Nat) (batch : List QueueItem) :
    (numbered first batch).length = batch.length := by
  simp [numbered]

theorem length_renumbered (offset : Nat) (items : List QueueItem) :
    (renumbered offset items).length = items.length := by
  simp [renumbered]

/-- When an item is moved, and where it goes. -/
theorem move_eq_some_iff {q : Queue} {items moved : List QueueItem} {itemId : String}
    {shift : Int} :
    move q items itemId shift = .ok (some moved) ↔
      ∃ index item, indexOf? items itemId = some index ∧
        items.find? (fun i => i.id = itemId) = some item ∧ q.isBuffered index = false ∧
        (q.currentIndex.getD 0 : Nat) ≤ target q index shift ∧
        target q index shift ≤ items.length ∧
        moved = (items.eraseIdx index).insertIdx
          (min (target q index shift).toNat (items.eraseIdx index).length) item := by
  unfold move
  constructor
  · intro hmove
    split at hmove
    · next index item hindex hitem =>
      split at hmove
      · cases hmove
      · next hbuffered =>
        dsimp only at hmove
        split at hmove
        · cases hmove
        · next hinside =>
          cases hmove
          refine ⟨index, item, hindex, hitem, Bool.eq_false_iff.2 hbuffered, ?_, ?_, rfl⟩
          · omega
          · omega
    · cases hmove
  · rintro ⟨index, item, hindex, hitem, hbuffered, hfrom, hto, rfl⟩
    simp only [hindex, hitem, hbuffered, Bool.false_eq_true, if_false]
    rw [if_neg (by omega)]

end Edit

end Jukebox
