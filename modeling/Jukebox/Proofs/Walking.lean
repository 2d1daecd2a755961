import Jukebox.Proofs.Histories
import Jukebox.Proofs.Moving

/-!
# Walks to the first item that loads

Looking an item up asks the library for its media and then for its stream
(`QueueItem.LooksUp`): the item loads, or it can not be found, or something else goes wrong. A walk
over some positions of a list looks the items up in turn, passes over those that can not be found,
and stops at the first one for which this is not so (`Walk`). It marks what it passes over and keeps
what it loaded (`walked`). In a list that does not repeat, the item that plays after another one is
found by such a walk over the positions behind it (`first_loading_handed_over`).
-/

namespace Jukebox

/-! ## Walks -/

section Walks

variable {α β : Type}

/-- Whether a walk over these elements, in which trying an element asks and ends as `tries` says,
can ask this, pass over `passed` and stop at `last`. -/
inductive Walk (tries : α → List Answered → Except Failure β → Prop) :
    List α → List Answered → List α → Option (α × Except Failure β) → Prop
  /-- Nothing is left to try. -/
  | exhausts : Walk tries [] [] [] none
  /-- What can not be found is passed over. -/
  | passes {x : α} {xs : List α} {asked rest : List Answered} {failure : Failure}
      {passed : List α} {last : Option (α × Except Failure β)}
      (hx : tries x asked (.error failure)) (hmissing : failure.isNotFound = true)
      (hrest : Walk tries xs rest passed last) :
      Walk tries (x :: xs) (asked ++ rest) (x :: passed) last
  /-- An element that is found ends the walk. -/
  | finds {x : α} {xs : List α} {asked : List Answered} {value : β}
      (hx : tries x asked (.ok value)) : Walk tries (x :: xs) asked [] (some (x, .ok value))
  /-- Any other failure ends the walk. -/
  | fails {x : α} {xs : List α} {asked : List Answered} {failure : Failure}
      (hx : tries x asked (.error failure)) (hfails : failure.isNotFound = false) :
      Walk tries (x :: xs) asked [] (some (x, .error failure))

variable {tries tries' : α → List Answered → Except Failure β → Prop} {xs passed : List α}
  {asked : List Answered} {last : Option (α × Except Failure β)}

/-- Elements are tried in order. -/
theorem Walk.isPrefix (hwalk : Walk tries xs asked passed last) :
    passed ++ (last.map (·.1)).toList <+: xs := by
  induction hwalk with
  | exhausts => exact List.prefix_rfl
  | passes _ _ _ ih => exact (List.prefix_append_right_inj [_]).2 ih
  | finds _ => exact List.prefix_append [_] _
  | fails _ _ => exact List.prefix_append [_] _

theorem Walk.congr (hwalk : Walk tries xs asked passed last)
    (htries : ∀ x ∈ xs, ∀ asked outcome, tries x asked outcome → tries' x asked outcome) :
    Walk tries' xs asked passed last := by
  induction hwalk with
  | exhausts => exact .exhausts
  | passes hx hmissing _ ih =>
    refine .passes (htries _ List.mem_cons_self _ _ hx) hmissing (ih fun y hy => ?_)
    exact htries y (List.mem_cons_of_mem _ hy)
  | finds hx => exact .finds (htries _ List.mem_cons_self _ _ hx)
  | fails hx hfails => exact .fails (htries _ List.mem_cons_self _ _ hx) hfails

end Walks

/-! ## Looking up -/

namespace QueueItem

/-- Whether finding the media of an item can ask this and end so. The library may know the media;
if not, media without an image is looked up again, and kept when that fails. -/
inductive FindsMedia (item : QueueItem) :
    List Answered → Except Failure (Option MediaItem) → Prop
  | bare (hmedia : item.media = none) : FindsMedia item [] (.ok none)
  | fails {media : MediaItem} {failure : Failure} (hmedia : item.media = some media) :
      FindsMedia item [⟨.libraryItem media, .error failure⟩] (.error failure)
  | known {media known : MediaItem} (hmedia : item.media = some media) :
      FindsMedia item [⟨.libraryItem media, .ok (some known)⟩] (.ok (some known))
  | pictured {media : MediaItem} (hmedia : item.media = some media)
      (himage : media.image.isSome = true) :
      FindsMedia item [⟨.libraryItem media, .ok none⟩] (.ok (some media))
  | again {media : MediaItem} {reply : Except Failure MediaItem} (hmedia : item.media = some media)
      (himage : media.image = none) :
      FindsMedia item [⟨.libraryItem media, .ok none⟩, ⟨.itemByUri item.uri, reply⟩]
        (.ok (some (reply.toOption.getD media)))

/-- Whether looking an item up can ask this and end so: with the media and the stream that were
found, or with the failure of the library or of the streams. -/
inductive LooksUp (item : QueueItem) : List Answered → Except Failure QueueItem → Prop
  | unknown {asked : List Answered} {failure : Failure}
      (hmedia : item.FindsMedia asked (.error failure)) : LooksUp item asked (.error failure)
  | missing {asked : List Answered} {media : Option MediaItem} {failure : Failure}
      (request : StreamRequest) (hmedia : item.FindsMedia asked (.ok media)) :
      LooksUp item (asked ++ [⟨.streamDetails { item with media } request, .error failure⟩])
        (.error failure)
  | loads {asked : List Answered} {media : Option MediaItem} {details kept : StreamDetails}
      (request : StreamRequest) (hmedia : item.FindsMedia asked (.ok media))
      (hkept : ∃ stripBegin stripEnd,
        kept = { details with stripSilenceBegin := stripBegin, stripSilenceEnd := stripEnd }) :
      LooksUp item (asked ++ [⟨.streamDetails { item with media } request, .ok details⟩])
        (.ok { item with media, stream := some kept })

/-- An item that was loaded is the same but for its media and its stream. -/
theorem LooksUp.loaded_eq {item loaded : QueueItem} {asked : List Answered}
    (hlooks : item.LooksUp asked (.ok loaded)) :
    loaded = { item with media := loaded.media, stream := loaded.stream } := by
  cases hlooks
  rfl

end QueueItem

/-! ## Walks over a list -/

/-- Whether trying a position of a list, where the item there is looked up, can ask this and end
so. -/
def Tries (items : List QueueItem) (index : Nat) (asked : List Answered)
    (outcome : Except Failure QueueItem) : Prop :=
  ∃ item, items[index]? = some item ∧ item.LooksUp asked outcome

/-- A list after a walk over positions of it: the items that were passed over are marked as
unplayable, and the one that was loaded, if any, has the media and the stream that were found. -/
def walked (items : List QueueItem) (passed : List Nat)
    (last : Option (Nat × Except Failure QueueItem)) : List QueueItem :=
  items.mapIdx fun index item =>
    if index ∈ passed then item.markUnavailable
    else
      match last with
      | some (found, .ok loaded) =>
        if index = found then { item with media := loaded.media, stream := loaded.stream } else item
      | _ => item

section

variable {items : List QueueItem} {item : QueueItem} {index : Nat} {passed : List Nat}
  {last : Option (Nat × Except Failure QueueItem)}

theorem walked_exhausted (items : List QueueItem) : walked items [] none = items :=
  List.ext_getElem? fun n => by simp [walked]

theorem walked_failed (items : List QueueItem) (index : Nat) (failure : Failure) :
    walked items [] (some (index, .error failure)) = items :=
  List.ext_getElem? fun n => by simp [walked]

theorem walked_found (hitem : items[index]? = some item) {asked : List Answered}
    {loaded : QueueItem} (hlooks : item.LooksUp asked (.ok loaded)) :
    walked items [] (some (index, .ok loaded)) = items.set index loaded := by
  refine List.ext_getElem? fun n => ?_
  rw [walked, List.getElem?_mapIdx]
  by_cases hn : n = index
  · subst hn
    obtain ⟨hlt, -⟩ := List.getElem?_eq_some_iff.1 hitem
    rw [List.getElem?_set_self hlt, hitem]
    simp [← hlooks.loaded_eq]
  · rw [List.getElem?_set_ne (Ne.symm hn)]
    simp [hn]

/-- A walk that passes over an item marks it, and goes on. -/
theorem walked_passed (hitem : items[index]? = some item) (hpassed : index ∉ passed)
    (hlast : ∀ outcome, last ≠ some (index, outcome)) :
    walked (items.set index item.markUnavailable) passed last =
      walked items (index :: passed) last := by
  refine List.ext_getElem? fun n => ?_
  rw [walked, walked, List.getElem?_mapIdx, List.getElem?_mapIdx]
  by_cases hn : n = index
  · subst hn
    obtain ⟨hlt, -⟩ := List.getElem?_eq_some_iff.1 hitem
    rw [List.getElem?_set_self hlt, hitem]
    rcases last with _ | ⟨found, outcome⟩
    · simp [hpassed]
    · have hfound : n ≠ found := by
        rintro rfl
        exact hlast outcome rfl
      cases outcome <;> simp [hpassed, hfound]
  · rw [List.getElem?_set_ne (Ne.symm hn)]
    simp [hn]

end

/-- Whether a walk over some positions of a list can ask this, pass over `passed`, stop at `last`
and leave the list as `items'`. -/
structure Walks (items : List QueueItem) (order : List Nat) (asked : List Answered)
    (passed : List Nat) (last : Option (Nat × Except Failure QueueItem))
    (items' : List QueueItem) : Prop where
  walk : Walk (Tries items) order asked passed last
  items_eq : items' = walked items passed last

namespace Walks

variable {items items' : List QueueItem} {item : QueueItem} {index : Nat} {order passed : List Nat}
  {asked rest : List Answered} {last : Option (Nat × Except Failure QueueItem)} {failure : Failure}

theorem exhausts (items : List QueueItem) : Walks items [] [] [] none items :=
  ⟨.exhausts, (walked_exhausted items).symm⟩

theorem finds {loaded : QueueItem} (hitem : items[index]? = some item)
    (hlooks : item.LooksUp asked (.ok loaded)) (order : List Nat) :
    Walks items (index :: order) asked [] (some (index, .ok loaded)) (items.set index loaded) :=
  ⟨.finds ⟨item, hitem, hlooks⟩, (walked_found hitem hlooks).symm⟩

theorem fails (hitem : items[index]? = some item) (hlooks : item.LooksUp asked (.error failure))
    (hfails : failure.isNotFound = false) (order : List Nat) :
    Walks items (index :: order) asked [] (some (index, .error failure)) items :=
  ⟨.fails ⟨item, hitem, hlooks⟩ hfails, (walked_failed items index failure).symm⟩

/-- A walk over positions of their own goes on in the list in which it marked the first item. -/
theorem passes (hitem : items[index]? = some item) (hlooks : item.LooksUp asked (.error failure))
    (hmissing : failure.isNotFound = true) (hnew : index ∉ order)
    (hrest : Walks (items.set index item.markUnavailable) order rest passed last items') :
    Walks items (index :: order) (asked ++ rest) (index :: passed) last items' := by
  have htried := hrest.walk.isPrefix.subset
  refine ⟨.passes ⟨item, hitem, hlooks⟩ hmissing (hrest.walk.congr ?_), ?_⟩
  · rintro other hother asked outcome ⟨item, hitem, hlooks⟩
    have hne : index ≠ other := fun heq => hnew (heq ▸ hother)
    rw [List.getElem?_set_ne hne] at hitem
    exact ⟨item, hitem, hlooks⟩
  · rw [hrest.items_eq]
    refine walked_passed hitem (fun hpassed => hnew ?_) fun outcome hlast => hnew ?_
    · exact htried (List.mem_append_left _ hpassed)
    · refine htried (List.mem_append_right _ ?_)
      rw [hlast]
      exact List.mem_singleton.2 rfl

end Walks

/-! ## Steps on an entry -/

/-- Whether `rest` is what is left of a history after some steps in which nothing was asked and no
job was scheduled. -/
structure Quietly (history rest : List Happening) : Prop where
  asked_eq : asked history = asked rest
  books {bookings : List Booking} (hrest : Books rest bookings) : Books history bookings

theorem Quietly.trans {history rest last : List Happening} (hfirst : Quietly history rest)
    (hthen : Quietly rest last) : Quietly history last :=
  ⟨hfirst.asked_eq.trans hthen.asked_eq, fun hlast => hfirst.books (hthen.books hlast)⟩

theorem quietly_changed {before after : Hub} (hsame : after.schedule = before.schedule)
    (rest : List Happening) : Quietly (.changed before after :: rest) rest :=
  ⟨rfl, .kept hsame⟩

namespace Hub

variable {queueId : String} {h h' : Hub} {e : Entry}

theorem queue?_of_entry (he : h.entry? queueId = some e) : h.queue? queueId = some e.queue := by
  rw [queue?_eq_map, he]
  rfl

theorem entry?_of_touches {f : Entry → Entry} (htouches : Touches queueId f h h')
    (he : h.entry? queueId = some e) : h'.entry? queueId = some (f e) := by
  rw [htouches, if_pos rfl, he]
  rfl

end Hub

theorem ids_marked {items : List QueueItem} {index : Nat} {item : QueueItem}
    (hitem : items[index]? = some item) :
    ids (items.set index item.markUnavailable) = ids items := by
  obtain ⟨hlt, rfl⟩ := List.getElem?_eq_some_iff.1 hitem
  calc ids (items.set index items[index].markUnavailable)
      = (ids items).set index items[index].id := List.map_set
    _ = ids (items.set index items[index]) := List.map_set.symm
    _ = ids items := by rw [List.set_getElem_self]

/-- Whether an entry is another one with this list, where the queue at most counts the items anew
and takes over how its current item looks. -/
def Entry.Relists (e : Entry) (items : List QueueItem) (e' : Entry) : Prop :=
  ∃ current count, e' =
    { e with queue := { e.queue with currentItem := current, itemCount := count }, items }

namespace Entry

variable {e e' e'' : Entry} {items items' : List QueueItem}

theorem Relists.refl (e : Entry) : e.Relists e.items e :=
  ⟨e.queue.currentItem, e.queue.itemCount, rfl⟩

theorem Relists.trans (hfirst : e.Relists items e') (hthen : e'.Relists items' e'') :
    e.Relists items' e'' := by
  obtain ⟨_, _, rfl⟩ := hfirst
  obtain ⟨current, count, rfl⟩ := hthen
  exact ⟨current, count, rfl⟩

theorem Relists.items_eq (hrelists : e.Relists items e') : e'.items = items := by
  obtain ⟨_, _, rfl⟩ := hrelists
  rfl

theorem Relists.repeatMode_eq (hrelists : e.Relists items e') :
    e'.queue.repeatMode = e.queue.repeatMode := by
  obtain ⟨_, _, rfl⟩ := hrelists
  rfl

/-- An item that is alone with its id is changed where it is. -/
theorem Relists.updateItem (hrelists : e.Relists items e') (hids : (ids items).Nodup) {index : Nat}
    {item : QueueItem} (hitem : items[index]? = some item) (f : QueueItem → QueueItem) :
    e.Relists (items.set index (f item)) (e'.updateItem item.id f) := by
  have hid : (ids items)[index]? = some item.id := by
    rw [ids, List.getElem?_map, hitem]
    rfl
  obtain ⟨_, _, rfl⟩ := hrelists
  rw [updateItem_of_index _ f (indexOf?_of_nodup hids hid) hitem]
  exact ⟨_, _, rfl⟩

end Entry

namespace Command

variable {α β : Type} {S : Setting} {queueId : String} (hS : S.Spares queueId) {h h₁ : Hub}
  {e : Entry} (he : h.entry? queueId = some e) {history : List Happening}
  {result : Except Failure β}

include hS he

theorem Unfolds.of_entry {f : Entry → Command β}
    (hunfolds : (entry queueId >>= f).Unfolds S h history result h₁) :
    ∃ h', h'.entry? queueId = some e ∧ (f e).Unfolds S h' history result h₁ := by
  unfold entry at hunfolds
  rw [bind_assoc] at hunfolds
  obtain ⟨o, h', -, hothers, hrest⟩ := hunfolds.of_look
  have he' : h'.entry? queueId = some e := (hS h h' hothers).trans he
  rw [he'] at hrest
  exact ⟨h', he', hrest⟩

theorem Unfolds.of_items {f : List QueueItem → Command β}
    (hunfolds : (items queueId >>= f).Unfolds S h history result h₁) :
    ∃ h', h'.entry? queueId = some e ∧ (f e.items).Unfolds S h' history result h₁ := by
  obtain ⟨o, h', -, hothers, hrest⟩ := Unfolds.of_look hunfolds
  have he' : h'.entry? queueId = some e := (hS h h' hothers).trans he
  rw [Hub.items_eq_of_entry _ _ he'] at hrest
  exact ⟨h', he', hrest⟩

theorem Unfolds.of_modifyQueue {change : Queue → Queue} {f : Queue → Command β}
    (hunfolds : (modifyQueue queueId change >>= f).Unfolds S h history result h₁) :
    ∃ h' rest, Quietly history rest ∧
      h'.entry? queueId = some { e with queue := change e.queue } ∧
      (f e.queue).Unfolds S h' rest result h₁ := by
  obtain ⟨o, h', rest, -, hothers, rfl, hrest⟩ := Unfolds.of_step hunfolds
  have he' : h'.entry? queueId = some e := (hS h h' hothers).trans he
  rw [Hub.queue?_of_entry he'] at hrest ⊢
  refine ⟨_, rest, quietly_changed (h'.schedule_modifyQueue queueId change) rest, ?_,
    hrest e.queue rfl⟩
  rw [Hub.entry?_modifyQueue, if_pos rfl, he']
  rfl

theorem Unfolds.of_updateItem {itemId : String} {change : QueueItem → QueueItem}
    {f : Option QueueItem → Command β}
    (hunfolds : (updateItem queueId itemId change >>= f).Unfolds S h history result h₁) :
    ∃ h' rest updated, Quietly history rest ∧
      h'.entry? queueId = some (e.updateItem itemId change) ∧
      (f updated).Unfolds S h' rest result h₁ := by
  obtain ⟨o, h', rest, -, hothers, rfl, hrest⟩ := Unfolds.of_step hunfolds
  have he' : h'.entry? queueId = some e := (hS h h' hothers).trans he
  have hchanged := Hub.entry?_of_touches (Hub.touches_updateItem itemId change) he'
  have hquiet := quietly_changed (Hub.schedule_updateItem h' queueId itemId change) rest
  cases hupdated : (h'.updateItem queueId itemId change).1 with
  | ok updated => exact ⟨_, rest, updated, hquiet, hchanged, hrest updated hupdated⟩
  | error failure =>
    simp only [Hub.updateItem, he'] at hupdated
    split at hupdated <;> cases hupdated

end Command

/-! ## Loading -/

namespace Command

variable {S : Setting} {queueId : String} {h h₁ : Hub} {history : List Happening}

/-- Finding the media of an item changes nothing. -/
theorem unfolds_freshMedia {item : QueueItem} {result : Except Failure (Option MediaItem)}
    (hunfolds : (freshMedia item).Unfolds S h history result h₁) :
    item.FindsMedia (asked history) result ∧ Books history [] ∧ h₁ = h := by
  unfold freshMedia at hunfolds
  split at hunfolds
  · next hmedia =>
    obtain ⟨rfl, rfl, rfl⟩ := hunfolds.of_pure
    exact ⟨.bare hmedia, .nil, rfl⟩
  · next media hmedia =>
    rcases hunfolds.of_call with ⟨known, rest, -, rfl, hrest⟩ | ⟨failure, -, rfl, rfl, rfl⟩
    · cases known with
      | some known =>
        obtain ⟨rfl, rfl, rfl⟩ := hrest.of_pure
        exact ⟨.known hmedia, .answered .nil, rfl⟩
      | none =>
        dsimp only at hrest
        split at hrest
        · next himage =>
          obtain ⟨reply, h', first, rest, hcall, hthen, rfl⟩ := hrest.of_outcome
          obtain ⟨-, rfl, rfl⟩ := Unfolds.of_last_call hcall
          have hagain : item.FindsMedia [⟨.libraryItem media, .ok none⟩,
              ⟨.itemByUri item.uri, reply⟩] (.ok (some (reply.toOption.getD media))) :=
            .again hmedia (Option.isNone_iff_eq_none.1 himage)
          cases reply with
          | ok full =>
            obtain ⟨rfl, rfl, rfl⟩ := hthen.of_pure
            exact ⟨hagain, .answered (.answered .nil), rfl⟩
          | error failure =>
            obtain ⟨rfl, rfl, rfl⟩ := hthen.of_pure
            exact ⟨hagain, .answered (.answered .nil), rfl⟩
        · next himage =>
          obtain ⟨rfl, rfl, rfl⟩ := hrest.of_pure
          have himage : media.image.isSome = true := by
            rwa [Bool.not_eq_true, Option.isNone_eq_false_iff] at himage
          exact ⟨.pictured hmedia himage, .answered .nil, rfl⟩
    · exact ⟨.fails hmedia, .answered .nil, rfl⟩

/-- A crossfade says at which ends of a stream silence is stripped, else the streams do. -/
theorem exists_stripped (crossfade isStart : Bool) (details : StreamDetails) :
    ∃ stripBegin stripEnd, (if crossfade then
        { details with stripSilenceEnd := true, stripSilenceBegin := !isStart }
      else details) =
        { details with stripSilenceBegin := stripBegin, stripSilenceEnd := stripEnd } := by
  cases crossfade with
  | true => exact ⟨!isStart, true, rfl⟩
  | false => exact ⟨details.stripSilenceBegin, details.stripSilenceEnd, rfl⟩

section Loading

variable (hS : S.Spares queueId) {e : Entry} (he : h.entry? queueId = some e) {item : QueueItem}
  {following : Option Nat} {isStart : Bool} {seek : UInt32} {fadeIn : Bool}
  {result : Except Failure QueueItem}

include hS he

/-- Loading an item looks it up, and keeps what was found with the item that has its id. -/
theorem unfolds_lookUp
    (hunfolds : (loadItem queueId item following isStart seek fadeIn).Unfolds S h history result
      h₁) :
    item.LooksUp (asked history) result ∧ Books history [] ∧
      ∃ e₁, h₁.entry? queueId = some e₁ ∧
        match result with
        | .ok loaded => ∃ f, f item = loaded ∧ e₁ = e.updateItem item.id f
        | .error _ => e₁ = e := by
  obtain ⟨h₂, he, hunfolds⟩ := hunfolds.of_items hS he
  rcases hunfolds.of_bind with ⟨media, h₃, first, rest, hmedia, hrest, rfl⟩ | ⟨_, hmedia, rfl⟩
  · obtain ⟨hfinds, hbooks, rfl⟩ := unfolds_freshMedia hmedia
    rw [asked_append]
    rcases hrest.of_call with ⟨details, rest, -, rfl, hkeep⟩ | ⟨failure, -, rfl, rfl, rfl⟩
    · obtain ⟨o, h₄, -, hothers, hkeep⟩ := hkeep.of_look
      have he := (hS _ _ hothers).trans he
      obtain ⟨h₅, _, updated, hquiet, he, hdone⟩ := hkeep.of_updateItem hS he
      obtain ⟨rfl, rfl, rfl⟩ := hdone.of_pure
      refine ⟨?_, hbooks.append (.answered (hquiet.books .nil)), _, he, _, rfl, rfl⟩
      rw [asked_answered, hquiet.asked_eq]
      exact .loads _ hfinds (exists_stripped (h₄.config.crossfade queueId) isStart details)
    · exact ⟨.missing _ hfinds, hbooks.append (.answered .nil), e, he, rfl⟩
  · obtain ⟨hfinds, hbooks, rfl⟩ := unfolds_freshMedia hmedia
    exact ⟨.unknown hfinds, hbooks, e, he, rfl⟩

/-- In a list that does not repeat, what was found is kept at the place of the item. -/
theorem unfolds_loadItem (hids : (ids e.items).Nodup) {index : Nat}
    (hitem : e.items[index]? = some item)
    (hunfolds : (loadItem queueId item following isStart seek fadeIn).Unfolds S h history result
      h₁) :
    item.LooksUp (asked history) result ∧ Books history [] ∧
      ∃ e₁, h₁.entry? queueId = some e₁ ∧
        e.Relists ((result.toOption.map (e.items.set index)).getD e.items) e₁ := by
  obtain ⟨hlooks, hbooks, e₁, he₁, hkept⟩ := unfolds_lookUp hS he hunfolds
  refine ⟨hlooks, hbooks, e₁, he₁, ?_⟩
  cases result with
  | ok loaded =>
    obtain ⟨f, rfl, rfl⟩ := hkept
    exact (Entry.Relists.refl e).updateItem hids hitem f
  | error failure =>
    subst hkept
    exact .refl e₁

end Loading

end Command

/-! ## The item that plays next -/

theorem behind_of_le {length position : Nat} (hle : length - 1 ≤ position) :
    behind length position = [] := by
  rw [behind, Nat.sub_eq_zero_of_le hle, List.range'_zero]

theorem behind_of_lt {length position : Nat} (hlt : position < length - 1) :
    behind length position = (position + 1) :: behind length (position + 1) := by
  have hleft : length - 1 - position = length - 1 - (position + 1) + 1 := by omega
  rw [behind, behind, hleft, List.range'_succ]

theorem nextIndex_off (length position : Nat) :
    nextIndex length .off (some position) false true =
      if length - 1 ≤ position then none else some (position + 1) := by
  have hmode : ¬ (RepeatMode.off = .one ∧ !false) := fun h => nomatch h.1
  have hall : ¬ (true ∧ RepeatMode.off = .all) := fun h => nomatch h.2
  unfold nextIndex
  dsimp only
  rw [if_neg hmode, if_neg hall]
  by_cases hnone : length = 0
  · have hend : length - 1 ≤ position := by omega
    rw [if_pos hnone, if_pos hend]
  · rw [if_neg hnone]

namespace Command

variable {S : Setting} {queueId : String} {h h₁ : Hub} {history : List Happening}

/-- The items behind a position are looked up in turn, and those that can not be found are
marked. -/
theorem unfolds_loadFrom (hS : S.Spares queueId) {e : Entry} (he : h.entry? queueId = some e)
    (hmode : e.queue.repeatMode = .off) (hids : (ids e.items).Nodup) {tries position : Nat}
    (htries : e.items.length - 1 - position ≤ tries) {result : Except Failure QueueItem}
    (hunfolds : (loadFrom queueId tries position).Unfolds S h history result h₁) :
    ∃ passed last items₁ e₁, h₁.entry? queueId = some e₁ ∧ e.Relists items₁ e₁ ∧
      Walks e.items (behind e.items.length position) (asked history) passed last items₁ ∧
      result = (last.map (·.2)).getD (.error .noTracksLeft) := by
  induction tries generalizing h e position history with
  | zero =>
    obtain ⟨rfl, rfl, rfl⟩ := hunfolds.of_throw
    rw [behind_of_le (by omega)]
    exact ⟨[], none, e.items, e, he, .refl e, .exhausts e.items, rfl⟩
  | succ tries ih =>
    obtain ⟨h₂, he, hunfolds⟩ := hunfolds.of_entry hS he
    dsimp only at hunfolds
    rw [hmode, nextIndex_off] at hunfolds
    by_cases hend : e.items.length - 1 ≤ position
    · rw [if_pos hend] at hunfolds
      obtain ⟨rfl, rfl, rfl⟩ := hunfolds.of_throw
      rw [behind_of_le hend]
      exact ⟨[], none, e.items, e, he, .refl e, .exhausts e.items, rfl⟩
    · have hlt : position + 1 < e.items.length := by omega
      obtain ⟨item, hitem⟩ : ∃ item, e.items[position + 1]? = some item :=
        ⟨_, List.getElem?_eq_getElem hlt⟩
      rw [if_neg hend] at hunfolds
      dsimp only at hunfolds
      rw [hitem] at hunfolds
      rw [behind_of_lt (by omega)]
      obtain ⟨outcome, h₃, first, rest, hload, hthen, rfl⟩ := hunfolds.of_outcome
      obtain ⟨hlooks, -, e₃, he₃, hrelists⟩ := unfolds_loadItem hS he hids hitem hload
      cases outcome with
      | ok loaded =>
        obtain ⟨rfl, rfl, rfl⟩ := hthen.of_pure
        rw [List.append_nil]
        exact ⟨[], _, _, e₃, he₃, hrelists, .finds hitem hlooks _, rfl⟩
      | error failure =>
        dsimp only at hthen
        by_cases hmissing : failure.isNotFound = true
        · -- the item is marked, and the walk goes on behind it
          rw [if_pos hmissing] at hthen
          obtain ⟨h₄, more, _, hquiet, he₄, hmore⟩ := hthen.of_updateItem hS he₃
          have hkept : e.Relists e.items e₃ := hrelists
          have hmarked := hkept.updateItem hids hitem QueueItem.markUnavailable
          obtain ⟨passed, last, items₁, e₁, he₁, hrelists₁, hwalks, hresult⟩ :=
            ih he₄ (hmarked.repeatMode_eq.trans hmode) (by rwa [hmarked.items_eq, ids_marked hitem])
              (by rw [hmarked.items_eq, List.length_set]; omega) hmore
          rw [hmarked.items_eq, List.length_set] at hwalks
          rw [asked_append, hquiet.asked_eq]
          refine ⟨(position + 1) :: passed, last, items₁, e₁, he₁, hmarked.trans hrelists₁, ?_,
            hresult⟩
          refine .passes hitem hlooks hmissing (fun hmem => ?_) hwalks
          exact absurd (mem_behind.1 hmem).1 (Nat.lt_irrefl _)
        · rw [if_neg hmissing] at hthen
          obtain ⟨rfl, rfl, rfl⟩ := hthen.of_throw
          rw [List.append_nil]
          have hfails := Bool.eq_false_iff.2 hmissing
          exact ⟨[], _, _, e₃, he₃, hrelists, .fails hitem hlooks hfails _, rfl⟩

end Command

/-- In a list that does not repeat, the item that plays after another one is the first one behind it
that loads, whatever the collaborators answer. The items behind the other one are looked up in order
and once at most; those in front of the one that loads could not be found, and are marked, and no
other item changes but the one that loads. If none of them loads no tracks are left; any other
failure ends the search at once. -/
theorem first_loading_handed_over {S : Setting} {queueId : String} (hspared : S.Spares queueId)
    (hopen : S.Open) {h : Hub} {e : Entry} (he : h.entry? queueId = some e)
    (hmode : e.queue.repeatMode = .off) (hids : (ids e.items).Nodup) {currentItemId : String}
    {current : Nat} (hcurrent : indexOf? e.items currentItemId = some current) :
    (behind e.items.length current).Nodup ∧
      (∃ history result h₁, (Command.loadNextItem queueId currentItemId).Unfolds S h history result
        h₁) ∧
      ∀ history result h₁, (Command.loadNextItem queueId currentItemId).Unfolds S h history result
          h₁ →
        ∃ passed last items₁ e₁, h₁.entry? queueId = some e₁ ∧ e.Relists items₁ e₁ ∧
          Walks e.items (behind e.items.length current) (asked history) passed last items₁ ∧
          result = (last.map (·.2)).getD (.error .noTracksLeft) := by
  refine ⟨nodup_behind _ _, Program.exists_unfolds hopen _ h, fun history result h₁ hunfolds => ?_⟩
  obtain ⟨h₂, he₂, hunfolds⟩ := Command.Unfolds.of_entry hspared he hunfolds
  rw [hcurrent] at hunfolds
  exact Command.unfolds_loadFrom hspared he₂ hmode hids (by omega) hunfolds

/-- Behind the first of four tracks the second one can not be found, and the third one is handed
over. -/
theorem third_handed_over :
    let h := (House.session.run (House.fill ["a", "b", "c", "d"])).hub
    let S := House.setting (House.lacking ["qi2"])
    ∃ e, h.entry? "den" = some e ∧ ids e.items = ["qi1", "qi2", "qi3", "qi4"] ∧
      (∃ history loaded h₁, (Command.loadNextItem "den" "qi1").Unfolds S h history (.ok loaded) h₁ ∧
        loaded.id = "qi3") ∧
      ∀ history result h₁, (Command.loadNextItem "den" "qi1").Unfolds S h history result h₁ →
        ∃ passed last items₁ e₁, h₁.entry? "den" = some e₁ ∧ e.Relists items₁ e₁ ∧
          Walks e.items [1, 2, 3] (asked history) passed last items₁ ∧
          result = (last.map (·.2)).getD (.error .noTracksLeft) := by
  intro h S
  have hentry : (h.entry? "den").any (fun e =>
      decide (e.queue.repeatMode = .off) &&
        decide (ids e.items = ["qi1", "qi2", "qi3", "qi4"])) := by
    decide +kernel
  obtain ⟨e, he, hlooks⟩ := (Option.any_eq_true _ _).1 hentry
  simp only [Bool.and_eq_true, decide_eq_true_eq] at hlooks
  obtain ⟨hmode, hids⟩ := hlooks
  have hcurrent : indexOf? e.items "qi1" = some 0 := indexOf?_of_ids hids rfl
  have hlength : e.items.length = 4 := by simpa [ids] using congrArg List.length hids
  have hnodup : (ids e.items).Nodup := by rw [hids]; decide
  obtain ⟨-, -, hall⟩ :=
    first_loading_handed_over (House.spares_setting _) (House.open_setting _) he
    hmode hnodup hcurrent
  rw [hlength] at hall
  refine ⟨e, he, hids, ?_, hall⟩
  have hunfolds := House.unfolds_setting (House.lacking ["qi2"])
    (Command.loadNextItem "den" "qi1").run h
  have hloaded : ((Command.loadNextItem "den" "qi1").run.alone House.world (House.lacking ["qi2"])
      h).1.toOption.any fun loaded => decide (loaded.id = "qi3") := by
    decide +kernel
  generalize (Command.loadNextItem "den" "qi1").run.alone House.world (House.lacking ["qi2"]) h =
    ended at hunfolds hloaded
  rcases ended with ⟨failure | loaded, h₁⟩
  · cases hloaded
  · exact ⟨_, loaded, h₁, hunfolds, of_decide_eq_true hloaded⟩

end Jukebox
