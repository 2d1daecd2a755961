import Jukebox.Proofs.Adding
import Jukebox.Proofs.Walking

/-!
# Where requested media goes

A request that says how its media is enqueued finds out what its references stand for, one after the
other (`Collects`), and puts what is available of it into the list: in place of the whole list,
behind the item that plays, or at the end (`EnqueueOption.arrange`). The items that stay keep their
ids. In a queue that is shuffled everything from the place of insertion on may come in another order
(`Arranged`). Then the first of the new items is played, if the option says so
(`request_arranges`).
-/

namespace Jukebox

/-! ## Tags -/

/-- What an item is known by: its id and the uri of its media. -/
def QueueItem.tag (i : QueueItem) : String × String := (i.id, i.uri)

def tags (items : List QueueItem) : List (String × String) := items.map QueueItem.tag

section Tags

variable {items batch : List QueueItem}

@[simp] theorem tags_append (items batch : List QueueItem) :
    tags (items ++ batch) = tags items ++ tags batch :=
  List.map_append

@[simp] theorem tags_numbered (first : Nat) (batch : List QueueItem) :
    tags (Edit.numbered first batch) = tags batch :=
  List.ext_getElem? fun n => by
    simp only [tags, Edit.numbered, List.getElem?_map, List.getElem?_mapIdx, Option.map_map]
    rfl

@[simp] theorem tags_renumbered (offset : Nat) (items : List QueueItem) :
    tags (Edit.renumbered offset items) = tags items := by
  simp [tags, Edit.renumbered, QueueItem.tag]

theorem tags_take (n : Nat) (items : List QueueItem) :
    tags (items.take n) = (tags items).take n :=
  List.map_take

theorem tags_drop (n : Nat) (items : List QueueItem) :
    tags (items.drop n) = (tags items).drop n :=
  List.map_drop

/-- An item that is changed but for its tag leaves the tags alone. -/
theorem Entry.tags_updateItem (e : Entry) (itemId : String) (change : ItemChange) :
    tags (e.updateItem itemId change.apply).items = tags e.items := by
  unfold Entry.updateItem
  split
  · next index item hindex hitem =>
    obtain ⟨hlt, rfl⟩ := List.getElem?_eq_some_iff.1 (getElem?_of_indexOf? hindex hitem)
    have htag : (change.apply e.items[index]).tag = e.items[index].tag := by
      cases change <;> rfl
    calc tags (e.items.set index (change.apply e.items[index]))
        = (tags e.items).set index (change.apply e.items[index]).tag := List.map_set
      _ = tags (e.items.set index e.items[index]) := by
          rw [htag]
          exact List.map_set.symm
      _ = tags e.items := by rw [List.set_getElem_self]
  · rfl

end Tags

/-! ## Arrangements -/

/-- Where new items go: to the beginning of an empty list, else behind the item that the player has
while it plays or pauses, or behind the current one. An item that is not known counts as the
first. -/
def insertion (q : Queue) (old : List QueueItem) : Nat :=
  if old = [] then 0
  else
    (if q.state = .playing ∨ q.state = .paused then q.bufferedIndex else q.currentIndex).getD 0 + 1

theorem insertIndex_eq (q : Queue) (old : List QueueItem) :
    q.insertIndex (!old.isEmpty) = insertion q old := by
  cases old with
  | nil => rfl
  | cons item rest => cases hstate : q.state <;> simp [Queue.insertIndex, insertion, hstate]

/-- An old list with new elements, as an option says. -/
def EnqueueOption.arrange {α : Type} (option : EnqueueOption) (place : Nat) (old new : List α) :
    List α :=
  match option with
  | .replace => new
  | .play => old.take place ++ new ++ old.drop place
  | .next => old.take place ++ new ++ old.drop place
  | .replaceNext => old.take place ++ new
  | .add => old ++ new

/-- Whether a list is another one, or, where it may be mixed, that one in another order from a place
on. -/
structure Arranged {α : Type} (mixed : Bool) (place : Nat) (plain list : List α) : Prop where
  perm : list.Perm plain
  fixed : list.take place = plain.take place
  eq_plain : mixed = false → list = plain

/-- Items that are to be played come to stand where they are put. -/
theorem getElem?_arrange_play {α : Type} {place : Nat} {old new : List α}
    (hplace : (old.take place).length = place) (hnew : new ≠ []) :
    (EnqueueOption.play.arrange place old new)[place]? = new[0]? := by
  have hpositive := List.length_pos_iff.2 hnew
  rw [EnqueueOption.arrange, List.append_assoc, List.getElem?_append_right (by omega), hplace,
    Nat.sub_self, List.getElem?_append_left hpositive]

namespace Arranged

variable {α : Type} {mixed : Bool} {place : Nat} {plain plain' list : List α}

theorem refl (mixed : Bool) (place : Nat) (plain : List α) : Arranged mixed place plain plain :=
  ⟨.refl plain, rfl, fun _ => rfl⟩

/-- A mixed list is a mixed one of every list with the same elements and the same beginning. -/
theorem congr (harranged : Arranged true place plain list) (hperm : plain.Perm plain')
    (hfixed : plain.take place = plain'.take place) : Arranged true place plain' list :=
  ⟨harranged.perm.trans hperm, harranged.fixed.trans hfixed, fun hplain => nomatch hplain⟩

end Arranged

/-- A batch that is spliced in comes in between what is kept, mixed with what is behind it if it is
shuffled. -/
theorem arranged_splice {items : List QueueItem} {place : Nat} (hplace : place ≤ items.length)
    (d : Draws) (batch : List QueueItem) (keepRemaining : Bool) {shuffle mixed : Bool}
    (hmixed : shuffle = true → mixed = true) :
    Arranged mixed place
      ((tags items).take place ++ (tags batch ++
        if keepRemaining then (tags items).drop place else []))
      (tags (Edit.splice d items batch { insertAt := place, keepRemaining, shuffle }).1) := by
  obtain ⟨behind, hsplice, hperm, hplain⟩ := splice_eq_append hplace d batch keepRemaining shuffle
  have htags : tags (Edit.numbered place batch ++
      if keepRemaining then Edit.renumbered (place + batch.length) (items.drop place) else []) =
      tags batch ++ if keepRemaining then (tags items).drop place else [] := by
    rw [tags_append, tags_numbered]
    cases keepRemaining with
    | true => rw [if_pos rfl, if_pos rfl, tags_renumbered, tags_drop]
    | false => rfl
  have hlength : ((tags items).take place).length = place := by
    rw [List.length_take, tags, List.length_map, Nat.min_eq_left hplace]
  rw [hsplice, tags_append, tags_take, ← htags]
  refine ⟨(hperm.map _).append_left _, ?_, fun hmix => ?_⟩
  · rw [List.take_left' hlength, List.take_left' hlength]
  · have hshuffle : shuffle = false := by
      cases shuffle with
      | true => exact absurd (hmixed rfl) (by rw [hmix]; exact Bool.false_ne_true)
      | false => rfl
    rw [hplain hshuffle]

/-- Items that are added come to stand at the end, mixed with those from the place of insertion on
if the list is shuffled. -/
theorem arranged_add {items : List QueueItem} {place : Nat} (hplace : place ≤ items.length)
    (d : Draws) (batch : List QueueItem) (mixed : Bool) :
    Arranged mixed place (tags items ++ tags batch)
      (tags (Edit.splice d items batch
        { insertAt := if mixed then place else items.length, shuffle := mixed }).1) := by
  have hlength : (tags items).length = items.length := by rw [tags, List.length_map]
  cases mixed with
  | true =>
    have harranged := arranged_splice hplace d batch true fun hmixed : true = true => hmixed
    have hbehind : ((tags items).take place ++ (tags batch ++ (tags items).drop place)).Perm
        ((tags items).take place ++ ((tags items).drop place ++ tags batch)) :=
      List.perm_append_comm.append_left _
    rw [← List.append_assoc _ ((tags items).drop place), List.take_append_drop] at hbehind
    have htake : ((tags items).take place).length = place := by
      rw [List.length_take, hlength, Nat.min_eq_left hplace]
    refine harranged.congr hbehind ?_
    rw [List.take_left' htake, List.take_append_of_le_length (by omega)]
  | false =>
    have harranged := arranged_splice (Nat.le_refl items.length) d batch true
      fun hmixed : false = true => hmixed
    have hplain := harranged.eq_plain rfl
    rw [if_pos rfl, ← hlength, List.take_length, List.drop_length, List.append_nil, hlength]
      at hplain
    rw [if_neg Bool.false_ne_true, hplain]
    exact .refl _ _ _

/-! ## What a request stands for -/

section Collecting

variable (S : Setting) (queueId : String) (start : Option String)

/-- Whether a reference can turn out to name an item. -/
inductive RefersTo : MediaRef → MediaItem → Prop
  | item (m : MediaItem) : RefersTo (.item m) m
  | uri {uri : String} {m : MediaItem} (hreply : S.replies (.itemByUri uri) (.ok m)) :
    RefersTo (.uri uri) m

/-- Whether an item that radio may start from is remembered between two hubs, others having been at
work before. -/
def Remembers (m : MediaItem) (h h₁ : Hub) : Prop :=
  if m.seedsRadio then ∃ h', S.meanwhile h h' ∧ h₁ = h'.modifyQueue queueId (·.remember m)
  else h₁ = h

/-- Whether a reference can yield this media between two hubs: that of the item that it names, or
none when it can not be resolved or the item can not be expanded. -/
inductive Yielded : MediaRef → Hub → List MediaItem → Hub → Prop
  | unresolved {uri : String} {failure : Failure}
      (hreply : S.replies (.itemByUri uri) (.error failure)) (h : Hub) : Yielded (.uri uri) h [] h
  | expanded {ref : MediaRef} {m : MediaItem} {h h₁ h₂ : Hub} {history : List Happening}
      {outcome : Except Failure (List MediaItem)} (hrefers : RefersTo S ref m)
      (hremembers : Remembers S queueId m h h₁)
      (hexpands : (Command.expand .interactive m start).Unfolds S h₁ history outcome h₂) :
      Yielded ref h (outcome.toOption.getD []) h₂

/-- Whether references can yield this media between two hubs, one after the other. -/
inductive Collects : List MediaRef → Hub → List MediaItem → Hub → Prop
  | nil (h : Hub) : Collects [] h [] h
  | cons {ref : MediaRef} {more : List MediaRef} {h h₁ h₂ : Hub} {media rest : List MediaItem}
      (hfirst : Yielded S queueId start ref h media h₁) (hrest : Collects more h₁ rest h₂) :
      Collects (ref :: more) h (media ++ rest) h₂

end Collecting

/-! ## Parts of a request -/

/-- Every known queue can be cleared. -/
theorem Hub.clear_ok {h : Hub} {queueId : String} {e : Entry} (he : h.entry? queueId = some e)
    (o : Outside) : (h.clear o queueId).1 = .ok () := by
  simp only [clear, clearItems, he]
  cases e.queue.state <;> rfl

/-- Into every known queue a batch can be loaded. -/
theorem Hub.load_ok {h : Hub} {queueId : String} {e : Entry} (he : h.entry? queueId = some e)
    (o : Outside) (batch : List QueueItem) (options : LoadOptions) :
    (h.load o queueId batch options).1 = .ok () := by
  simp only [load, he]

namespace Command

variable {α β : Type} {S : Setting} {queueId : String} {h h₁ : Hub} {history : List Happening}

/-- What the acts of a command keep of the entry of a queue that is left alone besides. -/
theorem Unfolds.has (hS : S.Spares queueId) {R : Rules} {P : Entry → Prop} {c : Command α}
    {result : Except Failure α} (hplayer : ∀ a, R.act a → ¬ a.ByPlayer)
    (hedit : ∀ (a : Act) o h, R.act a → a.queueId? = some queueId → ∀ e, P e → P (a.edit o h e))
    (hc : c.Obeys R) (hunfolds : c.Unfolds S h history result h₁) (hhas : h.Has queueId P) :
    h₁.Has queueId P := by
  have hends : c.Ends S.sees S.meanwhile h result h₁ := Program.Unfolds.ends hunfolds
  refine (hends.kept (Hub.Has queueId P) ?_ ?_ hc hhas).1
  · intro a o h ha hhas
    rcases ha with ha | rfl
    · exact hhas.apply o (hplayer a ha) (hedit a o h ha)
    · exact hhas.apply o id fun htarget => nomatch htarget
  · rintro h h' hothers ⟨e, he, hP⟩
    exact ⟨e, (hS h h' hothers).trans he, hP⟩

/-- Finding out what an item stands for leaves all queues alone. -/
theorem Unfolds.entry_of_expand (hS : S.Spares queueId) {e : Entry}
    (he : h.entry? queueId = some e) {m : MediaItem} {start : Option String}
    {result : Except Failure (List MediaItem)}
    (hunfolds : (expand .interactive m start).Unfolds S h history result h₁) :
    h₁.entry? queueId = some e := by
  obtain ⟨e', he', rfl⟩ := hunfolds.has hS (P := fun e' => e' = e) (R := .expanding)
    (by rintro a (⟨draws, rfl⟩ | ⟨media, rfl⟩) <;> exact id)
    (by rintro a o h (⟨draws, rfl⟩ | ⟨media, rfl⟩) htarget <;> cases htarget)
    (expand_obeys .interactive m start) ⟨e, he, rfl⟩
  exact he'

section Steps

variable (hS : S.Spares queueId) {e : Entry} (he : h.entry? queueId = some e)
  {result : Except Failure β}

include hS he

theorem Unfolds.of_queue {f : Queue → Command β}
    (hunfolds : (queue queueId >>= f).Unfolds S h history result h₁) :
    ∃ h', h'.entry? queueId = some e ∧ (f e.queue).Unfolds S h' history result h₁ := by
  unfold queue at hunfolds
  rw [bind_assoc] at hunfolds
  exact Unfolds.of_entry hS he hunfolds

theorem Unfolds.of_startOver {f : Unit → Command β}
    (hunfolds : (startOver queueId >>= f).Unfolds S h history result h₁) :
    ∃ h' rest, h'.entry? queueId = some e.startOver ∧ (f ()).Unfolds S h' rest result h₁ := by
  obtain ⟨o, h', rest, hothers, -, hrest⟩ := hunfolds.of_change
  exact ⟨_, rest, Hub.entry?_startOver ((hS h h' hothers).trans he), hrest⟩

theorem Unfolds.of_clear {f : Unit → Command β}
    (hunfolds : ((step fun o h => h.clear o queueId) >>= f).Unfolds S h history result h₁) :
    ∃ h' rest, h'.entry? queueId = some (e.withItems (Hub.cleared e.queue) []) ∧
      (f ()).Unfolds S h' rest result h₁ := by
  obtain ⟨o, h', rest, -, hothers, -, hrest⟩ := hunfolds.of_step
  have he' := (hS h h' hothers).trans he
  exact ⟨_, rest, Hub.entry?_of_touches (Hub.touches_clear o) he', hrest () (Hub.clear_ok he' o)⟩

theorem Unfolds.of_load {batch : List QueueItem} {options : LoadOptions} {f : Unit → Command β}
    (hunfolds : (load queueId batch options >>= f).Unfolds S h history result h₁) :
    ∃ d e' h' rest, e' = e.commit e.queue (Edit.splice d e.items batch options).1 ∧
      h'.entry? queueId = some e' ∧ (f ()).Unfolds S h' rest result h₁ := by
  obtain ⟨o, h', rest, -, hothers, -, hrest⟩ := hunfolds.of_step
  have he' := (hS h h' hothers).trans he
  exact ⟨h'.draws, _, _, rest, rfl, Hub.entry?_of_touches (Hub.touches_load o batch options) he',
    hrest () (Hub.load_ok he' o batch options)⟩

theorem Unfolds.of_last_load {batch : List QueueItem} {options : LoadOptions}
    {result : Except Failure Unit}
    (hunfolds : (load queueId batch options).Unfolds S h history result h₁) :
    ∃ d e₁, e₁ = e.commit e.queue (Edit.splice d e.items batch options).1 ∧
      h₁.entry? queueId = some e₁ ∧ result = .ok () := by
  rw [← bind_pure (load queueId batch options)] at hunfolds
  obtain ⟨d, e₁, h', rest, heq, he₁, hdone⟩ := Unfolds.of_load hS he hunfolds
  obtain ⟨-, rfl, rfl⟩ := hdone.of_pure
  exact ⟨d, e₁, heq, he₁, rfl⟩

theorem Unfolds.of_newItems {media : List MediaItem} {f : List QueueItem → Command β}
    (hunfolds : (newItems queueId media >>= f).Unfolds S h history result h₁) :
    ∃ batch h' rest, batch.map (·.uri) = (media.filter (·.available)).map (·.uri) ∧
      h'.entry? queueId = some e ∧ (f batch).Unfolds S h' rest result h₁ := by
  obtain ⟨o, h', rest, -, hothers, -, hrest⟩ := hunfolds.of_step
  refine ⟨_, { h' with nextItem := h'.nextItem + (media.filter (·.available)).length }, rest, ?_,
    (hS h h' hothers).trans he, hrest _ rfl⟩
  exact List.ext_getElem? fun n => by
    simp only [List.getElem?_map, List.getElem?_mapIdx, Option.map_map]
    rfl

end Steps

/-- A reference names an item, or it can not be resolved. -/
theorem unfolds_resolve {ref : MediaRef} {result : Except Failure (Option MediaItem)}
    (hunfolds : (resolve ref).Unfolds S h history result h₁) :
    h₁ = h ∧ ((∃ m, result = .ok (some m) ∧ RefersTo S ref m) ∨
      result = .ok none ∧ ∃ uri failure, ref = .uri uri ∧
        S.replies (.itemByUri uri) (.error failure)) := by
  cases ref with
  | item m =>
    obtain ⟨-, rfl, rfl⟩ := hunfolds.of_pure
    exact ⟨rfl, .inl ⟨m, rfl, .item m⟩⟩
  | uri uri =>
    obtain ⟨reply, h', first, rest, hlookup, hthen, rfl⟩ := Unfolds.of_outcome hunfolds
    obtain ⟨hreply, rfl, rfl⟩ := Unfolds.of_last_call hlookup
    cases reply with
    | ok m =>
      obtain ⟨-, rfl, rfl⟩ := hthen.of_pure
      exact ⟨rfl, .inl ⟨m, rfl, .uri hreply⟩⟩
    | error failure =>
      obtain ⟨-, rfl, rfl⟩ := hthen.of_pure
      exact ⟨rfl, .inr ⟨rfl, uri, failure, rfl, hreply⟩⟩

/-- What a request without radio does with an item when it is remembered. -/
def gatherMedia (queueId : String) (start : Option String) (g : Gathered) (m : MediaItem) :
    Command Gathered := do
  let option ← chooseOption queueId m g.option
  let g := { g with option := some option }
  match ← outcome (expand .interactive m start) with
  | .ok expanded => return { g with media := g.media ++ expanded }
  | .error _ => return g

section Gathering

variable (hS : S.Spares queueId) {e : Entry} (he : h.entry? queueId = some e) {m : MediaItem}
  {start : Option String} {g : Gathered} {option : EnqueueOption} (hoption : g.option = some option)
  {result : Except Failure Gathered}

include hS he hoption

/-- What an item is expanded to is added, if it can be expanded. -/
theorem unfolds_gatherMedia
    (hunfolds : (gatherMedia queueId start g m).Unfolds S h history result h₁) :
    ∃ outcome rest, result = .ok { g with media := g.media ++ outcome.toOption.getD [] } ∧
      (expand .interactive m start).Unfolds S h rest outcome h₁ ∧ h₁.entry? queueId = some e := by
  unfold gatherMedia at hunfolds
  rw [hoption] at hunfolds
  obtain ⟨outcome, h₂, first, last, hexpand, hdone, rfl⟩ := Unfolds.of_outcome hunfolds
  have he₂ := hexpand.entry_of_expand hS he
  cases outcome with
  | ok media =>
    obtain ⟨-, rfl, rfl⟩ := hdone.of_pure
    exact ⟨_, first, by rw [← hoption]; rfl, hexpand, he₂⟩
  | error failure =>
    obtain ⟨-, rfl, rfl⟩ := hdone.of_pure
    exact ⟨_, first, by rw [← hoption]; simp [Except.toOption], hexpand, he₂⟩

/-- An item that radio may start from is remembered, and then every item adds what it is expanded
to. -/
theorem unfolds_gatherItem
    (hunfolds : (gatherItem queueId false start g m).Unfolds S h history result h₁) :
    ∃ media requested, result = .ok { g with media := g.media ++ media } ∧
      (∀ ref, RefersTo S ref m → Yielded S queueId start ref h media h₁) ∧
      h₁.entry? queueId = some { e with queue := { e.queue with requested } } := by
  unfold gatherItem at hunfolds
  by_cases hseeds : m.seedsRadio = true
  · rw [if_pos hseeds] at hunfolds
    obtain ⟨o, h', rest, -, hothers, -, hrest⟩ := Unfolds.of_step hunfolds
    have he' := (hS h h' hothers).trans he
    rw [Hub.queue?_of_entry he'] at hrest
    have hafter : Hub.entry? (h'.modifyQueue queueId (·.remember m)) queueId =
        some { e with queue := { e.queue with requested := (e.queue.remember m).requested } } := by
      rw [Hub.entry?_modifyQueue, if_pos rfl, he']
      rfl
    obtain ⟨outcome, last, hresult, hexpands, he₁⟩ :=
      unfolds_gatherMedia hS hafter hoption (hrest e.queue rfl)
    have hremembers : Remembers S queueId m h (h'.modifyQueue queueId (·.remember m)) := by
      rw [Remembers, if_pos hseeds]
      exact ⟨h', hothers, rfl⟩
    exact ⟨_, _, hresult, fun ref hrefers => .expanded hrefers hremembers hexpands, he₁⟩
  · rw [if_neg hseeds] at hunfolds
    obtain ⟨outcome, last, hresult, hexpands, he₁⟩ := unfolds_gatherMedia hS he hoption hunfolds
    have hsame : Remembers S queueId m h h := by rw [Remembers, if_neg hseeds]
    exact ⟨_, e.queue.requested, hresult, fun ref hrefers => .expanded hrefers hsame hexpands, he₁⟩

end Gathering

/-- What the references of a request stand for is gathered. -/
theorem unfolds_gather (hS : S.Spares queueId) {e : Entry} (he : h.entry? queueId = some e)
    {start : Option String} {g : Gathered} {option : EnqueueOption}
    (hoption : g.option = some option) {refs : List MediaRef} {result : Except Failure Gathered}
    (hunfolds : (gather queueId false start g refs).Unfolds S h history result h₁) :
    ∃ media requested, result = .ok { g with media := g.media ++ media } ∧
      Collects S queueId start refs h media h₁ ∧
      h₁.entry? queueId = some { e with queue := { e.queue with requested } } := by
  induction refs generalizing h e g history with
  | nil =>
    obtain ⟨-, rfl, rfl⟩ := hunfolds.of_pure
    exact ⟨[], e.queue.requested, by rw [List.append_nil], .nil _, he⟩
  | cons ref more ih =>
    rcases Unfolds.of_bind hunfolds with
      ⟨named, h₂, first, rest, hresolve, hthen, rfl⟩ | ⟨failure, hresolve, rfl⟩
    · obtain ⟨rfl, ⟨m, hnamed, hrefers⟩ | ⟨hnamed, uri, failure, rfl, hreply⟩⟩ :=
        unfolds_resolve hresolve
      · cases hnamed
        rcases Unfolds.of_bind hthen with
          ⟨g₂, h₃, early, late, hitem, hmore, rfl⟩ | ⟨failure, hitem, rfl⟩
        · obtain ⟨media, requested, hg₂, hyielded, he₃⟩ := unfolds_gatherItem hS he hoption hitem
          cases hg₂
          obtain ⟨others, requested₁, hresult, hcollects, he₁⟩ :=
            ih (g := { g with media := g.media ++ media }) he₃ hoption hmore
          refine ⟨media ++ others, requested₁, ?_, .cons (hyielded ref hrefers) hcollects, he₁⟩
          rw [hresult, List.append_assoc]
        · obtain ⟨_, _, hfailed, -⟩ := unfolds_gatherItem hS he hoption hitem
          cases hfailed
      · cases hnamed
        obtain ⟨media, requested, hresult, hcollects, he₁⟩ := ih he hoption hthen
        exact ⟨media, requested, hresult, .cons (.unresolved hreply _) hcollects, he₁⟩
    · obtain ⟨-, ⟨_, hnamed, -⟩ | ⟨hnamed, -⟩⟩ := unfolds_resolve hresolve <;> cases hnamed

end Command

/-! ## Putting new items into the list -/

/-- Whether an act leaves the tags of every list alone. -/
def Act.KeepsTags : Act → Prop
  | modify .. => True
  | updateItem .. => True
  | signal .. => True
  | dispatch .. => True
  | _ => False

def Rules.keepingTags : Rules := { act := Act.KeepsTags, call := fun _ => True }

theorem Act.KeepsTags.tags_edit {a : Act} (ha : a.KeepsTags) (o : Outside) (h : Hub)
    (e : Entry) : tags (a.edit o h e).items = tags e.items := by
  cases a with
  | updateItem queueId itemId change => exact e.tags_updateItem itemId change
  | modify | signal | dispatch => rfl
  | _ => exact ha.elim

/-- Whether a command that ends so plays the item at a position of a list with the tags of another
one. -/
def PlaysAt (S : Setting) (queueId : String) (index : Nat) (batch : List QueueItem) (e₁ : Entry)
    (result : Except Failure Unit) (h₁ : Hub) : Prop :=
  ∃ h history e, h.entry? queueId = some e ∧ tags e.items = tags e₁.items ∧
    (e.queue.shuffle = false → (tags e.items)[index]? = (tags batch)[0]?) ∧
    (Command.playIndex queueId (.index index) 0 false false).Unfolds S h history result h₁

/-- What a request does when the batch is in the list: it plays the first item of it, or makes the
first item of the list the current one if there is none, as the option says. -/
def Finishes (S : Setting) (queueId : String) (option : EnqueueOption) (place : Nat)
    (batch : List QueueItem) (position : Option Nat) (e₁ : Entry) (result : Except Failure Unit)
    (h₁ : Hub) : Prop :=
  match option with
  | .replace => PlaysAt S queueId 0 batch e₁ result h₁
  | .play => PlaysAt S queueId place batch e₁ result h₁
  | .add =>
    result = .ok () ∧ e₁.queue.currentIndex = some (position.getD 0) ∧
      (position = none → e₁.queue.currentItem = e₁.items[0]?)
  | .next => result = .ok ()
  | .replaceNext => result = .ok ()

/-- From which position on a list may be mixed when new items come in. -/
def EnqueueOption.fixed (option : EnqueueOption) (place : Nat) : Nat :=
  if option = .replace then 0 else place

namespace Command

variable {S : Setting} {queueId : String} {h h₁ : Hub} {history : List Happening}

theorem playIndex_keepsTags (key : ItemKey) (seek : UInt32) (fadeIn debounce : Bool) :
    (playIndex queueId key seek fadeIn debounce).Obeys .keepingTags := by
  rw [playIndex_eq]
  refine (loadAt_obeys queueId ⟨?_, fun _ _ => trivial⟩ (fun _ _ _ => trivial) (fun _ => trivial)
    (fun _ _ => trivial) key seek fadeIn).bind fun found => ?_
  · rintro a ⟨⟨_, _, _, rfl⟩, -⟩
    exact trivial
  · exact send_obeys queueId (fun _ _ => trivial) trivial found.1 found.2 debounce

/-- Playing an item leaves the tags alone. -/
theorem Unfolds.plays_at (hS : S.Spares queueId) {e : Entry} (he : h.entry? queueId = some e)
    {index : Nat} (batch : List QueueItem)
    (hfirst : e.queue.shuffle = false → (tags e.items)[index]? = (tags batch)[0]?)
    {result : Except Failure Unit}
    (hunfolds : (playIndex queueId (.index index) 0 false false).Unfolds S h history result h₁) :
    ∃ e₁, h₁.entry? queueId = some e₁ ∧ tags e₁.items = tags e.items ∧
      PlaysAt S queueId index batch e₁ result h₁ := by
  obtain ⟨e₁, he₁, htags⟩ := hunfolds.has hS (P := fun e' => tags e'.items = tags e.items)
    (R := .keepingTags) (fun a ha hplayer => by cases a <;> first | exact ha | exact hplayer)
    (fun a o h ha _ e' htags => (ha.tags_edit o h e').trans htags)
    (playIndex_keepsTags _ _ _ _) ⟨e, he, rfl⟩
  exact ⟨e₁, he₁, htags, h, history, e, he, htags.symm, hfirst, hunfolds⟩

theorem unfolds_markFirst (hS : S.Spares queueId) {e : Entry} (he : h.entry? queueId = some e)
    {result : Except Failure Unit}
    (hunfolds : (markFirst queueId).Unfolds S h history result h₁) :
    result = .ok () ∧ h₁.entry? queueId = some
      { e with queue := { e.queue with currentIndex := some 0, currentItem := e.items[0]? } } := by
  obtain ⟨h₂, he₂, hmarks⟩ := Unfolds.of_items hS he hunfolds
  obtain ⟨h₃, rest, -, he₃, hsignal⟩ := Unfolds.of_modifyQueue hS he₂ hmarks
  obtain ⟨o, h₄, hothers, -, rfl, rfl⟩ := hsignal.of_last_change
  exact ⟨rfl, (h₄.entry?_signal o queueId queueId false).trans ((hS _ _ hothers).trans he₃)⟩

/-- New items are put into the list as the option says. -/
theorem unfolds_place (hS : S.Spares queueId) {e : Entry} (he : h.entry? queueId = some e)
    {option : EnqueueOption} (hreplace : option = .replace → e.items = [])
    (hplace : insertion e.queue e.items ≤ e.items.length) {batch : List QueueItem}
    (hbatch : batch ≠ []) {result : Except Failure Unit}
    (hunfolds : (place queueId option batch false).Unfolds S h history result h₁) :
    let k := insertion e.queue e.items
    ∃ e₁, h₁.entry? queueId = some e₁ ∧
      Arranged e.queue.shuffle (option.fixed k)
        (option.arrange k (tags e.items) (tags batch)) (tags e₁.items) ∧
      Finishes S queueId option k batch e.queue.currentIndex e₁ result h₁ := by
  intro k
  have hshuffle : (e.queue.shuffle && decide (1 < batch.length) && !false) = true →
      e.queue.shuffle = true := by
    intro hmixed
    simp only [Bool.and_eq_true] at hmixed
    exact hmixed.1.1
  obtain ⟨h₂, he₂, hunfolds⟩ := Unfolds.of_entry hS he hunfolds
  dsimp only at hunfolds
  rw [insertIndex_eq] at hunfolds
  have hlength : ((tags e.items).take k).length = k := by
    rw [List.length_take, tags, List.length_map, Nat.min_eq_left hplace]
  cases option with
  | replace =>
    obtain ⟨d, e₃, h₃, rest, heq, he₃, hplays⟩ := Unfolds.of_load hS he₂ hunfolds
    have harranged := arranged_splice (Nat.zero_le e.items.length) d batch false hshuffle
    rw [List.take_zero, List.nil_append, if_neg Bool.false_ne_true, List.append_nil] at harranged
    have harranged : Arranged e.queue.shuffle 0 (tags batch) (tags e₃.items) := by
      rw [heq]
      exact harranged
    obtain ⟨e₁, he₁, htags, hplays⟩ := Unfolds.plays_at hS he₃ batch (fun hplain => by
      rw [harranged.eq_plain (by rwa [heq] at hplain)]) hplays
    rw [← htags] at harranged
    exact ⟨e₁, he₁, harranged, hplays⟩
  | next =>
    obtain ⟨d, e₁, heq, he₁, rfl⟩ := Unfolds.of_last_load hS he₂ hunfolds
    have harranged := arranged_splice hplace d batch true hshuffle
    rw [if_pos rfl, ← List.append_assoc] at harranged
    refine ⟨e₁, he₁, ?_, rfl⟩
    rw [heq]
    exact harranged
  | replaceNext =>
    obtain ⟨d, e₁, heq, he₁, rfl⟩ := Unfolds.of_last_load hS he₂ hunfolds
    have harranged := arranged_splice hplace d batch false hshuffle
    rw [if_neg Bool.false_ne_true, List.append_nil] at harranged
    refine ⟨e₁, he₁, ?_, rfl⟩
    rw [heq]
    exact harranged
  | play =>
    obtain ⟨d, e₃, h₃, rest, heq, he₃, hcounts⟩ := Unfolds.of_load hS he₂ hunfolds
    have harranged := arranged_splice hplace d batch true hshuffle
    rw [if_pos rfl, ← List.append_assoc] at harranged
    have harranged : Arranged e.queue.shuffle k
        (EnqueueOption.play.arrange k (tags e.items) (tags batch)) (tags e₃.items) := by
      rw [heq]
      exact harranged
    obtain ⟨h₄, he₄, hplays⟩ := Unfolds.of_items hS he₃ hcounts
    have hinside : min k (e₃.items.length - 1) = k := by
      have hcount := harranged.perm.length_eq
      have hnew := List.length_pos_iff.2 hbatch
      simp only [tags, EnqueueOption.arrange, List.length_append, List.length_take,
        List.length_drop, List.length_map] at hcount
      omega
    rw [hinside] at hplays
    obtain ⟨e₁, he₁, htags, hplays⟩ := Unfolds.plays_at hS he₄ batch (fun hplain => by
      rw [harranged.eq_plain (by rwa [heq] at hplain)]
      exact getElem?_arrange_play hlength (by simpa [tags] using hbatch)) hplays
    rw [← htags] at harranged
    exact ⟨e₁, he₁, harranged, hplays⟩
  | add =>
    obtain ⟨d, e₃, h₃, rest, heq, he₃, hmarks⟩ := Unfolds.of_load hS he₂ hunfolds
    have harranged : Arranged e.queue.shuffle k (tags e.items ++ tags batch)
        (tags e₃.items) := by
      rw [heq]
      exact arranged_add hplace d batch e.queue.shuffle
    cases hposition : e.queue.currentIndex with
    | none =>
      rw [hposition] at hmarks
      obtain ⟨rfl, he₁⟩ := unfolds_markFirst hS he₃ hmarks
      exact ⟨_, he₁, harranged, rfl, rfl, fun _ => rfl⟩
    | some index =>
      rw [hposition] at hmarks
      obtain ⟨-, rfl, rfl⟩ := hmarks.of_pure
      refine ⟨e₃, he₃, harranged, rfl, ?_, fun hnone => nomatch hnone⟩
      rw [heq]
      exact hposition

end Command

/-! ## Requests -/

/-- An entry when a request begins to find out what its references stand for. -/
def Entry.readied (e : Entry) (option : EnqueueOption) : Entry :=
  let started := e.startOver
  let e := if option = .replace then started.withItems (Hub.cleared started.queue) [] else started
  if option.appends then e else { e with queue := { e.queue with requested := [] } }

namespace Command

variable {S : Setting} {queueId : String} {h h₁ : Hub} {history : List Happening}

/-- What a request without radio does when the queue is ready for it. -/
def fulfil (queueId : String) (refs : List MediaRef) (option : EnqueueOption)
    (start : Option String) : Command Unit := do
  let g ← gather queueId false start { option := some option } refs
  let option := g.option.getD .play
  let _ ← modifyQueue queueId fun q => withSeeds q option g.seeds
  let batch ← newItems queueId g.media
  if batch.isEmpty then throw .nothingPlayable
  place queueId option batch false

/-- A request for a player that is there, and announces nothing, makes the queue ready first. -/
theorem Unfolds.of_playMedia (hS : S.Spares queueId)
    (hheard : ∀ o, S.sees o → ∃ r, o.report? queueId = some r ∧ r.announcementInProgress = false)
    {e : Entry} (he : h.entry? queueId = some e) {refs : List MediaRef} {option : EnqueueOption}
    {start : Option String} {result : Except Failure Unit}
    (hunfolds : (playMedia queueId refs (some option) false start).Unfolds S h history result h₁) :
    ∃ h₀ rest, h₀.entry? queueId = some (e.readied option) ∧
      (fulfil queueId refs option start).Unfolds S h₀ rest result h₁ := by
  obtain ⟨h₂, he₂, hreporting⟩ := Unfolds.of_queue hS he hunfolds
  obtain ⟨o, h₃, hsees, hothers, hstarting⟩ := hreporting.of_look
  have he₃ := (hS _ _ hothers).trans he₂
  obtain ⟨r, hr, hquiet⟩ := hheard o hsees
  rw [hr] at hstarting
  simp only [hquiet, Bool.false_eq_true, if_false] at hstarting
  obtain ⟨h₄, _, he₄, hclearing⟩ := Unfolds.of_startOver hS he₃ hstarting
  cases option with
  | replace =>
    rw [if_pos rfl] at hclearing
    obtain ⟨h₅, _, he₅, hforgetting⟩ := Unfolds.of_clear hS he₄ hclearing
    obtain ⟨h₆, _, _, he₆, hready⟩ := Unfolds.of_modifyQueue hS he₅ hforgetting
    exact ⟨h₆, _, he₆, hready⟩
  | play | replaceNext =>
    rw [if_neg (by decide)] at hclearing
    obtain ⟨h₅, _, _, he₅, hready⟩ := Unfolds.of_modifyQueue hS he₄ hclearing
    exact ⟨h₅, _, he₅, hready⟩
  | next | add =>
    rw [if_neg (by decide)] at hclearing
    exact ⟨h₄, _, he₄, hclearing⟩

/-- What the references of a request yield becomes a batch, if it is available, and the batch is
placed. -/
theorem Unfolds.of_fulfil (hS : S.Spares queueId) {e : Entry} (he : h.entry? queueId = some e)
    {option : EnqueueOption} {refs : List MediaRef} {start : Option String}
    {result : Except Failure Unit}
    (hunfolds : (fulfil queueId refs option start).Unfolds S h history result h₁) :
    ∃ media h₂, Collects S queueId start refs h media h₂ ∧
      (media.filter (·.available) ≠ [] → ∃ batch radioSource requested h₃ rest,
        batch ≠ [] ∧ batch.map (·.uri) = (media.filter (·.available)).map (·.uri) ∧
        h₃.entry? queueId = some { e with queue := { e.queue with radioSource, requested } } ∧
        (place queueId option batch false).Unfolds S h₃ rest result h₁) := by
  rcases Unfolds.of_bind hunfolds with
    ⟨g₁, h₂, first, rest, hgather, hseeding, rfl⟩ | ⟨failure, hgather, rfl⟩
  · obtain ⟨media, requested, hg₁, hcollects, he₂⟩ := unfolds_gather hS he rfl hgather
    cases hg₁
    refine ⟨media, h₂, hcollects, fun hsome => ?_⟩
    obtain ⟨h₃, _, _, he₃, hcounting⟩ := Unfolds.of_modifyQueue hS he₂ hseeding
    obtain ⟨batch, h₄, last, huris, he₄, hplacing⟩ := Unfolds.of_newItems hS he₃ hcounting
    have hbatch : batch ≠ [] := by
      rintro rfl
      exact hsome (List.map_eq_nil_iff.1 huris.symm)
    rw [if_neg (by simpa using hbatch)] at hplacing
    exact ⟨batch, _, requested, h₄, last, hbatch, huris, he₄, hplacing⟩
  · obtain ⟨_, _, hfailed, -⟩ := unfolds_gather hS he rfl hgather
    cases hfailed

/-- What the references of a request yield is put into the list. -/
theorem unfolds_fulfil (hS : S.Spares queueId) {e : Entry} (he : h.entry? queueId = some e)
    {option : EnqueueOption} (hreplace : option = .replace → e.items = [])
    (hplace : insertion e.queue e.items ≤ e.items.length) {refs : List MediaRef}
    {start : Option String} {result : Except Failure Unit}
    (hunfolds : (fulfil queueId refs option start).Unfolds S h history result h₁) :
    let k := insertion e.queue e.items
    ∃ media h₂, Collects S queueId start refs h media h₂ ∧
      (media.filter (·.available) ≠ [] → ∃ batch e₁,
        batch.map (·.uri) = (media.filter (·.available)).map (·.uri) ∧
        h₁.entry? queueId = some e₁ ∧
        Arranged e.queue.shuffle (option.fixed k)
          (option.arrange k (tags e.items) (tags batch)) (tags e₁.items) ∧
        Finishes S queueId option k batch e.queue.currentIndex e₁ result h₁) := by
  intro k
  obtain ⟨media, h₂, hcollects, hplaces⟩ := hunfolds.of_fulfil hS he
  refine ⟨media, h₂, hcollects, fun hsome => ?_⟩
  obtain ⟨batch, _, _, h₃, rest, hbatch, huris, he₃, hplacing⟩ := hplaces hsome
  obtain ⟨e₁, he₁, harranged, hfinishes⟩ := unfolds_place hS he₃ hreplace hplace hbatch hplacing
  exact ⟨batch, e₁, huris, he₁, harranged, hfinishes⟩

end Command

/-- A queue that came to its end is empty when a request begins, and has no position; else it is as
it was, unless the list is to be replaced. -/
theorem Entry.readied_keeps (e : Entry) {option : EnqueueOption} (hkeeps : option ≠ .replace) :
    let finished := e.queue.isFinished e.items.length
    let old := if finished then [] else e.items
    (e.readied option).items = old ∧
      insertion (e.readied option).queue old = insertion e.queue old ∧
      (e.readied option).queue.shuffle = e.queue.shuffle ∧
      (e.readied option).queue.currentIndex = if finished then none else e.queue.currentIndex := by
  intro finished old
  have hstarted : e.startOver.items = old ∧
      insertion e.startOver.queue old = insertion e.queue old ∧
      e.startOver.queue.shuffle = e.queue.shuffle ∧
      e.startOver.queue.currentIndex = if finished then none else e.queue.currentIndex := by
    by_cases hfinished : e.queue.isFinished e.items.length = true
    · have hold : old = [] := if_pos hfinished
      rw [hold, startOver, if_pos hfinished, if_pos hfinished]
      exact ⟨rfl, rfl, rfl, rfl⟩
    · have hold : old = e.items := if_neg hfinished
      rw [hold, startOver, if_neg hfinished, if_neg hfinished]
      exact ⟨rfl, rfl, rfl, rfl⟩
  cases option with
  | replace => exact absurd rfl hkeeps
  | _ => exact hstarted

/-- What a request does to the list of a queue, if its player is there and announces nothing, and if
the place of insertion lies within the list: what its references yield and is available comes into
the list as the option says, and the items that stay keep their tags. A queue that came to its end
counts as empty. In a shuffled queue the list may be mixed from the place of insertion on. In the
end the first new item is played, or becomes the current one, as the option says. -/
theorem request_arranges {S : Setting} {queueId : String} (hspared : S.Spares queueId)
    (hopen : S.Open)
    (hheard : ∀ o, S.sees o → ∃ r, o.report? queueId = some r ∧ r.announcementInProgress = false)
    {h : Hub} {e : Entry} (he : h.entry? queueId = some e) (option : EnqueueOption)
    (refs : List MediaRef) (start : Option String) :
    let finished := e.queue.isFinished e.items.length
    let old := if finished then [] else e.items
    let position := if finished then none else e.queue.currentIndex
    let k := insertion e.queue old
    let request := Command.playMedia queueId refs (some option) false start
    k ≤ old.length →
      (∃ history result h₁, request.Unfolds S h history result h₁) ∧
      ∀ history result h₁, request.Unfolds S h history result h₁ →
        ∃ h₀ media h₂, h₀.entry? queueId = some (e.readied option) ∧
          Collects S queueId start refs h₀ media h₂ ∧
          (media.filter (·.available) ≠ [] → ∃ batch e₁,
            batch.map (·.uri) = (media.filter (·.available)).map (·.uri) ∧
            h₁.entry? queueId = some e₁ ∧
            Arranged e.queue.shuffle (option.fixed k)
              (option.arrange k (tags old) (tags batch)) (tags e₁.items) ∧
            Finishes S queueId option k batch position e₁ result h₁) := by
  intro finished old position k request hplace
  refine ⟨Program.exists_unfolds hopen _ h, fun history result h₁ hunfolds => ?_⟩
  obtain ⟨h₀, rest, he₀, hfulfils⟩ := Command.Unfolds.of_playMedia hspared hheard he hunfolds
  by_cases hreplace : option = .replace
  · subst hreplace
    obtain ⟨media, h₂, hcollects, harranges⟩ :=
      Command.unfolds_fulfil hspared he₀ (fun _ => rfl) (Nat.le_refl 0) hfulfils
    have hshuffle : (e.readied .replace).queue.shuffle = e.queue.shuffle := by
      unfold Entry.readied Entry.startOver
      split <;> rfl
    rw [hshuffle] at harranges
    exact ⟨h₀, media, h₂, he₀, hcollects, harranges⟩
  · obtain ⟨hitems, hinsertion, hshuffle, hposition⟩ := e.readied_keeps hreplace
    obtain ⟨media, h₂, hcollects, harranges⟩ :=
      Command.unfolds_fulfil hspared he₀ (fun hreplaces => absurd hreplaces hreplace)
        (by rw [hitems, hinsertion]; exact hplace) hfulfils
    rw [hitems, hinsertion, hshuffle, hposition] at harranges
    exact ⟨h₀, media, h₂, he₀, hcollects, harranges⟩

/-- Two tracks are played behind the first of three, and what can not be resolved is left out. -/
theorem tracks_played_behind_first :
    let h := (House.session.run (House.fill ["a", "b", "c"])).hub
    let S := House.setting House.answers
    let refs := [.item (House.track "d"), .uri "x", .item (House.track "e")]
    let request := Command.playMedia "den" refs (some .play) false none
    ∃ e, h.entry? "den" = some e ∧
      (∃ history h₁, request.Unfolds S h history (.ok ()) h₁ ∧
        ids (h₁.items "den") = ["qi1", "qi4", "qi5", "qi2", "qi3"]) ∧
      ∀ history result h₁, request.Unfolds S h history result h₁ →
        ∃ h₀ media h₂, h₀.entry? "den" = some (e.readied .play) ∧
          Collects S "den" none refs h₀ media h₂ ∧
          (media.filter (·.available) ≠ [] → ∃ batch e₁,
            batch.map (·.uri) = (media.filter (·.available)).map (·.uri) ∧
            h₁.entry? "den" = some e₁ ∧
            Arranged false 1 ((tags e.items).take 1 ++ tags batch ++ (tags e.items).drop 1)
              (tags e₁.items) ∧
            PlaysAt S "den" 1 batch e₁ result h₁) := by
  intro h S refs request
  have hentry : (h.entry? "den").any (fun e =>
      decide (e.queue.isFinished e.items.length = false) &&
        decide (insertion e.queue e.items = 1) && decide (e.items.length = 3) &&
        decide (e.queue.shuffle = false)) := by
    decide +kernel
  obtain ⟨e, he, hlooks⟩ := (Option.any_eq_true _ _).1 hentry
  simp only [Bool.and_eq_true, decide_eq_true_eq] at hlooks
  obtain ⟨⟨⟨hgoes, hplace⟩, hlength⟩, hplain⟩ := hlooks
  have hold : (if e.queue.isFinished e.items.length then [] else e.items) = e.items :=
    if_neg (by rw [hgoes]; exact Bool.false_ne_true)
  obtain ⟨-, hall⟩ := request_arranges (House.spares_setting House.answers) (House.open_setting _)
    (by rintro o rfl; exact ⟨House.den, rfl, rfl⟩) he .play refs none
    (by rw [hold, hplace, hlength]; decide)
  rw [hold, hplace, hplain] at hall
  refine ⟨e, he, ?_, hall⟩
  have hunfolds := House.unfolds_setting House.answers request.run h
  have hplayed : (request.run.alone House.world House.answers h).1.isOk &&
      decide (ids ((request.run.alone House.world House.answers h).2.items "den") =
        ["qi1", "qi4", "qi5", "qi2", "qi3"]) := by
    decide +kernel
  generalize request.run.alone House.world House.answers h = ended at hunfolds hplayed
  rcases ended with ⟨failure | ⟨⟩, h₁⟩
  · cases hplayed
  · exact ⟨_, h₁, hunfolds, of_decide_eq_true hplayed⟩

end Jukebox
