import Jukebox.Proofs.Ends
import Jukebox.Proofs.Ids

/-!
# Adding to what was just started

Playing an item leaves the queue in the state that it had before, until the player reports
(`Command.Started`). Media that is added then joins the list, unless the queue looks as if it had
come to its end: it was idle, and the item that was started is the last one of several. Such a queue
starts over and drops all items, the one that was just started too (`adding_keeps_iff`).
-/

namespace Jukebox

/-! ## Meanwhile -/

/-- Whether no announcement is made on the player of a queue. -/
def Outside.Unannounced (queueId : String) (o : Outside) : Prop :=
  ∀ r, o.report? queueId = some r → r.announcementInProgress = false

/-- Whether a queue is in the state and at the position where it was, with all of its items. -/
structure Entry.Undisturbed (e e' : Entry) : Prop where
  state : e'.queue.state = e.queue.state
  position : e'.queue.currentIndex = e.queue.currentIndex
  length_le : e.items.length ≤ e'.items.length
  ids_subset : ids e.items ⊆ ids e'.items

/-- Whether a queue was left undisturbed, if it was there. -/
def Hub.Undisturbed (queueId : String) (h h' : Hub) : Prop :=
  ∀ e, h.entry? queueId = some e → ∃ e', h'.entry? queueId = some e' ∧ e.Undisturbed e'

/-- Whether there is an entry for a queue with a property. -/
def Hub.Has (queueId : String) (P : Entry → Prop) (h : Hub) : Prop :=
  ∃ e, h.entry? queueId = some e ∧ P e

/-- Whether an act is that of a player that comes, reports or goes. -/
def Act.ByPlayer : Act → Prop
  | report _ => True
  | register _ => True
  | remove _ => True
  | _ => False

namespace Hub

variable {h h' : Hub} {queueId : String} {P : Entry → Prop}

theorem Undisturbed.refl (queueId : String) (h : Hub) : h.Undisturbed queueId h :=
  fun e he => ⟨e, he, rfl, rfl, Nat.le_refl _, List.Subset.refl _⟩

theorem Undisturbed.has (hsame : h.Undisturbed queueId h') (hP : ∀ e e' : Entry, e.Undisturbed e' →
    P e → P e') (hhas : h.Has queueId P) : h'.Has queueId P := by
  obtain ⟨e, he, hPe⟩ := hhas
  obtain ⟨e', he', hkept⟩ := hsame e he
  exact ⟨e', he', hP e e' hkept hPe⟩

theorem entry?_startOver {e : Entry} (he : h.entry? queueId = some e) :
    Hub.entry? (h.startOver queueId) queueId = some e.startOver := by
  have htouches : Touches queueId Entry.startOver h (h.startOver queueId) := touches_startOver
  rw [htouches, if_pos rfl, he]
  rfl

/-- What an act makes of an entry it makes of the entry of its queue; it leaves the others alone. -/
theorem Has.apply (o : Outside) {a : Act} (hplayer : ¬ a.ByPlayer)
    (hedit : a.queueId? = some queueId → ∀ e, P e → P (a.edit o h e)) (hhas : h.Has queueId P) :
    (a.apply o h).Has queueId P := by
  obtain ⟨e, he, hP⟩ := hhas
  cases htarget : a.queueId? with
  | none =>
    refine ⟨e, ?_, hP⟩
    rw [entry?_apply_of_none o htarget (fun r hr => hplayer (hr ▸ trivial))
      fun playerId hp => hplayer (hp ▸ trivial)]
    exact he
  | some target =>
    have htouches := touches_apply o (h := h) (fun r hr => absurd (hr ▸ trivial) hplayer) htarget
      queueId
    by_cases hsame : queueId = target
    · subst hsame
      rw [if_pos rfl, he] at htouches
      exact ⟨a.edit o h e, htouches, hedit htarget e hP⟩
    · rw [if_neg hsame] at htouches
      exact ⟨e, htouches.trans he, hP⟩

end Hub

/-! ## Acts that keep the state of a queue, or its items -/

/-- Whether an act drops no item of a queue. -/
def Act.KeepsItems (queueId : String) : Act → Prop
  | load other _ options =>
    other = queueId → options.keepPlayed = true ∧ options.keepRemaining = true
  | deleteItem .. => False
  | clear _ => False
  | startOver _ => False
  | report _ => False
  | register _ => False
  | remove _ => False
  | _ => True

/-- The rules of programs that drop no item of a queue. -/
def Rules.keepingItems (queueId : String) : Rules :=
  { act := Act.KeepsItems queueId, call := fun _ => True }

theorem Act.KeepsState.state_edit {a : Act} (ha : a.KeepsState) (o : Outside) (h : Hub)
    (e : Entry) : (a.edit o h e).queue.state = e.queue.state := by
  cases a with
  | modify queueId change =>
    cases change with
    | buffer => exact ha.elim
    | settle => exact ha.elim
    | arrive => exact ha.elim
    | keepPosition clock onlyActive =>
      simp only [edit, QueueChange.apply]
      split <;> rfl
    | _ => rfl
  | updateItem =>
    simp only [edit, Entry.updateItem]
    split <;> rfl
  | moveItem =>
    simp only [edit, Entry.edit]
    split <;> rfl
  | deleteItem =>
    simp only [edit, Entry.edit]
    split <;> rfl
  | startOver =>
    simp only [edit, Entry.startOver]
    split <;> rfl
  | setShuffle =>
    simp only [edit, Entry.setShuffle]
    split <;> rfl
  | setDontStop =>
    simp only [edit, Entry.setDontStop]
    split
    · rfl
    · split <;> rfl
  | logFlow =>
    simp only [edit, Entry.logFlow]
    split <;> rfl
  | report => exact ha.elim
  | _ => rfl

theorem Act.KeepsItems.ids_edit {a : Act} {queueId : String} (ha : a.KeepsItems queueId)
    (htarget : a.queueId? = some queueId) (o : Outside) (h : Hub) (e : Entry) :
    ids e.items ⊆ ids (a.edit o h e).items := by
  cases a with
  | load other batch options =>
    obtain ⟨hplayed, hremaining⟩ := ha (Option.some.inj htarget)
    have hperm := ids_splice_keeping h.draws e.items batch hplayed hremaining
    exact fun i hi => hperm.mem_iff.2 (List.mem_append_right _ hi)
  | updateItem other itemId change =>
    have hsame : ids (Act.edit o h (.updateItem other itemId change) e).items = ids e.items :=
      e.ids_updateItem itemId change.id_apply
    rw [hsame]
    exact List.Subset.refl _
  | moveItem other itemId shift =>
    refine Entry.edit_items (P := fun items => ids e.items ⊆ ids items) (List.Subset.refl _) ?_
    exact fun items hmove => (ids_move hmove).symm.subset
  | setShuffle other enabled =>
    simp only [edit, Entry.setShuffle]
    split
    · exact List.Subset.refl _
    · exact (ids_reorder _ _ _ _).symm.subset
  | setDontStop other enabled =>
    simp only [edit, Entry.setDontStop]
    split
    · exact List.Subset.refl _
    · split <;> exact List.Subset.refl _
  | logFlow other entry =>
    simp only [edit, Entry.logFlow]
    split <;> exact List.Subset.refl _
  | deleteItem => exact ha.elim
  | clear => exact ha.elim
  | startOver => exact ha.elim
  | report => exact ha.elim
  | _ => exact List.Subset.refl _

namespace Command

variable {α : Type} {queueId : String} {sees : Outside → Prop} {meanwhile : Hub → Hub → Prop}
  {h h₁ : Hub}

/-! ## Parts of commands -/

theorem ends_entry_ok {e : Entry} (hends : (entry queueId).Ends sees meanwhile h (.ok e) h₁) :
    meanwhile h h₁ ∧ h₁.entry? queueId = some e := by
  obtain ⟨found, h', hlook, hrest⟩ := hends.of_bind_ok
  obtain ⟨o, -, hmeanwhile, hfound⟩ := ends_look_iff.1 hlook
  cases Except.ok.inj hfound
  cases he : h'.entry? queueId with
  | none =>
    rw [he] at hrest
    obtain ⟨hfailed, -⟩ := ends_throw_iff.1 hrest
    cases hfailed
  | some e' =>
    rw [he] at hrest
    obtain ⟨hok, rfl⟩ := ends_pure_iff.1 hrest
    cases hok
    exact ⟨hmeanwhile, he⟩

theorem ends_find_ok {e : Entry} {key : ItemKey} {index : Nat} {item : QueueItem}
    (hends : (find e key).Ends sees meanwhile h (.ok (index, item)) h₁) :
    h₁ = h ∧ index < e.items.length := by
  have hitem : ∀ position : Nat,
      (find e (.index position)).Ends sees meanwhile h (.ok (index, item)) h₁ →
        h₁ = h ∧ index < e.items.length := by
    intro position hends
    simp only [find, pure_bind] at hends
    cases hget : e.items[position]? with
    | none =>
      rw [hget] at hends
      obtain ⟨hfailed, -⟩ := ends_throw_iff.1 hends
      cases hfailed
    | some found =>
      rw [hget] at hends
      obtain ⟨hok, hsame⟩ := ends_pure_iff.1 hends
      cases hok
      exact ⟨hsame, (List.getElem?_eq_some_iff.1 hget).1⟩
  cases key with
  | index position => exact hitem position hends
  | id itemId =>
    simp only [find] at hends
    cases hindex : indexOf? e.items itemId with
    | none =>
      rw [hindex] at hends
      obtain ⟨_, _, hfirst, -⟩ := hends.of_bind_ok
      obtain ⟨hfailed, -⟩ := ends_throw_iff.1 hfirst
      cases hfailed
    | some position =>
      rw [hindex] at hends
      exact hitem position hends

theorem ends_modifyQueue {f : Queue → Queue} {result : Except Failure Queue}
    (hends : (modifyQueue queueId f).Ends sees meanwhile h result h₁) :
    ∃ h', meanwhile h h' ∧ h₁ = h'.modifyQueue queueId f := by
  obtain ⟨o, h', -, hmeanwhile, -, rfl⟩ := ends_step_iff.1 hends
  refine ⟨h', hmeanwhile, ?_⟩
  cases hq : h'.queue? queueId with
  | none => simp [Hub.modifyQueue, Hub.modifyEntry, Option.map_eq_none_iff.1 hq]
  | some q => rfl

/-! ## What is kept until a command ends -/

/-- What the acts of a command and those of others keep of an entry. -/
theorem Ends.has {R : Rules} {P : Entry → Prop} {Q : α → Prop} {c : Command α}
    {result : Except Failure α} (hplayer : ∀ a, R.act a → ¬ a.ByPlayer)
    (hedit : ∀ (a : Act) o h, R.act a → a.queueId? = some queueId → ∀ e, P e → P (a.edit o h e))
    (hothers : ∀ e e' : Entry, e.Undisturbed e' → P e → P e') (hc : c.Yields R Q)
    (hends : c.Ends sees (Hub.Undisturbed queueId) h result h₁) (hhas : h.Has queueId P) :
    h₁.Has queueId P ∧ ∀ value, result = .ok value → Q value := by
  refine hends.kept (Hub.Has queueId P) ?_ (fun h h' hsame hhas => hsame.has hothers hhas) hc hhas
  intro a o h ha hhas
  rcases ha with ha | rfl
  · exact hhas.apply o (hplayer a ha) (hedit a o h ha)
  · exact hhas.apply o id fun htarget => nomatch htarget

/-- The state of the queue is as it was. -/
theorem Ends.keepsState {Q : α → Prop} {c : Command α} {result : Except Failure α}
    {state : PlayerState} (hends : c.Ends sees (Hub.Undisturbed queueId) h result h₁)
    (hc : c.Yields .keepingState Q) (hstate : h.Has queueId fun e => e.queue.state = state) :
    (h₁.Has queueId fun e => e.queue.state = state) ∧ ∀ value, result = .ok value → Q value := by
  refine hends.has (fun a ha hplayer => ?_) (fun a o h ha _ e he => ?_) (fun e e' hsame he => ?_)
    hc hstate
  · cases a <;> first | exact ha | exact hplayer
  · exact (ha.state_edit o h e).trans he
  · exact hsame.state.trans he

/-- The items are still there. -/
theorem Ends.keepsItems {Q : α → Prop} {c : Command α} {result : Except Failure α}
    {list : List String} (hends : c.Ends sees (Hub.Undisturbed queueId) h result h₁)
    (hc : c.Yields (.keepingItems queueId) Q)
    (hitems : h.Has queueId fun e => list ⊆ ids e.items) :
    h₁.Has queueId fun e => list ⊆ ids e.items := by
  refine (hends.has (fun a ha hplayer => ?_) (fun a o h ha htarget e he => ?_)
    (fun e e' hsame he => ?_) hc hitems).1
  · cases a <;> first | exact ha | exact hplayer
  · exact List.Subset.trans he (ha.ids_edit htarget o h e)
  · exact List.Subset.trans he hsame.ids_subset

/-! ## Starting -/

/-- Whether a queue is at an item of its list, in a state. -/
def Started (state : PlayerState) (index : Nat) (e : Entry) : Prop :=
  e.queue.state = state ∧ e.queue.currentIndex = some index ∧ index < e.items.length

theorem Started.of_undisturbed {state : PlayerState} {index : Nat} {e e' : Entry}
    (hsame : e.Undisturbed e') (he : Started state index e) : Started state index e' :=
  ⟨hsame.state.trans he.1, hsame.position.trans he.2.1, Nat.lt_of_lt_of_le he.2.2 hsame.length_le⟩

theorem Started.updateItem {state : PlayerState} {index : Nat} {e : Entry} (itemId : String)
    (f : QueueItem → QueueItem) (he : Started state index e) :
    Started state index (e.updateItem itemId f) := by
  unfold Entry.updateItem
  split
  · refine ⟨he.1, he.2.1, ?_⟩
    show index < (e.items.set _ _).length
    rw [List.length_set]
    exact he.2.2
  · exact he

/-- The queue is at the item while that is looked up. -/
theorem Ends.keepsStarted {c : Command α} {result : Except Failure α} {state : PlayerState}
    {index : Nat} (hends : c.Ends sees (Hub.Undisturbed queueId) h result h₁)
    (hc : c.Obeys .loading) (hstarted : h.Has queueId (Started state index)) :
    h₁.Has queueId (Started state index) := by
  refine (hends.has ?_ ?_ (fun e e' => Started.of_undisturbed) hc hstarted).1
  · rintro a ⟨other, itemId, change, rfl⟩ hplayer
    exact hplayer
  · rintro a o h ⟨other, itemId, change, rfl⟩ - e he
    exact he.updateItem itemId change.apply

theorem has_modifyQueue {P : Entry → Prop} {f : Queue → Queue}
    (hhas : h.Has queueId fun e => P { e with queue := f e.queue }) :
    (h.modifyQueue queueId f).Has queueId P := by
  obtain ⟨e, he, hP⟩ := hhas
  refine ⟨{ e with queue := f e.queue }, ?_, hP⟩
  rw [Hub.entry?_modifyQueue, if_pos rfl, he]
  rfl

/-- An item that is played is the current one, and the state of the queue is as it was before. -/
theorem started_of_playIndex {key : ItemKey} {position : UInt32} {fadeIn debounce : Bool}
    {state : PlayerState} (hstate : h.Has queueId fun e => e.queue.state = state)
    (hends : (playIndex queueId key position fadeIn debounce).Ends sees (Hub.Undisturbed queueId) h
      (.ok ()) h₁) : ∃ index, h₁.Has queueId (Started state index) := by
  obtain ⟨e, ha, hentry, hfinding⟩ := hends.of_bind_ok
  obtain ⟨hsame, he⟩ := ends_entry_ok hentry
  obtain ⟨e', he', hstate⟩ := hsame.has (P := fun e => e.queue.state = state)
    (fun e e' hsame he => hsame.state.trans he) hstate
  cases Option.some.inj (he.symm.trans he')
  obtain ⟨⟨index, item⟩, hb, hfind, hlooking⟩ := hfinding.of_bind_ok
  obtain ⟨rfl, hindex⟩ := ends_find_ok hfind
  refine ⟨index, ?_⟩
  have hthere : hb.Has queueId fun e => index < e.items.length := ⟨e, he, hindex⟩
  obtain ⟨flow, hc, hlook, hplaying⟩ := hlooking.of_bind_ok
  obtain ⟨-, -, hsame, -⟩ := ends_look_iff.1 hlook
  have hthere := hsame.has (fun e e' hsame he => Nat.lt_of_lt_of_le he hsame.length_le) hthere
  -- the queue buffers the item
  obtain ⟨_, hd, hbuffer, hloading⟩ := hplaying.of_bind_ok
  obtain ⟨hd', hsame, rfl⟩ := ends_modifyQueue hbuffer
  obtain ⟨e₁, he₁, hlength⟩ := hsame.has
    (fun e e' hsame he => Nat.lt_of_lt_of_le he hsame.length_le) hthere
  have hbuffering := has_modifyQueue (f := fun q => q.buffering index item flow)
    (P := Started .buffering index) ⟨e₁, he₁, rfl, rfl, hlength⟩
  -- the item is looked up
  obtain ⟨result, hf, hload, hlast⟩ := hloading.of_bind_ok
  obtain ⟨loading, hresult, hload⟩ := hload.of_outcome
  cases Except.ok.inj hresult
  have hbuffering := hload.keepsStarted
    ((loadItem_obeys _ _ _ _ _ _).within Rules.confined_le) hbuffering
  cases result with
  | error failure =>
    obtain ⟨_, _, -, hthrow⟩ := hlast.of_bind_ok
    by_cases hmissing : failure.isNotFound
    · simp only [hmissing, if_true] at hthrow
      obtain ⟨_, _, -, hthrow⟩ := hthrow.of_bind_ok
      obtain ⟨hfailed, -⟩ := ends_throw_iff.1 hthrow
      cases hfailed
    · simp only [hmissing] at hthrow
      obtain ⟨hfailed, -⟩ := ends_throw_iff.1 hthrow
      cases hfailed
  | ok loaded =>
    -- the queue settles
    obtain ⟨_, hg, hsettle, hsending⟩ := hlast.of_bind_ok
    obtain ⟨hg', hsame, rfl⟩ := ends_modifyQueue hsettle
    obtain ⟨e₂, he₂, hbuffered, hcurrent, hlength⟩ := hsame.has
      (fun e e' => Started.of_undisturbed) hbuffering
    have hsettled := has_modifyQueue (P := Started state index)
      (f := fun q => { q.settle e.queue.state with currentItem := some loaded })
      ⟨e₂, he₂, by simp [Queue.settle, hbuffered, hstate],
        by simp [Queue.settle, hbuffered, hcurrent], hlength⟩
    obtain ⟨_, hi, hdispatch, hsignal⟩ := hsending.of_bind_ok
    obtain ⟨o, hi', -, hsame, -, rfl⟩ := ends_change_iff.1 hdispatch
    have hsettled := hsame.has (fun e e' => Started.of_undisturbed) hsettled
    obtain ⟨o', hj, -, hsame', -, rfl⟩ := ends_change_iff.1 hsignal
    obtain ⟨e₃, he₃, hstarted⟩ := hsame'.has (fun e e' => Started.of_undisturbed)
      (P := Started state index) hsettled
    refine ⟨e₃, ?_, hstarted⟩
    rw [Hub.entry?_signal]
    exact he₃

theorem expanding_le_keepingItems : Rules.expanding ≤ Rules.keepingItems queueId :=
  ⟨by rintro a (⟨draws, rfl⟩ | ⟨media, rfl⟩) <;> exact trivial, fun _ _ => trivial⟩

/-- Media that is played becomes the current item, and the state of the queue is as it was. -/
theorem started_of_playMedia {media : List MediaRef} {radio : Bool} {start : Option String}
    {state : PlayerState} (hstate : h.Has queueId fun e => e.queue.state = state)
    (hends : (playMedia queueId media (some .play) radio start).Ends
      (Outside.Unannounced queueId) (Hub.Undisturbed queueId) h (.ok ()) h₁) :
    ∃ index, h₁.Has queueId (Started state index) := by
  obtain ⟨_, ha, hqueue, hreporting⟩ := hends.of_bind_ok
  have hstate := (hqueue.keepsState (queue_obeys queueId) hstate).1
  obtain ⟨r, hb, hreport, hstarting⟩ := hreporting.of_bind_ok
  have hstate := (hreport.keepsState (report?_obeys queueId) hstate).1
  obtain ⟨o, hquiet, -, hr⟩ := ends_look_iff.1 hreport
  cases r with
  | none =>
    obtain ⟨hfailed, -⟩ := ends_throw_iff.1 hstarting
    cases hfailed
  | some r =>
    have hannounce := hquiet r (Except.ok.inj hr).symm
    simp only [hannounce, Bool.false_eq_true, if_false] at hstarting
    obtain ⟨_, hc, hover, hforgetting⟩ := hstarting.of_bind_ok
    have hstate := (hover.keepsState (startOver_obeys queueId trivial) hstate).1
    rw [if_neg (by decide), if_pos (by decide)] at hforgetting
    obtain ⟨_, hd, hforget, hgathering⟩ := hforgetting.of_bind_ok
    have hstate := (hforget.keepsState (modifyQueue_obeys queueId .forget trivial rfl) hstate).1
    obtain ⟨g, he, hgather, hseeding⟩ := hgathering.of_bind_ok
    have hyields := gather_yields (R := .keepingState) (g := { option := some .play }) queueId radio
      start Rules.expanding_le_keepingState (fun _ => trivial) (fun hnone => nomatch hnone) media
    obtain ⟨hstate, hgathered⟩ := hgather.keepsState hyields hstate
    have hoption : g.option = some .play := hgathered g rfl _ rfl
    simp only [hoption, Option.getD_some] at hseeding
    obtain ⟨q, hf, hseed, hfinding⟩ := hseeding.of_bind_ok
    have hstate := (hseed.keepsState (modifyQueue_obeys queueId (.seed .play g.seeds) trivial rfl)
      hstate).1
    have hplaced : ∀ {media : List MediaItem} {hub : Hub},
        (hub.Has queueId fun e => e.queue.state = state) →
        Ends (Outside.Unannounced queueId) (Hub.Undisturbed queueId) (do
          let batch ← newItems queueId media
          if batch.isEmpty then throw .nothingPlayable
          place queueId .play batch radio) hub (.ok ()) h₁ →
        ∃ index, h₁.Has queueId (Started state index) := by
      intro media hub hstate hends
      obtain ⟨batch, hg, hbatch, hplacing⟩ := hends.of_bind_ok
      have hstate := (hbatch.keepsState (newItems_yields queueId media fun _ => trivial) hstate).1
      cases hempty : batch.isEmpty with
      | true =>
        simp only [hempty, if_true] at hplacing
        obtain ⟨_, _, hthrow, -⟩ := hplacing.of_bind_ok
        obtain ⟨hfailed, -⟩ := ends_throw_iff.1 hthrow
        cases hfailed
      | false =>
        simp only [hempty] at hplacing
        obtain ⟨e, hi, hentry, hloading⟩ := hplacing.of_bind_ok
        have hstate := (hentry.keepsState (entry_obeys queueId) hstate).1
        obtain ⟨_, hj, hload, hcounting⟩ := hloading.of_bind_ok
        have hstate := (hload.keepsState (load_obeys queueId _ trivial) hstate).1
        obtain ⟨list, hk, hitems, hplaying⟩ := hcounting.of_bind_ok
        have hstate := (hitems.keepsState (items_obeys queueId) hstate).1
        exact started_of_playIndex hstate hplaying
    cases radio with
    | true =>
      obtain ⟨tracks, hg, hbatch, hplacing⟩ := hfinding.of_bind_ok
      have hfound := (radioBatch_obeys .interactive (withSeeds q .play g.seeds).radioSource
        true).within Rules.expanding_le_keepingState
      exact hplaced (hbatch.keepsState hfound hstate).1 hplacing
    | false => exact hplaced hstate hfinding

/-! ## Adding -/

/-- The list of a queue has certain items, and the queue did not come to its end. -/
def GoesOn (list : List String) (e : Entry) : Prop :=
  list ⊆ ids e.items ∧ e.queue.isFinished e.items.length = false

theorem GoesOn.of_undisturbed {list : List String} {e e' : Entry} (hsame : e.Undisturbed e')
    (he : GoesOn list e) : GoesOn list e' := by
  refine ⟨List.Subset.trans he.1 hsame.ids_subset, ?_⟩
  have hlength := hsame.length_le
  have hgoes := he.2
  unfold Queue.isFinished at hgoes ⊢
  rw [hsame.state, hsame.position]
  cases hindex : e.queue.currentIndex with
  | none => simp
  | some index =>
    rw [hindex] at hgoes
    simp only [Option.any_some, Bool.and_eq_false_iff, decide_eq_false_iff_not] at hgoes ⊢
    exact hgoes.imp_right (Or.imp_right fun hbefore => by omega)

/-- A queue that did not come to its end does not start over. -/
theorem GoesOn.startOver {list : List String} (hgoes : h.Has queueId (GoesOn list)) :
    (h.startOver queueId).Has queueId fun e => list ⊆ ids e.items := by
  obtain ⟨e, he, hitems, hfinished⟩ := hgoes
  refine ⟨e.startOver, Hub.entry?_startOver he, ?_⟩
  simpa [Entry.startOver, hfinished] using hitems

theorem place_keepsItems {option : EnqueueOption} (happends : option.appends)
    (batch : List QueueItem) (radio : Bool) :
    (place queueId option batch radio).Obeys (.keepingItems queueId) := by
  refine (entry_obeys queueId).bind fun e => ?_
  cases option with
  | next => exact load_obeys queueId _ fun _ => ⟨rfl, rfl⟩
  | add =>
    refine (load_obeys queueId _ fun _ => ⟨rfl, rfl⟩).bind fun _ => ?_
    exact obeys_ite _ (markFirst_obeys queueId (fun _ => trivial) trivial) (obeys_pure ())
  | _ => cases happends

/-- Media that is added to a queue that did not come to its end leaves all items in the list. -/
theorem items_of_playMedia {media : List MediaRef} {option : EnqueueOption} {radio : Bool}
    {start : Option String} {result : Except Failure Unit} {list : List String}
    (happends : option.appends) (hgoes : h.Has queueId (GoesOn list))
    (hends : (playMedia queueId media (some option) radio start).Ends sees
      (Hub.Undisturbed queueId) h result h₁) : h₁.Has queueId fun e => list ⊆ ids e.items := by
  have hlooks : ∀ {β : Type} {c : Command β} {hub hub' : Hub} {outcome : Except Failure β},
      c.Obeys ⟨fun _ => False, fun _ => False⟩ →
      c.Ends sees (Hub.Undisturbed queueId) hub outcome hub' → hub.Has queueId (GoesOn list) →
      hub'.Has queueId (GoesOn list) := by
    intro β c hub hub' outcome hc hends hgoes
    exact (hends.has (R := ⟨fun _ => False, fun _ => False⟩) (fun _ ha => ha.elim)
      (fun _ _ _ ha => ha.elim) (fun e e' => GoesOn.of_undisturbed) hc hgoes).1
  have hkept : ∀ {hub : Hub}, hub.Has queueId (GoesOn list) →
      hub.Has queueId fun e => list ⊆ ids e.items :=
    fun ⟨e, he, hgoes⟩ => ⟨e, he, hgoes.1⟩
  rcases hends.of_bind with ⟨_, ha, hqueue, hreporting⟩ | ⟨failure, hqueue, -⟩
  swap
  · exact hkept (hlooks (queue_obeys queueId) hqueue hgoes)
  have hgoes := hlooks (queue_obeys queueId) hqueue hgoes
  rcases hreporting.of_bind with ⟨r, hb, hreport, hstarting⟩ | ⟨failure, hreport, -⟩
  swap
  · exact hkept (hlooks (report?_obeys queueId) hreport hgoes)
  have hgoes := hlooks (report?_obeys queueId) hreport hgoes
  cases r with
  | none =>
    obtain ⟨-, rfl⟩ := ends_throw_iff.1 hstarting
    exact hkept hgoes
  | some r =>
    cases hannounce : r.announcementInProgress with
    | true =>
      simp only [hannounce, if_true] at hstarting
      obtain ⟨-, rfl⟩ := ends_pure_iff.1 hstarting
      exact hkept hgoes
    | false =>
      simp only [hannounce, Bool.false_eq_true, if_false] at hstarting
      rcases hstarting.of_bind with ⟨_, hc, hover, hadding⟩ | ⟨failure, hover, -⟩
      swap
      · obtain ⟨o, hub, -, -, hfailed, -⟩ := ends_change_iff.1 hover
        cases hfailed
      obtain ⟨o, hub, -, hsame, -, rfl⟩ := ends_change_iff.1 hover
      have hgoes := hsame.has (fun e e' => GoesOn.of_undisturbed) hgoes
      have hitems := GoesOn.startOver hgoes
      have hreplaces : (some option : Option EnqueueOption) ≠ some .replace := by
        rintro ⟨⟩
        cases happends
      have hforgets : ¬ (!(some option : Option EnqueueOption).any (·.appends)) = true := by
        simpa using happends
      rw [if_neg hreplaces, if_neg hforgets] at hadding
      refine hadding.keepsItems (Q := fun _ => True) ?_ hitems
      refine Yields.bind (gather_yields (g := { option := some option }) queueId radio start
        expanding_le_keepingItems (fun _ => trivial) (fun hnone => nomatch hnone) media)
        fun g hgathered => ?_
      have hoption : g.option = some option := hgathered option rfl
      simp only [hoption, Option.getD_some]
      have hplaced : ∀ media, Obeys (.keepingItems queueId) (do
          let batch ← newItems queueId media
          if batch.isEmpty then throw .nothingPlayable
          place queueId option batch radio) := by
        intro media
        refine Yields.bind (newItems_yields queueId media fun _ => trivial) fun batch _ => ?_
        exact obeys_when _ (obeys_throw _) (place_keepsItems happends batch radio)
      refine Obeys.bind (modifyQueue_obeys queueId (.seed option g.seeds) trivial rfl) fun q => ?_
      refine obeys_ite _ (Obeys.bind ?_ fun media => hplaced media)
        ((obeys_pure g.media).bind fun media => hplaced media)
      exact (radioBatch_obeys _ _ _).within expanding_le_keepingItems

/-- A request for nothing makes a queue that came to its end drop all items. -/
theorem exists_drops {h : Hub} {e : Entry} (he : h.entry? queueId = some e)
    (hfinished : e.queue.isFinished e.items.length = true) (hothers : ∀ h, meanwhile h h) :
    ∃ result h₁, (playMedia queueId [] (some .add) false none).Ends (fun _ => True) meanwhile h
      result h₁ ∧ h₁.items queueId = [] := by
  have hover := Hub.entry?_startOver he
  let seeded := (h.startOver queueId).modifyQueue queueId fun q => withSeeds q .add []
  have hseeded : seeded.items queueId = [] := by
    have hentry : seeded.entry? queueId =
        some { e.startOver with queue := withSeeds e.startOver.queue .add [] } := by
      rw [Hub.entry?_modifyQueue, if_pos rfl, hover]
      rfl
    have hempty : e.startOver.items = [] := by
      rw [Entry.startOver, if_pos hfinished]
      rfl
    rw [Hub.items_eq_of_entry _ _ hentry]
    exact hempty
  refine ⟨.error .nothingPlayable, { seeded with nextItem := seeded.nextItem + 0 }, ?_, hseeded⟩
  have hentry : (entry queueId).Ends (fun _ => True) meanwhile h (.ok e) h := by
    refine Ends.bind (ends_look_iff.2 ⟨House.world, trivial, hothers h, rfl⟩) ?_
    rw [he]
    exact ends_pure_iff.2 ⟨rfl, rfl⟩
  have hseed : (modifyQueue queueId fun q => withSeeds q .add []).Ends (fun _ => True) meanwhile
      (h.startOver queueId) (.ok e.startOver.queue) seeded := by
    refine ends_step_iff.2 ⟨House.world, _, trivial, hothers _, ?_, ?_⟩
    · rw [Hub.queue?_eq_map, hover]
      rfl
    · rw [Hub.queue?_eq_map, hover]
      rfl
  refine Ends.bind (hentry.bind (ends_pure_iff.2 ⟨rfl, rfl⟩)) ?_
  refine Ends.bind (ends_look_iff.2 ⟨House.world, trivial, hothers h, rfl⟩) ?_
  refine Ends.bind (ends_change_iff.2 ⟨House.world, h, trivial, hothers h, rfl, rfl⟩) ?_
  refine Ends.bind (ends_pure_iff.2 ⟨rfl, rfl⟩) ?_
  refine hseed.bind ?_
  refine Ends.bind (ends_pure_iff.2 ⟨rfl, rfl⟩) ?_
  refine Ends.bind (ends_step_iff.2 ⟨House.world, seeded, trivial, hothers _, rfl, rfl⟩) ?_
  exact ends_throw_iff.2 ⟨rfl, rfl⟩

/-- The commands that, when they end well, have played an item. -/
inductive Starts (queueId : String) : Command Unit → Prop
  | playIndex (key : ItemKey) (position : UInt32) (fadeIn debounce : Bool) :
    Starts queueId (playIndex queueId key position fadeIn debounce)
  | playMedia (media : List MediaRef) (radio : Bool) (start : Option String) :
    Starts queueId (playMedia queueId media (some .play) radio start)

theorem Starts.started {first : Command Unit} (hstarts : Starts queueId first)
    {state : PlayerState} (hstate : h.Has queueId fun e => e.queue.state = state)
    (hends : first.Ends (Outside.Unannounced queueId) (Hub.Undisturbed queueId) h (.ok ()) h₁) :
    ∃ index, h₁.Has queueId (Started state index) := by
  cases hstarts with
  | playIndex => exact started_of_playIndex hstate hends
  | playMedia => exact started_of_playMedia hstate hends

/-- Whether no request that adds to a queue takes an item out of its list. -/
def AddingKeeps (queueId : String) (h : Hub) (e : Entry) : Prop :=
  ∀ (option : EnqueueOption) media radio start result h', option.appends →
    (playMedia queueId media (some option) radio start).Ends (fun _ => True)
      (Hub.Undisturbed queueId) h result h' → ids e.items ⊆ ids (h'.items queueId)

theorem addingKeeps_iff {e : Entry} {state : PlayerState} {index : Nat}
    (he : h.entry? queueId = some e) (hstarted : Started state index e) :
    AddingKeeps queueId h e ↔ ¬ (state = .idle ∧ 0 < index ∧ index + 1 = e.items.length) := by
  obtain ⟨hstate, hindex, hlength⟩ := hstarted
  have hfinished : e.queue.isFinished e.items.length = true ↔
      state = .idle ∧ 0 < index ∧ index + 1 = e.items.length := by
    unfold Queue.isFinished
    rw [hstate, hindex]
    simp only [Option.any_some, Bool.and_eq_true, decide_eq_true_eq]
    exact and_congr_right fun _ => and_congr_right fun _ => by omega
  rw [← hfinished]
  constructor
  · intro hkeeps hfinished
    obtain ⟨result, h', hends, hempty⟩ := exists_drops he hfinished (Hub.Undisturbed.refl queueId)
    have hsubset := hkeeps .add [] false none result h' rfl hends
    rw [hempty] at hsubset
    have hnone : ids e.items = [] := List.subset_nil.1 hsubset
    have hzero : e.items.length = 0 := by simpa [ids] using congrArg List.length hnone
    omega
  · intro hgoes option media radio start result h' happends hends
    obtain ⟨e', he', hitems⟩ := items_of_playMedia happends
      ⟨e, he, List.Subset.refl _, Bool.eq_false_iff.2 hgoes⟩ hends
    rw [Hub.items_eq_of_entry _ _ he']
    exact hitems

end Command

/-- After an item was played, media that is added leaves all items in the list exactly when the
queue does not look finished: it was not idle, or the item is the first one or not the last. -/
theorem adding_keeps_iff {queueId : String} {first : Command Unit} {h₀ h₁ : Hub} {e₀ : Entry}
    (hstarts : Command.Starts queueId first) (he₀ : h₀.entry? queueId = some e₀)
    (hends : first.Ends (Outside.Unannounced queueId) (Hub.Undisturbed queueId) h₀ (.ok ()) h₁) :
    ∃ e₁ index, h₁.entry? queueId = some e₁ ∧ Command.Started e₀.queue.state index e₁ ∧
      (Command.AddingKeeps queueId h₁ e₁ ↔
        ¬ (e₀.queue.state = .idle ∧ 0 < index ∧ index + 1 = e₁.items.length)) := by
  obtain ⟨index, e₁, he₁, hstarted⟩ := hstarts.started ⟨e₀, he₀, rfl⟩ hends
  exact ⟨e₁, index, he₁, hstarted, Command.addingKeeps_iff he₁ hstarted⟩

/-- The first of two items is played, and both stay when more is added. -/
theorem adding_keeps_behind_first :
    let h₀ := (House.session.run (House.fill ["a", "b"])).hub
    let first := Command.playIndex "den" (.index 0) 0 false false
    ∃ h₁ e₁, first.Ends (Outside.Unannounced "den") (Hub.Undisturbed "den") h₀ (.ok ()) h₁ ∧
      h₁.entry? "den" = some e₁ ∧ e₁.items.length = 2 ∧ Command.AddingKeeps "den" h₁ e₁ := by
  intro h₀ first
  let last := first.run.alone House.world House.answers h₀
  have hquiet : Outside.Unannounced "den" House.world := by
    rintro r ⟨⟩
    rfl
  have hends := Program.ends_alone hquiet (Hub.Undisturbed.refl "den") House.answers first.run h₀
  have hok : last.1 = .ok () := by
    have hisOk : last.1.isOk = true := by decide +kernel
    cases hlast : last.1 with
    | ok value => rfl
    | error failure =>
      rw [hlast] at hisOk
      cases hisOk
  have hknown : (Hub.entry? h₀ "den").isSome = true := by decide +kernel
  obtain ⟨e₀, he₀⟩ := Option.isSome_iff_exists.1 hknown
  have hplayed :
      first.Ends (Outside.Unannounced "den") (Hub.Undisturbed "den") h₀ (.ok ()) last.2 :=
    hok ▸ hends
  obtain ⟨e₁, index, he₁, hstarted, hkeeps⟩ := adding_keeps_iff (.playIndex _ _ _ _) he₀ hplayed
  have hlooks : (Hub.entry? last.2 "den").any (fun e => decide (e.items.length = 2) &&
      decide (e.queue.currentIndex = some 0)) = true := by
    decide +kernel
  rw [he₁, Option.any_some, Bool.and_eq_true, decide_eq_true_eq, decide_eq_true_eq] at hlooks
  have hindex : index = 0 := Option.some.inj (hstarted.2.1.symm.trans hlooks.2)
  refine ⟨last.2, e₁, hplayed, he₁, hlooks.1, hkeeps.2 ?_⟩
  omega

/-- The last of two items is played, and both are gone when one more is added. -/
theorem adding_behind_last_drops :
    let started := House.session.run
      (House.fill ["a", "b"] ++ House.request (.playIndex "den" (.index 1) 0 false false))
    let added := started.run (House.request (.playMedia "den" [.item (House.track "c")] (some .add)
      false none))
    ids (started.hub.items "den") = ["qi1", "qi2"] ∧ ids (added.hub.items "den") = ["qi3"] := by
  decide +kernel

end Jukebox
