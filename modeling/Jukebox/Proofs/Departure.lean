import Jukebox.Proofs.Isolation
import Jukebox.Proofs.Recording

/-!
# Queues that are gone

When the player of a queue goes, the queue is dropped with its items and with what is remembered of
it, and its snapshot is deleted. Commands and jobs of the queue may be under way at that time, and
go on afterwards. Each of their acts looks the queue up again, and an act for an unknown queue makes
no entry, stores nothing and publishes nothing (`Hub.Gone.leavesAlone_apply`). So the queue stays
gone until its player comes again (`removed_stays_gone`).
-/

namespace Jukebox

namespace Hub

variable {h h' : Hub} {queueId : String} (o : Outside)

/-- Whether nothing is left of a queue: it is unknown, and nothing is stored under its base. -/
structure Gone (queueId : String) (h : Hub) : Prop where
  unknown : h.entry? queueId = none
  stored : ∀ key, h.store.get? (Store.queueBase queueId) key = none

theorem Gone.of_leavesAlone (hgone : h.Gone queueId) (halone : LeavesAlone queueId h h') :
    h'.Gone queueId :=
  ⟨halone.entry.trans hgone.unknown, fun key => (halone.stored key).trans (hgone.stored key)⟩

/-- A player that goes leaves nothing behind, if its snapshot can be deleted. -/
theorem gone_onRemove (hworks : o.faults.deleting (Store.queueBase queueId) = false) :
    (h.onRemove o queueId).Gone queueId := by
  refine ⟨(entry?_remove o queueId queueId).trans (if_pos rfl), fun key => ?_⟩
  show (if o.faults.deleting (Store.queueBase queueId) then h.store
    else h.store.delete (Store.queueBase queueId)).get? (Store.queueBase queueId) key = none
  rw [hworks, if_neg Bool.false_ne_true, Store.get?_delete, if_pos rfl]

/-! ## Acts for an unknown queue -/

/-- An act for an unknown queue does nothing, unless it sends media to its player or the player
comes or goes. -/
theorem apply_of_unknown (hunknown : h.entry? queueId = none) {a : Act}
    (htarget : a.target? = some queueId) (hsends : ∀ id delay media, a ≠ .dispatch id delay media)
    (hcomes : ∀ r, a ≠ .register r) (hgoes : ∀ playerId, a ≠ .remove playerId) :
    a.apply o h = h := by
  have hqueue : h.queue? queueId = none := by rw [queue?_eq_map, hunknown, Option.map_none]
  cases a with
  | modify => cases htarget; simp only [Act.apply, modifyQueue, modifyEntry, hunknown]
  | updateItem => cases htarget; simp only [Act.apply, updateItem, hunknown]
  | load => cases htarget; simp only [Act.apply, load, hunknown]
  | moveItem => cases htarget; simp only [Act.apply, moveItem, edit, hunknown]
  | deleteItem => cases htarget; simp only [Act.apply, deleteItem, edit, hunknown]
  | clear => cases htarget; simp only [Act.apply, clear, clearItems, hunknown]
  | startOver => cases htarget; simp only [Act.apply, startOver, hunknown]
  | setShuffle => cases htarget; simp only [Act.apply, setShuffle, hunknown]
  | setRepeat => cases htarget; simp only [Act.apply, setRepeat, hqueue]
  | setDontStop => cases htarget; simp only [Act.apply, setDontStop, hqueue]; split <;> rfl
  | trackLoaded => cases htarget; simp only [Act.apply, trackLoaded, hunknown]
  | logFlow => cases htarget; simp only [Act.apply, logFlow, hqueue]
  | signal => cases htarget; simp only [Act.apply, signal, hqueue]
  | report r => cases htarget; exact onReport_unknown o hunknown
  | dispatch id delay media => exact absurd rfl (hsends id delay media)
  | register r => exact absurd rfl (hcomes r)
  | remove playerId => exact absurd rfl (hgoes playerId)
  | _ => cases htarget

/-- A player that goes once more finds nothing to drop. -/
theorem Gone.leavesAlone_remove (hgone : h.Gone queueId) :
    LeavesAlone queueId h (h.onRemove o queueId) := by
  refine ⟨?_, fun key => ?_, [], (List.append_nil _).symm, fun _ he => nomatch he⟩
  · exact (entry?_remove o queueId queueId).trans ((if_pos rfl).trans hgone.unknown.symm)
  · show (if o.faults.deleting (Store.queueBase queueId) then h.store
      else h.store.delete (Store.queueBase queueId)).get? (Store.queueBase queueId) key = _
    split
    · rfl
    · rw [Store.get?_delete, if_pos rfl, hgone.stored key]

/-- An act that is not for a queue leaves it alone. -/
theorem leavesAlone_of_target_ne (hnamed : h.Named) {a : Act} (hother : a.target? ≠ some queueId) :
    LeavesAlone queueId h (a.apply o h) := by
  cases htarget : a.target? with
  | some other =>
    have hne : queueId ≠ other := fun heq => hother (heq ▸ htarget)
    exact Hub.leavesAlone_apply o hnamed (htarget.symm ▸ rfl : NamesOnly other a.target?) hne
  | none =>
    have hne : queueId ≠ queueId ++ "." := by
      intro heq
      have hlength := congrArg String.length heq
      rw [String.length_append, show ".".length = 1 from rfl] at hlength
      omega
    exact Hub.leavesAlone_apply o hnamed (htarget.symm ▸ trivial : NamesOnly _ a.target?) hne

/-- As long as its player does not come, a queue that is gone is left alone by every act, also by
those that are for it. -/
theorem Gone.leavesAlone_apply (hgone : h.Gone queueId) (hnamed : h.Named) {a : Act}
    (hcomes : ∀ r, a = .register r → r.playerId ≠ queueId) :
    LeavesAlone queueId h (a.apply o h) := by
  by_cases htarget : a.target? = some queueId
  · by_cases hsends : ∃ id delay media, a = .dispatch id delay media
    · obtain ⟨id, delay, media, rfl⟩ := hsends
      exact ⟨rfl, fun _ => rfl, [], (List.append_nil _).symm, fun _ he => nomatch he⟩
    by_cases hgoes : ∃ playerId, a = .remove playerId
    · obtain ⟨playerId, rfl⟩ := hgoes
      cases htarget
      exact hgone.leavesAlone_remove o
    have hsame : a.apply o h = h := by
      refine apply_of_unknown o hgone.unknown htarget (fun id delay media ha => ?_)
        (fun r ha => ?_) fun playerId ha => hgoes ⟨playerId, ha⟩
      · exact hsends ⟨id, delay, media, ha⟩
      · subst ha
        exact hcomes r rfl (Option.some.inj htarget)
    rw [hsame]
    exact .refl h queueId
  · exact leavesAlone_of_target_ne o hnamed htarget

end Hub

namespace Session

variable {s : Session} {queueId : String}

/-- Whether the player of a queue comes in none of some moves. -/
def StaysAway (queueId : String) (moves : List (Outside × Move)) : Prop :=
  ∀ o r, (o, Move.register r) ∈ moves → r.playerId ≠ queueId

theorem follows_internal_run (config : Config) (store : Store) (draws : Draws) (nextItem : Nat)
    (moves : List (Outside × Move)) :
    ((start config store draws nextItem).run moves).Follows .internal :=
  Follows.run Request.command_internal Job.command_internal
    (follows_start .internal config store draws nextItem) moves

/-- A step is one act at most, and players come and go by it only if the move says so. -/
theorem Follows.exists_act (hs : s.Follows .internal) (o : Outside) (move : Move) :
    (s.step o move).hub = s.hub ∨ ∃ a : Act, (s.step o move).hub = a.apply o s.hub ∧
      (∀ r, a = .register r → move = .register r) ∧
      ∀ playerId, a = .remove playerId → move = .remove playerId := by
  rcases (hs.step Request.command_internal Job.command_internal o move).2 with
    hsame | ⟨a, ha, heq⟩
  · exact .inl hsame
  refine .inr ⟨a, heq, fun r hr => ?_, fun playerId hid => ?_⟩
  · subst hr
    rcases ha with hinternal | hturn | hmove
    · exact hinternal.elim
    · cases hturn
    · cases move <;> cases hmove
      rfl
  · subst hid
    rcases ha with hinternal | hturn | hmove
    · exact hinternal.elim
    · cases hturn
    · cases move <;> cases hmove
      rfl

theorem gone_step (hs : s.Follows .internal) (hnamed : s.hub.Named) (hgone : s.hub.Gone queueId)
    (o : Outside) (move : Move) (hcomes : ∀ r, move = .register r → r.playerId ≠ queueId) :
    s.hub.LeavesAlone queueId (s.step o move).hub ∧ (s.step o move).hub.Named := by
  rcases hs.exists_act o move with hsame | ⟨a, heq, hregisters, -⟩
  · rw [hsame]
    exact ⟨.refl _ _, hnamed⟩
  · rw [heq]
    have halone := hgone.leavesAlone_apply o hnamed fun r hr => hcomes r (hregisters r hr)
    exact ⟨halone, hnamed.apply o a⟩

/-- What is under way when a queue is gone, and what begins later, leaves the queue alone. -/
theorem gone_run (hs : s.Follows .internal) (hnamed : s.hub.Named) (hgone : s.hub.Gone queueId)
    {moves : List (Outside × Move)} (haway : StaysAway queueId moves) :
    s.hub.LeavesAlone queueId (s.run moves).hub := by
  induction moves generalizing s with
  | nil => exact .refl _ _
  | cons m more ih =>
    obtain ⟨o, move⟩ := m
    obtain ⟨halone, hnext⟩ := gone_step hs hnamed hgone o move fun r hr =>
      haway o r (hr ▸ List.mem_cons_self)
    have hfollows := (hs.step Request.command_internal Job.command_internal o move).1
    exact halone.trans (ih hfollows hnext (hgone.of_leavesAlone halone) fun o r hr =>
      haway o r (List.mem_cons_of_mem _ hr))

end Session

/-- A queue whose player goes stays gone until the player comes again, whatever was under way and
whatever happens meanwhile: there is no entry for it, nothing is stored under its base, and nothing
is published about it. -/
theorem removed_stays_gone (config : Config) (store : Store) (draws : Draws) (nextItem : Nat)
    (before : List (Outside × Move)) (o : Outside) {queueId : String}
    (hworks : o.faults.deleting (Store.queueBase queueId) = false)
    {after : List (Outside × Move)} (haway : Session.StaysAway queueId after) :
    let s := (Session.start config store draws nextItem).run before
    let later := ((s.step o (.remove queueId)).run after).hub
    later.entry? queueId = none ∧
      (∀ key, later.store.get? (Store.queueBase queueId) key = none) ∧
      ∃ told, later.events = s.hub.events ++ told ∧ ∀ e ∈ told, e.queueId ≠ queueId := by
  intro s later
  have hfollows := Session.follows_internal_run config store draws nextItem before
  have hremoved : (s.hub.onRemove o queueId).Gone queueId := Hub.gone_onRemove o hworks
  have halone : (s.hub.onRemove o queueId).LeavesAlone queueId later := by
    refine Session.gone_run (s := s.step o (.remove queueId)) ?_ ?_ hremoved haway
    · exact (hfollows.step Request.command_internal Job.command_internal o _).1
    · exact (Session.named_run config store draws nextItem before).apply o (.remove queueId)
  obtain ⟨hunknown, hstored⟩ := hremoved.of_leavesAlone halone
  exact ⟨hunknown, hstored, halone.events⟩

/-- The catalog knows every track. -/
def House.catalog : Answers
  | .itemByUri uri => .ok (track uri)
  | c => answers c

/-- A track plays, the one behind it is looked up to be handed over, and another one is requested of
the catalog. -/
def House.twoLookups : List (Outside × Move) :=
  fill ["a", "b"] ++
    [(world, .report (playing "qi1" 100)), (world, .start 0),
      (world, .ask (.playMedia "den" [.uri "test://track/c"] (some .add) false none))] ++
    List.replicate 3 (world, .proceed 0 answers) ++ List.replicate 3 (world, .proceed 1 catalog)

/-- What was looked up arrives, the player reports once more, and the queue is asked to play. -/
def House.lateAnswers : List (Outside × Move) :=
  List.replicate 6 (world, .proceed 0 answers) ++ List.replicate 6 (world, .proceed 0 catalog) ++
    (world, .report (playing "qi2" 1)) :: request (.play "den")

/-- Two lookups are under way for a queue when its player goes. What they find does not bring the
queue back. -/
theorem removed_while_looking_up :
    let s := House.session.run House.twoLookups
    let later := ((s.step House.world (.remove "den")).run House.lateAnswers).hub
    (s.active.length = 2 ∧ (s.hub.items "den").length = 2 ∧
        (s.hub.store.get? (Store.queueBase "den") Store.itemsKey).isSome) ∧
      later.entry? "den" = none ∧
      (∀ key, later.store.get? (Store.queueBase "den") key = none) ∧
      ∃ told, later.events = s.hub.events ++ told ∧ ∀ e ∈ told, e.queueId ≠ "den" := by
  have haway : Session.StaysAway "den" House.lateAnswers := by
    intro o r hr
    simp [House.lateAnswers, House.request, House.goOn] at hr
  have hworks : House.world.faults.deleting (Store.queueBase "den") = false := rfl
  have hgone := removed_stays_gone {} {} default 1 House.twoLookups House.world hworks haway
  refine ⟨by decide +kernel, ?_⟩
  unfold House.session
  exact hgone

end Jukebox
