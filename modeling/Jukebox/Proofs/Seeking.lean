import Jukebox.Proofs.Refilling
import Jukebox.Proofs.Reserving

/-!
# Where a seek goes

A seek looks at the queue and begins to play its current item at one instant (`Program.onward`), and
goes on from there whatever others do. If the current item can not be sought so far it fails at that
instant, and nothing has changed. Else it asks once for the stream of the item as it stands in the
list (`QueueItem.Requests`), from the second that was asked for; but the first second stands for no
second at all, and then the stream begins where the media is to be resumed
(`seek_goes_there_iff`).
-/

namespace Jukebox

/-! ## First instants -/

/-- A setting in which, besides, one outside may be seen and others may do nothing. -/
def Setting.orInstant (S : Setting) (o : Outside) : Setting :=
  { S with
    sees := fun seen => seen = o ∨ S.sees seen
    meanwhile := fun h h' => h' = h ∨ S.meanwhile h h' }

namespace Program

variable {α : Type} {S : Setting} {o : Outside} {p : Program α} {h h₁ : Hub}
  {history : List Happening} {value : α}

theorem Unfolds.orInstant (hunfolds : p.Unfolds S h history value h₁) (o : Outside) :
    p.Unfolds (S.orInstant o) h history value h₁ := by
  induction hunfolds with
  | done value h => exact .done value h
  | read o hsees hothers _ ih => exact .read o (.inr hsees) (.inr hothers) ih
  | write h _ ih => exact .write h ih
  | call reply hreply _ ih => exact .call reply hreply ih
  | sleep _ ih => exact .sleep ih
  | turn o _ ih => exact .turn o ih

/-- What a program does from its first wait on it does when it is run from its beginning, where it
asks the same. -/
theorem Unfolds.of_onward
    (hunfolds : (p.onward o h).1.Unfolds S (p.onward o h).2 history value h₁) :
    ∃ early, asked early = [] ∧ p.Unfolds (S.orInstant o) h (early ++ history) value h₁ := by
  induction p generalizing h with
  | read next ih =>
    obtain ⟨early, hearly, hwhole⟩ := ih o h hunfolds
    exact ⟨early, hearly, .read o (.inl rfl) (.inl rfl) hwhole⟩
  | write h' next ih =>
    obtain ⟨early, hearly, hwhole⟩ := ih hunfolds
    exact ⟨.changed h h' :: early, hearly, .write h hwhole⟩
  | _ => exact ⟨[], rfl, hunfolds.orInstant o⟩

/-- Every call of an obedient program is an allowed one. -/
theorem Unfolds.allowed {R : Rules} {Q : α → Prop} {seen : Option (Outside × Hub)}
    (hunfolds : p.Unfolds S h history value h₁) (hp : p.Yields R Q seen) {a : Answered}
    (ha : a ∈ asked history) : R.call a.1 := by
  induction hunfolds generalizing seen with
  | done => cases ha
  | @read next _ h' _ _ _ o _ _ _ ih =>
    have hnext : (next o h').Yields R Q (some (o, h')) := by cases seen <;> exact hp o h'
    exact ih hnext ha
  | write _ _ ih =>
    cases seen with
    | none => exact hp.elim
    | some at_ => exact ih hp.2 ha
  | @call c next _ _ _ _ reply _ _ ih =>
    have hallowed : R.call c ∧ ∀ reply, (next reply).Yields R Q none := by cases seen <;> exact hp
    rcases List.mem_cons.1 ha with rfl | hlater
    · exact hallowed.1
    · exact ih (hallowed.2 reply) hlater
  | sleep _ ih =>
    cases seen <;> exact ih hp ha
  | turn _ _ ih =>
    cases seen <;> exact ih hp ha

end Program

/-- The rules of a command that asks nobody anything. -/
def Rules.askingNothing : Rules := { act := fun _ => True, call := fun _ => False }

namespace Command

variable {α β : Type} {S : Setting} {queueId : String} {o : Outside} {h h' h₁ : Hub} {e : Entry}
  {history : List Happening}

theorem Unfolds.asked_eq_nil {c : Command α} {result : Except Failure α}
    (hunfolds : c.Unfolds S h history result h₁) (hc : c.Obeys .askingNothing) :
    asked history = [] :=
  List.eq_nil_iff_forall_not_mem.2 fun _ ha =>
    Program.Unfolds.allowed hunfolds hc.yields_run ha

/-- At its first instant a command goes on behind what it does at once. -/
theorem onward_bind_ok {c : Command α} {value : α} (f : α → Command β)
    (hc : c.run.onward o h = (.done (.ok value), h')) :
    (c >>= f).run.onward o h = (f value).run.onward o h' := by
  show (c.run.bind (ExceptT.bindCont f)).onward o h = _
  rw [Program.onward_bind, hc]
  rfl

theorem onward_step (f : Outside → Hub → Hub.Outcome α) (o : Outside) (h : Hub) :
    (step f).run.onward o h = (.done (f o h).1, (f o h).2) := rfl

theorem onward_look (f : Outside → Hub → α) (o : Outside) (h : Hub) :
    (look f).run.onward o h = (.done (.ok (f o h)), h) := rfl

theorem onward_entry (he : h.entry? queueId = some e) (o : Outside) :
    (entry queueId).run.onward o h = (.done (.ok e), h) := by
  rw [entry, onward_bind_ok _ (onward_look _ o h), he]
  rfl

theorem onward_modifyQueue (he : h.entry? queueId = some e) (f : Queue → Queue) (o : Outside) :
    (modifyQueue queueId f).run.onward o h =
      (.done (.ok e.queue), h.modifyQueue queueId f) := by
  simp only [modifyQueue, onward_step, Hub.queue?_of_entry he]

end Command

/-! ## The second that a stream is asked from -/

namespace QueueItem

/-- Whether an item can be loaded to start at a second by asking this: for its media, and then, once
and if that went well, for its stream from there. -/
inductive Requests (item : QueueItem) (second : UInt32) : List Answered → Prop
  | unknown {asked : List Answered} {failure : Failure}
      (hmedia : item.FindsMedia asked (.error failure)) : Requests item second asked
  | stream {asked : List Answered} {media : Option MediaItem} {request : StreamRequest}
      {reply : Except Failure StreamDetails} (hmedia : item.FindsMedia asked (.ok media))
      (hsecond : request.seekPosition = second) :
      Requests item second (asked ++ [⟨.streamDetails { item with media } request, reply⟩])

/-- The second that an item is played from when no other one is asked for: half a second before the
point at which its media is to be resumed, if it has one. -/
def resumesAt (item : QueueItem) : Nat :=
  ((item.media.bind (·.resumePositionMs)).map fun ms =>
    (ms.toNat - 500) / 1000 % 2 ^ 32).getD 0

/-- The second that an item is played from when another one is asked for. -/
def startSecond (item : QueueItem) (second : UInt32) : UInt32 :=
  if second = 0 then ((item.media.bind (·.resumePositionMs)).map resumeSecond).getD 0 else second

theorem toNat_startSecond (item : QueueItem) {n : Nat} (hn : n < 2 ^ 32) :
    (item.startSecond (UInt32.ofNat n)).toNat = if 0 < n then n else item.resumesAt := by
  have hsecond : (UInt32.ofNat n).toNat = n := UInt32.toNat_ofNat_of_lt' hn
  rcases Nat.eq_zero_or_pos n with rfl | hpositive
  · rw [startSecond, resumesAt, if_pos (show UInt32.ofNat 0 = 0 from rfl), if_neg (Nat.lt_irrefl 0)]
    cases item.media.bind (·.resumePositionMs) with
    | none => rfl
    | some ms => exact UInt32.toNat_ofNat'
  · have hnonzero : UInt32.ofNat n ≠ 0 := by
      intro hzero
      rw [hzero] at hsecond
      exact hpositive.ne hsecond
    rw [startSecond, if_neg hnonzero, if_pos hpositive, hsecond]

end QueueItem

namespace Command

variable {S : Setting} {queueId : String} {o : Outside} {h h₁ : Hub} {e : Entry}
  {history : List Happening} {item : QueueItem} {second : UInt32}

/-- What is done when an item that is to be played was looked up. -/
def afterLoad (queueId : String) (prior : PlayerState) (itemId : String) (flow debounce : Bool) :
    Except Failure QueueItem → Command Unit
  | .error failure => do
    let _ ← modifyQueue queueId (·.settle prior)
    if failure.isNotFound then
      let _ ← updateItem queueId itemId QueueItem.markUnavailable
    throw failure
  | .ok loaded => do
    let _ ← modifyQueue queueId fun q => { q.settle prior with currentItem := some loaded }
    dispatch queueId loaded flow debounce
    signal queueId false

theorem afterLoad_obeys (prior : PlayerState) (itemId : String) (flow debounce : Bool)
    (outcome : Except Failure QueueItem) :
    (afterLoad queueId prior itemId flow debounce outcome).Obeys .askingNothing := by
  cases outcome with
  | error failure =>
    refine (modifyQueue_obeys queueId (.settle prior) trivial rfl).bind fun _ => ?_
    refine obeys_ite _ ?_ (obeys_throw failure)
    exact (updateItem_obeys queueId itemId .unavailable trivial rfl).bind fun _ =>
      obeys_throw failure
  | ok loaded =>
    refine (modifyQueue_obeys queueId (.arrive prior loaded) trivial rfl).bind fun _ => ?_
    exact send_obeys queueId (fun _ _ => trivial) trivial loaded flow debounce

/-- An item that is looked up is asked for once from the second at which it is to start. -/
theorem unfolds_loadItem_requests {following : Option Nat} {isStart fadeIn : Bool}
    {result : Except Failure QueueItem}
    (hunfolds : (loadItem queueId item following isStart second fadeIn).Unfolds S h history result
      h₁) : item.Requests second (asked history) := by
  obtain ⟨_, h₂, -, -, hfinds⟩ := Unfolds.of_look hunfolds
  rcases hfinds.of_bind with ⟨media, h₃, first, rest, hmedia, hasks, rfl⟩ | ⟨failure, hmedia, -⟩
  · obtain ⟨hfound, -, -⟩ := unfolds_freshMedia hmedia
    rw [asked_append]
    rcases hasks.of_call with ⟨details, last, -, rfl, hkeeps⟩ | ⟨failure, -, rfl, -, -⟩
    · have hquiet : asked last = [] := by
        refine Unfolds.asked_eq_nil hkeeps ((obeys_look _).bind fun crossfade => ?_)
        refine Obeys.bind ?_ fun _ => obeys_pure _
        exact updateItem_obeys queueId _ (.loaded _ _) trivial rfl
      rw [asked_answered, hquiet]
      exact .stream hfound rfl
    · exact .stream hfound rfl
  · exact .unknown (unfolds_freshMedia hmedia).1

theorem unfolds_load_requests {following : Option Nat} {isStart fadeIn flow debounce : Bool}
    {prior : PlayerState} {itemId : String} {result : Except Failure Unit}
    (hunfolds : (outcome (loadItem queueId item following isStart second fadeIn) >>=
      afterLoad queueId prior itemId flow debounce).Unfolds S h history result h₁) :
    item.Requests second (asked history) := by
  obtain ⟨loaded, h₂, first, rest, hload, hafter, rfl⟩ := hunfolds.of_outcome
  rw [asked_append, hafter.asked_eq_nil (afterLoad_obeys prior itemId flow debounce loaded),
    List.append_nil]
  exact unfolds_loadItem_requests hload

/-- Playing an item goes on at once to look it up. -/
theorem onward_playIndex (he : h.entry? queueId = some e) {key : ItemKey} {index : Nat}
    (hfind : find e key = pure (index, item)) (seek : UInt32) (fadeIn debounce : Bool)
    (o : Outside) :
    ∃ following flow h', (playIndex queueId key seek fadeIn debounce).run.onward o h =
      (outcome (loadItem queueId item following true (item.startSecond seek) fadeIn) >>=
        afterLoad queueId e.queue.state item.id flow debounce).run.onward o h' := by
  refine ⟨nextIndex e.items.length e.queue.repeatMode (some index) false false,
    h.config.flowMode queueId,
    h.modifyQueue queueId (·.buffering index item (h.config.flowMode queueId)), ?_⟩
  unfold playIndex
  rw [onward_bind_ok _ (onward_entry he o), hfind, pure_bind, onward_bind_ok _ (onward_look _ o h),
    onward_bind_ok _ (onward_modifyQueue he _ o)]
  refine congrArg (fun c : Command Unit => c.run.onward o _) (bind_congr fun result => ?_)
  cases result <;> rfl

/-- An item of the list that is played is asked for once, from the second at which it is to start,
whatever others do meanwhile. -/
theorem requests_of_onward_playIndex (he : h.entry? queueId = some e) {key : ItemKey} {index : Nat}
    (hfind : find e key = pure (index, item)) {seek : UInt32} {fadeIn debounce : Bool}
    {result : Except Failure Unit}
    (hunfolds : ((playIndex queueId key seek fadeIn debounce).run.onward o h).1.Unfolds S
      ((playIndex queueId key seek fadeIn debounce).run.onward o h).2 history result h₁) :
    item.Requests (item.startSecond seek) (asked history) := by
  obtain ⟨following, flow, h', hplays⟩ := onward_playIndex he hfind seek fadeIn debounce o
  rw [hplays] at hunfolds
  obtain ⟨early, hearly, hwhole⟩ := hunfolds.of_onward
  have hrequests := unfolds_load_requests hwhole
  rwa [asked_append, hearly, List.nil_append] at hrequests

end Command

/-! ## Seeks -/

/-- Whether an item is the current one of a queue and can be played from a position: it has a
duration, and the position lies within it. What lies before its beginning counts as that. -/
def Entry.Seekable (e : Entry) (position : Int) (item : QueueItem) : Prop :=
  e.queue.currentItem = some item ∧
    ∃ d, item.duration = some d ∧ 0 < d.toNat ∧ position ≤ d.toNat

namespace Command

variable {queueId : String} {o : Outside} {h : Hub} {e : Entry} {item : QueueItem} {position : Int}

theorem onward_seek (he : h.entry? queueId = some e) (position : Int) (o : Outside) :
    (seek queueId position).run.onward o h =
      (match e.queue.currentItem with
        | none => throw (.nothingLoaded e.queue.displayName)
        | some item =>
          let duration := (item.duration.map UInt32.toNat).getD 0
          if duration = 0 then throw .seekWithoutDuration
          else if duration < position.toNat then throw .seekOutsideDuration
          else playIndex queueId (.id item.id) (UInt32.ofNat position.toNat) false false :
        Command Unit).run.onward o h := by
  have hqueue := Hub.queue?_of_entry he
  rw [seek, onward_bind_ok _ (onward_look _ o h)]
  generalize h.queue? queueId = found at hqueue
  subst hqueue
  rfl

/-- Where a queue can not be sought, this is told at once and nothing has changed. -/
theorem onward_seek_refused (he : h.entry? queueId = some e)
    (hnone : ∀ item, ¬ e.Seekable position item) :
    ∃ why, (seek queueId position).run.onward o h = (.done (.error (.invalidCommand why)), h) := by
  rw [onward_seek he]
  cases hitem : e.queue.currentItem with
  | none => exact ⟨_, rfl⟩
  | some item =>
    dsimp only
    split
    · exact ⟨_, rfl⟩
    · next hduration =>
      split
      · exact ⟨_, rfl⟩
      · next hinside =>
        cases hd : item.duration with
        | none => rw [hd] at hduration; exact absurd rfl hduration
        | some d =>
          rw [hd, Option.map_some, Option.getD_some] at hduration hinside
          exact absurd ⟨hitem, d, hd, Nat.pos_of_ne_zero hduration, by omega⟩ (hnone item)

/-- Where it can, its current item is played from there. -/
theorem onward_seek_plays (he : h.entry? queueId = some e) (hseekable : e.Seekable position item)
    (o : Outside) : (seek queueId position).run.onward o h =
      (playIndex queueId (.id item.id) (UInt32.ofNat position.toNat) false false).run.onward o
        h := by
  obtain ⟨hitem, d, hd, hpositive, hinside⟩ := hseekable
  rw [onward_seek he, hitem]
  dsimp only
  rw [hd, Option.map_some, Option.getD_some, if_neg (by omega), if_neg (by omega)]

theorem find_of_index {index : Nat} {listed : QueueItem} {itemId : String}
    (hindex : indexOf? e.items itemId = some index) (hlisted : e.items[index]? = some listed) :
    find e (.id itemId) = pure (index, listed) := by
  simp only [find, hindex, pure_bind, hlisted]

/-- An item that is not in the list is not found at once, and nothing has changed. -/
theorem onward_playIndex_unknown (he : h.entry? queueId = some e) {itemId : String}
    (habsent : itemId ∉ ids e.items) (seek : UInt32) (fadeIn debounce : Bool) (o : Outside) :
    (playIndex queueId (.id itemId) seek fadeIn debounce).run.onward o h =
      (.done (.error (.unknownItem itemId)), h) := by
  have hfind : find e (.id itemId) = throw (.unknownItem itemId) := by
    simp only [find, indexOf?_of_notMem habsent]
    rfl
  rw [playIndex, onward_bind_ok _ (onward_entry he o), hfind]
  rfl

end Command

/-- Where a seek goes. At one instant it either fails, if the current item has no duration or is
shorter, and then nothing has changed, or it begins to play the current item, which fails in the
same way if it is not in the list. Then, whatever others do meanwhile, it asks once for the stream
of the item as it stands in the list, unless its media can not be found: from the second that was
asked for just if that is not the first one or the media has no point to be resumed at that counts;
else the stream is asked for from that point. -/
theorem seek_goes_there_iff {h : Hub} {queueId : String} {e : Entry}
    (he : h.entry? queueId = some e) (o : Outside) (position : Int) :
    let begun := (Command.seek queueId position).run.onward o h
    ((∀ item, ¬ e.Seekable position item) →
      ∃ why, begun = (.done (.error (.invalidCommand why)), h)) ∧
    ∀ item, e.Seekable position item →
      (item.id ∉ ids e.items → begun = (.done (.error (.unknownItem item.id)), h)) ∧
      ∀ index listed, indexOf? e.items item.id = some index → e.items[index]? = some listed →
        ∃ second : UInt32,
          second.toNat = (if 0 < position then position.toNat else listed.resumesAt) ∧
          (second.toNat = position.toNat ↔ 0 < position ∨ listed.resumesAt = 0) ∧
          ∀ S : Setting,
            (S.Open → ∃ history result h₁, begun.1.Unfolds S begun.2 history result h₁) ∧
            ∀ history result h₁, begun.1.Unfolds S begun.2 history result h₁ →
              listed.Requests second (asked history) := by
  intro begun
  refine ⟨Command.onward_seek_refused he, fun item hseekable => ?_⟩
  have hbegun := Command.onward_seek_plays he hseekable o
  refine ⟨fun habsent => ?_, fun index listed hindex hlisted => ?_⟩
  · exact hbegun.trans (Command.onward_playIndex_unknown he habsent _ _ _ o)
  · obtain ⟨-, d, -, -, hinside⟩ := hseekable
    have hsecond := listed.toNat_startSecond
      (show position.toNat < 2 ^ 32 by have := d.toNat_lt; omega)
    simp only [← Int.pos_iff_toNat_pos] at hsecond
    refine ⟨listed.startSecond (UInt32.ofNat position.toNat), hsecond, ?_,
      fun S => ⟨fun hopen => ?_, fun history result h₁ hunfolds => ?_⟩⟩
    · rw [hsecond]
      split <;> omega
    · exact Program.exists_unfolds hopen _ _
    · rw [show begun = _ from hbegun] at hunfolds
      exact Command.requests_of_onward_playIndex he (Command.find_of_index hindex hlisted) hunfolds

/-- A book of three minutes, to be resumed half a second behind the forty-first one. -/
def House.leftBook : QueueItem :=
  .ofMedia "qi1" "den"
    { track "b" with kind := .audiobook [] { positionMs := some 41500 } }

/-- A book is sought to its second minute, and the stream is asked for from there, though the book
is to be resumed earlier. -/
theorem book_sought_to_second_minute :
    let e : Entry :=
      { queue := { Queue.empty "den" "Den" true with currentItem := some House.leftBook }
        items := [House.leftBook] }
    let h := (Hub.start {} {} default 1).putEntry "den" e
    let begun := (Command.seek "den" 60).run.onward House.world h
    h.entry? "den" = some e ∧ e.Seekable 60 House.leftBook ∧ House.leftBook.resumesAt = 41 ∧
      ∃ second : UInt32, second.toNat = 60 ∧
        ∀ S : Setting,
          (S.Open → ∃ history result h₁, begun.1.Unfolds S begun.2 history result h₁) ∧
          ∀ history result h₁, begun.1.Unfolds S begun.2 history result h₁ →
            House.leftBook.Requests second (asked history) := by
  intro e h begun
  have he : h.entry? "den" = some e := by simp [h]
  have hseekable : e.Seekable 60 House.leftBook := ⟨rfl, 180, rfl, by decide, by decide⟩
  obtain ⟨second, -, hiff, hall⟩ :=
    ((seek_goes_there_iff he House.world 60).2 House.leftBook hseekable).2 0 House.leftBook rfl rfl
  exact ⟨he, hseekable, rfl, second, hiff.2 (.inl (by decide)), hall⟩

/-- The catalog knows where a book was left. -/
def House.reading : Answers
  | .resumeInfo _ => .ok (some { positionMs := some 42000 })
  | c => answers c

/-- A book of three minutes is the current item of the only player. -/
def House.opened : List (Outside × Move) :=
  (world, .register den) ::
    (world, .ask (.playMedia "den" [.item { track "b" with kind := .audiobook [] {} }] (some .add)
      false none)) ::
    List.replicate 20 (world, .proceed 0 reading)

/-- A book that is sought to its beginning is asked for from where it was left. -/
theorem book_sought_to_beginning :
    let h := (House.session.run House.opened).hub
    let S := House.alone House.reading
    (h.entry? "den").any (fun e => decide (ids e.items = ["qi1"]) &&
        e.queue.currentItem.any fun item =>
          decide (item.id = "qi1" ∧ item.duration = some 180)) = true ∧
      ∃ history h₁, (Command.seek "den" 0).Unfolds S h history (.ok ()) h₁ ∧
        ((asked history).filterMap fun
          | ⟨.streamDetails item request, _⟩ => some (item.id, request.seekPosition)
          | _ => none) = [("qi1", 41)] := by
  intro h S
  refine ⟨by decide +kernel, ?_⟩
  have hunfolds := House.unfolds_alone House.reading (Command.seek "den" 0).run h
  have hended : ((Command.seek "den" 0).run.alone House.world House.reading h).1 = .ok () := by
    decide +kernel
  rw [hended] at hunfolds
  exact ⟨_, _, hunfolds, by decide +kernel⟩

end Jukebox
