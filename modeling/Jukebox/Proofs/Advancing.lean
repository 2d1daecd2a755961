import Jukebox.Proofs.Sending
import Jukebox.Proofs.Walking

/-!
# Going on to the next item

The next item of a queue is played by a walk over the positions ahead: those behind the current one,
and from the end of the list on, when the list repeats, those from its beginning to the current one
(`ahead`). Each try moves the queue to the position and looks its item up; the first item that loads
is the only one that is sent to the player (`next_walks_ahead`).
-/

namespace Jukebox

/-! ## The positions ahead -/

/-- The positions to which a listener can skip from a position, in order. -/
def ahead (mode : RepeatMode) (length position : Nat) : List Nat :=
  if mode = .all then around length position else behind length position

/-- The positions, at most so many, that one skip after the other leads to. -/
def skipped (mode : RepeatMode) (length : Nat) : Nat → Nat → List Nat
  | 0, _ => []
  | tries + 1, position =>
    match nextIndex length mode (some position) true true with
    | none => []
    | some index => index :: skipped mode length tries index

section Ahead

variable {mode : RepeatMode} {length position tries : Nat}

theorem nextIndex_skipping (hlength : 0 < length) :
    nextIndex length mode (some position) true true =
      if length - 1 ≤ position then if mode = .all then some 0 else none
      else some (position + 1) := by
  have hnone : length ≠ 0 := by omega
  have hone : ¬ (mode = .one ∧ !true) := fun h => nomatch h.2
  unfold nextIndex
  dsimp only
  rw [if_neg hnone, if_neg hone]
  simp

theorem nextIndex_lt (hlength : 0 < length) {index : Nat}
    (hnext : nextIndex length mode (some position) true true = some index) : index < length := by
  rw [nextIndex_skipping hlength] at hnext
  split at hnext
  · split at hnext
    · cases hnext
      exact hlength
    · cases hnext
  · cases hnext
    omega

/-- Without a repeat the skips lead to the end of the list. -/
theorem skipped_behind (hmode : mode ≠ .all) (hlt : position < length)
    (htries : length - 1 - position ≤ tries) :
    skipped mode length tries position = behind length position := by
  induction tries generalizing position with
  | zero =>
    rw [behind_of_le (by omega)]
    rfl
  | succ tries ih =>
    rw [skipped, nextIndex_skipping (by omega), if_neg hmode]
    by_cases hend : length - 1 ≤ position
    · rw [if_pos hend, behind_of_le hend]
    · rw [if_neg hend, behind_of_lt (by omega), ← ih (by omega) (by omega)]

theorem length_around (hlt : position < length) : (around length position).length = length := by
  simp [around, behind]
  omega

/-- Going around the list from the next position is to put off that position to the end. -/
theorem around_next (hlt : position < length) {index : Nat}
    (hindex : index = if length - 1 ≤ position then 0 else position + 1) :
    ∃ rest, around length position = index :: rest ∧ around length index = rest ++ [index] := by
  by_cases hend : length - 1 ≤ position
  · -- from the last position on, the list begins again
    have hlength : length = position + 1 := by omega
    rw [if_pos hend] at hindex
    subst hlength hindex
    refine ⟨List.range' 1 position, ?_, rfl⟩
    rw [around, behind_of_le hend, List.nil_append, List.range_eq_range', List.range'_succ]
  · rw [if_neg hend] at hindex
    subst hindex
    refine ⟨behind length (position + 1) ++ List.range (position + 1), ?_, ?_⟩
    · rw [around, behind_of_lt (by omega), List.cons_append]
    · rw [around, List.range_succ, List.append_assoc]

/-- In a list that repeats the skips lead around it. -/
theorem skipped_around (hlt : position < length) (htries : tries ≤ length) :
    skipped .all length tries position = (around length position).take tries := by
  induction tries generalizing position with
  | zero => rfl
  | succ tries ih =>
    obtain ⟨index, hindex⟩ : ∃ index, index = if length - 1 ≤ position then 0 else position + 1 :=
      ⟨_, rfl⟩
    have hnext : nextIndex length .all (some position) true true = some index := by
      rw [nextIndex_skipping (by omega), if_pos rfl, hindex]
      split <;> rfl
    obtain ⟨rest, hhere, hthere⟩ := around_next hlt hindex
    have hrest : rest.length + 1 = length := by
      rw [← length_around hlt, hhere, List.length_cons]
    rw [skipped, hnext, hhere, List.take_succ_cons]
    dsimp only
    rw [ih (nextIndex_lt (by omega) hnext) (by omega), hthere,
      List.take_append_of_le_length (by omega)]

theorem skipped_ahead (hlt : position < length) :
    skipped mode length length position = ahead mode length position := by
  unfold ahead
  by_cases hmode : mode = .all
  · have hlength := length_around hlt
    rw [if_pos hmode, hmode, skipped_around hlt (Nat.le_refl _), List.take_of_length_le (by omega)]
  · rw [if_neg hmode, skipped_behind hmode hlt (by omega)]

theorem nodup_ahead : (ahead mode length position).Nodup := by
  unfold ahead around
  split
  · refine List.nodup_append.2 ⟨nodup_behind _ _, List.nodup_range, ?_⟩
    rintro index hbehind _ hfront rfl
    have hfront := List.mem_range.1 hfront
    have hbehind := (mem_behind.1 hbehind).1
    omega
  · exact nodup_behind _ _

theorem length_ahead_le (hlt : position < length) :
    (ahead mode length position).length ≤ length := by
  unfold ahead
  split
  · exact (length_around hlt).le
  · simp [behind]
    omega

end Ahead

/-! ## Playing an item -/

/-- Whether a history puts into the schedule that an item is sent to the player, and nothing
else. -/
def SendsOnly (queueId : String) (item : QueueItem) (history : List Happening) : Prop :=
  ∃ due o flow, Books history
    [⟨Job.dispatchKey queueId, due, .dispatch queueId (Outside.mediaOf o item flow)⟩]

/-- Whether the queue of an entry is at a position, and the player is told to be there. -/
def Entry.StandsAt (e : Entry) (index : Nat) : Prop :=
  e.queue.currentIndex = some index ∧ e.queue.bufferedIndex = some index

namespace Entry

variable {e e' : Entry} {index : Nat}

theorem StandsAt.relisted {items : List QueueItem} (hstands : e.StandsAt index)
    (hrelists : e.Relists items e') : e'.StandsAt index := by
  obtain ⟨_, _, rfl⟩ := hrelists
  exact hstands

theorem StandsAt.settled (hstands : e.StandsAt index) (prior : PlayerState) :
    { e with queue := e.queue.settle prior }.StandsAt index := by
  unfold Queue.settle
  split <;> exact hstands

end Entry

namespace Command

variable {S : Setting} {queueId : String} {h h₁ : Hub} {history : List Happening}

section Stages

variable (hS : S.Spares queueId) {e : Entry} (he : h.entry? queueId = some e)

include hS he

/-- An item that is looked up to be played is kept where it is when it loads, and marked when it can
not be found; the queue moves there in any case. -/
theorem unfolds_loadAt (hids : (ids e.items).Nodup) {index : Nat} {item : QueueItem}
    (hitem : e.items[index]? = some item) {seek : UInt32} {fadeIn : Bool}
    {result : Except Failure (QueueItem × Bool)}
    (hunfolds : (loadAt queueId (.index index) seek fadeIn).Unfolds S h history result h₁) :
    item.LooksUp (asked history) (result.map (·.1)) ∧ Books history [] ∧
      ∃ e₁, h₁.entry? queueId = some e₁ ∧ e₁.StandsAt index ∧
        e₁.items =
          match result with
          | .ok (loaded, _) => e.items.set index loaded
          | .error failure =>
            if failure.isNotFound then e.items.set index item.markUnavailable else e.items := by
  obtain ⟨h₂, he₂, hunfolds⟩ := Unfolds.of_entry hS he hunfolds
  have hfind : find e (.index index) = pure (index, item) := by
    simp only [find, pure_bind, hitem]
  rw [hfind, pure_bind] at hunfolds
  obtain ⟨_, h₃, -, hothers, hunfolds⟩ := Unfolds.of_look hunfolds
  have he₃ := (hS _ _ hothers).trans he₂
  obtain ⟨h₄, rest, hquiet, he₄, hbuffering⟩ := Unfolds.of_modifyQueue hS he₃ hunfolds
  obtain ⟨outcome, h₅, first, more, hload, hthen, rfl⟩ := hbuffering.of_outcome
  obtain ⟨hlooks, hbooks, e₅, he₅, hrelists⟩ := unfolds_loadItem hS he₄ hids hitem hload
  have hstands : e₅.StandsAt index := Entry.StandsAt.relisted ⟨rfl, rfl⟩ hrelists
  rw [hquiet.asked_eq, asked_append]
  cases outcome with
  | ok loaded =>
    obtain ⟨h₆, _, hsettled, he₆, hdone⟩ := Unfolds.of_modifyQueue hS he₅ hthen
    obtain ⟨rfl, rfl, rfl⟩ := hdone.of_pure
    have hasked : asked more = [] := hsettled.asked_eq
    rw [hasked, List.append_nil]
    exact ⟨hlooks, hquiet.books (hbooks.append (hsettled.books .nil)), _, he₆, hstands.settled _,
      hrelists.items_eq⟩
  | error failure =>
    have hsame : e₅.items = e.items := hrelists.items_eq
    obtain ⟨h₆, _, hsettled, he₆, hfail⟩ := Unfolds.of_modifyQueue hS he₅ hthen
    by_cases hmissing : failure.isNotFound = true
    · rw [if_pos hmissing] at hfail
      obtain ⟨h₇, _, _, hmarking, he₇, hlast⟩ := Unfolds.of_updateItem hS he₆ hfail
      obtain ⟨rfl, rfl, rfl⟩ := hlast.of_throw
      have hquietly := hsettled.trans hmarking
      have hasked : asked more = [] := hquietly.asked_eq
      have hmarked := (Entry.Relists.refl
        { e₅ with queue := e₅.queue.settle e.queue.state }).updateItem
          (by rwa [hsame]) (by rwa [hsame]) QueueItem.markUnavailable
      rw [hasked, List.append_nil]
      refine ⟨hlooks, hquiet.books (hbooks.append (hquietly.books .nil)), _, he₇,
        (hstands.settled _).relisted hmarked, ?_⟩
      dsimp only
      rw [if_pos hmissing, hmarked.items_eq, ← hsame]
    · rw [if_neg hmissing] at hfail
      obtain ⟨rfl, rfl, rfl⟩ := hfail.of_throw
      have hasked : asked more = [] := hsettled.asked_eq
      rw [hasked, List.append_nil]
      refine ⟨hlooks, hquiet.books (hbooks.append (hsettled.books .nil)), _, he₆,
        hstands.settled _, ?_⟩
      dsimp only
      rw [if_neg hmissing, ← hsame]

/-- A loaded item is sent to the player, and the queue stays as it is. -/
theorem unfolds_send {loaded : QueueItem} {flow debounce : Bool} {result : Except Failure Unit}
    (hunfolds : (send queueId loaded flow debounce).Unfolds S h history result h₁) :
    result = .ok () ∧ asked history = [] ∧ SendsOnly queueId loaded history ∧
      h₁.entry? queueId = some e := by
  obtain ⟨o, h₂, rest, hothers, rfl, hsignal⟩ := hunfolds.of_change
  obtain ⟨o', h₃, hothers', rfl, rfl, rfl⟩ := hsignal.of_last_change
  have he₂ := (hS _ _ hothers).trans he
  have he₃ := (hS _ _ hothers').trans he₂
  refine ⟨rfl, rfl, ?_, (h₃.entry?_signal o' queueId queueId false).trans he₃⟩
  refine ⟨o.now + h₂.sendDelay debounce, o, flow, .booked _ rfl (.kept ?_ .nil)⟩
  exact h₃.schedule_signal o' queueId false

/-- Playing the item at a position moves the queue there. The item is looked up: one that loads is
sent to the player, one that can not be found is marked. -/
theorem unfolds_playIndex (hids : (ids e.items).Nodup) {index : Nat} {item : QueueItem}
    (hitem : e.items[index]? = some item) {seek : UInt32} {fadeIn debounce : Bool}
    {result : Except Failure Unit}
    (hunfolds : (playIndex queueId (.index index) seek fadeIn debounce).Unfolds S h history result
      h₁) :
    ∃ outcome e₁, item.LooksUp (asked history) outcome ∧ h₁.entry? queueId = some e₁ ∧
      e₁.StandsAt index ∧
      match outcome with
      | .ok loaded =>
        result = .ok () ∧ e₁.items = e.items.set index loaded ∧ SendsOnly queueId loaded history
      | .error failure =>
        result = .error failure ∧ Books history [] ∧
          e₁.items =
            if failure.isNotFound then e.items.set index item.markUnavailable else e.items := by
  rw [playIndex_eq] at hunfolds
  rcases hunfolds.of_bind with
    ⟨⟨loaded, flow⟩, h₂, first, rest, hload, hsend, rfl⟩ | ⟨failure, hload, rfl⟩
  · obtain ⟨hlooks, hbooks, e₂, he₂, hstands, hitems⟩ := unfolds_loadAt hS he hids hitem hload
    obtain ⟨rfl, hasked, ⟨due, o, flow, hsends⟩, he₁⟩ := unfolds_send hS he₂ hsend
    rw [asked_append, hasked, List.append_nil]
    exact ⟨.ok loaded, e₂, hlooks, he₁, hstands, rfl, hitems, due, o, flow, hbooks.append hsends⟩
  · obtain ⟨hlooks, hbooks, e₁, he₁, hstands, hitems⟩ := unfolds_loadAt hS he hids hitem hload
    exact ⟨.error failure, e₁, hlooks, he₁, hstands, rfl, hbooks, hitems⟩

end Stages

end Command

/-! ## Playing what is ahead -/

/-- How a command ends that sends the item on which a walk stops, and fails as that one does. -/
def StopsAt (queueId : String) (history : List Happening) (result : Except Failure Unit) :
    Option (Nat × Except Failure QueueItem) → Prop
  | none => result = .ok () ∧ Books history []
  | some (_, .ok loaded) => result = .ok () ∧ SendsOnly queueId loaded history
  | some (_, .error failure) => result = .error failure ∧ Books history []

/-- The last position that a walk tries, if it tries any. -/
def reached (passed : List Nat) (last : Option (Nat × Except Failure QueueItem)) : Option Nat :=
  (passed ++ (last.map (·.1)).toList).getLast?

theorem reached_cons (index : Nat) (passed : List Nat)
    (last : Option (Nat × Except Failure QueueItem)) :
    reached (index :: passed) last = some ((reached passed last).getD index) :=
  List.getLast?_cons

theorem StopsAt.after {queueId : String} {first rest : List Happening}
    {result : Except Failure Unit} {last : Option (Nat × Except Failure QueueItem)}
    (hbooks : Books first []) (hstops : StopsAt queueId rest result last) :
    StopsAt queueId (first ++ rest) result last := by
  rcases last with _ | ⟨index, failure | loaded⟩
  · exact ⟨hstops.1, hbooks.append hstops.2⟩
  · exact ⟨hstops.1, hbooks.append hstops.2⟩
  · obtain ⟨hresult, due, o, flow, hrest⟩ := hstops
    exact ⟨hresult, due, o, flow, hbooks.append hrest⟩

namespace Command

variable {S : Setting} {queueId : String} {h h₁ : Hub} {history : List Happening}

/-- The items that one skip after the other leads to are played in turn, up to the first one that
loads, or that fails for another reason than being missing. -/
theorem unfolds_tryNext (hS : S.Spares queueId) {e : Entry} (he : h.entry? queueId = some e)
    (hids : (ids e.items).Nodup) {mode : RepeatMode} {tries position : Nat}
    (hnonempty : 0 < e.items.length) (horder : (skipped mode e.items.length tries position).Nodup)
    {result : Except Failure Unit}
    (hunfolds : (tryNext queueId e.items.length mode tries (some position)).Unfolds S h history
      result h₁) :
    ∃ passed last e₁, h₁.entry? queueId = some e₁ ∧
      Walks e.items (skipped mode e.items.length tries position) (asked history) passed last
        e₁.items ∧
      StopsAt queueId history result last ∧
      match reached passed last with
      | none => e₁ = e
      | some index => e₁.StandsAt index := by
  induction tries generalizing h e position history with
  | zero =>
    obtain ⟨rfl, rfl, rfl⟩ := hunfolds.of_pure
    exact ⟨[], none, e, he, .exhausts e.items, ⟨rfl, .nil⟩, rfl⟩
  | succ tries ih =>
    unfold tryNext at hunfolds
    unfold skipped at horder ⊢
    cases hnext : nextIndex e.items.length mode (some position) true true with
    | none =>
      rw [hnext] at hunfolds
      obtain ⟨rfl, rfl, rfl⟩ := hunfolds.of_pure
      exact ⟨[], none, e, he, .exhausts e.items, ⟨rfl, .nil⟩, rfl⟩
    | some index =>
      rw [hnext] at hunfolds horder
      obtain ⟨hnew, horder⟩ := List.nodup_cons.1 horder
      have hlt := nextIndex_lt hnonempty hnext
      obtain ⟨item, hitem⟩ : ∃ item, e.items[index]? = some item :=
        ⟨_, List.getElem?_eq_getElem hlt⟩
      obtain ⟨played, h₂, first, rest, hplay, hthen, rfl⟩ := hunfolds.of_outcome
      obtain ⟨outcome, e₂, hlooks, he₂, hstands, hend⟩ := unfolds_playIndex hS he hids hitem hplay
      cases outcome with
      | ok loaded =>
        obtain ⟨rfl, hitems, hsends⟩ := hend
        obtain ⟨rfl, rfl, rfl⟩ := hthen.of_pure
        rw [List.append_nil]
        refine ⟨[], some (index, .ok loaded), e₂, he₂, ?_, ⟨rfl, hsends⟩, hstands⟩
        rw [hitems]
        exact .finds hitem hlooks _
      | error failure =>
        obtain ⟨rfl, hbooks, hitems⟩ := hend
        dsimp only at hthen
        by_cases hmissing : failure.isNotFound = true
        · -- the item was marked, and the walk goes on from it
          rw [if_pos hmissing] at hthen hitems
          have hlength : e₂.items.length = e.items.length := by rw [hitems, List.length_set]
          have hids₂ : (ids e₂.items).Nodup := by rwa [hitems, ids_marked hitem]
          rw [← hlength] at hthen horder hnonempty
          obtain ⟨passed, last, e₁, he₁, hwalks, hstops, hreached⟩ :=
            ih he₂ hids₂ hnonempty horder hthen
          refine ⟨index :: passed, last, e₁, he₁, ?_, hstops.after hbooks, ?_⟩
          · rw [hlength, hitems] at hwalks
            rw [asked_append]
            exact .passes hitem hlooks hmissing hnew hwalks
          · rw [reached_cons]
            cases hlast : reached passed last with
            | none =>
              rw [hlast] at hreached
              rw [hreached]
              exact hstands
            | some position =>
              rw [hlast] at hreached
              exact hreached
        · rw [if_neg hmissing] at hthen hitems
          obtain ⟨rfl, rfl, rfl⟩ := hthen.of_throw
          rw [List.append_nil]
          refine ⟨[], some (index, .error failure), e₂, he₂, ?_, ⟨rfl, hbooks⟩, hstands⟩
          rw [hitems]
          exact .fails hitem hlooks (Bool.eq_false_iff.2 hmissing) _

end Command

/-- Skipping to the next item of an active queue walks over the positions ahead, each at most once,
whatever the collaborators answer. The first item that loads is where the queue and the player then
are, and it alone is sent to the player. The items in front of it could not be found, and are
marked; no other item changes. If none can be found nothing is sent and all is well; any other
failure ends the walk at once. -/
theorem next_walks_ahead {S : Setting} {queueId : String} (hspared : S.Spares queueId)
    (hopen : S.Open) {h : Hub} {e : Entry} (he : h.entry? queueId = some e)
    (hactive : e.queue.active = true) (hids : (ids e.items).Nodup) {current : Nat}
    (hcurrent : e.queue.currentIndex = some current) (hlt : current < e.items.length) :
    let order := ahead e.queue.repeatMode e.items.length current
    order.Nodup ∧ order.length ≤ e.items.length ∧
      (∃ history result h₁, (Command.next queueId).Unfolds S h history result h₁) ∧
      ∀ history result h₁, (Command.next queueId).Unfolds S h history result h₁ →
        ∃ passed last e₁, h₁.entry? queueId = some e₁ ∧
          Walks e.items order (asked history) passed last e₁.items ∧
          StopsAt queueId history result last ∧
          match reached passed last with
          | none => e₁ = e
          | some index => e₁.StandsAt index := by
  refine ⟨nodup_ahead, length_ahead_le hlt, Program.exists_unfolds hopen _ h, ?_⟩
  intro history result h₁ hunfolds
  obtain ⟨_, h₂, -, hothers, hunfolds⟩ := Command.Unfolds.of_look hunfolds
  have he₂ := (hspared _ _ hothers).trans he
  have hqueue : (h₂.queue? queueId).filter (·.active) = some e.queue := by
    rw [Hub.queue?_eq_map, he₂, Option.map_some, Option.filter_some, if_pos hactive]
  rw [hqueue] at hunfolds
  obtain ⟨h₃, he₃, hunfolds⟩ := Command.Unfolds.of_items hspared he₂ hunfolds
  dsimp only at hunfolds
  rw [hcurrent] at hunfolds
  rw [← skipped_ahead hlt]
  refine Command.unfolds_tryNext hspared he₃ hids (by omega) ?_ hunfolds
  rw [skipped_ahead hlt]
  exact nodup_ahead

/-- Behind the third of four tracks that repeat the fourth one can not be found, and the first one
is played. -/
theorem next_wraps_to_first :
    let h := (House.session.run
      (House.repeating ++ [(House.world, .report (House.playing "qi3" 1))])).hub
    let S := House.setting (House.lacking ["qi4"])
    ∃ e, h.entry? "den" = some e ∧ ids e.items = ["qi1", "qi2", "qi3", "qi4"] ∧
      (∃ history h₁ e₁, (Command.next "den").Unfolds S h history (.ok ()) h₁ ∧
        h₁.entry? "den" = some e₁ ∧ e₁.StandsAt 0) ∧
      ∀ history result h₁, (Command.next "den").Unfolds S h history result h₁ →
        ∃ passed last e₁, h₁.entry? "den" = some e₁ ∧
          Walks e.items [3, 0, 1, 2] (asked history) passed last e₁.items ∧
          StopsAt "den" history result last ∧
          match reached passed last with
          | none => e₁ = e
          | some index => e₁.StandsAt index := by
  intro h S
  have hentry : (h.entry? "den").any (fun e =>
      decide (e.queue.active = true) && decide (e.queue.repeatMode = .all) &&
        decide (e.queue.currentIndex = some 2) &&
        decide (ids e.items = ["qi1", "qi2", "qi3", "qi4"])) := by
    decide +kernel
  obtain ⟨e, he, hlooks⟩ := (Option.any_eq_true _ _).1 hentry
  simp only [Bool.and_eq_true, decide_eq_true_eq] at hlooks
  obtain ⟨⟨⟨hactive, hmode⟩, hcurrent⟩, hids⟩ := hlooks
  have hlength : e.items.length = 4 := by simpa [ids] using congrArg List.length hids
  have hnodup : (ids e.items).Nodup := by rw [hids]; decide
  obtain ⟨-, -, -, hall⟩ := next_walks_ahead (House.spares_setting _) (House.open_setting _) he
    hactive hnodup hcurrent (by omega)
  rw [hlength, hmode] at hall
  refine ⟨e, he, hids, ?_, hall⟩
  have hunfolds := House.unfolds_setting (House.lacking ["qi4"]) (Command.next "den").run h
  have hplayed : ((Command.next "den").run.alone House.world (House.lacking ["qi4"]) h).1.isOk &&
      (Hub.entry? ((Command.next "den").run.alone House.world (House.lacking ["qi4"]) h).2
        "den").any fun e₁ =>
          decide (e₁.queue.currentIndex = some 0 ∧ e₁.queue.bufferedIndex = some 0) := by
    decide +kernel
  generalize (Command.next "den").run.alone House.world (House.lacking ["qi4"]) h = ended
    at hunfolds hplayed
  rcases ended with ⟨failure | ⟨⟩, h₁⟩
  · cases hplayed
  · obtain ⟨e₁, he₁, hstands⟩ := (Option.any_eq_true _ _).1 hplayed
    have hat : e₁.queue.currentIndex = some 0 ∧ e₁.queue.bufferedIndex = some 0 :=
      of_decide_eq_true hstands
    exact ⟨_, h₁, e₁, hunfolds, he₁, hat⟩

end Jukebox
