import Jukebox.Proofs.Ids
import Jukebox.Proofs.Instants
import Jukebox.Proofs.Recording
import Jukebox.Proofs.Sending

/-!
# Who goes on in a run

The place of an activity changes when one before it ends. In a run every activity therefore has a
label that goes with it: where it comes from, and how often it went on since (`Session.labels`).
What holds of every activity when it begins and is kept whenever it goes on holds throughout a run,
with the label as a measure of how far it is (`Session.labelled`). A job waits under a number that
no other job has before or after it (`Schedule.Numbers`), so its label names it for good.
-/

namespace Jukebox

/-! ## Labels -/

/-- Where an activity comes from: a request of media for a queue, another request, or the job that
waited under a number. -/
inductive Origin where
  | playMedia (queueId : String)
  | request
  | job (number : Nat)
  deriving DecidableEq

structure Label where
  origin : Origin
  /-- How often the activity went on. -/
  steps : Nat := 0
  deriving DecidableEq

def Request.origin : Request → Origin
  | .playMedia queueId .. => .playMedia queueId
  | _ => .request

namespace Session

/-- The labels of the activities after a move. -/
def relabel (s : Session) (o : Outside) (labels : List Label) : Move → List Label
  | .ask request => labels ++ [{ origin := request.origin }]
  | .start number =>
    match s.waiting? number with
    | none => labels
    | some _ => labels ++ [{ origin := .job number }]
  | .proceed index answers =>
    match s.active[index]? with
    | none => labels
    | some a =>
      if (a.program.goOn o answers s.hub).1.isDone then labels.eraseIdx index
      else labels.modify index fun label => { label with steps := label.steps + 1 }
  | _ => labels

/-- The labels of the activities after a number of moves of a run. -/
def labels (s : Session) (moves : List (Outside × Move)) : Nat → List Label
  | 0 => []
  | n + 1 =>
    match moves[n]? with
    | none => labels s moves n
    | some (o, move) => (s.instants (moves.take n)).relabel o (labels s moves n) move

/-- The label of the activity that goes on by a move of a run. -/
def goer? (s : Session) (moves : List (Outside × Move)) (n : Nat) : Option Label :=
  match moves[n]? with
  | some (_, .proceed index _) => (s.labels moves n)[index]?
  | _ => none

variable {s : Session} {moves : List (Outside × Move)} {n : Nat}

theorem goer?_eq_some_iff {label : Label} :
    s.goer? moves n = some label ↔ ∃ o index answers, moves[n]? = some (o, .proceed index answers) ∧
      (s.labels moves n)[index]? = some label := by
  unfold goer?
  constructor
  · intro hgoer
    split at hgoer
    · next o index answers hmove => exact ⟨o, index, answers, hmove, hgoer⟩
    · cases hgoer
  · rintro ⟨o, index, answers, hmove, hlabel⟩
    rw [hmove]
    exact hlabel

theorem instants_take_succ (s : Session) {o : Outside} {move : Move}
    (hmove : moves[n]? = some (o, move)) :
    s.instants (moves.take (n + 1)) = (s.instants (moves.take n)).instant o move := by
  rw [List.take_add_one, hmove, Option.toList_some, instants, List.foldl_append]
  rfl

theorem instants_take_of_none (s : Session) (hmove : moves[n]? = none) :
    s.instants (moves.take (n + 1)) = s.instants (moves.take n) := by
  rw [List.take_add_one, hmove, Option.toList_none, List.append_nil]

theorem hub_of_proceed (s : Session) {o : Outside} {index : Nat} {answers : Answers} {a : Activity}
    (hmove : moves[n]? = some (o, .proceed index answers))
    (ha : (s.instants (moves.take n)).active[index]? = some a) :
    (s.instants (moves.take (n + 1))).hub =
      (a.program.goOn o answers (s.instants (moves.take n)).hub).2 := by
  rw [instants_take_succ s hmove]
  simp only [instant, ha]

theorem labels_succ {o : Outside} {move : Move} (hmove : moves[n]? = some (o, move)) :
    s.labels moves (n + 1) = (s.instants (moves.take n)).relabel o (s.labels moves n) move := by
  rw [labels, hmove]

theorem labels_of_none (hmove : moves[n]? = none) :
    s.labels moves (n + 1) = s.labels moves n := by
  rw [labels, hmove]

/-! ## What holds of labelled activities -/

/-- Whether there is a label for each activity, and a property holds of each with its label. -/
structure Labelled (P : Label → Activity → Prop) (labels : List Label) (active : List Activity) :
    Prop where
  length_eq : labels.length = active.length
  holds : ∀ (index : Nat) label a, labels[index]? = some label → active[index]? = some a → P label a

namespace Labelled

variable {P Q : Label → Activity → Prop} {labels : List Label} {active : List Activity}
  {label : Label} {a : Activity}

theorem nil : Labelled P [] [] := ⟨rfl, fun _ _ _ h => nomatch h⟩

theorem mono (h : Labelled P labels active) (hPQ : ∀ label a, P label a → Q label a) :
    Labelled Q labels active :=
  ⟨h.length_eq, fun index label a hlabel ha => hPQ label a (h.holds index label a hlabel ha)⟩

theorem append (h : Labelled P labels active) (hnew : P label a) :
    Labelled P (labels ++ [label]) (active ++ [a]) := by
  refine ⟨by simp [h.length_eq], fun index label' b hlabel hb => ?_⟩
  rw [List.getElem?_append, List.getElem?_singleton] at hlabel hb
  rw [h.length_eq] at hlabel
  by_cases hold : index < active.length
  · rw [if_pos hold] at hlabel hb
    exact h.holds index label' b hlabel hb
  · rw [if_neg hold] at hlabel hb
    split at hlabel
    · next hlast =>
      rw [if_pos hlast] at hb
      cases hlabel
      cases hb
      exact hnew
    · cases hlabel

theorem eraseIdx (h : Labelled P labels active) (index : Nat) :
    Labelled P (labels.eraseIdx index) (active.eraseIdx index) := by
  refine ⟨by simp [List.length_eraseIdx, h.length_eq], fun other label b hlabel hb => ?_⟩
  rw [List.getElem?_eraseIdx] at hlabel hb
  split at hlabel
  · next hlt =>
    rw [if_pos hlt] at hb
    exact h.holds other label b hlabel hb
  · next hle =>
    rw [if_neg hle] at hb
    exact h.holds (other + 1) label b hlabel hb

/-- One activity goes on, and its label changes. -/
theorem set (h : Labelled P labels active) {index : Nat} {f : Label → Label}
    (hnew : ∀ label, labels[index]? = some label → P (f label) a) :
    Labelled P (labels.modify index f) (active.set index a) := by
  refine ⟨by simp [h.length_eq], fun other label b hlabel hb => ?_⟩
  by_cases hindex : index = other
  · subst hindex
    rw [List.getElem?_modify_eq, Option.map_eq_map] at hlabel
    obtain ⟨before, hbefore, rfl⟩ := Option.map_eq_some_iff.1 hlabel
    rw [List.getElem?_set_self'] at hb
    obtain ⟨-, -, rfl⟩ := Option.map_eq_some_iff.1 hb
    exact hnew before hbefore
  · rw [List.getElem?_modify_ne _ _ hindex] at hlabel
    rw [List.getElem?_set_ne hindex] at hb
    exact h.holds other label b hlabel hb

end Labelled

/-- What holds of every activity when it begins, stays true while others go on and is kept when the
activity goes on itself, holds throughout a run. -/
theorem labelled {P : Nat → Label → Activity → Prop} (hs : s.active = [])
    (hask : ∀ n o request, moves[n]? = some (o, .ask request) →
      P (n + 1) { origin := request.origin } ⟨none, request.command.run⟩)
    (hstart : ∀ n o number w, moves[n]? = some (o, .start number) →
      (s.instants (moves.take n)).waiting? number = some w →
        P (n + 1) { origin := .job number } ⟨some w.job, w.job.command.run⟩)
    (hstays : ∀ n label a, P n label a → P (n + 1) label a)
    (hgoes : ∀ n o index answers label a, moves[n]? = some (o, .proceed index answers) →
      (s.labels moves n)[index]? = some label →
        (s.instants (moves.take n)).active[index]? = some a → P n label a →
          (a.program.goOn o answers (s.instants (moves.take n)).hub).1.isDone = false →
            P (n + 1) { label with steps := label.steps + 1 }
              { a with program := (a.program.goOn o answers (s.instants (moves.take n)).hub).1 })
    (n : Nat) : Labelled (P n) (s.labels moves n) (s.instants (moves.take n)).active := by
  induction n with
  | zero =>
    rw [List.take_zero, instants, List.foldl_nil, hs]
    exact .nil
  | succ n ih =>
    have hold := ih.mono (hstays n)
    cases hmove : moves[n]? with
    | none =>
      rw [labels_of_none hmove, instants_take_of_none s hmove]
      exact hold
    | some found =>
      obtain ⟨o, move⟩ := found
      rw [labels_succ hmove, instants_take_succ s hmove]
      cases move with
      | ask request => exact hold.append (hask n o request hmove)
      | start number =>
        cases hw : (s.instants (moves.take n)).waiting? number with
        | none =>
          simp only [relabel, instant, step, hw]
          exact hold
        | some w =>
          simp only [relabel, instant, step, hw]
          exact hold.append (hstart n o number w hmove hw)
      | proceed index answers =>
        cases ha : (s.instants (moves.take n)).active[index]? with
        | none =>
          simp only [relabel, instant, ha]
          exact hold
        | some a =>
          simp only [relabel, instant, replace, ha]
          split
          · exact hold.eraseIdx index
          · next hgoing =>
            exact hold.set fun label hlabel => hgoes n o index answers label a hmove hlabel ha
              (ih.holds index label a hlabel ha) (by simpa using hgoing)
      | _ => exact hold

/-- The activity that goes on by a move has the property that holds of it with its label. -/
theorem Labelled.of_goer {P : Label → Activity → Prop} {label : Label}
    (h : Labelled P (s.labels moves n) (s.instants (moves.take n)).active)
    (hgoer : s.goer? moves n = some label) :
    ∃ o index answers a, moves[n]? = some (o, .proceed index answers) ∧
      (s.labels moves n)[index]? = some label ∧
      (s.instants (moves.take n)).active[index]? = some a ∧ P label a := by
  obtain ⟨o, index, answers, hmove, hlabel⟩ := goer?_eq_some_iff.1 hgoer
  have hlt := (List.getElem?_eq_some_iff.1 hlabel).1
  rw [h.length_eq] at hlt
  have ha := List.getElem?_eq_getElem hlt
  exact ⟨o, index, answers, _, hmove, hlabel, ha, h.holds index label _ hlabel ha⟩

/-! ## The items of a list -/

/-- Whether an item is in the list of a queue after a number of moves. -/
def Lists (s : Session) (moves : List (Outside × Move)) (n : Nat) (queueId itemId : String) :
    Prop :=
  itemId ∈ ids ((s.instants (moves.take n)).hub.items queueId)

instance (s : Session) (moves : List (Outside × Move)) (n : Nat) (queueId itemId : String) :
    Decidable (s.Lists moves n queueId itemId) :=
  inferInstanceAs (Decidable (_ ∈ _))

/-- Whether a move between two times takes an item out of the list of a queue, and it does not come
back until the later one. -/
def Loses (s : Session) (moves : List (Outside × Move)) (m n : Nat) (queueId itemId : String) :
    Prop :=
  ∃ k, m ≤ k ∧ k < n ∧ s.Lists moves k queueId itemId ∧
    ∀ later, k < later → later ≤ n → ¬ s.Lists moves later queueId itemId

/-- An item that was in a list is still there unless a move since then took it out. -/
theorem lists_iff_not_loses {m : Nat} {queueId itemId : String}
    (hbefore : s.Lists moves m queueId itemId) (hle : m ≤ n) :
    s.Lists moves n queueId itemId ↔ ¬ s.Loses moves m n queueId itemId := by
  constructor
  · rintro hlists ⟨k, -, hkn, -, haway⟩
    exact haway n hkn (Nat.le_refl n) hlists
  · intro hkeeps
    refine Classical.byContradiction fun hgone => hkeeps ?_
    clear hkeeps
    induction hle with
    | refl => exact absurd hbefore hgone
    | @step n hle ih =>
      by_cases hlast : s.Lists moves n queueId itemId
      · refine ⟨n, hle, Nat.lt_succ_self n, hlast, fun later hafter hlater => ?_⟩
        rw [show later = n + 1 by omega]
        exact hgone
      · obtain ⟨k, hmk, hkn, hlists, haway⟩ := ih hlast
        refine ⟨k, hmk, Nat.lt_succ_of_lt hkn, hlists, fun later hafter hlater => ?_⟩
        by_cases hend : later = n + 1
        · rw [hend]
          exact hgone
        · exact haway later hafter (by omega)

/-! ## What is kept at every instant -/

/-- What the acts keep that the rules allow, and the act of a move, is kept at an instant of a
session in which all requests and jobs obey the rules. -/
theorem Follows.instant {R : Rules} {I : Hub → Prop}
    (hrequests : ∀ request : Request, request.command.Obeys R)
    (hjobs : ∀ job : Job, job.command.Obeys R) {s : Session} (hs : s.Follows R) (o : Outside)
    (move : Move)
    (hact : ∀ a h, R.act a ∨ a = .takeTurn ∨ move.act? = some a → I h → I (a.apply o h))
    (hinv : I s.hub) : (s.instant o move).Follows R ∧ I (s.instant o move).hub := by
  cases move with
  | proceed index answers =>
    cases ha : s.active[index]? with
    | none =>
      simp only [Session.instant, ha]
      exact ⟨hs, hinv⟩
    | some a =>
      simp only [Session.instant, ha]
      obtain ⟨hgoes, hkept⟩ := (hs a (List.mem_of_getElem? ha)).goOn
        (fun a h hallowed => hact a h (.inl hallowed)) (fun h => hact .takeTurn h (.inr (.inl rfl)))
        hinv answers
      refine ⟨fun b hb => ?_, hkept⟩
      rcases mem_replace hb with hb | ⟨-, rfl⟩
      · exact hs b (List.mem_of_mem_eraseIdx hb)
      · exact hgoes
  | _ =>
    obtain ⟨hnext, hhub⟩ := hs.step hrequests hjobs o _
    refine ⟨hnext, ?_⟩
    rcases hhub with hsame | ⟨a, ha, heq⟩
    · exact hsame ▸ hinv
    · exact heq ▸ hact a _ ha hinv

/-- In every state of a session that is reached by instants, programs leave it to players to come
and go, and what every act keeps holds. -/
theorem internal_instants {I : Hub → Prop} (hs : s.Follows .internal) (hinv : I s.hub)
    (hact : ∀ a o h, I h → I (Act.apply o h a)) (moves : List (Outside × Move)) :
    (s.instants moves).Follows .internal ∧ I (s.instants moves).hub := by
  induction moves generalizing s with
  | nil => exact ⟨hs, hinv⟩
  | cons m more ih =>
    obtain ⟨hnext, hkept⟩ := hs.instant Request.command_internal Job.command_internal m.1 m.2
      (fun a h _ => hact a m.1 h) hinv
    exact ih hnext hkept

end Session

/-! ## Numbers of jobs -/

namespace Schedule

/-- Whether a schedule comes after another one: what waits in it waited before, or has a number that
was not given before. -/
structure Numbers (s s' : Schedule Job) : Prop where
  next_le : s.nextNumber ≤ s'.nextNumber
  waits : ∀ w ∈ s'.waiting, w ∈ s.waiting ∨ s.nextNumber ≤ w.number

namespace Numbers

variable {s s' s'' : Schedule Job}

theorem refl (s : Schedule Job) : s.Numbers s := ⟨Nat.le_refl _, fun _ hw => .inl hw⟩

theorem trans (h : s.Numbers s') (h' : s'.Numbers s'') : s.Numbers s'' := by
  refine ⟨Nat.le_trans h.next_le h'.next_le, fun w hw => ?_⟩
  rcases h'.waits w hw with hbefore | hnew
  · exact h.waits w hbefore
  · exact .inr (Nat.le_trans h.next_le hnew)

theorem filter (h : s.Numbers s') (p : Waiting Job → Bool) :
    s.Numbers { s' with waiting := s'.waiting.filter p } :=
  ⟨h.next_le, fun w hw => h.waits w (List.mem_filter.1 hw).1⟩

theorem add (h : s.Numbers s') (key : Option String) (due : Nat) (job : Job) :
    s.Numbers
      { waiting := s'.waiting ++ [⟨key, s'.nextNumber, due, job⟩]
        nextNumber := s'.nextNumber + 1 } := by
  refine ⟨Nat.le_succ_of_le h.next_le, fun w hw => ?_⟩
  rcases List.mem_append.1 hw with hw | hw
  · exact h.waits w hw
  · rw [List.mem_singleton.1 hw]
    exact .inr h.next_le

theorem later (h : s.Numbers s') (key : String) (due : Nat) (job : Job) :
    s.Numbers (s'.later key due job) :=
  (h.filter fun w => w.key ≠ some key).add (some key) due job

theorem grows {P : Job → Prop} (h : s.Numbers s') (hg : s'.Grows P s'') : s.Numbers s'' := by
  induction hg with
  | refl => exact h
  | later _ due _ _ ih => exact ih.later _ due _
  | spawn _ now _ _ ih => exact ih.add none now _

/-- Numbers that were given name the same job for good. -/
theorem unique (h : s.Numbers s') (hs : s.Orderly) {v w : Waiting Job} (hv : v ∈ s.waiting)
    (hw : w ∈ s'.waiting) (hnumber : w.number = v.number) : w = v := by
  rcases h.waits w hw with hbefore | hnew
  · exact hs.eq_of_number hbefore hv hnumber
  · have hlt := hs.number_lt v hv
    omega

end Numbers

end Schedule

namespace Hub

variable {h : Hub} (o : Outside)

theorem numbers_onReport (hnamed : h.Named) (r : PlayerReport) :
    h.schedule.Numbers (h.onReport o r).schedule := by
  cases he : h.entry? r.playerId with
  | none =>
    rw [onReport_unknown o he]
    exact .refl _
  | some e =>
    refine Schedule.Numbers.grows ?_ (grows_onReport o he (hnamed _ e he))
    cases e.claim? o r with
    | none => exact .refl _
    | some claim => exact (Schedule.Numbers.refl _).later _ _ _

/-- No act gives a number anew. -/
theorem numbers_apply (hnamed : h.Named) (a : Act) :
    h.schedule.Numbers (a.apply o h).schedule := by
  have hrefl : h.schedule.Numbers h.schedule := .refl _
  cases a with
  | cancelAll => exact hrefl.filter _
  | begin number => exact hrefl.filter _
  | report r => exact numbers_onReport o hnamed r
  | register r =>
    refine numbers_onReport (h := h.putEntry r.playerId (h.newEntry o r)) o ?_ r
    exact hnamed.putEntry (id_newEntry o r)
  | remove playerId => exact hrefl.filter _
  | _ => exact hrefl.grows (grows_apply o trivial)

end Hub

namespace Session

variable (config : Config) (store : Store) (draws : Draws) (nextItem : Nat)
  {moves : List (Outside × Move)}

/-- What every act keeps holds in every state that is reached by instants. -/
theorem kept_instants {I : Hub → Prop} (hact : ∀ a o h, I h → I (Act.apply o h a))
    (hinv : I (start config store draws nextItem).hub) (moves : List (Outside × Move)) :
    I ((start config store draws nextItem).instants moves).hub :=
  (internal_instants (follows_start .internal config store draws nextItem) hinv hact moves).2

theorem named_instants (moves : List (Outside × Move)) :
    ((start config store draws nextItem).instants moves).hub.Named :=
  kept_instants config store draws nextItem (fun a o _ hnamed => hnamed.apply o a)
    (fun _ _ he => nomatch he) moves

theorem orderly_instants (moves : List (Outside × Move)) :
    ((start config store draws nextItem).instants moves).hub.schedule.Orderly := by
  refine (kept_instants config store draws nextItem
    (I := fun h => h.schedule.Orderly ∧ h.Named) (fun a o h hinv => ?_) ⟨⟨?_, ?_, ?_⟩, ?_⟩ moves).1
  · exact ⟨Hub.orderly_apply o hinv.1 hinv.2 a, hinv.2.apply o a⟩
  · exact fun w hw => nomatch hw
  · exact List.Pairwise.nil
  · exact fun w hw => nomatch hw
  · exact fun queueId e he => nomatch he

theorem instants_append (s : Session) (before after : List (Outside × Move)) :
    s.instants (before ++ after) = (s.instants before).instants after :=
  List.foldl_append

/-- The numbers of a later time come after those of an earlier one. -/
theorem numbers_instants (moves : List (Outside × Move)) {m n : Nat} (hle : m ≤ n) :
    ((start config store draws nextItem).instants (moves.take m)).hub.schedule.Numbers
      ((start config store draws nextItem).instants (moves.take n)).hub.schedule := by
  have hsplit : moves.take n = moves.take m ++ (moves.take n).drop m := by
    have htake : (moves.take n).take m = moves.take m := by
      rw [List.take_take, Nat.min_eq_left hle]
    rw [← htake, List.take_append_drop]
  rw [hsplit, instants_append]
  have hnamed := named_instants config store draws nextItem (moves.take m)
  have hfollows : ((start config store draws nextItem).instants (moves.take m)).Follows .internal :=
    (internal_instants (I := fun _ => True) (follows_start .internal config store draws nextItem)
      trivial (fun _ _ _ _ => trivial) _).1
  generalize (start config store draws nextItem).instants (moves.take m) = s at hnamed hfollows
  exact (internal_instants (I := fun h => h.Named ∧ s.hub.schedule.Numbers h.schedule) hfollows
    ⟨hnamed, .refl _⟩ (fun a o h hinv => ⟨hinv.1.apply o a,
      hinv.2.trans (Hub.numbers_apply o hinv.1 a)⟩) _).2.2

/-- An activity whose job waited under a number that was given at a certain time is the job that
waited under it then. -/
theorem labelled_job {i number : Nat} {w : Waiting Job}
    (hnew : ((start config store draws nextItem).instants (moves.take i)).hub.schedule.nextNumber ≤
      number)
    (hw : ((start config store draws nextItem).instants (moves.take (i + 1))).waiting? number =
      some w) (n : Nat) :
    Labelled (fun label a => label.origin = .job number → a.job = some w.job)
      ((start config store draws nextItem).labels moves n)
      ((start config store draws nextItem).instants (moves.take n)).active := by
  refine labelled (P := fun _ label a => label.origin = .job number → a.job = some w.job) rfl
    (fun n o request _ horigin => ?_) (fun n o other w' _ hw' horigin => ?_)
    (fun _ _ _ h => h) (fun n o index answers label a _ _ _ h _ => h) n
  · cases request <;> cases horigin
  · cases horigin
    have hmem := List.mem_of_find?_eq_some hw
    have hmem' := List.mem_of_find?_eq_some hw'
    have hnumber : w.number = number := by simpa using List.find?_some hw
    have hnumber' : w'.number = number := by simpa using List.find?_some hw'
    by_cases hbefore : n ≤ i
    · have hlt := (orderly_instants config store draws nextItem (moves.take n)).number_lt w' hmem'
      have hle := (numbers_instants config store draws nextItem moves hbefore).next_le
      omega
    · have hafter := numbers_instants config store draws nextItem moves (show i + 1 ≤ n by omega)
      rw [hafter.unique (orderly_instants config store draws nextItem _) hmem hmem'
        (hnumber'.trans hnumber.symm)]

end Session

end Jukebox
