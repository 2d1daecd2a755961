import Jukebox.Proofs.Jobs
import Jukebox.Proofs.Playing

/-!
# Runs

Every step of a session is one act on its hub at most, and every act loads only items of the queue
that it loads them into. What such acts keep therefore holds after every run (`Session.kept`).
-/

namespace Jukebox

/-- The rules that everything in a session obeys. -/
def Rules.any : Rules := { act := Act.Loads, call := fun _ => True }

theorem Act.IsWork.loads {a : Act} (ha : a.IsWork) : a.Loads := by
  cases a <;> first | exact ha | trivial

theorem Rules.work_le_any : work ≤ any := ⟨fun _ ha => ha.loads, fun _ _ => trivial⟩

theorem Request.command_obeys_any (request : Request) : request.command.Obeys .any := by
  by_cases hup : request = .shutdown
  · subst hup
    refine shutdown_obeys ⟨?_, fun _ _ => trivial⟩ trivial
    rintro a ⟨queueId, clock, onlyActive, rfl⟩
    exact trivial
  · exact (request.command_obeys hup).within
      (Rules.le_trans Rules.command_le_work Rules.work_le_any)

theorem Job.command_obeys_any (job : Job) : job.command.Obeys .any := by
  obtain ⟨queueId, hqueue⟩ := exists_namesOnly job.queueId?
  exact (job.command_works hqueue).within (Rules.le_trans Rules.confined_le Rules.work_le_any)

/-- The act of a move that no program does. -/
def Move.act? : Move → Option Act
  | .report r => some (.report r)
  | .register r => some (.register r)
  | .remove playerId => some (.remove playerId)
  | .start number => some (.begin number)
  | _ => none

namespace Session

/-- Whether every activity of a session goes on obediently. -/
def Obedient (s : Session) : Prop :=
  ∀ a ∈ s.active, a.program.Yields .any (fun _ => True) none

/-- After an activity went on, the others are there as before, and so is what is left of it. -/
theorem mem_replace {active : List Activity} {index : Nat} {a b : Activity}
    (hb : b ∈ replace active index a) :
    b ∈ active.eraseIdx index ∨ (a.program.isDone = false ∧ b = a) := by
  unfold replace at hb
  cases hdone : a.program.isDone with
  | true =>
    rw [hdone] at hb
    exact .inl hb
  | false =>
    rw [hdone] at hb
    obtain ⟨other, hother⟩ := List.mem_iff_getElem?.1 hb
    by_cases hindex : index = other
    · subst hindex
      simp only [Bool.false_eq_true, if_false, List.getElem?_set_self'] at hother
      obtain ⟨-, -, rfl⟩ := Option.map_eq_some_iff.1 hother
      exact .inr ⟨rfl, rfl⟩
    · refine .inl (List.mem_eraseIdx_iff_getElem?.2 ⟨other, Ne.symm hindex, ?_⟩)
      simpa [List.getElem?_set_ne hindex] using hother

section Following

variable {R : Rules}

/-- Whether every activity of a session goes on by some rules. -/
def Follows (R : Rules) (s : Session) : Prop :=
  ∀ a ∈ s.active, a.program.Yields R (fun _ => True) none

theorem follows_append {s : Session} (hs : s.Follows R) {job : Option Job} {c : Command Unit}
    (hc : c.Obeys R) {a : Activity} (ha : a ∈ s.active ++ [⟨job, c.run⟩]) :
    a.program.Yields R (fun _ => True) none := by
  rcases List.mem_append.1 ha with ha | ha
  · exact hs a ha
  · rw [List.mem_singleton.1 ha]
    exact hc.yields_run

/-- Where all requests and jobs obey rules, a step of a session is one act at most, that of the move
or one that the rules allow. -/
theorem Follows.step (hrequests : ∀ request : Request, request.command.Obeys R)
    (hjobs : ∀ job : Job, job.command.Obeys R) {s : Session} (hs : s.Follows R) (o : Outside)
    (move : Move) :
    (s.step o move).Follows R ∧
      ((s.step o move).hub = s.hub ∨
        ∃ a : Act, (R.act a ∨ a = .takeTurn ∨ move.act? = some a) ∧
          (s.step o move).hub = a.apply o s.hub) := by
  cases move with
  | report r => exact ⟨hs, .inr ⟨.report r, .inr (.inr rfl), rfl⟩⟩
  | register r => exact ⟨hs, .inr ⟨.register r, .inr (.inr rfl), rfl⟩⟩
  | remove playerId => exact ⟨hs, .inr ⟨.remove playerId, .inr (.inr rfl), rfl⟩⟩
  | ask request =>
    exact ⟨fun a ha => follows_append hs (hrequests request) ha, .inl rfl⟩
  | start number =>
    cases hw : s.waiting? number with
    | none =>
      simp only [Session.step, hw]
      exact ⟨hs, .inl trivial⟩
    | some w =>
      simp only [Session.step, hw]
      exact ⟨fun a ha => follows_append hs (hjobs w.job) ha,
        .inr ⟨.begin number, .inr (.inr rfl), rfl⟩⟩
  | proceed index answers =>
    cases ha : s.active[index]? with
    | none =>
      simp only [Session.step, ha]
      exact ⟨hs, .inl trivial⟩
    | some a =>
      simp only [Session.step, ha]
      obtain ⟨hgoes, hhub⟩ := (hs a (List.mem_of_getElem? ha)).advance o answers s.hub
      refine ⟨fun b hb => ?_, ?_⟩
      · rcases mem_replace hb with hb | ⟨-, rfl⟩
        · exact hs b (List.mem_of_mem_eraseIdx hb)
        · exact hgoes
      · rcases hhub with hsame | ⟨act, hact, heq⟩
        · exact .inl hsame
        · exact .inr ⟨act, hact.imp_right .inl, heq⟩

theorem follows_start (R : Rules) (config : Config) (store : Store) (draws : Draws)
    (nextItem : Nat) : (start config store draws nextItem).Follows R :=
  fun _ ha => nomatch ha

theorem Follows.run (hrequests : ∀ request : Request, request.command.Obeys R)
    (hjobs : ∀ job : Job, job.command.Obeys R) {s : Session} (hs : s.Follows R)
    (moves : List (Outside × Move)) : (s.run moves).Follows R := by
  induction moves generalizing s with
  | nil => exact hs
  | cons m more ih => exact ih (hs.step hrequests hjobs m.1 m.2).1

end Following

/-- A step of an obedient session is one act at most, and leaves it obedient. -/
theorem Obedient.step {s : Session} (hs : s.Obedient) (o : Outside) (move : Move) :
    (s.step o move).Obedient ∧
      ((s.step o move).hub = s.hub ∨
        ∃ a : Act, a.Loads ∧ (s.step o move).hub = a.apply o s.hub) := by
  obtain ⟨hnext, hhub⟩ :=
    Follows.step Request.command_obeys_any Job.command_obeys_any hs o move
  refine ⟨hnext, hhub.imp_right ?_⟩
  rintro ⟨a, ha, heq⟩
  refine ⟨a, ?_, heq⟩
  rcases ha with ha | rfl | hmove
  · exact ha
  · exact trivial
  · cases move <;> cases hmove <;> exact trivial

theorem run_append (s : Session) (before after : List (Outside × Move)) :
    s.run (before ++ after) = (s.run before).run after :=
  List.foldl_append

theorem run_concat (s : Session) (before : List (Outside × Move)) (o : Outside) (move : Move) :
    s.run (before ++ [(o, move)]) = (s.run before).step o move := by
  rw [run_append]
  rfl

theorem run_take_succ (s : Session) {moves : List (Outside × Move)} {n : Nat} {o : Outside}
    {move : Move} (hmove : moves[n]? = some (o, move)) :
    s.run (moves.take (n + 1)) = (s.run (moves.take n)).step o move := by
  rw [List.take_add_one, hmove, Option.toList_some, run_concat]

theorem run_take_of_none (s : Session) {moves : List (Outside × Move)} {n : Nat}
    (hmove : moves[n]? = none) : s.run (moves.take (n + 1)) = s.run (moves.take n) := by
  rw [List.take_add_one, hmove, Option.toList_none, List.append_nil]

theorem obedient_start (config : Config) (store : Store) (draws : Draws) (nextItem : Nat) :
    (start config store draws nextItem).Obedient :=
  follows_start .any config store draws nextItem

theorem Obedient.run {s : Session} (hs : s.Obedient) (moves : List (Outside × Move)) :
    (s.run moves).Obedient :=
  Follows.run Request.command_obeys_any Job.command_obeys_any hs moves

/-- What every act keeps that loads only items of the queue is kept by every run. -/
theorem kept (Inv : Hub → Prop)
    (hact : ∀ (a : Act) (o : Outside) (h : Hub), a.Loads → Inv h → Inv (a.apply o h))
    {s : Session} (hs : s.Obedient) (hinv : Inv s.hub) (moves : List (Outside × Move)) :
    Inv (s.run moves).hub := by
  induction moves generalizing s with
  | nil => exact hinv
  | cons m more ih =>
    obtain ⟨hnext, hhub⟩ := hs.step m.1 m.2
    refine ih hnext ?_
    rcases hhub with hsame | ⟨a, ha, heq⟩
    · rw [hsame]
      exact hinv
    · rw [heq]
      exact hact a m.1 s.hub ha hinv

variable (config : Config) (store : Store) (draws : Draws) (nextItem : Nat)

/-- In every state of a session every entry is where it belongs. -/
theorem belongsTo_run (moves : List (Outside × Move)) :
    ((start config store draws nextItem).run moves).hub.All Entry.BelongsTo := by
  refine kept (Hub.All Entry.BelongsTo) (fun a o h ha hall => Hub.belongsTo_apply o hall ha)
    (obedient_start config store draws nextItem) ?_ moves
  intro queueId e he
  cases he

theorem named_run (moves : List (Outside × Move)) :
    ((start config store draws nextItem).run moves).hub.Named :=
  fun queueId e he => (belongsTo_run config store draws nextItem moves queueId e he).1

/-- In every state of a session the waiting jobs are in order. -/
theorem orderly_run (moves : List (Outside × Move)) :
    ((start config store draws nextItem).run moves).hub.schedule.Orderly := by
  refine (kept (fun h => h.schedule.Orderly ∧ h.Named) (fun a o h _ hinv => ?_)
    (obedient_start config store draws nextItem) ⟨⟨?_, ?_, ?_⟩, ?_⟩ moves).1
  · exact ⟨Hub.orderly_apply o hinv.1 hinv.2 a, hinv.2.apply o a⟩
  · exact fun w hw => nomatch hw
  · exact List.Pairwise.nil
  · exact fun w hw => nomatch hw
  · exact fun queueId e he => nomatch he

end Session

/-! ## A house with one player -/

namespace House

/-- What the only player reports while it is idle. -/
def den : PlayerReport :=
  { playerId := "den"
    displayName := "Den"
    available := true
    powered := true
    announcementInProgress := false }

/-- What the player reports at a second of an item. -/
def playing (itemId : String) (second : Float) : PlayerReport :=
  { den with
    state := some .playing
    elapsedTime := some second
    currentMedia := some { queueId := some "den", queueItemId := some itemId } }

def world : Outside := { Outside.quiet with report? := fun _ => some den }

/-- A track of three minutes. -/
def track (name : String) : MediaItem :=
  { itemId := name
    provider := "test"
    name := name
    uri := "test://track/" ++ name
    duration := some 180
    available := true
    image := some "image"
    kind := .track none none }

/-- Every stream is found, and the player takes every item. -/
def answers : Answers
  | .libraryItem _ => .ok none
  | .streamDetails i _ =>
    .ok
      { provider := "test"
        itemId := i.id
        duration := i.duration
        seekPosition := 0
        fadeIn := false
        preferAlbumLoudness := false
        stripSilenceBegin := false
        stripSilenceEnd := false }
  | .enqueueNext _ _ => .ok ()
  | _ => .error .noTracksLeft

/-- The first activity goes on to its end, or by twenty stops. -/
def goOn : List (Outside × Move) := List.replicate 20 (world, .proceed 0 answers)

def request (r : Request) : List (Outside × Move) := (world, .ask r) :: goOn

/-- The player comes, and tracks are added to its queue. -/
def fill (names : List String) : List (Outside × Move) :=
  (world, .register den) ::
    request (.playMedia "den" (names.map fun name => .item (track name)) (some .add) false none)

def session : Session := .start {} {} default 1

end House

end Jukebox
