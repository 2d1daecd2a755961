import Jukebox.Proofs.Runs

/-!
# When a preload begins

A report begins a preload of the next item when that item is due: the queue plays, the current item
is far enough along, and the next one was not handed over yet. That alone is not enough. The item
behind the current one must also have changed since the last report, or nothing may be marked as
handed over. The mark of an item stays when the player goes on to it, so on the second item of a run
the preload does not begin.
-/

namespace Jukebox

/-- Whether the next item of a queue is to be handed to the player: the elapsed seconds reached the
half of the current item, and the next one was not handed over. -/
structure Queue.Ripe (q : Queue) (clock : Float) (current next : QueueItem) : Prop where
  playing : q.state = .playing
  current_eq : q.currentItem = some current
  next_eq : q.nextItem = some next
  late : ¬ q.elapsedAt clock < Hub.preloadAfter
  half : ¬ q.elapsedAt clock < Number.floatOfNat (Hub.trackLength current) / 2
  fresh : q.enqueuedNext ≠ some next.id

namespace Hub

/-- Whether a hub is that of some session at some time. -/
def Reachable (h : Hub) : Prop :=
  ∃ config store draws nextItem moves,
    ((Session.start config store draws nextItem).run moves).hub = h

/-- Whether a job waits that did not wait before and hands over the next item of a queue. -/
def BeginsPreload (before after : Hub) (queueId : String) : Prop :=
  ∃ w ∈ after.schedule.waiting, w ∉ before.schedule.waiting ∧ w.job.preloads? = some queueId

variable {h : Hub}

theorem Reachable.named (hreach : h.Reachable) : h.Named := by
  obtain ⟨config, store, draws, nextItem, moves, rfl⟩ := hreach
  exact Session.named_run config store draws nextItem moves

theorem Reachable.orderly (hreach : h.Reachable) : h.schedule.Orderly := by
  obtain ⟨config, store, draws, nextItem, moves, rfl⟩ := hreach
  exact Session.orderly_run config store draws nextItem moves

theorem ripe_iff {q : Queue} {clock : Float} {current next : QueueItem} :
    q.Ripe clock current next ↔
      q.state = .playing ∧ preloadDue? q clock = some (current, next) := by
  constructor
  · intro hripe
    refine ⟨hripe.playing, ?_⟩
    simp only [preloadDue?, hripe.current_eq, hripe.next_eq, if_neg hripe.fresh,
      if_neg hripe.late, if_neg hripe.half]
  · rintro ⟨hplaying, hdue⟩
    unfold preloadDue? at hdue
    split at hdue
    · next hcurrent hnext =>
      dsimp only at hdue
      split at hdue
      · cases hdue
      · split at hdue
        · cases hdue
        · split at hdue
          · cases hdue
          · next hfresh hlate hhalf =>
            cases hdue
            exact ⟨hplaying, hcurrent, hnext, hlate, hhalf, hfresh⟩
    · cases hdue

/-- Only the claim of a report lets a preload begin. -/
theorem beginsPreload_iff (hs : h.schedule.Orderly) {r : PlayerReport} {e : Entry}
    (he : h.entry? r.playerId = some e) (hid : e.queue.id = r.playerId) (o : Outside) :
    h.BeginsPreload (h.onReport o r) r.playerId ↔ (e.claim? o r).isSome := by
  have hgrows := grows_onReport o he hid
  have hpreloads := Schedule.preloads_grows (orderly_withPreload hs o.now r.playerId _)
    (fun _ hjob => hjob.1.preloads?) hgrows r.playerId
  cases hclaim : e.claim? o r with
  | none =>
    rw [hclaim] at hpreloads
    refine iff_of_false ?_ (by simp)
    rintro ⟨w, hw, hnew, hjob⟩
    have hmem : w ∈ (h.onReport o r).schedule.preloads r.playerId :=
      Schedule.mem_preloads.2 ⟨hw, hjob⟩
    rw [hpreloads] at hmem
    exact hnew (Schedule.mem_preloads.1 hmem).1
  | some claim =>
    rw [hclaim, withPreload, Schedule.preloads_later_preload hs] at hpreloads
    obtain ⟨w, hw, hnumber⟩ : ∃ w ∈ (h.onReport o r).schedule.preloads r.playerId,
        w.number = h.schedule.nextNumber := by
      rw [hpreloads]
      exact ⟨_, List.mem_singleton_self _, rfl⟩
    obtain ⟨hwaiting, hjob⟩ := Schedule.mem_preloads.1 hw
    refine iff_of_true ⟨w, hwaiting, fun hold => ?_, hjob⟩ rfl
    exact Nat.ne_of_lt (hs.number_lt w hold) hnumber

end Hub

/-! ## The claim of a report -/

/-- When a queue plays and its next item is known, a report lets it preload if that item was not the
next one before or none is marked. -/
theorem letsPreload_iff {old : Observation} {q : Queue} {next : QueueItem}
    (hplaying : q.state = .playing) (hnext : q.nextItem = some next) :
    old.LetsPreload q ↔ old.nextItemId ≠ some next.id ∨ q.enqueuedNext = none := by
  have hid : (Observation.ofQueue q).nextItemId = some next.id := by
    simp only [Observation.ofQueue, hnext]
    rfl
  unfold Observation.LetsPreload
  rw [hid, Option.isNone_iff_eq_none]
  exact ⟨fun hl => hl.2.imp_left Ne.symm, fun hl => ⟨hplaying, hl.imp_left Ne.symm⟩⟩

namespace Entry

variable {e : Entry} {o : Outside} {r : PlayerReport} {current next : QueueItem}

theorem heeds_of_playing (hannounce : ¬ r.announcementInProgress)
    (hplaying : (e.reported o r).queue.state = .playing) : Hub.Heeds r e := by
  refine Decidable.byContradiction fun hnot => ?_
  simp [reported, hannounce, hnot] at hplaying

/-- What a report makes of an entry is ripe when what it tells is: they differ in the claim and in
the source of radio only. -/
theorem ripe_reportedQueue (hannounce : ¬ r.announcementInProgress) (hheeds : Hub.Heeds r e)
    (hripe : (e.reported o r).queue.Ripe o.clock current next) :
    (Hub.reportedQueue o r e).Ripe o.clock current next := by
  obtain ⟨claim, radioSource, remembered, hfollowed⟩ :=
    e.followed_eq o (e.remembered.getD {}) (Hub.reportedQueue o r e)
  rw [reported, if_neg hannounce, if_pos hheeds, hfollowed] at hripe
  exact ⟨hripe.playing, hripe.current_eq, hripe.next_eq, hripe.late, hripe.half, hripe.fresh⟩

/-- A report claims the next item that is due, if it lets the queue preload. -/
theorem claim?_of_due (hannounce : ¬ r.announcementInProgress) (hheeds : Hub.Heeds r e)
    (hfree : e.queue.preloading = none)
    (hdue : Hub.preloadDue? (Hub.reportedQueue o r e) o.clock = some (current, next)) :
    e.claim? o r =
      if (e.remembered.getD {}).LetsPreload (Hub.reportedQueue o r e) then some (current, next)
      else none := by
  have hfree : (Hub.reportedQueue o r e).preloading = none := by
    rw [(Hub.reportedQueue_eq o r e).2.2.1, hfree]
  by_cases hlets : (e.remembered.getD {}).LetsPreload (Hub.reportedQueue o r e)
  · simp [claim?, hannounce, hheeds, hlets, Queue.claim?, hfree, hdue]
  · simp [claim?, hlets]

end Entry

/-- When the next item is due and none is claimed, a report begins a preload exactly if no
announcement is made and either another item comes next than at the last report or none is marked as
handed over. -/
theorem preload_begins_iff {h : Hub} (hreach : h.Reachable) (o : Outside) (r : PlayerReport)
    {q : Queue} (hq : (h.onReport o r).queue? r.playerId = some q) {current next : QueueItem}
    (hripe : q.Ripe o.clock current next)
    (hidle : ∀ stored, h.queue? r.playerId = some stored → stored.preloading = none) :
    h.BeginsPreload (h.onReport o r) r.playerId ↔
      r.announcementInProgress = false ∧
        ((h.remembered? r.playerId).bind (·.nextItemId) ≠ some next.id ∨
          q.enqueuedNext = none) := by
  have hnamed := hreach.named
  have htouches := Hub.touches_onReport o r fun e he => hnamed r.playerId e he
  obtain ⟨after, hafter, rfl⟩ := Option.map_eq_some_iff.1 hq
  rw [htouches, if_pos rfl] at hafter
  obtain ⟨e, he, rfl⟩ := Option.map_eq_some_iff.1 hafter
  rw [Hub.beginsPreload_iff hreach.orderly he (hnamed _ e he)]
  by_cases hannounce : r.announcementInProgress
  · simp [Entry.claim?, hannounce]
  have hheeds := Entry.heeds_of_playing hannounce hripe.playing
  have hreported := Entry.ripe_reportedQueue hannounce hheeds hripe
  have hfree : e.queue.preloading = none := hidle e.queue (by rw [Hub.queue?_eq_map, he]; rfl)
  have hremembered : (h.remembered? r.playerId).bind (·.nextItemId) =
      (e.remembered.getD {}).nextItemId := by
    rw [Hub.remembered?, he, Option.bind_some]
    cases e.remembered <;> rfl
  have hmark : (e.reported o r).queue.enqueuedNext = (Hub.reportedQueue o r e).enqueuedNext := by
    rw [(e.reported_eq o r).2.2.1, (Hub.reportedQueue_eq o r e).2.1]
  rw [Entry.claim?_of_due hannounce hheeds hfree (Hub.ripe_iff.1 hreported).2, hremembered, hmark,
    ← letsPreload_iff hreported.playing hreported.next_eq]
  by_cases hlets : (e.remembered.getD {}).LetsPreload (Hub.reportedQueue o r e)
  · simp [hlets, hannounce]
  · simp [hlets]

/-! ## The first and the second item of a run -/

namespace House

/-- The second item of a queue is handed over while the first one plays, and the player goes on to
it. -/
def handOver : List (Outside × Move) :=
  fill ["a", "b", "c"] ++ [(world, .report (playing "qi1" 100)), (world, .start 0)] ++ goOn ++
    [(world, .report (playing "qi2" 1))]

/-- Whether the next item of a queue is due. -/
def isDue (h : Hub) : Bool :=
  (h.queue? "den").any fun q =>
    decide (q.state = .playing) && (Hub.preloadDue? q world.clock).isSome

theorem exists_ripe_of_isDue {h : Hub} (hdue : isDue h) :
    ∃ q current next, h.queue? "den" = some q ∧ q.Ripe world.clock current next := by
  obtain ⟨q, hq, hripe⟩ := (Option.any_eq_true _ _).1 hdue
  simp only [Bool.and_eq_true, decide_eq_true_eq] at hripe
  obtain ⟨due, hdue⟩ := Option.isSome_iff_exists.1 hripe.2
  exact ⟨q, due.1, due.2, hq, Hub.ripe_iff.2 ⟨hripe.1, hdue⟩⟩

end House

/-- While the first item plays, the second one is preloaded. -/
theorem first_item_preloaded :
    let h := (House.session.run (House.fill ["a", "b", "c"])).hub
    h.BeginsPreload (h.onReport House.world (House.playing "qi1" 100)) "den" := by
  intro h
  have hreach : h.Reachable := ⟨_, _, _, _, _, rfl⟩
  obtain ⟨q, current, next, hq, hripe⟩ := House.exists_ripe_of_isDue
    (h := h.onReport House.world (House.playing "qi1" 100)) (by decide +kernel)
  have hidle : (h.queue? "den").all fun q => q.preloading.isNone := by decide +kernel
  have hnext : (h.remembered? "den").bind (·.nextItemId) = none := by decide +kernel
  refine (preload_begins_iff hreach House.world (House.playing "qi1" 100) hq hripe ?_).2
    ⟨rfl, .inl ?_⟩
  · intro stored hstored
    exact Option.isNone_iff_eq_none.1 ((Option.all_eq_true _ _).1 hidle stored hstored)
  · rw [show (House.playing "qi1" 100).playerId = "den" from rfl, hnext]
    exact fun h => nomatch h

/-- While the second item plays, the third one is due, nothing is claimed, and yet a report begins
no preload. -/
theorem second_item_not_preloaded :
    let h := (House.session.run House.handOver).hub
    let after := h.onReport House.world (House.playing "qi2" 100)
    (∃ q current next, after.queue? "den" = some q ∧ q.Ripe House.world.clock current next) ∧
      (∀ stored, h.queue? "den" = some stored → stored.preloading = none) ∧
      ¬ h.BeginsPreload after "den" := by
  intro h after
  have hidle : (h.queue? "den").all fun q => q.preloading.isNone := by decide +kernel
  have hnone : after.schedule.waiting.all fun w => w.job.preloads?.isNone := by decide +kernel
  refine ⟨House.exists_ripe_of_isDue (by decide +kernel), fun stored hstored => ?_, ?_⟩
  · exact Option.isNone_iff_eq_none.1 ((Option.all_eq_true _ _).1 hidle stored hstored)
  · rintro ⟨w, hw, -, hjob⟩
    have hplain := List.all_eq_true.1 hnone w hw
    rw [hjob] at hplain
    cases hplain

end Jukebox
