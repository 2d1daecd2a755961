import Jukebox.Proofs.Runs

/-!
# Players that follow one another

A player may follow another one: the one it is synced to, or else its active group. The queue that
feeds it is found by going from player to player, at most five times, and asking the player where
that ends which queue it has (`Hub.givenQueue?`). The links may go round in circles; then the walk
ends where it happens to be. Where they end soon enough, a player and the one it follows are fed by
the same queue (`followers_agree`).
-/

namespace Jukebox

namespace Outside

variable (o : Outside)

/-- The player that another one follows; none if it is unknown or follows only itself. -/
def leader? (playerId : String) : Option String :=
  (o.report? playerId).bind fun r => Hub.leader? r playerId

/-- Whether so many links lead from a player to another one. -/
inductive Reaches : Nat → String → String → Prop
  | here (playerId : String) : Reaches 0 playerId playerId
  | step {n : Nat} {playerId leader last : String} (hleader : o.leader? playerId = some leader)
      (hmore : Reaches n leader last) : Reaches (n + 1) playerId last

end Outside

namespace Hub

variable (h : Hub) (o : Outside)

/-- The id of the queue that a player has by itself: the source that feeds it, if that is a
registered queue, or its own queue. -/
def givenQueue? (playerId : String) : Option String :=
  match ((o.report? playerId).bind (·.activeSource)).filter h.contains with
  | some source => some source
  | none => h.ownQueue? playerId

variable {h o} {playerId leader last : String} {k n : Nat}

theorem contains_of_givenQueue? {queueId : String}
    (hgiven : h.givenQueue? o playerId = some queueId) : h.contains queueId := by
  unfold givenQueue? ownQueue? at hgiven
  split at hgiven
  · next source hsource =>
    cases hgiven
    exact (Option.filter_eq_some_iff.1 hsource).2
  · split at hgiven
    · next hown =>
      cases hgiven
      exact hown
    · cases hgiven

/-! ## One link -/

theorem activeQueueId?_zero (h : Hub) (o : Outside) (playerId : String) :
    h.activeQueueId? o 0 playerId = h.givenQueue? o playerId := by
  unfold activeQueueId? givenQueue?
  cases o.report? playerId <;> rfl

theorem activeQueueId?_of_leader (hleader : o.leader? playerId = some leader) (n : Nat) :
    h.activeQueueId? o (n + 1) playerId = h.activeQueueId? o n leader := by
  obtain ⟨r, hreport, hlink⟩ := Option.bind_eq_some_iff.1 hleader
  rw [activeQueueId?, hreport]
  dsimp only
  rw [hlink]

theorem activeQueueId?_of_no_leader (hnone : o.leader? playerId = none) (n : Nat) :
    h.activeQueueId? o n playerId = h.givenQueue? o playerId := by
  unfold activeQueueId? givenQueue?
  cases hreport : o.report? playerId with
  | none => rfl
  | some r =>
    have hlink : Hub.leader? r playerId = none := by simpa [Outside.leader?, hreport] using hnone
    dsimp only
    rw [hlink]
    cases n <;> rfl

/-! ## Walks along the links -/

/-- A walk goes on where some links lead with what is left of its limit. -/
theorem activeQueueId?_of_reaches (hreaches : o.Reaches k playerId last) (n : Nat) :
    h.activeQueueId? o (n + k) playerId = h.activeQueueId? o n last := by
  induction hreaches with
  | here => rfl
  | @step k _ _ _ hleader _ ih => rw [← Nat.add_assoc, activeQueueId?_of_leader hleader, ih]

/-- The limit does not matter to a walk that comes to the end of the links within it. -/
theorem activeQueueId?_of_ends (hreaches : o.Reaches k playerId last)
    (hlast : o.leader? last = none) (hk : k ≤ n) :
    h.activeQueueId? o n playerId = h.givenQueue? o last := by
  rw [← Nat.sub_add_cancel hk, activeQueueId?_of_reaches hreaches,
    activeQueueId?_of_no_leader hlast]

/-- Every walk ends, at the end of the links or at its limit, and asks the player that is there. -/
theorem exists_reaches (h : Hub) (o : Outside) (n : Nat) (playerId : String) :
    ∃ k ≤ n, ∃ last, o.Reaches k playerId last ∧ (k = n ∨ o.leader? last = none) ∧
      h.activeQueueId? o n playerId = h.givenQueue? o last := by
  induction n generalizing playerId with
  | zero =>
    exact ⟨0, Nat.le_refl 0, playerId, .here playerId, .inl rfl, h.activeQueueId?_zero o playerId⟩
  | succ n ih =>
    cases hleader : o.leader? playerId with
    | none =>
      exact ⟨0, Nat.zero_le _, playerId, .here playerId, .inr hleader,
        activeQueueId?_of_no_leader hleader _⟩
    | some leader =>
      obtain ⟨k, hk, last, hreaches, hends, hgiven⟩ := ih leader
      refine ⟨k + 1, Nat.succ_le_succ hk, last, .step hleader hreaches, ?_, ?_⟩
      · exact hends.imp (congrArg (· + 1)) id
      · rw [activeQueueId?_of_leader hleader, hgiven]

theorem contains_of_activeQueueId? {queueId : String}
    (hactive : h.activeQueueId? o n playerId = some queueId) : h.contains queueId := by
  obtain ⟨k, -, last, -, -, hgiven⟩ := exists_reaches h o n playerId
  exact contains_of_givenQueue? (hgiven.symm.trans hactive)

end Hub

/-- Whatever the players say of one another, the queue that feeds a player is found in at most five
steps, at the end of its links if that comes sooner, and it is a registered one. A player that
follows another one is fed by the same queue if at most four links lead on from there to their
end. -/
theorem followers_agree (h : Hub) (o : Outside) :
    (∀ playerId, ∃ k ≤ Hub.linkLimit, ∃ last, o.Reaches k playerId last ∧
      (k = Hub.linkLimit ∨ o.leader? last = none) ∧
        h.activeQueue? o playerId = (h.givenQueue? o last).bind h.queue?) ∧
      (∀ playerId, (h.activeQueueId? o Hub.linkLimit playerId = none ∧
          h.activeQueue? o playerId = none) ∨
        ∃ queueId q, h.activeQueueId? o Hub.linkLimit playerId = some queueId ∧
          h.queue? queueId = some q ∧ h.activeQueue? o playerId = some q) ∧
      ∀ playerId leader last k, o.leader? playerId = some leader → o.Reaches k leader last →
        k ≤ 4 → o.leader? last = none → h.activeQueue? o playerId = h.activeQueue? o leader := by
  refine ⟨fun playerId => ?_, fun playerId => ?_, ?_⟩
  · obtain ⟨k, hk, last, hreaches, hends, hgiven⟩ := h.exists_reaches o Hub.linkLimit playerId
    exact ⟨k, hk, last, hreaches, hends, congrArg (·.bind h.queue?) hgiven⟩
  · cases hactive : h.activeQueueId? o Hub.linkLimit playerId with
    | none =>
      refine .inl ⟨rfl, ?_⟩
      rw [Hub.activeQueue?, hactive, Option.bind_none]
    | some queueId =>
      obtain ⟨e, he⟩ := Option.isSome_iff_exists.1 (Hub.contains_of_activeQueueId? hactive)
      have hq : h.queue? queueId = some e.queue := by rw [Hub.queue?_eq_map, he, Option.map_some]
      refine .inr ⟨queueId, e.queue, rfl, hq, ?_⟩
      rw [Hub.activeQueue?, hactive, Option.bind_some, hq]
  · intro playerId leader last k hleader hreaches hk hlast
    have hfollower : h.activeQueueId? o Hub.linkLimit playerId = h.givenQueue? o last :=
      Hub.activeQueueId?_of_ends (.step hleader hreaches) hlast (Nat.succ_le_succ hk)
    have hled : h.activeQueueId? o Hub.linkLimit leader = h.givenQueue? o last :=
      Hub.activeQueueId?_of_ends hreaches hlast (Nat.le_trans hk (by decide))
    rw [Hub.activeQueue?, Hub.activeQueue?, hfollower, hled]

namespace House

/-- Seven players, of whom each is synced to the one behind it. -/
def row : List String := ["den", "attic", "loft", "hall", "porch", "yard", "gate"]

/-- A world in which the first players of the row are known, and the last of them is synced to
itself. -/
def inRow (players : Nat) : Outside :=
  { world with
    report? := fun playerId =>
      let known := row.take players
      if playerId ∈ known then
        some { den with playerId, syncedTo := known[known.idxOf playerId + 1]?.getD playerId }
      else none }

/-- A hub in which these queues are registered. -/
def home (queueIds : List String) : Hub :=
  queueIds.foldl (fun h playerId => (h.onRegister world { den with playerId }).2) session.hub

end House

/-- Of six players in a row the first one is fed by the queue that feeds the second one. -/
theorem den_fed_as_attic :
    let h := House.home ["den", "yard"]
    let o := House.inRow 6
    o.leader? "den" = some "attic" ∧ o.Reaches 4 "attic" "yard" ∧ o.leader? "yard" = none ∧
      h.activeQueue? o "den" = h.activeQueue? o "attic" := by
  intro h o
  have hleader : o.leader? "den" = some "attic" := by decide +kernel
  have hreaches : o.Reaches 4 "attic" "yard" :=
    .step (show o.leader? "attic" = some "loft" by decide +kernel) <|
      .step (show o.leader? "loft" = some "hall" by decide +kernel) <|
        .step (show o.leader? "hall" = some "porch" by decide +kernel) <|
          .step (show o.leader? "porch" = some "yard" by decide +kernel) <| .here "yard"
  have hlast : o.leader? "yard" = none := by decide +kernel
  exact ⟨hleader, hreaches, hlast,
    (followers_agree h o).2.2 "den" "attic" "yard" 4 hleader hreaches (Nat.le_refl 4) hlast⟩

-- With one more player in the row the first two are fed by different queues.
example :
    let h := House.home ["yard", "gate"]
    (h.activeQueue? (House.inRow 7) "den").map (·.id) = some "yard" ∧
      (h.activeQueue? (House.inRow 7) "attic").map (·.id) = some "gate" := by
  decide +kernel

end Jukebox
