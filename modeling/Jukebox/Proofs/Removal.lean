import Jukebox.Proofs.Runs

/-!
# Removing players

The jobs that wait for the queue of a removed player are found by the end of their keys: an
underscore and the id of the player. That finds all of them (`Waiting.ofQueue_iff`). It also
finds a job of another queue when the id of that queue ends so, or when the id of the player is the
end of the job's own key behind one of its other underscores (`Job.Mistaken`), and no other job. So
a removal cancels the jobs of its own queue only as long as no such job waits
(`removal_cancels_own_iff`).
-/

namespace Jukebox

/-! ## Ends of keys -/

/-- What follows each underscore of a text. -/
def tailsBehind : List Char → List (List Char)
  | [] => []
  | c :: cs => if c = '_' then cs :: tailsBehind cs else tailsBehind cs

/-- An underscore and a name end a text if they end its second half, or if the name is that half
together with what follows an underscore of the first. -/
theorem underscore_suffix_append_iff {name front back : List Char} :
    '_' :: name <:+ front ++ back ↔
      '_' :: name <:+ back ∨ ∃ tail ∈ tailsBehind front, name = tail ++ back := by
  induction front with
  | nil => simp [tailsBehind]
  | cons c cs ih =>
    rw [List.cons_append, List.suffix_cons_iff, ih, List.cons.injEq]
    by_cases hc : c = '_'
    · rw [tailsBehind, if_pos hc, and_iff_right hc.symm]
      simp only [List.mem_cons, exists_eq_or_imp]
      exact or_left_comm
    · rw [tailsBehind, if_neg hc]
      exact or_iff_right fun h => hc h.1.symm

namespace Job

/-- The ends of a key's stem behind its underscores, but for the last one. -/
def stemTails : Job → List String
  | dispatch .. => ["media_"]
  | preload .. => ["next_item_", "item_"]
  | fillRadio _ => ["radio_tracks_", "tracks_"]
  | clearCheck _ => ["queue_"]
  | _ => []

theorem tailsBehind_keyStem {job : Job} {queueId : String} (hjob : job.waitsFor? = some queueId) :
    tailsBehind job.keyStem.toList = job.stemTails.map String.toList ++ [[]] := by
  cases job <;> first | (dsimp only [keyStem, stemTails]; decide) | cases hjob

/-- Whether a job waits for a queue whose id ends in an underscore and another id, or is all that
the other id has behind an end of the key's stem. -/
def Mistaken (job : Job) (playerId : String) : Prop :=
  ∃ queueId, job.waitsFor? = some queueId ∧
    ((∃ front, queueId = front ++ "_" ++ playerId) ∨
      ∃ tail ∈ job.stemTails, playerId = tail ++ queueId)

theorem ends_iff {queueId playerId : String} :
    '_' :: playerId.toList <:+ queueId.toList ↔ ∃ front, queueId = front ++ "_" ++ playerId := by
  constructor
  · rintro ⟨front, hfront⟩
    refine ⟨String.ofList front, ?_⟩
    rw [← String.toList_inj, ← hfront]
    simp
  · rintro ⟨front, rfl⟩
    exact ⟨front.toList, by simp⟩

/-- The jobs found by the id of a player are those of its queue and the mistaken ones. -/
theorem keyOfQueue_iff {job : Job} {key playerId : String} (hkey : job.key? = some key) :
    keyOfQueue playerId key ↔ job.waitsFor? = some playerId ∨ job.Mistaken playerId := by
  rw [key?_eq_map] at hkey
  obtain ⟨queueId, hqueue, rfl⟩ := Option.map_eq_some_iff.1 hkey
  have htails : (∃ tail ∈ tailsBehind job.keyStem.toList,
      playerId.toList = tail ++ queueId.toList) ↔
        (∃ tail ∈ job.stemTails, playerId = tail ++ queueId) ∨ queueId = playerId := by
    rw [tailsBehind_keyStem hqueue]
    constructor
    · rintro ⟨tail, htail, hname⟩
      rcases List.mem_append.1 htail with htail | htail
      · obtain ⟨stem, hstem, rfl⟩ := List.mem_map.1 htail
        exact .inl ⟨stem, hstem, by rwa [← String.toList_append, String.toList_inj] at hname⟩
      · rw [List.mem_singleton.1 htail, List.nil_append, String.toList_inj] at hname
        exact .inr hname.symm
    · rintro (⟨stem, hstem, rfl⟩ | rfl)
      · exact ⟨stem.toList, List.mem_append_left _ (List.mem_map_of_mem hstem),
          String.toList_append⟩
      · exact ⟨[], List.mem_append_right _ (List.mem_singleton_self _), rfl⟩
  unfold keyOfQueue Mistaken
  rw [List.isSuffixOf_iff_suffix, String.toList_append, underscore_suffix_append_iff, htails,
    ends_iff, hqueue]
  simp only [Option.some.injEq, exists_eq_left']
  rw [← or_assoc, or_comm]

end Job

/-! ## The jobs that a removal leaves -/

/-- Whether every job waits under its own key. -/
def Schedule.Keyed (s : Schedule Job) : Prop := ∀ w ∈ s.waiting, w.key = w.job.key?

namespace Waiting

variable {w : Waiting Job} (hkey : w.key = w.job.key?)

include hkey

/-- A job that waits under its own key is found by the ids of its queue and those it is mistaken
for. -/
theorem ofQueue_iff (playerId : String) :
    w.ofQueue playerId ↔ w.job.waitsFor? = some playerId ∨ w.job.Mistaken playerId := by
  unfold ofQueue
  rw [hkey]
  cases hjob : w.job.key? with
  | some key => simpa using Job.keyOfQueue_iff hjob
  | none =>
    have hnone : w.job.waitsFor? = none := by simpa [Job.key?_eq_map] using hjob
    simp [hnone, Job.Mistaken]

end Waiting

theorem Hub.mem_waiting_onRemove {h : Hub} {o : Outside} {playerId : String} {w : Waiting Job} :
    w ∈ (h.onRemove o playerId).schedule.waiting ↔
      w ∈ h.schedule.waiting ∧ ¬ w.ofQueue playerId := by
  have hwaiting : (h.onRemove o playerId).schedule.waiting =
      h.schedule.waiting.filter fun w => !(w.ofQueue playerId) := rfl
  rw [hwaiting]
  simp

/-- Removing a player leaves no job of its queue waiting, and it leaves all the others waiting
exactly when none of them is mistaken for one of its jobs. -/
theorem removal_cancels_own_iff {h : Hub} (hkeyed : h.schedule.Keyed) (o : Outside)
    (playerId : String) :
    (∀ w ∈ (h.onRemove o playerId).schedule.waiting, w.job.waitsFor? ≠ some playerId) ∧
      ((∀ w ∈ h.schedule.waiting, w.job.waitsFor? ≠ some playerId →
          w ∈ (h.onRemove o playerId).schedule.waiting) ↔
        ∀ w ∈ h.schedule.waiting, w.job.waitsFor? ≠ some playerId → ¬ w.job.Mistaken playerId) := by
  have hleft : ∀ w ∈ h.schedule.waiting, w ∈ (h.onRemove o playerId).schedule.waiting ↔
      w.job.waitsFor? ≠ some playerId ∧ ¬ w.job.Mistaken playerId := by
    intro w hw
    rw [Hub.mem_waiting_onRemove, Waiting.ofQueue_iff (hkeyed w hw), not_or, and_iff_right hw]
  constructor
  · intro w hw
    have hbefore := (Hub.mem_waiting_onRemove.1 hw).1
    exact ((hleft w hbefore).1 hw).1
  · refine forall_congr' fun w => forall_congr' fun hw => forall_congr' fun hother => ?_
    rw [hleft w hw, and_iff_right hother]

/-- Another player comes, and a track is played on it and on the first one. -/
def House.bothPlay (other : String) : List (Outside × Move) :=
  [(world, .register den), (world, .register { den with playerId := other })] ++
    request (.playMedia "den" [.item (track "a")] (some .play) false none) ++ goOn ++
    request (.playMedia other [.item (track "b")] (some .play) false none) ++ goOn

theorem House.keyed_run (moves : List (Outside × Move)) : (session.run moves).hub.schedule.Keyed :=
  (Session.orderly_run {} {} default 1 moves).keyed

/-- The player of the kitchen has its track sent although the other player goes. -/
theorem removal_leaves_kitchen :
    let h := (House.session.run (House.bothPlay "kitchen")).hub
    (∃ w ∈ h.schedule.waiting, w.job.waitsFor? = some "kitchen") ∧
      (∀ w ∈ (h.onRemove House.world "den").schedule.waiting, w.job.waitsFor? ≠ some "den") ∧
      ∀ w ∈ h.schedule.waiting, w.job.waitsFor? ≠ some "den" →
        w ∈ (h.onRemove House.world "den").schedule.waiting := by
  intro h
  have hkeyed : h.schedule.Keyed := House.keyed_run _
  have hwaits : h.schedule.waiting.any fun w => w.job.waitsFor? = some "kitchen" := by
    decide +kernel
  have hfound : h.schedule.waiting.all fun w =>
      decide (w.job.waitsFor? ≠ some "den") → !(w.ofQueue "den") := by
    decide +kernel
  obtain ⟨hown, hothers⟩ := removal_cancels_own_iff hkeyed House.world "den"
  refine ⟨by simpa using hwaits, hown, hothers.2 fun w hw hother hmistaken => ?_⟩
  have hnot := List.all_eq_true.1 hfound w hw
  have hof := (Waiting.ofQueue_iff (hkeyed w hw) "den").2 (.inr hmistaken)
  simp [hother, hof] at hnot

/-- Another player loses its track when the first one goes, since its id ends in an underscore and
the id of that. -/
theorem removal_cancels_other :
    let h := (House.session.run (House.bothPlay "living_den")).hub
    h.contains "den" ∧ h.contains "living_den" ∧
      ∃ w ∈ h.schedule.waiting, w.job.waitsFor? = some "living_den" ∧
        w ∉ (h.onRemove House.world "den").schedule.waiting := by
  intro h
  have hboth : (h.contains "den" && h.contains "living_den") = true := by decide +kernel
  have hwaits : h.schedule.waiting.any fun w => w.job.waitsFor? = some "living_den" := by
    decide +kernel
  have hnone : (h.onRemove House.world "den").schedule.waiting.length = 0 := by decide +kernel
  obtain ⟨w, hw, hqueue⟩ := List.any_eq_true.1 hwaits
  obtain ⟨hfirst, hsecond⟩ := (Bool.and_eq_true _ _).mp hboth
  refine ⟨hfirst, hsecond, w, hw, by simpa using hqueue, ?_⟩
  rw [List.length_eq_zero_iff.1 hnone]
  exact List.not_mem_nil

end Jukebox
