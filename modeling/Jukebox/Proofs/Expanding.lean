import Jukebox.Proofs.Reserving
import Mathlib.Data.List.Nodup
import Mathlib.Data.List.TakeWhile

/-!
# What requested media stands for

A container is expanded into its tracks or its episodes (`Expands`): the catalog is asked for them,
and a failure of the catalog is passed on. What is asked about several items, one after the other,
is put together from the answers (`Polls`), and of the tracks with one uri only the first one that
was met is kept (`FirstOfEach`). That a container is played is recorded once, however its expansion
ends (`Spawns`).
-/

namespace Jukebox

/-! ## Parts of lists -/

/-- Whether a list is what another one has from the first element with a property on, which is
nothing if no element has it. -/
def FromFirst {α : Type} (P : α → Prop) (all rest : List α) : Prop :=
  ∃ passed, all = passed ++ rest ∧ (∀ x ∈ passed, ¬ P x) ∧ ∀ x ∈ rest.head?, P x

section FromFirst

variable {α : Type} {P : α → Prop} {all rest : List α}

theorem fromFirst_dropWhile (p : α → Bool) (all : List α) :
    FromFirst (fun x => p x = true) all (all.dropWhile fun x => !p x) := by
  refine ⟨all.takeWhile fun x => !p x, List.takeWhile_append_dropWhile.symm, ?_, ?_⟩
  · intro x hx
    have hnot := List.mem_takeWhile_imp (p := fun x => !p x) hx
    simpa using hnot
  · intro x hx
    have hnot := List.head?_dropWhile_not (fun x => !p x) all
    rw [Option.mem_def.1 hx] at hnot
    simpa using hnot

theorem fromFirst_drop {p : α → Bool} {index : Nat} (hindex : all.findIdx? p = some index) :
    FromFirst (fun x => p x = true) all (all.drop index) := by
  obtain ⟨hlt, hp, hbefore⟩ := List.findIdx?_eq_some_iff_getElem.1 hindex
  refine ⟨all.take index, (List.take_append_drop index all).symm, ?_, ?_⟩
  · intro x hx
    obtain ⟨n, hn, rfl⟩ := List.mem_take_iff_getElem.1 hx
    exact hbefore n (by omega)
  · intro x hx
    rw [List.head?_drop, List.getElem?_eq_getElem hlt] at hx
    cases hx
    exact hp

end FromFirst

/-- Whether of some tracks just the first one of each uri is kept, in order. -/
structure FirstOfEach (tracks kept : List MediaItem) : Prop where
  sublist : kept.Sublist tracks
  distinct : (kept.map (·.uri)).Nodup
  first : ∀ k ∈ kept, tracks.find? (fun t => t.uri = k.uri) = some k
  complete : ∀ t ∈ tracks, ∃ k ∈ kept, k.uri = t.uri

namespace FirstOfEach

variable {met known : List MediaItem} {track : MediaItem}

theorem nil : FirstOfEach [] [] :=
  ⟨.refl [], List.nodup_nil, fun _ hk => (nomatch hk), fun _ ht => (nomatch ht)⟩

/-- A track with a uri that was met is left out. -/
theorem skip (hknown : FirstOfEach met known) (hseen : ∃ k ∈ known, k.uri = track.uri) :
    FirstOfEach (met ++ [track]) known where
  sublist := hknown.sublist.trans (List.sublist_append_left _ _)
  distinct := hknown.distinct
  first k hk := by rw [List.find?_append, hknown.first k hk, Option.some_or]
  complete t ht := by
    rcases List.mem_append.1 ht with ht | ht
    · exact hknown.complete t ht
    · rw [List.mem_singleton.1 ht]
      exact hseen

/-- A track with a new uri is kept. -/
theorem keep (hknown : FirstOfEach met known) (hnew : ∀ k ∈ known, k.uri ≠ track.uri) :
    FirstOfEach (met ++ [track]) (known ++ [track]) where
  sublist := hknown.sublist.append (.refl _)
  distinct := by
    rw [List.map_append, List.nodup_append]
    refine ⟨hknown.distinct, List.nodup_singleton _, fun uri huri last hlast => ?_⟩
    obtain ⟨k, hk, rfl⟩ := List.mem_map.1 huri
    rw [List.mem_singleton.1 hlast]
    exact hnew k hk
  first k hk := by
    rw [List.find?_append]
    rcases List.mem_append.1 hk with hk | hk
    · rw [hknown.first k hk, Option.some_or]
    · rw [List.mem_singleton.1 hk]
      have hnone : met.find? (fun t => t.uri = track.uri) = none := by
        rw [List.find?_eq_none]
        intro t ht hsame
        obtain ⟨k, hk, huri⟩ := hknown.complete t ht
        exact hnew k hk (huri.trans (of_decide_eq_true hsame))
      rw [hnone, Option.none_or, List.find?_singleton, if_pos (decide_eq_true rfl)]
  complete t ht := by
    rcases List.mem_append.1 ht with ht | ht
    · obtain ⟨k, hk, huri⟩ := hknown.complete t ht
      exact ⟨k, List.mem_append_left _ hk, huri⟩
    · rw [List.mem_singleton.1 ht]
      exact ⟨track, List.mem_append_right _ (List.mem_singleton_self _), rfl⟩

/-- Adding the tracks with new uris keeps the first one of each. -/
theorem addUnseen (hknown : FirstOfEach met known) (tracks : List MediaItem) :
    FirstOfEach (met ++ tracks) (addUnseen known tracks) := by
  induction tracks generalizing met known with
  | nil => rwa [List.append_nil]
  | cons track more ih =>
    rw [List.append_cons met track more, Jukebox.addUnseen]
    by_cases hseen : ∃ k ∈ known, k.uri = track.uri
    · rw [if_pos (by simpa [MediaItem.sameMedia] using hseen)]
      exact ih (hknown.skip hseen)
    · rw [if_neg (by simpa [MediaItem.sameMedia] using hseen)]
      exact ih (hknown.keep fun k hk huri => hseen ⟨k, hk, huri⟩)

end FirstOfEach

/-! ## Answers -/

/-- Whether a result is made of what a reply holds, or is its failure. -/
inductive Follows {α β : Type} (P : α → β → Prop) : Except Failure α → Except Failure β → Prop
  | ok {answer : α} {value : β} (hvalue : P answer value) : Follows P (.ok answer) (.ok value)
  | error (failure : Failure) : Follows P (.error failure) (.error failure)

theorem Follows.imp {α β : Type} {P Q : α → β → Prop} {reply : Except Failure α}
    {result : Except Failure β} (hfollows : Follows P reply result)
    (himp : ∀ answer value, P answer value → Q answer value) : Follows Q reply result := by
  cases hfollows with
  | ok hvalue => exact .ok (himp _ _ hvalue)
  | error failure => exact .error failure

/-- Whether a question is put about items, one after the other, and the answers are put together
behind what is given already: until there is enough, passing over the items that fail in a way that
is skipped, and ending with any other failure. -/
inductive Polls (question : MediaItem → Except Failure (List MediaItem) → Answered)
    (skips : Failure → Prop) (enough : List MediaItem → Prop) :
    List MediaItem → List MediaItem → List Answered → Except Failure (List MediaItem) → Prop
  | ends {given left : List MediaItem} (hends : left = [] ∨ enough given) :
    Polls question skips enough given left [] (.ok given)
  | gives {given tracks more : List MediaItem} {m : MediaItem} {asked : List Answered}
      {outcome : Except Failure (List MediaItem)} (hlacks : ¬ enough given)
      (hrest : Polls question skips enough (given ++ tracks) more asked outcome) :
    Polls question skips enough given (m :: more) (question m (.ok tracks) :: asked) outcome
  | passes {given more : List MediaItem} {m : MediaItem} {failure : Failure}
      {asked : List Answered} {outcome : Except Failure (List MediaItem)}
      (hlacks : ¬ enough given) (hskips : skips failure)
      (hrest : Polls question skips enough given more asked outcome) :
    Polls question skips enough given (m :: more) (question m (.error failure) :: asked) outcome
  | fails {given more : List MediaItem} {m : MediaItem} {failure : Failure}
      (hlacks : ¬ enough given) (hfails : ¬ skips failure) :
    Polls question skips enough given (m :: more) [question m (.error failure)] (.error failure)

/-! ## Jobs that start at once -/

/-- Whether these jobs, in this order, were put into the schedule to start as soon as they can, and
the schedule was left alone besides. -/
inductive Spawns : List Happening → List Job → Prop
  | nil : Spawns [] []
  | answered {c : Call} {reply : c.Reply} {rest : List Happening} {jobs : List Job}
      (hrest : Spawns rest jobs) : Spawns (.answered c reply :: rest) jobs
  | kept {before after : Hub} {rest : List Happening} {jobs : List Job}
      (hsame : after.schedule = before.schedule) (hrest : Spawns rest jobs) :
      Spawns (.changed before after :: rest) jobs
  | spawned {before after : Hub} {rest : List Happening} {jobs : List Job} (now : Nat) (job : Job)
      (hafter : after.schedule = before.schedule.spawn now job) (hrest : Spawns rest jobs) :
      Spawns (.changed before after :: rest) (job :: jobs)

theorem Spawns.append {first rest : List Happening} {early late : List Job}
    (hfirst : Spawns first early) (hrest : Spawns rest late) :
    Spawns (first ++ rest) (early ++ late) := by
  induction hfirst with
  | nil => exact hrest
  | answered _ ih => exact .answered ih
  | kept hsame _ ih => exact .kept hsame ih
  | spawned now job hafter _ ih => exact .spawned now job hafter ih

/-! ## Expansions -/

/-- Whether these are the available tracks of a container, from the one to start with. -/
def PlaysFrom (start : Option String) (tracks played : List MediaItem) : Prop :=
  match start with
  | none => played = tracks.filter (·.available)
  | some start => FromFirst (fun t => t.isNamed start = true) (tracks.filter (·.available)) played

/-- Whether there is an episode to play. -/
def HasEpisode (start : Option String) (episodes : List MediaItem) : Prop :=
  match start with
  | none => episodes ≠ []
  | some start => ∃ e ∈ episodes, e.isNamed start = true

/-- Whether these are the episodes from the one to play on: the first one that is named, or the
first one that was not fully played, or all of them if all were. -/
def PlaysOn (start : Option String) (episodes played : List MediaItem) : Prop :=
  match start with
  | none =>
    if ∀ e ∈ episodes, e.fullyPlayed = true then played = episodes
    else FromFirst (fun e => e.fullyPlayed = false) episodes played
  | some start => FromFirst (fun e => e.isNamed start = true) episodes played

/-- Whether this is made of the episodes of a podcast, or of the failure to tell them. -/
inductive Resumes (start : Option String) (podcast : ItemRef) :
    Except Failure (List MediaItem) → Except Failure (List MediaItem) → Prop
  | fails (failure : Failure) : Resumes start podcast (.error failure) (.error failure)
  | missing {episodes : List MediaItem} (hnone : ¬ HasEpisode start episodes) :
    Resumes start podcast (.ok episodes) (.error (.noEpisode podcast.name))
  | plays {episodes played : List MediaItem} (hsome : HasEpisode start episodes)
      (hplays : PlaysOn start episodes played) : Resumes start podcast (.ok episodes) (.ok played)

/-- Whether the catalog is asked so for the tracks that an artist stands for, which come in any
order: its own tracks, or those of its albums, each uri once. -/
inductive ExpandsArtist (select : ArtistSelect) (artist : MediaItem) :
    List Answered → Except Failure (List MediaItem) → Prop
  | tracks {reply result : Except Failure (List MediaItem)} (hselect : select.byAlbum = false)
      (hresult : Follows (fun tracks played => played.Perm tracks) reply result) :
    ExpandsArtist select artist [⟨.artistTracks artist select.libraryOnly, reply⟩] result
  | noAlbums (failure : Failure) (hselect : select.byAlbum = true) :
    ExpandsArtist select artist [⟨.artistAlbums artist select.libraryOnly, .error failure⟩]
      (.error failure)
  | albums {albums : List MediaItem} {asked : List Answered}
      {outcome result : Except Failure (List MediaItem)} (hselect : select.byAlbum = true)
      (hpolls : Polls (fun album reply => ⟨.albumTracks album false, reply⟩) (fun _ => False)
        (fun _ => False) [] albums asked outcome)
      (hresult : Follows (fun tracks played => ∃ kept, FirstOfEach tracks kept ∧ played.Perm kept)
        outcome result) :
    ExpandsArtist select artist (⟨.artistAlbums artist select.libraryOnly, .ok albums⟩ :: asked)
      result

/-- Whether the point to start an audiobook at is found so: that of a chapter, or where its provider
says that it was left. -/
inductive StartsBook (chapters : List Chapter) (book : MediaItem) :
    Option String → List Answered → Except Failure UInt64 → Prop
  | chapter {chapter : String} {ms : UInt64} (hms : chapterStart? chapters chapter = some ms) :
    StartsBook chapters book (some chapter) [] (.ok ms)
  | noChapter {chapter : String} (hnone : chapterStart? chapters chapter = none) :
    StartsBook chapters book (some chapter) [] (.error (.noChapter chapter book.name))
  | left {reply : Except Failure (Option ResumeInfo)} {result : Except Failure UInt64}
      (hresult : Follows (fun info ms => ms = ResumeInfo.point info) reply result) :
    StartsBook chapters book none [⟨.resumeInfo book, reply⟩] result

/-- Whether an item can be expanded so, to start with another one. -/
def Expands (config : Config) (start : Option String) (m : MediaItem) (asked : List Answered)
    (result : Except Failure (List MediaItem)) : Prop :=
  match m.kind with
  | .playlist => ∃ reply, asked = [⟨.playlistTracks m, reply⟩] ∧
      Follows (PlaysFrom start) reply result
  | .album => ∃ reply,
      asked = [⟨.albumTracks m (config.albumSelect = .libraryTracks), reply⟩] ∧
      Follows (PlaysFrom start) reply result
  | .artist => ExpandsArtist config.artistSelect m asked result
  | .podcast => ∃ reply, asked = [⟨.podcastEpisodes m.toRef, reply⟩] ∧
      Resumes start m.toRef reply result
  | .podcastEpisode (some podcast) _ => ∃ reply, asked = [⟨.podcastEpisodes podcast, reply⟩] ∧
      Resumes (some m.uri) podcast reply result
  | .podcastEpisode none _ => asked = [] ∧ result = .error (.episodeWithoutPodcast m.name)
  | .audiobook chapters _ => ∃ point, StartsBook chapters m start asked point ∧
      Follows (fun ms played => played = [if 0 < ms then m.withResumePosition (some ms) else m])
        point result
  | _ => asked = [] ∧ result = .ok [m]

/-- What is recorded when an item is expanded: that a container is played. -/
def MediaItem.recordings (m : MediaItem) : List Job :=
  match m.kind with
  | .playlist | .album | .artist | .podcast => [.markPlayed (.ofContainer m)]
  | _ => []

theorem playsFrom_of_eq (start : Option String) (tracks played : List MediaItem)
    (hplayed : played = tracksFrom start tracks) : PlaysFrom start tracks played := by
  rw [hplayed]
  cases start with
  | none => rfl
  | some start => exact fromFirst_dropWhile (fun t : MediaItem => t.isNamed start) _

theorem resumes_of_index {start : Option String} {episodes : List MediaItem} (podcast : ItemRef)
    {index : Nat} (hindex : episodeIndex? start episodes = some index) :
    Resumes start podcast (.ok episodes) (.ok (episodes.drop index)) := by
  cases start with
  | some start =>
    obtain ⟨hlt, hnamed, -⟩ := List.findIdx?_eq_some_iff_getElem.1 hindex
    exact .plays ⟨episodes[index], List.getElem_mem hlt, hnamed⟩ (fromFirst_drop hindex)
  | none =>
    have hsome : episodes ≠ [] := by
      rintro rfl
      cases hindex
    refine .plays hsome ?_
    unfold PlaysOn
    cases hfirst : episodes.findIdx? fun e => !e.fullyPlayed with
    | none =>
      rw [episodeIndex?, hfirst, Option.orElse_none, if_neg (by simpa using hsome)] at hindex
      cases hindex
      rw [if_pos (by simpa using List.findIdx?_eq_none_iff.1 hfirst), List.drop_zero]
    | some first =>
      rw [episodeIndex?, hfirst, Option.orElse_some] at hindex
      cases hindex
      obtain ⟨hlt, hleft, -⟩ := List.findIdx?_eq_some_iff_getElem.1 hfirst
      have hplayed : ¬ ∀ e ∈ episodes, e.fullyPlayed = true := by
        intro hall
        rw [hall _ (List.getElem_mem hlt)] at hleft
        cases hleft
      rw [if_neg hplayed]
      simpa using fromFirst_drop hfirst

theorem resumes_of_no_index {start : Option String} {episodes : List MediaItem} (podcast : ItemRef)
    (hindex : episodeIndex? start episodes = none) :
    Resumes start podcast (.ok episodes) (.error (.noEpisode podcast.name)) := by
  refine .missing ?_
  cases start with
  | some start =>
    rintro ⟨e, he, hnamed⟩
    have hnot := List.findIdx?_eq_none_iff.1 hindex e he
    rw [hnamed] at hnot
    cases hnot
  | none =>
    intro hsome
    have hsome : episodes ≠ [] := hsome
    rw [episodeIndex?, if_neg (by simpa using hsome)] at hindex
    cases hfirst : episodes.findIdx? fun e => !e.fullyPlayed with
    | none =>
      rw [hfirst] at hindex
      cases hindex
    | some first =>
      rw [hfirst] at hindex
      cases hindex

/-! ## Runs -/

/-- Whether nobody else changes the configuration. -/
def Setting.KeepsConfig (S : Setting) : Prop :=
  ∀ h h', S.meanwhile h h' → h'.config = h.config

/-- Whether nothing was asked and no job was scheduled. -/
structure Calm (history : List Happening) : Prop where
  asked_eq : asked history = []
  spawns : Spawns history []

theorem Calm.nil : Calm [] := ⟨rfl, .nil⟩

theorem calm_changed {before after : Hub} (hsame : after.schedule = before.schedule) :
    Calm [.changed before after] :=
  ⟨rfl, .kept hsame .nil⟩

namespace Command

variable {α β : Type} {S : Setting} {h h₁ h₂ : Hub} {history : List Happening} {pace : Pace}

/-- Waiting for a turn is calm. -/
theorem Unfolds.of_awaitTurn {f : Unit → Command β} {result : Except Failure β}
    (hunfolds : (awaitTurn pace >>= f).Unfolds S h history result h₂) :
    ∃ h₁ waited rest, Calm waited ∧ history = waited ++ rest ∧
      (f ()).Unfolds S h₁ rest result h₂ := by
  cases pace with
  | interactive => exact ⟨h, [], history, .nil, rfl, hunfolds⟩
  | background =>
    cases hunfolds with
    | turn o hnext =>
      exact ⟨_, [.changed h (Act.takeTurn.apply o h)], _, calm_changed rfl, rfl, hnext⟩

/-- A call that waits for its turn is all that is asked before it is answered. -/
theorem Unfolds.of_turn_call {c : Call} {f : c.Answer → Command β} {result : Except Failure β}
    (hunfolds : (awaitTurn pace >>= fun _ => call c >>= f).Unfolds S h history result h₂) :
    (∃ answer h₁ rest, asked history = ⟨c, .ok answer⟩ :: asked rest ∧
      (∀ jobs, Spawns rest jobs → Spawns history jobs) ∧
      (f answer).Unfolds S h₁ rest result h₂) ∨
    ∃ failure, asked history = [⟨c, .error failure⟩] ∧ Spawns history [] ∧
      result = .error failure := by
  obtain ⟨h₁, waited, _, hcalm, rfl, hcalls⟩ := hunfolds.of_awaitTurn
  rcases hcalls.of_call with ⟨answer, rest, -, rfl, hrest⟩ | ⟨failure, -, rfl, rfl, -⟩
  · refine .inl ⟨answer, h₁, rest, ?_, fun jobs hjobs => hcalm.spawns.append (.answered hjobs),
      hrest⟩
    rw [asked_append, hcalm.asked_eq]
    rfl
  · refine .inr ⟨failure, ?_, hcalm.spawns.append (.answered .nil), rfl⟩
    rw [asked_append, hcalm.asked_eq]
    rfl

/-- Drawing an order is calm. -/
theorem Unfolds.of_shuffled {xs : List α} {f : List α → Command β} {result : Except Failure β}
    (hunfolds : (shuffled xs >>= f).Unfolds S h history result h₂) :
    ∃ ys h₁ drawn rest, ys.Perm xs ∧ Calm drawn ∧ history = drawn ++ rest ∧
      (f ys).Unfolds S h₁ rest result h₂ := by
  obtain ⟨o, h', rest, -, -, rfl, hrest⟩ := hunfolds.of_step
  exact ⟨_, _, [.changed h' { h' with draws := (h'.draws.shuffle xs).2 }], rest,
    h'.draws.shuffle_perm xs, calm_changed rfl, rfl, hrest _ rfl⟩

theorem Unfolds.of_last_shuffled {xs : List α} {result : Except Failure (List α)}
    (hunfolds : (shuffled xs).Unfolds S h history result h₁) :
    ∃ ys, ys.Perm xs ∧ Calm history ∧ result = .ok ys := by
  rw [← bind_pure (shuffled xs)] at hunfolds
  obtain ⟨ys, _, drawn, _, hperm, hcalm, rfl, hdone⟩ := hunfolds.of_shuffled
  obtain ⟨rfl, rfl, -⟩ := hdone.of_pure
  rw [List.append_nil]
  exact ⟨ys, hperm, hcalm, rfl⟩

/-- That a container is played is recorded before anything else. -/
theorem Unfolds.of_recordContainer (hS : S.KeepsConfig) {m : MediaItem} {f : Unit → Command β}
    {result : Except Failure β}
    (hunfolds : (recordContainer m >>= f).Unfolds S h history result h₂) :
    ∃ h₁ rest, h₁.config = h.config ∧ asked history = asked rest ∧
      (Spawns rest [] → Spawns history [.markPlayed (.ofContainer m)]) ∧
      (f ()).Unfolds S h₁ rest result h₂ := by
  obtain ⟨o, h', rest, hothers, rfl, hrest⟩ := hunfolds.of_change
  exact ⟨h'.spawn o (.markPlayed (.ofContainer m)), rest, hS h h' hothers, rfl,
    fun hspawns => .spawned o.now _ rfl hspawns, hrest⟩

/-- The tracks of albums are asked for, one album after the other. -/
theorem unfolds_albumsTracks {met known albums : List MediaItem} (hknown : FirstOfEach met known)
    {result : Except Failure (List MediaItem)}
    (hunfolds : (albumsTracks pace known albums).Unfolds S h history result h₁) :
    Spawns history [] ∧ ∃ outcome,
      Polls (fun album reply => ⟨.albumTracks album false, reply⟩) (fun _ => False)
        (fun _ => False) met albums (asked history) outcome ∧
      Follows FirstOfEach outcome result := by
  induction albums generalizing met known h history with
  | nil =>
    obtain ⟨rfl, rfl, -⟩ := hunfolds.of_pure
    exact ⟨.nil, .ok met, .ends (.inl rfl), .ok hknown⟩
  | cons album more ih =>
    rcases Unfolds.of_turn_call hunfolds with
      ⟨tracks, h₂, rest, hasked, hspawns, hrest⟩ | ⟨failure, hasked, hspawns, rfl⟩
    · obtain ⟨hcalm, outcome, hpolls, hresult⟩ := ih (hknown.addUnseen tracks) hrest
      rw [hasked]
      exact ⟨hspawns [] hcalm, outcome, .gives id hpolls, hresult⟩
    · rw [hasked]
      exact ⟨hspawns, .error failure, .fails id id, .error failure⟩

theorem unfolds_artistTracks (hS : S.KeepsConfig) {artist : MediaItem}
    {result : Except Failure (List MediaItem)}
    (hunfolds : (artistTracks pace artist).Unfolds S h history result h₁) :
    Spawns history [] ∧ ExpandsArtist h.config.artistSelect artist (asked history) result := by
  obtain ⟨o, h₂, -, hothers, hasks⟩ := Unfolds.of_look hunfolds
  rw [hS h h₂ hothers] at hasks
  cases hselect : h.config.artistSelect.byAlbum with
  | true =>
    simp only [hselect, if_true] at hasks
    rcases Unfolds.of_turn_call hasks with
      ⟨albums, h₃, rest, hasked, hspawns, hrest⟩ | ⟨failure, hasked, hspawns, rfl⟩
    · rw [hasked]
      rcases hrest.of_bind with
        ⟨kept, h₄, first, last, halbums, hshuffles, rfl⟩ | ⟨failure, halbums, rfl⟩
      · obtain ⟨hcalm, outcome, hpolls, hfollows⟩ := unfolds_albumsTracks .nil halbums
        obtain ⟨played, hperm, hdrawn, rfl⟩ := hshuffles.of_last_shuffled
        refine ⟨hspawns [] (hcalm.append hdrawn.spawns), ?_⟩
        rw [asked_append, hdrawn.asked_eq, List.append_nil]
        refine .albums hselect hpolls ?_
        cases hfollows with
        | ok hkept => exact .ok ⟨kept, hkept, hperm⟩
      · obtain ⟨hcalm, outcome, hpolls, hfollows⟩ := unfolds_albumsTracks .nil halbums
        refine ⟨hspawns [] hcalm, .albums hselect hpolls ?_⟩
        cases hfollows with
        | error => exact .error failure
    · rw [hasked]
      exact ⟨hspawns, .noAlbums failure hselect⟩
  | false =>
    simp only [hselect, Bool.false_eq_true, if_false] at hasks
    rcases Unfolds.of_turn_call hasks with
      ⟨tracks, h₃, rest, hasked, hspawns, hrest⟩ | ⟨failure, hasked, hspawns, rfl⟩
    · obtain ⟨played, hperm, hdrawn, rfl⟩ := hrest.of_last_shuffled
      rw [hasked, hdrawn.asked_eq]
      exact ⟨hspawns [] hdrawn.spawns, .tracks hselect (.ok hperm)⟩
    · rw [hasked]
      exact ⟨hspawns, .tracks hselect (.error failure)⟩

theorem unfolds_episodes {podcast : ItemRef} {start : Option String}
    {result : Except Failure (List MediaItem)}
    (hunfolds : (episodes pace podcast start).Unfolds S h history result h₁) :
    Spawns history [] ∧ ∃ reply, asked history = [⟨.podcastEpisodes podcast, reply⟩] ∧
      Resumes start podcast reply result := by
  rcases Unfolds.of_turn_call hunfolds with
    ⟨episodes, h₂, rest, hasked, hspawns, hrest⟩ | ⟨failure, hasked, hspawns, rfl⟩
  · cases hindex : episodeIndex? start episodes with
    | some index =>
      simp only [hindex] at hrest
      obtain ⟨rfl, rfl, -⟩ := hrest.of_pure
      exact ⟨hspawns [] .nil, .ok episodes, hasked, resumes_of_index podcast hindex⟩
    | none =>
      simp only [hindex] at hrest
      obtain ⟨rfl, rfl, -⟩ := hrest.of_throw
      exact ⟨hspawns [] .nil, .ok episodes, hasked, resumes_of_no_index podcast hindex⟩
  · exact ⟨hspawns, .error failure, hasked, .fails failure⟩

/-- A single call whose answer is made into something else. -/
theorem Unfolds.of_answer {c : Call} {f : c.Answer → β} {result : Except Failure β}
    (hunfolds : (awaitTurn pace >>= fun _ => call c >>= fun answer => pure (f answer)).Unfolds S h
      history result h₁) :
    Spawns history [] ∧ ∃ reply, asked history = [⟨c, reply⟩] ∧
      Follows (fun answer value => value = f answer) reply result := by
  rcases hunfolds.of_turn_call with
    ⟨answer, h₂, rest, hasked, hspawns, hrest⟩ | ⟨failure, hasked, hspawns, rfl⟩
  · obtain ⟨rfl, rfl, -⟩ := hrest.of_pure
    exact ⟨hspawns [] .nil, .ok answer, hasked, .ok rfl⟩
  · exact ⟨hspawns, .error failure, hasked, .error failure⟩

theorem unfolds_bookStart {book : MediaItem} {chapters : List Chapter} {start : Option String}
    {result : Except Failure UInt64}
    (hunfolds : (bookStart pace book chapters start).Unfolds S h history result h₁) :
    Spawns history [] ∧ StartsBook chapters book start (asked history) result := by
  cases start with
  | some chapter =>
    cases hms : chapterStart? chapters chapter with
    | some ms =>
      simp only [bookStart, hms] at hunfolds
      obtain ⟨rfl, rfl, -⟩ := hunfolds.of_pure
      exact ⟨.nil, .chapter hms⟩
    | none =>
      simp only [bookStart, hms] at hunfolds
      obtain ⟨rfl, rfl, -⟩ := hunfolds.of_throw
      exact ⟨.nil, .noChapter hms⟩
  | none =>
    obtain ⟨hspawns, reply, hasked, hresult⟩ := Unfolds.of_answer hunfolds
    rw [hasked]
    exact ⟨hspawns, .left hresult⟩

/-- What is asked for an item and made of it, and what is recorded, kind by kind. -/
theorem unfolds_expand (hS : S.KeepsConfig) {m : MediaItem} {start : Option String}
    {result : Except Failure (List MediaItem)}
    (hunfolds : (expand pace m start).Unfolds S h history result h₁) :
    Expands h.config start m (asked history) result ∧ Spawns history m.recordings := by
  unfold Expands MediaItem.recordings
  unfold expand at hunfolds
  cases hkind : m.kind with
  | playlist =>
    simp only [hkind] at hunfolds ⊢
    obtain ⟨h₂, rest, -, hasked, hspawns, hexpands⟩ := hunfolds.of_recordContainer hS
    obtain ⟨hcalm, reply, hreply, hresult⟩ := hexpands.of_answer
    exact ⟨⟨reply, hasked.trans hreply, hresult.imp (playsFrom_of_eq start)⟩, hspawns hcalm⟩
  | album =>
    simp only [hkind] at hunfolds ⊢
    obtain ⟨h₂, rest, hsame, hasked, hspawns, hexpands⟩ := hunfolds.of_recordContainer hS
    obtain ⟨o, h₃, -, hothers, hasks⟩ := Unfolds.of_look hexpands
    rw [hS h₂ h₃ hothers, hsame] at hasks
    obtain ⟨hcalm, reply, hreply, hresult⟩ := hasks.of_answer
    exact ⟨⟨reply, hasked.trans hreply, hresult.imp (playsFrom_of_eq start)⟩, hspawns hcalm⟩
  | artist =>
    simp only [hkind] at hunfolds ⊢
    obtain ⟨h₂, rest, hsame, hasked, hspawns, hexpands⟩ := hunfolds.of_recordContainer hS
    obtain ⟨hcalm, hartist⟩ := unfolds_artistTracks hS hexpands
    rw [hasked, ← hsame]
    exact ⟨hartist, hspawns hcalm⟩
  | podcast =>
    simp only [hkind] at hunfolds ⊢
    obtain ⟨h₂, rest, -, hasked, hspawns, hexpands⟩ := hunfolds.of_recordContainer hS
    obtain ⟨hcalm, hresumes⟩ := unfolds_episodes hexpands
    rw [hasked]
    exact ⟨hresumes, hspawns hcalm⟩
  | podcastEpisode podcast resume =>
    cases podcast with
    | some podcast =>
      simp only [hkind] at hunfolds ⊢
      exact (unfolds_episodes hunfolds).symm
    | none =>
      simp only [hkind] at hunfolds ⊢
      obtain ⟨rfl, rfl, -⟩ := hunfolds.of_throw
      exact ⟨⟨rfl, rfl⟩, .nil⟩
  | audiobook chapters resume =>
    simp only [hkind] at hunfolds ⊢
    rcases hunfolds.of_bind with ⟨ms, h₂, first, _, hpoint, hrest, rfl⟩ | ⟨failure, hpoint, rfl⟩
    · obtain ⟨rfl, rfl, -⟩ := hrest.of_pure
      rw [List.append_nil]
      obtain ⟨hspawns, hstarts⟩ := unfolds_bookStart hpoint
      exact ⟨⟨.ok ms, hstarts, .ok rfl⟩, hspawns⟩
    · obtain ⟨hspawns, hstarts⟩ := unfolds_bookStart hpoint
      exact ⟨⟨.error failure, hstarts, .error failure⟩, hspawns⟩
  | track | radio | folder | unknown =>
    simp only [hkind] at hunfolds ⊢
    obtain ⟨rfl, rfl, -⟩ := hunfolds.of_pure
    exact ⟨⟨rfl, rfl⟩, .nil⟩

end Command

/-- What an item is expanded to, whatever the catalog answers and whatever is drawn, if nobody else
changes the configuration: a container is asked for as the configuration says and made of what the
catalog answers, and a failure of the catalog is passed on. That a playlist, an album, an artist or
a podcast is played is recorded once, also when the expansion fails, and for other items nothing
is. -/
theorem item_expands {S : Setting} (hopen : S.Open) (hconfig : S.KeepsConfig) (pace : Pace)
    (m : MediaItem) (start : Option String) (h : Hub) :
    (∃ history result h₁, (Command.expand pace m start).Unfolds S h history result h₁) ∧
      ∀ history result h₁, (Command.expand pace m start).Unfolds S h history result h₁ →
        Expands h.config start m (asked history) result ∧ Spawns history m.recordings :=
  ⟨Program.exists_unfolds hopen _ h, fun _ _ _ hunfolds => Command.unfolds_expand hconfig hunfolds⟩

namespace House

/-- Every artist has two albums that share a track. -/
def twoAlbums : Answers
  | .artistAlbums artist _ =>
    .ok (["x", "y"].map fun name => { artist with itemId := name, kind := .album })
  | .albumTracks album _ =>
    .ok ((if album.itemId = "x" then ["a", "b"] else ["b", "c"]).map track)
  | c => answers c

theorem open_alone (answers : Answers) : (alone answers).Open :=
  ⟨⟨world, rfl⟩, total_replies answers, fun _ => rfl⟩

theorem keepsConfig_alone (answers : Answers) : (alone answers).KeepsConfig := by
  rintro h _ rfl
  rfl

end House

/-- The track that two albums share comes once. -/
theorem shared_track_comes_once :
    let h := Hub.start { artistSelect := .allAlbumTracks } {} default 1
    let S := House.alone House.twoAlbums
    let artist := { House.track "z" with kind := .artist }
    let expand := Command.expand .background artist none
    (∃ history played h₁, expand.Unfolds S h history (.ok played) h₁ ∧
      (played.map (·.itemId)).Perm ["a", "b", "c"]) ∧
    (∃ history result h₁, expand.Unfolds S h history result h₁) ∧
      ∀ history result h₁, expand.Unfolds S h history result h₁ →
        Expands h.config none artist (asked history) result ∧ Spawns history artist.recordings := by
  intro h S artist expand
  refine ⟨?_, item_expands (House.open_alone _) (House.keepsConfig_alone _) _ _ _ h⟩
  obtain ⟨history, played, h₁, hunfolds, hplayed⟩ :=
    House.exists_unfolds_ok House.twoAlbums expand h
      (fun played => decide ((played.map (·.itemId)).Perm ["a", "b", "c"])) (by decide +kernel)
  exact ⟨history, played, h₁, hunfolds, of_decide_eq_true hplayed⟩

end Jukebox
