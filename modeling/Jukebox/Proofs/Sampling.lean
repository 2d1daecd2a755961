import Jukebox.Proofs.Expanding
import Mathlib.Data.List.Dedup

/-!
# Batches of radio tracks

A batch begins with a sample of the base tracks of its sources. Tracks similar to these make a pool
(`FindsSimilar`), which has each uri once and none of a base track, and the batch is drawn from it
(`Drawn`): it repeats no uri (`Drawn.nodup`). A failure of the catalog is passed on, unless it says
that something is not offered (`Generates`).
-/

namespace Jukebox

/-! ## Samples -/

/-- Whether `taken` are `count` elements of a pool, in any order, or all if it has fewer, and `left`
are the others. -/
structure Takes {α : Type} (count : Nat) (pool taken left : List α) : Prop where
  perm : (taken ++ left).Perm pool
  length_eq : taken.length = min count pool.length

/-- Whether these are base tracks in order, each followed by two tracks of a pool, or by what it has
left, and what is left then. -/
inductive Interleaves : List MediaItem → List MediaItem → List MediaItem → List MediaItem → Prop
  | nil (pool : List MediaItem) : Interleaves [] pool [] pool
  | cons {base : MediaItem} {more pool taken rest tracks left : List MediaItem}
      (htakes : Takes 2 pool taken rest) (hmore : Interleaves more rest tracks left) :
    Interleaves (base :: more) pool (base :: taken ++ tracks) left

/-- Whether a batch can be drawn from base tracks and a pool of similar ones: a later batch has
tracks of the pool only, and the first one begins with the base tracks. -/
inductive Drawn : Bool → List MediaItem → List MediaItem → List MediaItem → Prop
  | refill {bases pool taken left : List MediaItem} (htakes : Takes 25 pool taken left) :
    Drawn false bases pool taken
  | initial {first : MediaItem} {more pool tracks rest taken left : List MediaItem}
      (hmore : Interleaves more pool tracks rest) (htakes : Takes 25 rest taken left) :
    Drawn true (first :: more) pool (first :: tracks ++ taken)

theorem takes_of_perm {α : Type} {pool drawn : List α} (hperm : drawn.Perm pool) (count : Nat) :
    Takes count pool (drawn.take count) (drawn.drop count) where
  perm := by rwa [List.take_append_drop]
  length_eq := by rw [List.length_take, hperm.length_eq]

namespace Radio

theorem takes_takeRandom (draws : Draws) (pool : List MediaItem) (count : Nat) :
    Takes count pool (takeRandom draws pool count).1 (takeRandom draws pool count).2.1 :=
  takes_of_perm (draws.shuffle_perm pool) count

theorem interleaves_interleave (bases pool : List MediaItem) (draws : Draws) :
    Interleaves bases pool (interleave draws pool bases).1 (interleave draws pool bases).2.1 := by
  induction bases generalizing pool draws with
  | nil => exact .nil pool
  | cons base more ih => exact .cons (takes_takeRandom draws pool similarPerBase) (ih _ _)

theorem drawn_assemble (draws : Draws) (initial : Bool) {bases : List MediaItem}
    (hbases : bases ≠ []) (pool : List MediaItem) :
    Drawn initial bases pool (assemble draws initial bases pool).1 := by
  cases initial with
  | false => exact .refill (takes_takeRandom draws pool trailing)
  | true =>
    cases bases with
    | nil => exact absurd rfl hbases
    | cons first more =>
      exact .initial (interleaves_interleave more pool draws) (takes_takeRandom _ _ trailing)

end Radio

/-- Base tracks and the tracks that follow them are all there. -/
theorem Interleaves.perm {bases pool tracks left : List MediaItem}
    (hinterleaves : Interleaves bases pool tracks left) :
    (tracks ++ left).Perm (bases ++ pool) := by
  induction hinterleaves with
  | nil pool => exact .refl pool
  | @cons base more pool taken rest tracks left htakes _ ih =>
    refine .cons base ?_
    calc (taken ++ tracks ++ left).Perm (taken ++ (more ++ rest)) := by
          rw [List.append_assoc]
          exact ih.append_left taken
      _ = (taken ++ more) ++ rest := (List.append_assoc _ _ _).symm
      List.Perm _ ((more ++ taken) ++ rest) := List.perm_append_comm.append_right rest
      _ = more ++ (taken ++ rest) := List.append_assoc _ _ _
      List.Perm _ (more ++ pool) := htakes.perm.append_left more

/-- A batch has base tracks and tracks of the pool, each of them at most once. -/
theorem Drawn.subperm {initial : Bool} {bases pool batch : List MediaItem}
    (hdrawn : Drawn initial bases pool batch) : batch.Subperm (bases ++ pool) := by
  cases hdrawn with
  | @refill _ _ _ left htakes =>
    have hpool : batch.Subperm pool :=
      (List.sublist_append_left batch left).subperm.trans htakes.perm.subperm
    exact hpool.trans (List.sublist_append_right bases pool).subperm
  | @initial first more _ tracks rest taken left hmore htakes =>
    have hall : (tracks ++ (taken ++ left)).Perm (more ++ pool) :=
      (htakes.perm.append_left tracks).trans hmore.perm
    rw [← List.append_assoc] at hall
    refine (List.subperm_cons first).2 ?_
    exact (List.sublist_append_left (tracks ++ taken) left).subperm.trans hall.subperm

/-! ## Similar tracks -/

/-- Whether a track may be played as similar to base tracks: it is none of them, and it is not known
to be longer than twenty minutes. -/
def Fits (bases : List MediaItem) (track : MediaItem) : Prop :=
  (∀ b ∈ bases, b.uri ≠ track.uri) ∧ ∀ d ∈ track.duration, d.toNat ≤ 20 * 60

instance (bases : List MediaItem) (track : MediaItem) : Decidable (Fits bases track) :=
  inferInstanceAs (Decidable (_ ∧ _))

/-- The tracks of a list that fit base tracks. -/
def fitting (bases tracks : List MediaItem) : List MediaItem :=
  tracks.filter fun t => decide (Fits bases t)

/-- Whether there are enough similar tracks: fifty of different uris. -/
def Suffices (bases tracks : List MediaItem) : Prop :=
  50 ≤ ((fitting bases tracks).map (·.uri)).dedup.length

/-- Whether a failure says that the catalog does not offer something. -/
def Failure.IsUnsupported (failure : Failure) : Prop := ∃ what, failure = .unsupported what

theorem Radio.isFitting_eq (bases : List MediaItem) :
    Radio.isFitting bases = fun t => decide (Fits bases t) := by
  funext t
  rw [Bool.eq_iff_iff, decide_eq_true_iff, Fits, Radio.isFitting, Bool.and_eq_true_iff]
  refine and_congr (by simp) ?_
  cases t.duration with
  | none => simp
  | some d =>
    have hlong : (!decide (Radio.longestSimilar < d.toNat)) = true ↔ d.toNat ≤ 20 * 60 := by
      rw [Bool.not_eq_true', decide_eq_false_iff_not, Nat.not_lt]
      rfl
    simpa using hlong

theorem FirstOfEach.length_eq {tracks kept : List MediaItem} (hkept : FirstOfEach tracks kept) :
    kept.length = ((tracks.map (·.uri)).dedup).length := by
  have hperm : (kept.map (·.uri)).Perm (tracks.map (·.uri)).dedup := by
    refine (List.perm_ext_iff_of_nodup hkept.distinct (List.nodup_dedup _)).2 fun uri => ?_
    rw [List.mem_dedup]
    constructor
    · intro huri
      exact (hkept.sublist.map _).subset huri
    · intro huri
      obtain ⟨t, ht, rfl⟩ := List.mem_map.1 huri
      obtain ⟨k, hk, huri⟩ := hkept.complete t ht
      exact List.mem_map.2 ⟨k, hk, huri⟩
  rw [← hperm.length_eq, List.length_map]

theorem FirstOfEach.eq_nil_iff {tracks kept : List MediaItem} (hkept : FirstOfEach tracks kept) :
    kept = [] ↔ tracks = [] := by
  constructor
  · rintro rfl
    refine List.eq_nil_iff_forall_not_mem.2 fun t ht => ?_
    obtain ⟨k, hk, -⟩ := hkept.complete t ht
    cases hk
  · rintro rfl
    exact List.sublist_nil.1 hkept.sublist

/-- Whether the pool has the first track of each uri of those that fit. -/
def Pools (bases given pool : List MediaItem) : Prop := FirstOfEach (fitting bases given) pool

section Pools

variable {bases given pool : List MediaItem}

theorem Pools.suffices_iff (hpools : Pools bases given pool) :
    Suffices bases given ↔ 50 ≤ pool.length := by
  rw [Suffices, ← hpools.length_eq]

theorem Pools.fits (hpools : Pools bases given pool) {track : MediaItem} (htrack : track ∈ pool) :
    Fits bases track :=
  of_decide_eq_true (List.mem_filter.1 (hpools.sublist.subset htrack)).2

theorem Pools.addSimilar (hpools : Pools bases given pool) (tracks : List MediaItem) :
    Pools bases (given ++ tracks) (Radio.addSimilar bases pool tracks) := by
  rw [Pools, fitting, List.filter_append, Radio.addSimilar, Radio.isFitting_eq]
  exact FirstOfEach.addUnseen hpools _

/-- A batch repeats no uri if neither the base tracks nor the pool does. -/
theorem Drawn.nodup {initial : Bool} {batch : List MediaItem}
    (hdrawn : Drawn initial bases pool batch) (hbases : (bases.map (·.uri)).Nodup)
    (hpools : Pools bases given pool) : (batch.map (·.uri)).Nodup := by
  have hall : ((bases ++ pool).map (·.uri)).Nodup := by
    rw [List.map_append, List.nodup_append]
    refine ⟨hbases, hpools.distinct, fun uri huri other hother => ?_⟩
    obtain ⟨b, hb, rfl⟩ := List.mem_map.1 huri
    obtain ⟨t, ht, rfl⟩ := List.mem_map.1 hother
    exact (hpools.fits ht).1 b hb
  obtain ⟨tracks, hperm, hsublist⟩ := hdrawn.subperm
  exact (hperm.map _).nodup_iff.1 (hall.sublist (hsublist.map _))

end Pools

/-- Whether sources are asked for base tracks so, one after the other. -/
def AsksBases : List MediaItem → List Answered → Except Failure (List MediaItem) → Prop :=
  Polls (fun source reply => ⟨.radioBase source, reply⟩) Failure.IsUnsupported (fun _ => False) []

/-- Whether similar tracks are asked for so, one base track after the other, until there are
enough. -/
def AsksSimilar (bases : List MediaItem) (allowLookup : Bool) :
    List Answered → Except Failure (List MediaItem) → Prop :=
  Polls (fun base reply => ⟨.similarTracks base allowLookup, reply⟩) Failure.IsUnsupported
    (Suffices bases) [] bases

/-- Whether the tracks similar to base tracks are asked for so: they are looked up only when none
that fits is known. -/
inductive FindsSimilar (bases : List MediaItem) :
    List Answered → Except Failure (List MediaItem) → Prop
  | known {asked : List Answered} {given : List MediaItem}
      (hasks : AsksSimilar bases false asked (.ok given)) (hsome : fitting bases given ≠ []) :
    FindsSimilar bases asked (.ok given)
  | looksUp {asked more : List Answered} {given : List MediaItem}
      {outcome : Except Failure (List MediaItem)}
      (hasks : AsksSimilar bases false asked (.ok given)) (hnone : fitting bases given = [])
      (hlooks : AsksSimilar bases true more outcome) : FindsSimilar bases (asked ++ more) outcome
  | fails {asked : List Answered} {failure : Failure}
      (hasks : AsksSimilar bases false asked (.error failure)) :
    FindsSimilar bases asked (.error failure)

/-- Whether a batch can come from known base tracks so: up to five are sampled, and the batch is
drawn from these and a pool of similar tracks. -/
def Samples (initial : Bool) (known : List MediaItem) (asked : List Answered)
    (result : Except Failure (List MediaItem)) : Prop :=
  ∃ bases others outcome, Takes 5 known bases others ∧ FindsSimilar bases asked outcome ∧
    Follows (fun similar tracks => ∃ pool, Pools bases similar pool ∧
      Drawn initial bases pool tracks) outcome result

/-- Whether a batch can come from sources so: from all base tracks that these give, each uri once,
when they are asked in any order. -/
inductive Generates (initial : Bool) (sources : List MediaItem) :
    List Answered → Except Failure (List MediaItem) → Prop
  | fails {order : List MediaItem} {asked : List Answered} {failure : Failure}
      (horder : order.Perm sources) (hasks : AsksBases order asked (.error failure)) :
    Generates initial sources asked (.error failure)
  | noBase {order : List MediaItem} {asked : List Answered} (horder : order.Perm sources)
      (hasks : AsksBases order asked (.ok [])) :
    Generates initial sources asked (.error .noRadio)
  | samples {order given known : List MediaItem} {asked more : List Answered}
      {result : Except Failure (List MediaItem)} (horder : order.Perm sources)
      (hasks : AsksBases order asked (.ok given)) (hsome : given ≠ [])
      (hknown : FirstOfEach given known) (hsamples : Samples initial known more result) :
    Generates initial sources (asked ++ more) result

theorem Generates.nodup {initial : Bool} {sources tracks : List MediaItem} {asked : List Answered}
    (hgenerates : Generates initial sources asked (.ok tracks)) :
    (tracks.map (·.uri)).Nodup := by
  cases hgenerates with
  | samples _ _ _ hknown hsamples =>
    obtain ⟨bases, others, _, hbases, -, hresult⟩ := hsamples
    cases hresult with
    | ok hdrawn =>
      obtain ⟨pool, hpools, hdrawn⟩ := hdrawn
      refine hdrawn.nodup ?_ hpools
      have hall := (hbases.perm.map (·.uri)).nodup_iff.2 hknown.distinct
      exact hall.sublist ((List.sublist_append_left bases others).map _)

/-! ## Runs -/

namespace Command

variable {α β : Type} {S : Setting} {h h₁ h₂ : Hub} {history : List Happening} {pace : Pace}

/-- A call that waits for its turn, and that the catalog may not offer. -/
theorem Unfolds.of_supported_call {c : Call} {f : Option c.Answer → Command β}
    {result : Except Failure β}
    (hunfolds : (awaitTurn pace >>= fun _ => ifSupported (call c) >>= f).Unfolds S h history result
      h₂) :
    (∃ answer h₁ rest, asked history = ⟨c, .ok answer⟩ :: asked rest ∧
      (f (some answer)).Unfolds S h₁ rest result h₂) ∨
    (∃ failure h₁ rest, failure.IsUnsupported ∧ asked history = ⟨c, .error failure⟩ :: asked rest ∧
      (f none).Unfolds S h₁ rest result h₂) ∨
    ∃ failure, ¬ failure.IsUnsupported ∧ asked history = [⟨c, .error failure⟩] ∧
      result = .error failure := by
  obtain ⟨h₀, waited, rest, hcalm, rfl, hcalls⟩ := hunfolds.of_awaitTurn
  unfold ifSupported at hcalls
  rw [bind_assoc] at hcalls
  obtain ⟨reply, h₁, first, later, hcall, hgoes, rfl⟩ := hcalls.of_outcome
  obtain ⟨-, rfl, rfl⟩ := hcall.of_last_call
  rw [asked_append, hcalm.asked_eq]
  cases reply with
  | ok answer => exact .inl ⟨answer, _, later, rfl, hgoes⟩
  | error failure =>
    by_cases hskips : failure.IsUnsupported
    · obtain ⟨what, rfl⟩ := hskips
      exact .inr (.inl ⟨_, _, later, ⟨what, rfl⟩, rfl, hgoes⟩)
    · refine .inr (.inr ⟨failure, hskips, ?_⟩)
      cases failure with
      | unsupported what => exact absurd ⟨what, rfl⟩ hskips
      | _ =>
        cases hgoes
        exact ⟨rfl, rfl⟩

theorem unfolds_baseTracks {met known order : List MediaItem} (hknown : FirstOfEach met known)
    {result : Except Failure (List MediaItem)}
    (hunfolds : (baseTracks pace known order).Unfolds S h history result h₁) :
    ∃ outcome, Polls (fun source reply => ⟨.radioBase source, reply⟩) Failure.IsUnsupported
        (fun _ => False) met order (asked history) outcome ∧
      Follows FirstOfEach outcome result := by
  induction order generalizing met known h history with
  | nil =>
    obtain ⟨rfl, rfl, -⟩ := hunfolds.of_pure
    exact ⟨.ok met, .ends (.inl rfl), .ok hknown⟩
  | cons source more ih =>
    rcases Unfolds.of_supported_call hunfolds with
      ⟨tracks, h₂, rest, hasked, hrest⟩ | ⟨failure, h₂, rest, hskips, hasked, hrest⟩ |
        ⟨failure, hfails, hasked, rfl⟩
    · obtain ⟨outcome, hpolls, hresult⟩ := ih (hknown.addUnseen tracks) hrest
      rw [hasked]
      exact ⟨outcome, .gives id hpolls, hresult⟩
    · obtain ⟨outcome, hpolls, hresult⟩ := ih hknown hrest
      rw [hasked]
      exact ⟨outcome, .passes id hskips hpolls, hresult⟩
    · rw [hasked]
      exact ⟨.error failure, .fails id hfails, .error failure⟩

/-- A pass goes on from a pool that has not enough yet. -/
theorem unfolds_similarPass {allowLookup : Bool} {bases given pool left : List MediaItem}
    (hpools : Pools bases given pool) (hlacks : ¬ Suffices bases given)
    {result : Except Failure (List MediaItem)}
    (hunfolds : (similarPass pace allowLookup bases pool left).Unfolds S h history result h₁) :
    ∃ outcome, Polls (fun base reply => ⟨.similarTracks base allowLookup, reply⟩)
        Failure.IsUnsupported (Suffices bases) given left (asked history) outcome ∧
      Follows (Pools bases) outcome result := by
  induction left generalizing given pool h history with
  | nil =>
    obtain ⟨rfl, rfl, -⟩ := hunfolds.of_pure
    exact ⟨.ok given, .ends (.inl rfl), .ok hpools⟩
  | cons base more ih =>
    rcases Unfolds.of_supported_call hunfolds with
      ⟨(tracks : List MediaItem), h₂, rest, hasked, hrest⟩ |
        ⟨failure, h₂, rest, hskips, hasked, hrest⟩ | ⟨failure, hfails, hasked, rfl⟩
    · have hpools := hpools.addSimilar tracks
      rw [hasked]
      dsimp only at hrest
      by_cases hcount : Radio.enoughSimilar ≤ (Radio.addSimilar bases pool tracks).length
      · rw [if_pos hcount] at hrest
        obtain ⟨rfl, rfl, -⟩ := hrest.of_pure
        exact ⟨.ok _, .gives hlacks (.ends (.inr (hpools.suffices_iff.2 hcount))), .ok hpools⟩
      · rw [if_neg hcount] at hrest
        obtain ⟨outcome, hpolls, hresult⟩ := ih hpools (mt hpools.suffices_iff.1 hcount) hrest
        exact ⟨outcome, .gives hlacks hpolls, hresult⟩
    · obtain ⟨outcome, hpolls, hresult⟩ := ih hpools hlacks hrest
      rw [hasked]
      exact ⟨outcome, .passes hlacks hskips hpolls, hresult⟩
    · rw [hasked]
      exact ⟨.error failure, .fails hlacks hfails, .error failure⟩

theorem not_suffices_nil (bases : List MediaItem) : ¬ Suffices bases [] := by
  simp [Suffices, fitting]

theorem pools_nil (bases : List MediaItem) : Pools bases [] [] := FirstOfEach.nil

/-- Similar tracks are looked up only if none that fits is known. -/
theorem unfolds_similarTracks {bases : List MediaItem} {result : Except Failure (List MediaItem)}
    (hunfolds : (similarTracks pace bases).Unfolds S h history result h₁) :
    ∃ outcome, FindsSimilar bases (asked history) outcome ∧
      Follows (Pools bases) outcome result := by
  have hpass {allowLookup h history result h₁}
      (hunfolds : (similarPass pace allowLookup bases [] bases).Unfolds S h history result h₁) :=
    unfolds_similarPass (pools_nil bases) (not_suffices_nil bases) hunfolds
  rcases hunfolds.of_bind with ⟨pool, h₂, first, rest, hknown, hgoes, rfl⟩ | ⟨failure, hknown, rfl⟩
  · obtain ⟨outcome, hasks, hresult⟩ := hpass hknown
    cases hresult with
    | @ok given _ hpools =>
      rw [asked_append]
      cases pool with
      | nil =>
        obtain ⟨outcome, hlooks, hresult⟩ := hpass hgoes
        exact ⟨outcome, .looksUp hasks (hpools.eq_nil_iff.1 rfl) hlooks, hresult⟩
      | cons track more =>
        obtain ⟨rfl, rfl, -⟩ := hgoes.of_pure
        rw [show asked [] = [] from rfl, List.append_nil]
        have hsome := mt hpools.eq_nil_iff.2 (List.cons_ne_nil track more)
        exact ⟨.ok given, .known hasks hsome, .ok hpools⟩
  · obtain ⟨outcome, hasks, hresult⟩ := hpass hknown
    cases hresult
    exact ⟨_, .fails hasks, .error failure⟩

/-- What comes behind the base tracks begins with drawing a sample of them. -/
theorem unfolds_samples {known : List MediaItem} (hknown : known ≠ []) {initial : Bool}
    {result : Except Failure (List MediaItem)}
    (hunfolds : (do
      let bases := (← shuffled known).take Radio.sampleSize
      let pool ← similarTracks pace bases
      step fun _ h =>
        let (tracks, draws) := Radio.assemble h.draws initial bases pool
        (.ok tracks, { h with draws }) : Command (List MediaItem)).Unfolds S h history result h₁) :
    Samples initial known (asked history) result := by
  obtain ⟨mixed, h₂, drawn, rest, hmixed, hcalm, rfl, hrest⟩ := Unfolds.of_shuffled hunfolds
  rw [asked_append, hcalm.asked_eq, List.nil_append]
  have htakes := takes_of_perm hmixed Radio.sampleSize
  rcases hrest.of_bind with ⟨pool, h₃, first, last, hpool, hdraws, rfl⟩ | ⟨failure, hpool, rfl⟩
  · obtain ⟨outcome, hfinds, hresult⟩ := unfolds_similarTracks hpool
    cases hresult with
    | ok hpools =>
      have hsample : mixed.take Radio.sampleSize ≠ [] := by
        cases mixed with
        | nil => exact absurd hmixed.symm.eq_nil hknown
        | cons track more => exact List.cons_ne_nil track _
      rw [← bind_pure (step _)] at hdraws
      obtain ⟨o, h₄, _, -, -, rfl, hdone⟩ := Unfolds.of_step hdraws
      obtain ⟨rfl, rfl, -⟩ := (hdone _ rfl).of_pure
      rw [asked_append, show asked [Happening.changed _ _] = [] from rfl, List.append_nil]
      exact ⟨_, _, _, htakes, hfinds, .ok ⟨pool, hpools, Radio.drawn_assemble _ _ hsample pool⟩⟩
  · obtain ⟨outcome, hfinds, hresult⟩ := unfolds_similarTracks hpool
    cases hresult
    exact ⟨_, _, _, htakes, hfinds, .error failure⟩

theorem unfolds_radioBatch {sources : List MediaItem} (hsources : sources ≠ []) {initial : Bool}
    {result : Except Failure (List MediaItem)}
    (hunfolds : (radioBatch pace sources initial).Unfolds S h history result h₁) :
    Generates initial sources (asked history) result := by
  unfold radioBatch at hunfolds
  rw [if_neg (by simpa using hsources)] at hunfolds
  obtain ⟨order, h₂, drawn, rest, horder, hcalm, rfl, hasks⟩ := Unfolds.of_shuffled hunfolds
  rw [asked_append, hcalm.asked_eq, List.nil_append]
  rcases hasks.of_bind with ⟨known, h₃, first, last, hbases, hrest, rfl⟩ | ⟨failure, hbases, rfl⟩
  · obtain ⟨outcome, hgiven, hresult⟩ := unfolds_baseTracks .nil hbases
    cases hresult with
    | ok hknown =>
      rw [asked_append]
      cases known with
      | nil =>
        cases hknown.eq_nil_iff.1 rfl
        obtain ⟨rfl, rfl, -⟩ := hrest.of_throw
        rw [show asked [] = [] from rfl, List.append_nil]
        exact .noBase horder hgiven
      | cons track more =>
        have hsome := List.cons_ne_nil track more
        exact .samples horder hgiven (mt hknown.eq_nil_iff.2 hsome) hknown
          (unfolds_samples hsome hrest)
  · obtain ⟨outcome, hgiven, hresult⟩ := unfolds_baseTracks .nil hbases
    cases hresult
    exact .fails horder hgiven

end Command

/-- How a batch of radio tracks comes about, whatever the catalog answers and whatever is drawn: the
sources are asked for base tracks, up to five of these are sampled and asked about, and the batch is
drawn from them and from the pool of similar tracks that fit them. No batch repeats a uri. What is
not offered is passed over, a batch fails if no source gives a base track, and any other failure of
the catalog is passed on. -/
theorem radio_batch_drawn {S : Setting} (hopen : S.Open) (pace : Pace) {sources : List MediaItem}
    (hsources : sources ≠ []) (initial : Bool) (h : Hub) :
    let batch := Command.radioBatch pace sources initial
    (∃ history result h₁, batch.Unfolds S h history result h₁) ∧
      ∀ history result h₁, batch.Unfolds S h history result h₁ →
        Generates initial sources (asked history) result ∧
        ∀ tracks, result = .ok tracks → (tracks.map (·.uri)).Nodup := by
  refine ⟨Program.exists_unfolds hopen _ h, fun history result h₁ hunfolds => ?_⟩
  have hgenerates := Command.unfolds_radioBatch hsources hunfolds
  refine ⟨hgenerates, ?_⟩
  rintro tracks rfl
  exact hgenerates.nodup

/-- Only one of two sources gives base tracks, and similar tracks have to be looked up. -/
def House.onAir : Answers
  | .radioBase source =>
    if source.itemId = "x" then .ok (["a", "b", "a"].map track) else .error (.unsupported "radio")
  | .similarTracks _ true => .ok (["a", "c", "d", "c"].map track)
  | .similarTracks _ false => .ok []
  | c => answers c

/-- A first batch has both base tracks and both similar ones. -/
theorem radio_begins_with_base_tracks :
    let S := House.alone House.onAir
    let h := Hub.start {} {} default 1
    let sources := ["x", "y"].map House.track
    let batch := Command.radioBatch .background sources true
    (∃ history tracks h₁, batch.Unfolds S h history (.ok tracks) h₁ ∧
      ((tracks.take 2).map (·.itemId)).Perm ["a", "b"] ∧
      ((tracks.drop 2).map (·.itemId)).Perm ["c", "d"]) ∧
    (∃ history result h₁, batch.Unfolds S h history result h₁) ∧
      ∀ history result h₁, batch.Unfolds S h history result h₁ →
        Generates true sources (asked history) result ∧
        ∀ tracks, result = .ok tracks → (tracks.map (·.uri)).Nodup := by
  intro S h sources batch
  refine ⟨?_, radio_batch_drawn (House.open_alone _) _ (List.cons_ne_nil _ _) true h⟩
  obtain ⟨history, tracks, h₁, hunfolds, htracks⟩ :=
    House.exists_unfolds_ok House.onAir batch h
      (fun tracks => decide (((tracks.take 2).map (·.itemId)).Perm ["a", "b"]) &&
        decide (((tracks.drop 2).map (·.itemId)).Perm ["c", "d"])) (by decide +kernel)
  obtain ⟨hbases, hsimilar⟩ := Bool.and_eq_true_iff.1 htracks
  exact ⟨history, tracks, h₁, hunfolds, of_decide_eq_true hbases, of_decide_eq_true hsimilar⟩

end Jukebox
