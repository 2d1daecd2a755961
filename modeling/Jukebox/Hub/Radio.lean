import Jukebox.Hub.Expansion

/-!
# Radio

Batches of tracks that go on from what a queue was asked for: a sample of base tracks, and tracks
similar to them.
-/

namespace Jukebox

namespace Radio

/-- How many base tracks are sampled for a batch. -/
def sampleSize : Nat := 5

/-- No more similar tracks are asked for once there are so many. -/
def enoughSimilar : Nat := 50

/-- A longer similar track is a mix or a whole album; the limit is in seconds. -/
def longestSimilar : Nat := 20 * 60

/-- How many similar tracks follow each further base track of a first batch. -/
def similarPerBase : Nat := 2

/-- How many similar tracks end a batch. -/
def trailing : Nat := 25

/-- Whether a track may be played as similar to the base tracks. -/
def isFitting (bases : List MediaItem) (track : MediaItem) : Bool :=
  !(bases.any fun b => b.uri = track.uri) &&
    !(track.duration.any fun d => longestSimilar < d.toNat)

/-- The pool with the fitting tracks added whose uris it does not have yet. -/
def addSimilar (bases pool tracks : List MediaItem) : List MediaItem :=
  addUnseen pool (tracks.filter (isFitting bases))

/-- Up to `count` tracks taken at random from a pool, and the rest of it. -/
def takeRandom (draws : Draws) (pool : List MediaItem) (count : Nat) :
    List MediaItem × List MediaItem × Draws :=
  let (pool, draws) := draws.shuffle pool
  (pool.take count, pool.drop count, draws)

/-- Each base track followed by similar ones, and the rest of the pool. -/
def interleave (draws : Draws) (pool : List MediaItem) :
    List MediaItem → List MediaItem × List MediaItem × Draws
  | [] => ([], pool, draws)
  | base :: more =>
    let (taken, pool, draws) := takeRandom draws pool similarPerBase
    let (tracks, pool, draws) := interleave draws pool more
    (base :: taken ++ tracks, pool, draws)

/-- The tracks of a batch in order. -/
def assemble (draws : Draws) (initial : Bool) (bases pool : List MediaItem) :
    List MediaItem × Draws :=
  let (start, pool, draws) :=
    match initial, bases with
    | true, first :: more =>
      let (tracks, pool, draws) := interleave draws pool more
      (first :: tracks, pool, draws)
    | _, _ => ([], pool, draws)
  let (rest, _, draws) := takeRandom draws pool trailing
  (start ++ rest, draws)

end Radio

namespace Command

/-- The answer of a call, `none` when the source does not offer it. -/
def ifSupported {α : Type} (c : Command α) : Command (Option α) := do
  match ← outcome c with
  | .ok a => return some a
  | .error (.unsupported _) => return none
  | .error failure => throw failure

/-- The base tracks of all sources, each uri once. -/
def baseTracks (pace : Pace) (known : List MediaItem) : List MediaItem → Command (List MediaItem)
  | [] => return known
  | source :: more => do
    awaitTurn pace
    let tracks ← ifSupported (call (.radioBase source))
    baseTracks pace (addUnseen known (tracks.getD [])) more

/-- One pass over the base tracks for similar ones, until there are enough. -/
def similarPass (pace : Pace) (allowLookup : Bool) (bases pool : List MediaItem) :
    List MediaItem → Command (List MediaItem)
  | [] => return pool
  | base :: more => do
    awaitTurn pace
    match ← ifSupported (call (.similarTracks base allowLookup)) with
    | none => similarPass pace allowLookup bases pool more
    | some tracks =>
      let pool := Radio.addSimilar bases pool tracks
      if Radio.enoughSimilar ≤ pool.length then return pool
      else similarPass pace allowLookup bases pool more

/-- The similar tracks of the base tracks; they are looked up only when none are known. -/
def similarTracks (pace : Pace) (bases : List MediaItem) : Command (List MediaItem) := do
  let pool ← similarPass pace false bases [] bases
  if pool.isEmpty then similarPass pace true bases [] bases else return pool

/-- A batch of radio tracks: none from no source; the first batch of a queue begins with the base
tracks. -/
def radioBatch (pace : Pace) (sources : List MediaItem) (initial : Bool) :
    Command (List MediaItem) := do
  if sources.isEmpty then return []
  let known ← baseTracks pace [] (← shuffled sources)
  if known.isEmpty then throw .noRadio
  let bases := (← shuffled known).take Radio.sampleSize
  let pool ← similarTracks pace bases
  step fun _ h =>
    let (tracks, draws) := Radio.assemble h.draws initial bases pool
    (.ok tracks, { h with draws })

end Command

end Jukebox
