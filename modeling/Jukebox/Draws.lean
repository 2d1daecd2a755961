/-!
# Random draws

A source of randomness is an endless sequence of numbers and how many of them were used. Whatever
is stated for every sequence holds for every outcome of a shuffle.
-/

namespace Jukebox

structure Draws where
  values : Nat → Nat
  used : Nat := 0

namespace Draws

/-- The next number, and the source behind it. -/
def next (d : Draws) : Nat × Draws := (d.values d.used, { d with used := d.used + 1 })

/-- The next state of the linear congruential generator modulo `2 ^ 64`. -/
def step (state : UInt64) : UInt64 := state * 6364136223846793005 + 1442695040888963407

/-- The state after a number of steps. -/
def stateAfter : Nat → UInt64 → UInt64
  | 0, state => state
  | n + 1, state => stateAfter n (step state)

/-- The numbers drawn from a seed: the high 31 bits of the states after it. -/
def ofSeed (seed : UInt64) : Draws :=
  { values := fun n => ((stateAfter (n + 1) seed) >>> 33).toNat }

instance : Inhabited Draws := ⟨ofSeed 0⟩

variable {α : Type}

/-- Two places of a list exchanged. -/
def exchange (xs : List α) (i j : Nat) : List α :=
  match xs[i]?, xs[j]? with
  | some x, some y => (xs.set i y).set j x
  | _, _ => xs

/-- The places from `i` down to the second one, each exchanged with a drawn one not behind it. -/
def shuffleFrom : Nat → Draws → List α → List α × Draws
  | 0, d, xs => (xs, d)
  | i + 1, d, xs =>
    let (n, d) := d.next
    shuffleFrom i d (exchange xs (i + 1) (n % (i + 2)))

/-- The list in a drawn order; a list of less than two draws nothing. -/
def shuffle (d : Draws) (xs : List α) : List α × Draws := shuffleFrom (xs.length - 1) d xs

theorem length_exchange (xs : List α) (i j : Nat) : (exchange xs i j).length = xs.length := by
  unfold exchange; split <;> simp

theorem length_shuffleFrom (i : Nat) (d : Draws) (xs : List α) :
    (shuffleFrom i d xs).1.length = xs.length := by
  induction i generalizing d xs with
  | zero => rfl
  | succ i ih => simp [shuffleFrom, ih, length_exchange]

theorem exchange_perm (xs : List α) (i j : Nat) : (exchange xs i j).Perm xs := by
  unfold exchange
  split
  · next x y hx hy =>
    obtain ⟨hi, rfl⟩ := List.getElem?_eq_some_iff.1 hx
    obtain ⟨hj, rfl⟩ := List.getElem?_eq_some_iff.1 hy
    exact List.set_set_perm hi hj
  · exact List.Perm.refl xs

theorem shuffleFrom_perm (i : Nat) (d : Draws) (xs : List α) :
    (shuffleFrom i d xs).1.Perm xs := by
  induction i generalizing d xs with
  | zero => exact List.Perm.refl xs
  | succ i ih => exact (ih _ _).trans (exchange_perm xs _ _)

/-- Nothing is lost and nothing is added, whatever is drawn. -/
theorem shuffle_perm (d : Draws) (xs : List α) : (d.shuffle xs).1.Perm xs :=
  shuffleFrom_perm _ _ _

theorem length_shuffle (d : Draws) (xs : List α) : (d.shuffle xs).1.length = xs.length :=
  length_shuffleFrom _ _ _

end Draws

end Jukebox
