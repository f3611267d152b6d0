/-!
# Sources of chance

Dice are thrown by asking a source for a number between two bounds. `Generator` is what a
source does; `Source` is two of them, a script of prepared numbers and a congruential sequence
of 64-bit words. `Traced` keeps the requests made of a source.
-/

namespace DiceLedger

/-- A source of chance with state `ρ`: a number is drawn for a lowest and a highest value, or
the source has nothing left. -/
structure Generator (ρ : Type) where
  draw : (lowest highest : Int) → ρ → Option Int × ρ

/-- Does a source keep to the bounds it is given? -/
def Generator.Honest {ρ : Type} (g : Generator ρ) : Prop :=
  ∀ lowest highest s, lowest ≤ highest →
    ∃ n s', g.draw lowest highest s = (some n, s') ∧ lowest ≤ n ∧ n ≤ highest

/-- A script gives its numbers whatever the bounds are, and then nothing. A congruential
sequence is known by its state. -/
inductive Source
  | script (numbers : List Int)
  | congruential (state : UInt64)
  deriving DecidableEq, Repr

namespace Source

def next (state : UInt64) : UInt64 := state * 6364136223846793005 + 1442695040888963407

/-- The number that a state gives: its high 48 bits, reduced to the bounds. -/
def within (lowest highest : Int) (state : UInt64) : Int :=
  lowest + (state.toNat / 65536 : Nat) % (highest - lowest + 1)

def draw (lowest highest : Int) : Source → Option Int × Source
  | .script [] => (none, .script [])
  | .script (n :: numbers) => (some n, .script numbers)
  | .congruential state =>
    let state := next state
    (some (within lowest highest state), .congruential state)

def generator : Generator Source := ⟨draw⟩

/-- A congruential number lies within its bounds. -/
theorem within_bounds {lowest highest : Int} (h : lowest ≤ highest) (state : UInt64) :
    lowest ≤ within lowest highest state ∧ within lowest highest state ≤ highest := by
  have hpos : (0 : Int) < highest - lowest + 1 := by omega
  have := Int.emod_nonneg ((state.toNat / 65536 : Nat) : Int) (Int.ne_of_gt hpos)
  have := Int.emod_lt_of_pos ((state.toNat / 65536 : Nat) : Int) hpos
  simp only [within]
  omega

/-- The congruential sequences alone. -/
def congruence : Generator UInt64 where
  draw lowest highest state := (some (within lowest highest (next state)), next state)

theorem congruence_honest : congruence.Honest :=
  fun _ _ state h => ⟨_, _, rfl, within_bounds h (next state)⟩

end Source

/-- A source with the requests made of it, the newest first. -/
structure Traced (ρ : Type) where
  source : ρ
  requests : List (Int × Int) := []
  deriving DecidableEq, Repr

def Generator.traced {ρ : Type} (g : Generator ρ) : Generator (Traced ρ) where
  draw lowest highest t :=
    let (n, source) := g.draw lowest highest t.source
    (n, ⟨source, (lowest, highest) :: t.requests⟩)

end DiceLedger
