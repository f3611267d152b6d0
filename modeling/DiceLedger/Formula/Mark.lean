import DiceLedger.Formula.Grammar

/-!
# What a formula can still become

A mark is what a token says, whatever digits and blanks it is written with; the last mark of a
formula is its end. `Viable` marks are those that some formula which can be read begins with.
How a formula is read plays no part in this, only which formulas are.
-/

namespace DiceLedger.Formula

open DiceLedger.Text

inductive Mark
  | number (n : Nat)
  | dice (count faces : Nat)
  | symbol (s : Symbol)
  | ending
  deriving DecidableEq, Repr

def Lexeme.mark : Lexeme → Mark
  | .number digits => .number (value digits)
  | .dice count faces => .dice (value count) (value faces)
  | .symbol s => .symbol s

/-- The marks of the tokens of a formula. -/
def marks (tokens : List Token) : List Mark := tokens.map (·.lexeme.mark) ++ [.ending]

/-- A number, or dice, that would be smaller than other such. -/
def Mark.IsSmaller : Mark → Mark → Prop
  | .number n, .number bound => n < bound
  | .dice count faces, .dice mostCount mostFaces =>
    count ≤ mostCount ∧ faces ≤ mostFaces ∧ (count, faces) ≠ (mostCount, mostFaces)
  | _, _ => False

/-- The marks of a formula that can be read. -/
def Accepted (ms : List Mark) : Prop :=
  ∃ formula tokens e, scan formula = .ok tokens ∧ read formula = .ok e ∧ marks tokens = ms

/-- Marks that a formula which can be read begins with. -/
def Viable (ms : List Mark) : Prop := ∃ whole, Accepted whole ∧ ms <+: whole

theorem Viable.of_prefix {ms ns : List Mark} (hn : Viable ns) (h : ms <+: ns) : Viable ms := by
  obtain ⟨whole, hwhole, hle⟩ := hn
  exact ⟨whole, hwhole, h.trans hle⟩

/-- The place of the token at an index; the end of a formula stands behind its last character. -/
def placeOf (formula : String) (tokens : List Token) (index : Nat) : Nat :=
  (tokens[index]?.map (·.position)).getD formula.toList.length

/-- The token at an index writes too large a number, where a smaller one could stand. -/
def OnlyTooLarge (tokens : List Token) (index : Nat) (t : Token) : Prop :=
  tokens[index]? = some t ∧ ¬t.lexeme.InRange ∧
    ∃ m, m.IsSmaller t.lexeme.mark ∧ Viable ((marks tokens).take index ++ [m])

end DiceLedger.Formula
