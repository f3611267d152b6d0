import DiceLedger.Formula.Read

/-!
# The grammar of formulas

Which lexemes make a formula, and which tree they stand for, said by rules and not by a
reader. `Formed` has a rule for each way of building a formula and knows nothing of ranks:
an optional minus, an operand, and operators each followed by an operand. `Denotes` has the
same formulas sorted by rank, and so says how they are grouped: `formed_of_denotes` forgets
the grouping. How large a number may be is no matter of the rules but of `Lexeme.InRange`.
-/

namespace DiceLedger.Formula

open DiceLedger.Text

def bracketed (ls : List Lexeme) : List Lexeme :=
  .symbol .opening :: (ls ++ [.symbol .closing])

def Lexeme.InRange : Lexeme → Prop
  | .number digits => value digits ≤ largestNumber
  | .dice count faces => value count ≤ largestThrow ∧ value faces ≤ largestThrow
  | .symbol _ => True

/-- What lexemes can be: an operand, or a whole formula. -/
inductive Shape
  | operand
  | formula
  deriving DecidableEq, Repr

/-- Lexemes that are an operand or a formula. -/
inductive Formed : Shape → List Lexeme → Prop
  | number {digits : List Char} : Formed .operand [.number digits]
  | dice {count faces : List Char} : Formed .operand [.dice count faces]
  | group {ls : List Lexeme} (h : Formed .formula ls) : Formed .operand (bracketed ls)
  | bare {ls : List Lexeme} (h : Formed .operand ls) : Formed .formula ls
  | negated {ls : List Lexeme} (h : Formed .operand ls) :
      Formed .formula (.symbol .minus :: ls)
  | extended {ls rs : List Lexeme} {s : Symbol} {op : Operator} (hs : s.operator? = some op)
      (hl : Formed .formula ls) (hr : Formed .operand rs) :
      Formed .formula (ls ++ .symbol s :: rs)

/-- How loosely lexemes hold together: an operand, a product of operands, which may begin with
a minus if it comes `first`, or a sum of products. -/
inductive Rank
  | operand
  | product (first : Bool)
  | sum
  deriving DecidableEq, Repr

/-- Lexemes of a rank, and the tree they stand for. -/
inductive Denotes : Rank → List Lexeme → Expr Throw → Prop
  | number {digits : List Char} :
      Denotes .operand [.number digits] (.number (value digits))
  | dice {count faces : List Char} :
      Denotes .operand [.dice count faces] (.dice ⟨value count, value faces⟩)
  | group {ls : List Lexeme} {e : Expr Throw} (h : Denotes .sum ls e) :
      Denotes .operand (bracketed ls) e
  | factor {first : Bool} {ls : List Lexeme} {e : Expr Throw} (h : Denotes .operand ls e) :
      Denotes (.product first) ls e
  | negated {ls : List Lexeme} {e : Expr Throw} (h : Denotes .operand ls e) :
      Denotes (.product true) (.symbol .minus :: ls) (.unary .minus e)
  | times {first : Bool} {ls rs : List Lexeme} {s : Symbol} {op : Operator} {l r : Expr Throw}
      (hs : s.operator? = some op) (hop : op.isProduct) (hl : Denotes (.product first) ls l)
      (hr : Denotes .operand rs r) :
      Denotes (.product first) (ls ++ .symbol s :: rs) (.binary l op r)
  | term {ls : List Lexeme} {e : Expr Throw} (h : Denotes (.product true) ls e) :
      Denotes .sum ls e
  | plus {ls rs : List Lexeme} {s : Symbol} {op : Operator} {l r : Expr Throw}
      (hs : s.operator? = some op) (hop : ¬ op.isProduct) (hl : Denotes .sum ls l)
      (hr : Denotes (.product false) rs r) :
      Denotes .sum (ls ++ .symbol s :: rs) (.binary l op r)

/-- The shape that lexemes of a rank have. -/
def Rank.shape : Rank → Shape
  | .operand => .operand
  | .product _ | .sum => .formula

/-- Lexemes that stand for a tree are formed by the rules without ranks; a product without a
minus may also continue a formula behind an operator. -/
theorem formed_and_continues {rank : Rank} {ls : List Lexeme} {e : Expr Throw}
    (h : Denotes rank ls e) :
    Formed rank.shape ls ∧
      (rank = .product false → ∀ {before : List Lexeme} {s : Symbol} {op : Operator},
        s.operator? = some op → Formed .formula before →
          Formed .formula (before ++ .symbol s :: ls)) := by
  induction h with
  | number => exact ⟨.number, nofun⟩
  | dice => exact ⟨.dice, nofun⟩
  | group _ ih => exact ⟨.group ih.1, nofun⟩
  | factor _ ih => exact ⟨.bare ih.1, fun _ _ _ _ hs hb => .extended hs hb ih.1⟩
  | negated _ ih => exact ⟨.negated ih.1, nofun⟩
  | times hs _ _ _ ihl ihr =>
    refine ⟨.extended hs ihl.1 ihr.1, fun hrank _ _ _ hs' hb => ?_⟩
    rw [← List.cons_append, ← List.append_assoc]
    exact .extended hs (ihl.2 hrank hs' hb) ihr.1
  | term _ ih => exact ⟨ih.1, nofun⟩
  | plus hs _ _ _ ihl ihr => exact ⟨ihr.2 rfl hs ihl.1, nofun⟩

/-- A formula that stands for a tree is formed by the rules without ranks. -/
theorem formed_of_denotes {ls : List Lexeme} {e : Expr Throw} (h : Denotes .sum ls e) :
    Formed .formula ls := (formed_and_continues h).1

end DiceLedger.Formula
