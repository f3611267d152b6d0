import DiceLedger.Formula.Grammar

/-!
# Writing a tree as a formula

The lexemes of a tree, with parentheses only where the tree could not be told from another
without them: around a right operand that does not bind tighter than its operator, a left
operand that binds looser, the operand of a minus unless it is a number or dice, and a minus
anywhere but at the start of a formula or right behind an opening parenthesis. `writtenWith`
puts more pairs of parentheses around the parts of a tree than that, as many as one likes, and
`echoed` leaves all parentheses out. `IsWritable` says which trees a formula can stand for.
-/

namespace DiceLedger.Formula

open DiceLedger.Text

/-- The symbol of an operator that a formula can hold. -/
def Operator.symbol? : Operator → Option Symbol
  | .add => some .plus
  | .sub => some .minus
  | .mul => some .times
  | .div => some .divide
  | .mod => some .modulo
  | .other _ => none

/-- A tree of what formulas can hold: numbers and dice that are not too large, the minus, and
the five operators. -/
def IsWritable : Expr Throw → Prop
  | .number n => 0 ≤ n ∧ n ≤ largestNumber
  | .dice t => (0 ≤ t.count ∧ t.count ≤ largestThrow) ∧ 0 ≤ t.faces ∧ t.faces ≤ largestThrow
  | .unary sign operand => sign = .minus ∧ IsWritable operand
  | .binary left op right => (Operator.symbol? op).isSome ∧ IsWritable left ∧ IsWritable right

/-- Is a tree a number or dice? -/
def isLeaf : Expr Throw → Bool
  | .number _ | .dice _ => true
  | _ => false

/-- Does a tree hold together, to the left of an operator, without parentheses? -/
def holdsLeft (op : Operator) : Expr Throw → Bool
  | .binary _ inner _ => inner.isProduct || !op.isProduct
  | _ => true

/-- Does a tree hold together, to the right of an operator, without parentheses? -/
def holdsRight (op : Operator) : Expr Throw → Bool
  | .binary _ inner _ => inner.isProduct && !op.isProduct
  | _ => true

/-- The lexemes of a tree. `leading` tells whether nothing stands before it but an opening
parenthesis. -/
def written (leading : Bool) : Expr Throw → List Lexeme
  | .number n => [.number (decimal n.toNat)]
  | .dice t => [.dice (decimal t.count.toNat) (decimal t.faces.toNat)]
  | .unary _ operand =>
    let inner := if isLeaf operand then written false operand else bracketed (written true operand)
    if leading then .symbol .minus :: inner else bracketed (.symbol .minus :: inner)
  | .binary left op right =>
    let l := if holdsLeft op left then written leading left else bracketed (written true left)
    let r := if holdsRight op right then written false right else bracketed (written true right)
    l ++ (Operator.symbol? op).toList.map .symbol ++ r

/-- Where a part of a tree stands below the next larger one. -/
inductive Side
  | operand
  | left
  | right
  deriving DecidableEq, Repr

/-- Lexemes in a number of pairs of parentheses. -/
def enclosed : Nat → List Lexeme → List Lexeme
  | 0, ls => ls
  | pairs + 1, ls => bracketed (enclosed pairs ls)

/-- The lexemes of a tree, each part of which is put into `extra` pairs of parentheses more than
it needs. A part is known by the way down to it. -/
def writtenWith (extra : List Side → Nat) (leading : Bool) : Expr Throw → List Lexeme
  | .number n => enclosed (extra []) [.number (decimal n.toNat)]
  | .dice t => enclosed (extra []) [.dice (decimal t.count.toNat) (decimal t.faces.toNat)]
  | .unary _ operand =>
    let part (leading : Bool) := writtenWith (fun way => extra (.operand :: way)) leading operand
    let inner := if isLeaf operand then part false else bracketed (part true)
    enclosed (extra []) <|
      if leading then .symbol .minus :: inner else bracketed (.symbol .minus :: inner)
  | .binary left op right =>
    let partLeft (leading : Bool) := writtenWith (fun way => extra (.left :: way)) leading left
    let partRight (leading : Bool) := writtenWith (fun way => extra (.right :: way)) leading right
    let l := if holdsLeft op left then partLeft leading else bracketed (partLeft true)
    let r := if holdsRight op right then partRight false else bracketed (partRight true)
    enclosed (extra []) (l ++ (Operator.symbol? op).toList.map .symbol ++ r)

/-- Without more pairs, the lexemes are those with parentheses only where they are needed. -/
theorem writtenWith_none (e : Expr Throw) :
    ∀ leading, writtenWith (fun _ => 0) leading e = written leading e := by
  induction e with
  | number n => exact fun leading => rfl
  | dice t => exact fun leading => rfl
  | unary sign operand ih => intro leading; simp only [writtenWith, written, enclosed, ih]
  | binary left op right ihl ihr =>
    intro leading
    simp only [writtenWith, written, enclosed, ihl, ihr]

/-- The lexemes of the text of a tree, in which no parentheses show its nesting. -/
def echoed : Expr Throw → List Lexeme
  | .number n => [.number (decimal n.toNat)]
  | .dice t => [.dice (decimal t.count.toNat) (decimal t.faces.toNat)]
  | .unary _ operand => .symbol .minus :: echoed operand
  | .binary left op right =>
    echoed left ++ (Operator.symbol? op).toList.map .symbol ++ echoed right

end DiceLedger.Formula
