import DiceLedger.Formula.Scan
import DiceLedger.Formula.Expr

/-!
# From tokens to a tree

A formula is an optional minus, an operand, and any number of operators each followed by an
operand; an operand is a number, dice, or a formula in parentheses. Products bind tighter than
sums, operators of one rank group to the left, and the minus belongs to the first operand alone.

The tokens are read once, from left to right. What is still open around the current place is
kept as one `Level` for each open parenthesis: the sum and the product that wait for their
right side, and whether a minus waits for the first operand. A token that no level can take
is refused where it stands. `Formula.Powers` reads the same tokens by the binding powers of
the operators.

Formulas may be nested to any depth: the limit that the interpreter sets to the depth of
recursion is outside the model.
-/

namespace DiceLedger.Formula

open DiceLedger.Text

structure Level where
  sum : Option (Expr Throw × Operator) := none
  product : Option (Expr Throw × Operator) := none
  negated : Bool := false
  deriving DecidableEq, Repr

/-- Give the right side to a left side that waits for it. -/
def join : Option (Expr Throw × Operator) → Expr Throw → Expr Throw
  | none, e => e
  | some (left, op), e => .binary left op e

/-- The operand with the minus that waits for it. -/
def Level.signed (level : Level) (e : Expr Throw) : Expr Throw :=
  if level.negated then .unary .minus e else e

/-- The whole of a level, of which `e` is the last operand. -/
def Level.close (level : Level) (e : Expr Throw) : Expr Throw :=
  join level.sum (join level.product e)

/-- The level after an operator: a product waits for one operand, a sum for a whole product. -/
def Level.extend (level : Level) (e : Expr Throw) (op : Operator) : Level :=
  if op.isProduct then
    { sum := level.sum, product := some (join level.product e, op), negated := false }
  else { sum := some (level.close e, op), product := none, negated := false }

/-- Between two tokens: either an operand is awaited, `first` telling whether nothing stands
before it on its level, or one has just ended. The levels around the innermost one are listed
from the inside out. -/
inductive State
  | awaiting (first : Bool) (level : Level) (outer : List Level)
  | ended (level : Level) (operand : Expr Throw) (outer : List Level)
  deriving DecidableEq, Repr

/-- The number that a run of digits writes, if it is not too long to be read. -/
def readDigits (digits : List Char) : Except Fault Nat :=
  if digitLimit < digits.length then .error (.tooManyDigits digits.length)
  else .ok (value digits)

def readNumber (digits : List Char) : Except Fault (Expr Throw) := do
  let n ← readDigits digits
  if largestNumber < n then .error (.numberTooLarge digits) else .ok (.number n)

def readThrow (count faces : List Char) : Except Fault (Expr Throw) := do
  let n ← readDigits count
  let m ← readDigits faces
  if largestThrow < n then .error (.tooManyDice (.dice count faces))
  else if largestThrow < m then .error (.tooManyFaces (.dice count faces))
  else .ok (.dice ⟨n, m⟩)

/-- The operator that a symbol writes between two operands. -/
def Symbol.operator? : Symbol → Option Operator
  | .plus => some .add
  | .minus => some .sub
  | .times => some .mul
  | .divide => some .div
  | .modulo => some .mod
  | .opening | .closing => none

def beginOperand (first : Bool) (level : Level) (outer : List Level) (token : Token) :
    Except Fault State :=
  match token.lexeme with
  | .number digits => (readNumber digits).map fun e => .ended level (level.signed e) outer
  | .dice count faces => (readThrow count faces).map fun e => .ended level (level.signed e) outer
  | .symbol .opening => .ok (.awaiting true {} (level :: outer))
  | .symbol .minus =>
    if first then .ok (.awaiting false { level with negated := true } outer)
    else .error (.misplacedMinus token.position)
  | .symbol _ => .error (.misplaced token)

def endOperand (level : Level) (e : Expr Throw) (outer : List Level) (token : Token) :
    Except Fault State :=
  match token.lexeme, outer with
  | .symbol .closing, up :: outer => .ok (.ended up (up.signed (level.close e)) outer)
  | .symbol s, outer =>
    match s.operator?, outer with
    | some op, outer => .ok (.awaiting false (level.extend e op) outer)
    | none, [] => .error (.missingOperator token)
    | none, _ :: _ => .error (.missingClosing (some token.lexeme) token.position)
  | _, [] => .error (.missingOperator token)
  | _, _ :: _ => .error (.missingClosing (some token.lexeme) token.position)

def State.read : State → Token → Except Fault State
  | .awaiting first level outer, token => beginOperand first level outer token
  | .ended level e outer, token => endOperand level e outer token

def State.start : State := .awaiting true {} []

def State.finish (length : Nat) : State → Except Fault (Expr Throw)
  | .awaiting .. => .error (.missingOperand length)
  | .ended level e [] => .ok (level.close e)
  | .ended _ _ (_ :: _) => .error (.missingClosing none length)

def readTokens (length : Nat) (tokens : List Token) : Except Fault (Expr Throw) := do
  (← tokens.foldlM State.read State.start).finish length

def read (formula : String) : Except Fault (Expr Throw) := do
  if formula.toList.all isBlank then .error .blank
  else readTokens formula.toList.length (← scan formula)

end DiceLedger.Formula
