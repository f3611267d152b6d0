import DiceLedger.Formula.Read

/-!
# Reading by binding powers

The same reading as in `Formula.Read`, told by the powers of the operators in place of open
levels. A token either begins an operand or goes on from the operand before it. An expression
of some power is an operand with all that follows it, as long as the token ahead binds tighter
than that power; the right side of an operator is an expression of its power, which makes
operators of one power group to the left. A minus begins an operand only where an expression
may lead with one, at the start of the formula and behind an opening parenthesis, and binds
tighter than any operator.

The depth of the recursion is that of the formula, and nothing limits it here.
-/

namespace DiceLedger.Formula

open DiceLedger.Text

def Lexeme.operator? : Lexeme → Option Operator
  | .symbol s => s.operator?
  | _ => none

namespace Powers

/-- What has been read from the front of some tokens, and the tokens behind it. -/
structure Reading (tokens : List Token) where
  tree : Expr Throw
  rest : List Token
  shorter : rest.length ≤ tokens.length

/-- A reading of fewer tokens as a reading of more. -/
def Reading.within {tokens more : List Token} (reading : Reading tokens)
    (h : tokens.length ≤ more.length) : Reading more :=
  { reading with shorter := Nat.le_trans reading.shorter h }

def Reading.mapTree {tokens : List Token} (f : Expr Throw → Expr Throw)
    (reading : Reading tokens) : Reading tokens :=
  { reading with tree := f reading.tree }

/-- The power of a leading minus. -/
def negationPower : Nat := 100

/-- Move on over the closing parenthesis that has to come next. -/
def Reading.closed {tokens : List Token} (length : Nat) :
    Reading tokens → Except Fault (Reading tokens)
  | ⟨tree, ⟨.symbol .closing, _⟩ :: rest, h⟩ => .ok ⟨tree, rest, Nat.le_of_succ_le h⟩
  | ⟨_, rest, _⟩ =>
    let next := ahead length rest
    .error (.missingClosing next.lexeme? next.position)

mutual

/-- An expression of a power, from the tokens of a formula of a given length that are left. -/
def expression (length power : Nat) (leading : Bool) :
    (tokens : List Token) → Except Fault (Reading tokens)
  | [] => .error (.missingOperand length)
  | token :: rest => do
    let operand ← begun length leading token rest
    let whole ← extended length power operand.tree operand.rest
    return whole.within (Nat.le_succ_of_le operand.shorter)
  termination_by tokens => (tokens.length, 0)
  decreasing_by
  · exact .left _ _ (Nat.lt_succ_self _)
  · exact .left _ _ (Nat.lt_succ_of_le operand.shorter)

/-- The operand that a token begins. -/
def begun (length : Nat) (leading : Bool) (token : Token) (rest : List Token) :
    Except Fault (Reading rest) :=
  match token.lexeme with
  | .number digits => (readNumber digits).map (⟨·, rest, Nat.le_refl _⟩)
  | .dice count faces => (readThrow count faces).map (⟨·, rest, Nat.le_refl _⟩)
  | .symbol .opening => do (← expression length 0 true rest).closed length
  | .symbol .minus =>
    if leading then
      (expression length negationPower false rest).map (·.mapTree (.unary .minus))
    else .error (.misplacedMinus token.position)
  | .symbol _ => .error (.misplaced token)
  termination_by (rest.length, 1)

/-- What a token makes of the operand before it. -/
def continued (length : Nat) (left : Expr Throw) (token : Token) (rest : List Token) :
    Except Fault (Reading rest) :=
  match token.lexeme.operator? with
  | some op =>
    (expression length token.lexeme.power false rest).map (·.mapTree (.binary left op))
  | none => .error (.misplaced token)
  termination_by (rest.length, 1)

/-- An operand with all that binds it tighter than a power. The end, of power 0, binds
nothing. -/
def extended (length power : Nat) (left : Expr Throw) :
    (tokens : List Token) → Except Fault (Reading tokens)
  | [] => .ok ⟨left, [], Nat.le_refl _⟩
  | token :: rest =>
    if power < token.lexeme.power then do
      let longer ← continued length left token rest
      let whole ← extended length power longer.tree longer.rest
      return whole.within (Nat.le_succ_of_le longer.shorter)
    else .ok ⟨left, token :: rest, Nat.le_refl _⟩
  termination_by tokens => (tokens.length, 0)
  decreasing_by
  · exact .left _ _ (Nat.lt_succ_self _)
  · exact .left _ _ (Nat.lt_succ_of_le longer.shorter)

end

/-- The tree of all tokens of a formula of a given length. -/
def parse (length : Nat) (tokens : List Token) : Except Fault (Expr Throw) := do
  let whole ← expression length 0 true tokens
  match whole.rest with
  | [] => .ok whole.tree
  | token :: _ => .error (.missingOperator token)

def read (formula : String) : Except Fault (Expr Throw) := do
  if formula.toList.all isBlank then .error .blank
  else parse formula.toList.length (← scan formula)

end Powers

end DiceLedger.Formula
