import DiceLedger.Text.Digit

/-!
# Expression trees

A formula stands for a tree whose leaves are numbers and dice. The tree is the same before
and after rolling but for what its dice leaves hold: a throw that is asked for, or the values
that came up. A tree is written without parentheses, so its text shows operands and operators
in order and not their nesting.
-/

namespace DiceLedger

open DiceLedger.Text

structure Throw where
  count : Int
  faces : Int
  deriving DecidableEq, Repr

def Throw.text (t : Throw) : String :=
  String.ofList (signedDecimal t.count ++ 'd' :: signedDecimal t.faces)

/-- The values of rolled dice, in the order in which they fell. -/
def rolledText (values : List Int) : String :=
  "[" ++ ", ".intercalate (values.map fun v => String.ofList (signedDecimal v)) ++ "]"

/-- What may stand in front of an operand. Formulas only write a minus; a tree made by hand
may hold any other sign, which can be shown but means nothing. -/
inductive Sign
  | minus
  | other (symbol : String)
  deriving DecidableEq, Repr

def Sign.symbol : Sign → String
  | .minus => "-"
  | .other symbol => symbol

def Sign.ofSymbol (symbol : String) : Sign :=
  if symbol = "-" then .minus else .other symbol

/-- What may stand between two operands. Formulas only write the first five; a tree made by
hand may hold any other operator, which can be shown but means nothing. -/
inductive Operator
  | add
  | sub
  | mul
  | div
  | mod
  | other (symbol : String)
  deriving DecidableEq, Repr

def Operator.symbol : Operator → String
  | .add => "+"
  | .sub => "-"
  | .mul => "*"
  | .div => "/"
  | .mod => "%"
  | .other symbol => symbol

def Operator.ofSymbol (symbol : String) : Operator :=
  if symbol = "+" then .add
  else if symbol = "-" then .sub
  else if symbol = "*" then .mul
  else if symbol = "/" then .div
  else if symbol = "%" then .mod
  else .other symbol

/-- Multiplication, division and remainder bind tighter than the others. -/
def Operator.isProduct : Operator → Bool
  | .mul | .div | .mod => true
  | _ => false

/-- A tree with something of type `α` at its dice leaves. -/
inductive Expr (α : Type)
  | number (n : Int)
  | dice (held : α)
  | unary (sign : Sign) (operand : Expr α)
  | binary (left : Expr α) (op : Operator) (right : Expr α)
  deriving DecidableEq, Repr

namespace Expr

variable {α β : Type}

/-- The text of a tree, given the text of its dice leaves. -/
def textWith (shown : α → String) : Expr α → String
  | .number n => String.ofList (signedDecimal n)
  | .dice held => shown held
  | .unary sign operand => sign.symbol ++ " " ++ operand.textWith shown
  | .binary left op right =>
    left.textWith shown ++ " " ++ op.symbol ++ " " ++ right.textWith shown

/-- What the dice leaves hold, from left to right. -/
def leaves : Expr α → List α
  | .number _ => []
  | .dice held => [held]
  | .unary _ operand => operand.leaves
  | .binary left _ right => left.leaves ++ right.leaves

/-- The tree of a formula as text. -/
def text (e : Expr Throw) : String := e.textWith Throw.text

def display (e : Expr (List Int)) : String := e.textWith rolledText

def diceCount (e : Expr Throw) : Int := e.leaves.foldl (fun dice t => dice + t.count) 0

end Expr

end DiceLedger
