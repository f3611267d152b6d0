import DiceLedger.Roll.Arithmetic

/-!
# Totals

The total of a tree is worked out from its leaves, left before right, and each part of the
tree that computes something has to fit on its own. Rolled dice count as their sum.
-/

namespace DiceLedger

open DiceLedger.Text

/-- Why a tree has no total. Only trees made by hand fail in the last four ways. -/
inductive TotalFault
  | arithmetic (fault : Arithmetic.Fault)
  | unknownSign (symbol : String)
  | unknownOperator (symbol : String)
  | unrolled (t : Throw)
  | noValue
  deriving DecidableEq, Repr

def TotalFault.message : TotalFault → String
  | .arithmetic fault => fault.message
  | .unknownSign symbol => "Unknown prefix operator: " ++ symbol
  | .unknownOperator symbol => "Unknown infix operator: " ++ symbol
  | .unrolled t => "Dice " ++ t.text ++ " have not been rolled yet."
  | .noValue => "Value missing for this expression."

/-- A computed value that fits. -/
def fitting (part : Unit → String) (n : Int) : Except TotalFault Int :=
  (Arithmetic.checked part n).mapError .arithmetic

def rolledTotal (values : List Int) : Except TotalFault Int :=
  fitting (fun _ => "dice " ++ rolledText values) (values.foldl (· + ·) 0)

namespace Expr

variable {α : Type}

/-- The total of a tree, given the text and the value of its dice leaves. A sign or operator
without meaning is refused before its operands are looked at. -/
def totalWith (shown : α → String) (worth : α → Except TotalFault Int) :
    Expr α → Except TotalFault Int
  | .number n => .ok n
  | .dice held => worth held
  | e@(.unary sign operand) =>
    match sign with
    | .other symbol => .error (.unknownSign symbol)
    | .minus => do
      let n ← operand.totalWith shown worth
      fitting (fun _ => "negation " ++ e.textWith shown) (-n)
  | e@(.binary left op right) =>
    match Arithmetic.meaning? op with
    | none => .error (.unknownOperator op.symbol)
    | some apply => do
      let x ← left.totalWith shown worth
      let y ← right.totalWith shown worth
      let n ← (apply x y).mapError .arithmetic
      fitting (fun _ => e.textWith shown) n

def total (e : Expr (List Int)) : Except TotalFault Int := e.totalWith rolledText rolledTotal

end Expr

end DiceLedger
