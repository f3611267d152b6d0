import DiceLedger.Formula.Expr

/-!
# Arithmetic of totals

Division rounds toward zero and the remainder has the sign of the dividend. Every result has
to fit into 64 bits with a sign; one that does not is refused, as is a division by zero.
-/

namespace DiceLedger.Arithmetic

open DiceLedger.Text

/-- The least and the greatest total. -/
def least : Int := -Nat.pow 2 63
def greatest : Int := Nat.pow 2 63 - 1

/-- Why there is no total. An overflow names the part of the tree whose value it is. -/
inductive Fault
  | divisionByZero (x y : Int)
  | moduloByZero (x y : Int)
  | overflow (part : String) (value : Int)
  deriving DecidableEq, Repr

def Fault.message : Fault → String
  | .divisionByZero x y =>
    String.ofList ("Division by zero: ".toList ++ signedDecimal x ++ " / ".toList
      ++ signedDecimal y)
  | .moduloByZero x y =>
    String.ofList ("Modulo by zero: ".toList ++ signedDecimal x ++ " % ".toList
      ++ signedDecimal y)
  | .overflow part value =>
    "Integer overflow in " ++ part ++ ": " ++ String.ofList (signedDecimal value)

/-- The quotient, rounded toward zero. -/
def divide (x y : Int) : Except Fault Int :=
  if y = 0 then .error (.divisionByZero x y) else .ok (Int.tdiv x y)

def modulo (x y : Int) : Except Fault Int :=
  if y = 0 then .error (.moduloByZero x y) else .ok (Int.tmod x y)

def Fits (n : Int) : Prop := least ≤ n ∧ n ≤ greatest

instance (n : Int) : Decidable (Fits n) := inferInstanceAs (Decidable (_ ∧ _))

/-- A value that fits; `part` names what it is the value of. -/
def checked (part : Unit → String) (n : Int) : Except Fault Int :=
  if Fits n then .ok n else .error (.overflow (part ()) n)

/-- What an operator does to two values, if it means anything. -/
def meaning? : Operator → Option (Int → Int → Except Fault Int)
  | .add => some fun x y => .ok (x + y)
  | .sub => some fun x y => .ok (x - y)
  | .mul => some fun x y => .ok (x * y)
  | .div => some divide
  | .mod => some modulo
  | .other _ => none

end DiceLedger.Arithmetic
