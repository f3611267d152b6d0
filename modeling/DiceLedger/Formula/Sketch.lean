import DiceLedger.Roll.Total

/-!
# Sketches

A sketch is a tree made by hand. Its leaves may hold dice that were asked for, dice that were
rolled, or nothing, side by side. A sketch can be shown unless some leaf is empty, and has a
total only if all of its dice were rolled.
-/

namespace DiceLedger

/-- What a leaf of a sketch holds. -/
inductive Part
  | asked (t : Throw)
  | rolled (values : List Int)
  | empty
  deriving DecidableEq, Repr

abbrev Sketch := Expr Part

namespace Sketch

inductive TextFault
  | noText
  deriving DecidableEq, Repr

def TextFault.message : TextFault → String
  | .noText => "Description missing for this expression."

def partText : Part → String
  | .asked t => t.text
  | .rolled values => rolledText values
  | .empty => ""

def partTotal : Part → Except TotalFault Int
  | .asked t => .error (.unrolled t)
  | .rolled values => rolledTotal values
  | .empty => .error .noValue

def text (s : Sketch) : Except TextFault String :=
  if s.leaves.contains .empty then .error .noText else .ok (s.textWith partText)

def total (s : Sketch) : Except TotalFault Int := s.totalWith partText partTotal

def parts (s : Sketch) : List Part := s.leaves.filter (· ≠ .empty)

end Sketch

end DiceLedger
