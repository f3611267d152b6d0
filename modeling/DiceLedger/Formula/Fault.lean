import DiceLedger.Formula.Token
import DiceLedger.Text.Integer

/-!
# Why a formula cannot be read

A fault of grammar names the position of the token it was found at. A fault of size lies in a
token that stands where it may but writes too large a number. A number of more than
`digitLimit` digits is a fault of its own: it is refused before its size is known.
-/

namespace DiceLedger.Formula

open DiceLedger.Text

def largestNumber : Nat := Nat.pow 2 63 - 1

def largestThrow : Nat := Nat.pow 2 32 - 1

inductive Fault
  | blank
  | unknownCharacter (c : Char) (formula : String) (position : Nat)
  | misplaced (token : Token)
  | misplacedMinus (position : Nat)
  | missingOperand (position : Nat)
  | missingClosing (found : Option Lexeme) (position : Nat)
  | missingOperator (token : Token)
  | numberTooLarge (digits : List Char)
  | tooManyDice (lexeme : Lexeme)
  | tooManyFaces (lexeme : Lexeme)
  | tooManyDigits (digits : Nat)
  deriving DecidableEq, Repr

/-- The place of a fault of grammar. -/
def Fault.position? : Fault → Option Nat
  | .blank => some 0
  | .unknownCharacter _ _ position => some position
  | .misplaced token => some token.position
  | .misplacedMinus position => some position
  | .missingOperand position => some position
  | .missingClosing _ position => some position
  | .missingOperator token => some token.position
  | .numberTooLarge _ | .tooManyDice _ | .tooManyFaces _ | .tooManyDigits _ => none

def Fault.IsGrammar (f : Fault) : Prop := f.position?.isSome

def Fault.IsSize : Fault → Prop
  | .numberTooLarge _ | .tooManyDice _ | .tooManyFaces _ => True
  | _ => False

/-- The wording of a fault, its place apart. -/
def Fault.wording : Fault → String
  | .blank => "Roll formula is empty."
  | .unknownCharacter c formula _ =>
    "Couldn't interpret <" ++ String.ofList [c] ++ "> from: " ++ formula
  | .misplaced token => "Unexpected symbol: " ++ token.lexeme.shown
  | .misplacedMinus _ => "Negation is only allowed at the start of an expression"
  | .missingOperand _ => "Expected further input. Missing operands?"
  | .missingClosing found _ =>
    "Missing expected: ), found " ++ (found.map Lexeme.shown).getD endShown
  | .missingOperator token => "Unexpected " ++ token.lexeme.shown ++ ": missing operators?"
  | .numberTooLarge digits =>
    "Integer " ++ String.ofList digits ++ " is too large (max " ++
      String.ofList (decimal largestNumber) ++ ")"
  | .tooManyDice lexeme =>
    "Too many dice in " ++ String.ofList lexeme.text ++ " (max " ++
      String.ofList (decimal largestThrow) ++ ")"
  | .tooManyFaces lexeme =>
    "Too many faces in " ++ String.ofList lexeme.text ++ " (max " ++
      String.ofList (decimal largestThrow) ++ ")"
  | .tooManyDigits digits => Text.tooManyDigits digits

/-- What is said of a fault; the place comes last, in parentheses. -/
def Fault.message (f : Fault) : String :=
  match f.position? with
  | some position =>
    f.wording ++ " (at position " ++ String.ofList (decimal position) ++ ")"
  | none => f.wording

end DiceLedger.Formula
