import DiceLedger.Text.Digit

/-!
# Tokens of a formula

A formula is made of numbers, dice such as `3d6`, operators and parentheses. Blanks separate
and mean nothing. Dice are written in one piece: digits, the letter `d`, digits.
-/

namespace DiceLedger.Formula

open DiceLedger.Text

/-- The operators and parentheses. -/
inductive Symbol
  | plus
  | minus
  | times
  | divide
  | modulo
  | opening
  | closing
  deriving DecidableEq, Repr

def Symbol.char : Symbol → Char
  | .plus => '+'
  | .minus => '-'
  | .times => '*'
  | .divide => '/'
  | .modulo => '%'
  | .opening => '('
  | .closing => ')'

def Symbol.ofChar? : Char → Option Symbol
  | '+' => some .plus
  | '-' => some .minus
  | '*' => some .times
  | '/' => some .divide
  | '%' => some .modulo
  | '(' => some .opening
  | ')' => some .closing
  | _ => none

/-- How tightly an operator binds its operands; a parenthesis binds nothing. -/
def Symbol.power : Symbol → Nat
  | .plus | .minus => 10
  | .times | .divide | .modulo => 20
  | .opening | .closing => 0

inductive Lexeme
  | number (digits : List Char)
  | dice (count faces : List Char)
  | symbol (s : Symbol)
  deriving DecidableEq, Repr

def Lexeme.text : Lexeme → List Char
  | .number digits => digits
  | .dice count faces => count ++ 'd' :: faces
  | .symbol s => [s.char]

def Lexeme.power : Lexeme → Nat
  | .symbol s => s.power
  | _ => 0

def Lexeme.isDice : Lexeme → Bool
  | .dice .. => true
  | _ => false

def Lexeme.isParenthesis : Lexeme → Bool
  | .symbol .opening | .symbol .closing => true
  | _ => false

structure Token where
  lexeme : Lexeme
  position : Nat
  deriving DecidableEq, Repr

/-- A token as a message shows it. -/
def Lexeme.shown (l : Lexeme) : String := "<" ++ String.ofList l.text ++ ">"

def endShown : String := "end of input"

theorem Symbol.ofChar?_char (s : Symbol) : Symbol.ofChar? s.char = some s := by
  cases s <;> rfl

/-- The longest token at the front of a text. -/
def Lexeme.first? (cs : List Char) : Option Lexeme :=
  match cs with
  | [] => none
  | c :: _ =>
    if isDigit c then
      let digits := cs.takeWhile isDigit
      match cs.drop digits.length with
      | 'd' :: rest =>
        let faces := rest.takeWhile isDigit
        if faces.isEmpty then some (.number digits) else some (.dice digits faces)
      | _ => some (.number digits)
    else (Symbol.ofChar? c).map .symbol

end DiceLedger.Formula
