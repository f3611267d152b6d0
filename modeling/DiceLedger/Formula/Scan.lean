import DiceLedger.Formula.Fault
import DiceLedger.Text.Blank

/-!
# From text to tokens

The text is read from left to right; at each place blanks are passed over and otherwise the
longest token is taken. The first character where no token starts is refused, whatever
follows it. Behind the last token stands the end, at the length of the formula.
-/

namespace DiceLedger.Formula

open DiceLedger.Text

/-- The tokens of the rest of a formula from `position` on, of which `skip` characters belong
to the token before. -/
def scanFrom (formula : String) : (position skip : Nat) → List Char → Except Fault (List Token)
  | _, _, [] => .ok []
  | position, skip + 1, _ :: cs => scanFrom formula (position + 1) skip cs
  | position, 0, c :: cs =>
    if isBlank c then scanFrom formula (position + 1) 0 cs
    else match Lexeme.first? (c :: cs) with
      | none => .error (.unknownCharacter c formula position)
      | some lexeme =>
        (scanFrom formula (position + 1) (lexeme.text.length - 1) cs).map
          (⟨lexeme, position⟩ :: ·)

def scan (formula : String) : Except Fault (List Token) := scanFrom formula 0 0 formula.toList

/-- What stands at a place of a scanned formula. -/
inductive Sight
  | token (t : Token)
  | ending (position : Nat)
  deriving DecidableEq, Repr

def Sight.lexeme? : Sight → Option Lexeme
  | .token t => some t.lexeme
  | .ending _ => none

def Sight.text (sight : Sight) : List Char := (sight.lexeme?.map Lexeme.text).getD []

def Sight.position : Sight → Nat
  | .token t => t.position
  | .ending position => position

/-- The end binds nothing. -/
def Sight.power (sight : Sight) : Nat := (sight.lexeme?.map Lexeme.power).getD 0

def Sight.shown (sight : Sight) : String := (sight.lexeme?.map Lexeme.shown).getD endShown

/-- The tokens of a formula of a given length, and its end. -/
def withEnd (length : Nat) (tokens : List Token) : List Sight :=
  tokens.map .token ++ [.ending length]

def sights (formula : String) : Except Fault (List Sight) :=
  (scan formula).map (withEnd formula.toList.length)

/-- What comes next, given the tokens that are left. -/
def ahead (length : Nat) : List Token → Sight
  | [] => .ending length
  | token :: _ => .token token

/-- Whoever moves on along the sights stays at the end once it is reached. -/
theorem getElem?_withEnd (length : Nat) (tokens : List Token) (moves : Nat) :
    (withEnd length tokens)[min moves tokens.length]? =
      some (ahead length (tokens.drop moves)) := by
  rcases Nat.lt_or_ge moves tokens.length with h | h
  · rw [withEnd, Nat.min_eq_left (Nat.le_of_lt h), List.getElem?_append_left (by simpa using h),
      List.getElem?_map, List.getElem?_eq_getElem h, List.drop_eq_getElem_cons h]
    rfl
  · rw [withEnd, Nat.min_eq_right h, List.drop_eq_nil_of_le h,
      List.getElem?_append_right (by simp)]
    simp [ahead]

theorem scanFrom_skip (formula : String) (position skip : Nat) (cs : List Char)
    (h : skip ≤ cs.length) :
    scanFrom formula position skip cs = scanFrom formula (position + skip) 0 (cs.drop skip) := by
  induction cs generalizing position skip with
  | nil =>
    obtain rfl : skip = 0 := by simpa using h
    simp
  | cons c cs ih =>
    cases skip with
    | zero => rfl
    | succ skip =>
      rw [scanFrom, ih _ _ (by simpa using h), List.drop_succ_cons]
      congr 1
      omega

end DiceLedger.Formula
