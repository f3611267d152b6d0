import DiceLedger.Text.Blank
import DiceLedger.Text.Digit
import DiceLedger.Text.Quoted

/-!
# Reading an integer

An integer is written as padding, an optional sign, digits of any script in groups joined by
single underscores, and padding again. A run of more than `digitLimit` digits is refused
before anything behind it is looked at, leading zeros included: reading such a number would
cost too much.
-/

namespace DiceLedger.Text

def digitLimit : Nat := 4300

/-- What is said of a number written in too many digits. -/
def tooManyDigits (digits : Nat) : String :=
  "Exceeds the limit (" ++ String.ofList (decimal digitLimit) ++
    " digits) for integer string conversion: value has " ++ String.ofList (decimal digits) ++
    " digits; use sys.set_int_max_str_digits() to increase the limit"

namespace Integer

inductive Fault
  | malformed (text : String)
  | tooLong (digits : Nat)
  deriving DecidableEq, Repr

/-- A malformed text is quoted up to its first 200 characters. -/
def Fault.message : Fault → String
  | .malformed text =>
    "invalid literal for int() with base 10: " ++ String.ofList ((quoted text).toList.take 200)
  | .tooLong digits => tooManyDigits digits

/-- The characters that may stand around an integer: the ASCII space, tabs and line ends, and
the blanks outside ASCII. The separator controls of ASCII may not. -/
def isPadding (c : Char) : Bool :=
  isBlank c && !(0x1C ≤ c.toNat && c.toNat ≤ 0x1F)

/-- Every underscore stands between two digits. -/
def wellGrouped : List Char → Bool
  | [] => true
  | ['_'] => false
  | '_' :: '_' :: _ => false
  | _ :: cs => wellGrouped cs

/-- The number without its sign, and whatever follows it. -/
def magnitude (text : String) (cs : List Char) : Except Fault (Nat × List Char) :=
  let run := cs.takeWhile fun c => isDigit c || c == '_'
  let digits := run.filter (· ≠ '_')
  if run.head? = some '_' || !wellGrouped run then .error (.malformed text)
  else if digitLimit < digits.length then .error (.tooLong digits.length)
  else if digits.isEmpty then .error (.malformed text)
  else .ok (value digits, cs.drop run.length)

def read (text : String) : Except Fault Int := do
  let body := text.toList.dropWhile isPadding
  let (negative, unsigned) := match body with
    | '-' :: rest => (true, rest)
    | '+' :: rest => (false, rest)
    | rest => (false, rest)
  let (n, rest) ← magnitude text unsigned
  if rest.all isPadding then .ok (if negative then -(n : Int) else n)
  else .error (.malformed text)

end Integer

end DiceLedger.Text
