import DiceLedger.Text.Digit
import DiceLedger.Text.Printable

/-!
# Quoted text

A text inside a message stands in quotes: single ones, unless it holds a single quote and no
double one. The quote and the backslash are escaped, and so is every character without a
shape of its own, by its code point in two, four or eight hexadecimal digits.
-/

namespace DiceLedger.Text

/-- A number in exactly `width` hexadecimal digits, the high ones cut off. -/
def hexadecimal : (width : Nat) → Nat → List Char
  | 0, _ => []
  | width + 1, n => hexadecimal width (n / 16) ++ [(n % 16).digitChar]

def quoteFor (cs : List Char) : Char :=
  if cs.contains '\'' && !cs.contains '"' then '"' else '\''

def escaped (quote c : Char) : List Char :=
  let n := c.toNat
  if c = quote || c = '\\' then ['\\', c]
  else if c = '\t' then ['\\', 't']
  else if c = '\n' then ['\\', 'n']
  else if c = '\r' then ['\\', 'r']
  else if isPrintable c then [c]
  else if n < 0x100 then '\\' :: 'x' :: hexadecimal 2 n
  else if n < 0x10000 then '\\' :: 'u' :: hexadecimal 4 n
  else '\\' :: 'U' :: hexadecimal 8 n

def quoted (text : String) : String :=
  let cs := text.toList
  let quote := quoteFor cs
  String.ofList (quote :: cs.flatMap (escaped quote) ++ [quote])

end DiceLedger.Text
