/-!
# Code blocks

A chat message shows a text verbatim between backticks: one on each side in a line, three on
each side in a block. A backtick inside the text would close the block, so every one of them
is followed by an invisible space, and a text that is empty or starts with a backtick is
preceded by one.
-/

namespace DiceLedger.Text.Fence

/-- The space of no width. -/
def invisible : Char := '\u200b'

def tick : Char := '\x60'

/-- The text with an invisible space behind each backtick. -/
def spaced (cs : List Char) : List Char :=
  cs.flatMap fun c => if c = tick then [tick, invisible] else [c]

/-- What is put between the delimiters. -/
def inner (cs : List Char) : List Char :=
  match spaced cs with
  | [] => [invisible]
  | c :: rest => if c = tick then invisible :: c :: rest else c :: rest

/-- The size of a code block: within a line, or on its own. -/
inductive Size
  | line
  | block
  deriving DecidableEq, Repr

def Size.delimiter : Size → List Char
  | .line => [tick]
  | .block => [tick, tick, tick]

def wrap (size : Size) (text : String) : String :=
  String.ofList (size.delimiter ++ inner text.toList ++ size.delimiter)

end DiceLedger.Text.Fence
