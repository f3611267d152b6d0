import DiceLedger.Console

/-!
# Command line

Without arguments, formulas are read from standard input and answered line by line. With the
argument `cards` the deck is printed, and a card drawn from it.
-/

open DiceLedger

/-- The dice are not timed at a console. -/
def consoleTime : Time.Moment := ⟨1970, 1, 1, 0, 0, 0, 0, some 0⟩

partial def answerLines (stdin stdout : IO.FS.Stream) (source : Source) : IO UInt32 := do
  let line ← stdin.getLine
  if line.isEmpty then return 0
  let text := String.ofList (line.toList.reverse.dropWhile (· == '\n')).reverse
  let (answer, source) := Console.answer Source.generator consoleTime text source
  stdout.putStr answer.printed
  stdout.flush
  match answer.fault with
  | none => answerLines stdin stdout source
  | some fault =>
    (← IO.getStderr).putStrLn fault.message
    return 1

def main (args : List String) : IO UInt32 := do
  let source := Source.congruential (← IO.rand 0 (Nat.pow 2 62)).toUInt64
  let stdout ← IO.getStdout
  if args = ["cards"] then
    stdout.putStr (Console.showDeck Source.generator source).1
    return 0
  else answerLines (← IO.getStdin) stdout source
