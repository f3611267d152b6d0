import DiceLedger.Cards
import DiceLedger.Roll.Evaluate
import DiceLedger.Text.Fence
import DiceLedger.Text.Markdown

/-!
# What the bot says

The texts with which the bot answers a roll, a Cthulhu Dark roll and a drawn card. A formula
and an error are shown as code, what was rolled is escaped, and dice that the session log did
not keep are counted in the answer to a roll.
-/

namespace DiceLedger.Bot

open DiceLedger.Text

/-- The most dice of one roll. -/
def mostDice : Int := 500

def cthulhuFaces : Int := 6

structure Reply where
  text : String
  nice : Bool := false
  deriving DecidableEq, Repr

def rollText (formula display : String) (total : Int) (unrecorded : Nat) : String :=
  Fence.wrap .line formula ++ " ⇒ **" ++ String.ofList (signedDecimal total) ++ "**  |  "
    ++ Markdown.escape display
    ++ (if unrecorded = 0 then ""
        else "\n(Failed to record " ++ String.ofList (decimal unrecorded)
          ++ " roll(s) in the session log.)")

/-- Is this a lone die that shows the magic number? -/
def isNice (values : List Int) : Bool := values = [69]

def niceReactions : List String := ["🇳", "🇮", "🇨", "🇪"]

def faultText (fault : RollFault) : String :=
  "Roll error.\n" ++ Fence.wrap .block fault.message

def cthulhuText (rolled : CthulhuDark) : String :=
  let human := if rolled.human.isEmpty then []
    else ["Result(s): " ++
      " / ".intercalate (rolled.human.map fun v => String.ofList (signedDecimal v))]
  let insight := match rolled.insight with
    | none => []
    | some v => ["Insight: " ++ String.ofList (signedDecimal v)]
  if (human ++ insight).isEmpty then "At least call me for something useful. :rage:"
  else "\n".intercalate (human ++ insight)

section

variable {ρ σ : Type} (g : Generator ρ) (log : RollLog σ)

/-- Roll a formula and answer. Faults that are a matter of dice are answered, too. -/
def rollReply (who : Roller) (formula : String) : Play ρ σ Reply := fun table =>
  match roll g log who (some mostDice) formula table with
  | .ok r table =>
    .ok ⟨rollText r.formula r.display r.total r.unrecorded.length,
      isNice r.rolled.leaves.flatten⟩ table
  | .error fault table =>
    if fault.isReported then .ok ⟨faultText fault, false⟩ table else .error fault table

def cthulhuReply (who : Roller) (points : Int) : Play ρ σ Reply := do
  return ⟨cthulhuText (← rollCthulhuDark g log who cthulhuFaces points), false⟩

end

structure Draw where
  text : String
  card : Card
  deriving DecidableEq, Repr

/-- Draw a card and answer; the name of whoever draws it is escaped. -/
def drawReply {ρ : Type} (g : Generator ρ) (name : String) (source : ρ) :
    Except DrawFault Draw × ρ :=
  let (drawn, source) := drawCard g source
  let reply := do
    let card ← drawn
    let shown ← card.name.mapError .unnamed
    return { text := Markdown.escape name ++ "\n> " ++ shown, card }
  (reply, source)

end DiceLedger.Bot
