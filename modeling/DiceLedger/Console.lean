import DiceLedger.Cards
import DiceLedger.Roll.Evaluate

/-!
# Rolling at a console

Without a chat, formulas are read line by line. Each is shown as it was understood, and then
as it was rolled with its total. Faults that are a matter of dice are printed; any other ends
the session at the console.
-/

namespace DiceLedger.Console

open DiceLedger.Text DiceLedger.Time

structure Answer where
  printed : String
  fault : Option RollFault := none
  deriving DecidableEq, Repr

def faultAnswer (printed : String) (fault : RollFault) : Answer :=
  if fault.isReported then ⟨printed ++ fault.message ++ "\n", none⟩ else ⟨printed, some fault⟩

section

variable {ρ : Type} (g : Generator ρ)

/-- Answer a line. Nothing is kept of the roll. -/
def answer (now : Moment) (line : String) (source : ρ) : Answer × ρ :=
  match Formula.read line with
  | .error fault => (faultAnswer "" (.formula fault), source)
  | .ok tree =>
    let echo := tree.text ++ "\n"
    match roll g MemoryLog.log ⟨0, now⟩ none line { source, log := {} } with
    | .ok r table =>
      (⟨echo ++ r.display ++ " ⇒ " ++ String.ofList (signedDecimal r.total) ++ "\n", none⟩,
        table.source)
    | .error fault table => (faultAnswer echo fault, table.source)

/-- What a session at the console prints, how many lines it leaves unread, and what ends it. -/
structure Transcript where
  printed : String
  unread : Nat
  fault : Option RollFault
  deriving DecidableEq, Repr

/-- Answer line after line, until the lines or the session end. -/
def run (now : Moment) (printed : String) : List String → ρ → Transcript × ρ
  | [], source => (⟨printed, 0, none⟩, source)
  | line :: rest, source =>
    match answer g now line source with
    | (⟨text, none⟩, source) => run now (printed ++ text) rest source
    | (⟨text, some fault⟩, source) => (⟨printed ++ text, rest.length, some fault⟩, source)

def cardLine (card : Card) : String :=
  (card.code.toOption.getD "") ++ " " ++ (card.name.toOption.getD "") ++ "\n"

/-- The deck card by card, and a card drawn from it. -/
def showDeck (source : ρ) : String × Option DrawFault × ρ :=
  let listing := String.join (deck.map cardLine) ++ "========\n"
  match drawCard g source with
  | (.ok card, source) => (listing ++ (card.name.toOption.getD "") ++ "\n", none, source)
  | (.error fault, source) => (listing, some fault, source)

end

end DiceLedger.Console
