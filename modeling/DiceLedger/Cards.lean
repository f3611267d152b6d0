import DiceLedger.Roll.Source
import DiceLedger.Text.Digit

/-!
# Playing cards

A deck holds four suits of thirteen cards, suit by suit, and two jokers at the end. A card is
a value and a suit, both plain integers: most pairs are no card of the deck, and their names
are found, or not found, by counting in the lists of names, from the end for negative numbers.
-/

namespace DiceLedger

open DiceLedger.Text

/-- A value, ace to king counting from 1 and 0 for a joker, and the place of a suit. -/
structure Card where
  value : Int
  suit : Int
  deriving DecidableEq, Repr

namespace Card

def valueNames : List String :=
  ["Ace", "2", "3", "4", "5", "6", "7", "8", "9", "10", "Jack", "Queen", "King"]

def valueLetters : List String :=
  ["A", "2", "3", "4", "5", "6", "7", "8", "9", "0", "J", "Q", "K"]

def suitNames : List String := ["Clubs", "Hearts", "Spades", "Diamonds"]

def suitLetters : List String := ["C", "H", "S", "D"]

/-- There is no such name in a list of names. -/
inductive Fault
  | unnamed
  deriving DecidableEq, Repr

def Fault.message : Fault → String
  | .unnamed => "list index out of range"

/-- The entry at a place, counted from the end if the place is negative. -/
def entry (names : List String) (place : Int) : Except Fault String :=
  let n := if place < 0 then place + names.length else place
  if n < 0 then .error .unnamed
  else match names[n.toNat]? with
    | some name => .ok name
    | none => .error .unnamed

def joker : Card := ⟨0, 0⟩

def isJoker (c : Card) : Bool := c.value == 0

def isValid (c : Card) : Bool :=
  c.isJoker || (1 ≤ c.value && c.value ≤ 13 && 0 ≤ c.suit && c.suit < 4)

def valueName (c : Card) : Except Fault String := entry valueNames (c.value - 1)

def suitName (c : Card) : Except Fault String := entry suitNames c.suit

/-- The code of two letters under which the picture of a card is kept. -/
def code (c : Card) : Except Fault String := do
  if c.isJoker then return "XX"
  return (← entry valueLetters (c.value - 1)) ++ (← entry suitLetters c.suit)

def picture (c : Card) : Except Fault String := do
  return "https://www.deckofcardsapi.com/static/img/" ++ (← c.code) ++ ".png"

def name (c : Card) : Except Fault String := do
  if c.isJoker then return "Joker"
  return (← c.valueName) ++ " of " ++ (← c.suitName)

end Card

def deckSize : Nat := 54

/-- Why no card is drawn: there is none at that place, or nothing is left to draw with. -/
inductive DrawFault
  | noCard (position : Int)
  | unnamed (fault : Card.Fault)
  | exhausted
  deriving DecidableEq, Repr

def DrawFault.message : DrawFault → String
  | .noCard position =>
    "No card at position " ++ String.ofList (signedDecimal position) ++ " in a "
      ++ String.ofList (decimal deckSize) ++ "-card deck."
  | .unnamed fault => fault.message
  | .exhausted => "no scripted value left"

def cardAt (position : Int) : Except DrawFault Card :=
  if position < 1 || deckSize < position then .error (.noCard position)
  else if 52 < position then .ok Card.joker
  else .ok ⟨(position - 1) % 13 + 1, (position - 1) / 13⟩

/-- A deck in order. -/
def deck : List Card :=
  (List.range deckSize).filterMap fun n => (cardAt (n + 1 : Nat)).toOption

def drawCard {ρ : Type} (g : Generator ρ) (source : ρ) : Except DrawFault Card × ρ :=
  match g.draw 1 deckSize source with
  | (some position, source) => (cardAt position, source)
  | (none, source) => (.error .exhausted, source)

end DiceLedger
