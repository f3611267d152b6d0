import DiceLedger.Formula.Read
import DiceLedger.Roll.Log
import DiceLedger.Roll.Source
import DiceLedger.Roll.Total

/-!
# Rolling

The dice of a tree are rolled leaf by leaf from left to right, and the dice of one leaf one by
one. Each die is drawn from the source and then offered to the log, with one time for the
whole roll. What the log would not keep is remembered in order and changes nothing else.

A tree is looked through before the first die falls: dice without faces are refused there,
and so are more dice than allowed.
-/

namespace DiceLedger

open DiceLedger.Time

inductive DiceFault
  | noFaces (t : Throw)
  | tooMany (allowed : Int)
  deriving DecidableEq, Repr

def DiceFault.message : DiceFault → String
  | .noFaces t => "Dice " ++ t.text ++ " need at least one face."
  | .tooMany allowed =>
    "Too many dice! At most " ++ String.ofList (Text.signedDecimal allowed)
      ++ " can be rolled at once."

inductive RollFault
  | formula (fault : Formula.Fault)
  | dice (fault : DiceFault)
  | total (fault : TotalFault)
  | log (fault : LogFault)
  | exhausted
  deriving DecidableEq, Repr

def RollFault.message : RollFault → String
  | .formula fault => fault.message
  | .dice fault => fault.message
  | .total fault => fault.message
  | .log fault => fault.message
  | .exhausted => "no scripted value left"

/-- Is the fault a matter of dice, which is told to the person who rolls? -/
def RollFault.isReported : RollFault → Bool
  | .formula (.tooManyDigits _) => false
  | .formula _ => true
  | .dice _ => true
  | .total (.arithmetic _) => true
  | .total _ => false
  | .log (.refused _) | .log (.invalidDice _) => true
  | .log _ => false
  | .exhausted => false

/-- What a roll changes: the source, the log, and what is said of the records that were not
kept. -/
structure Table (ρ σ : Type) where
  source : ρ
  log : σ
  unrecorded : List String := []
  deriving Repr

/-- A step of a roll. What it has changed stays changed when it fails. -/
abbrev Play (ρ σ : Type) := EStateM RollFault (Table ρ σ)

structure Roller where
  user : Int
  time : Moment
  deriving DecidableEq, Repr

section

variable {ρ σ : Type} (g : Generator ρ) (log : RollLog σ)

def draw (lowest highest : Int) : Play ρ σ Int := fun table =>
  match g.draw lowest highest table.source with
  | (some n, source) => .ok n { table with source }
  | (none, source) => .error .exhausted { table with source }

def keep (r : RollRecord) : Play ρ σ Unit := fun table =>
  match log.record r table.log with
  | (none, after) => .ok () { table with log := after }
  | (some fault, after) =>
    if fault.isTolerable then
      .ok () { table with log := after, unrecorded := table.unrecorded ++ [fault.message] }
    else .error (.log fault) { table with log := after }

def rollDie (who : Roller) (faces : Int) : Play ρ σ Int := do
  let result ← draw g 1 faces
  keep log ⟨who.user, result, faces, who.time⟩
  return result

def rollDice (who : Roller) (faces : Int) : Nat → Play ρ σ (List Int)
  | 0 => return []
  | count + 1 => do
    let result ← rollDie g log who faces
    return result :: (← rollDice who faces count)

/-- Roll what a leaf asks for. A count below one asks for nothing. -/
def rollThrow (who : Roller) (t : Throw) : Play ρ σ (List Int) :=
  if t.faces < 1 then throw (.dice (.noFaces t)) else rollDice g log who t.faces t.count.toNat

def rollTree (who : Roller) : Expr Throw → Play ρ σ (Expr (List Int))
  | .number n => return .number n
  | .dice t => return .dice (← rollThrow g log who t)
  | .unary sign operand => return .unary sign (← rollTree who operand)
  | .binary left op right => do
    let left ← rollTree who left
    return .binary left op (← rollTree who right)

end

def faceless? (e : Expr Throw) : Option Throw := e.leaves.find? (·.faces < 1)

def validate (e : Expr Throw) : Except DiceFault Unit :=
  match faceless? e with
  | some t => .error (.noFaces t)
  | none => .ok ()

section

variable {ρ σ : Type} (g : Generator ρ) (log : RollLog σ)

def evaluate (who : Roller) (e : Expr Throw) : Play ρ σ (Expr (List Int)) := do
  match validate e with
  | .error fault => throw (.dice fault)
  | .ok () => rollTree g log who e

structure Roll where
  formula : String
  rolled : Expr (List Int)
  display : String
  total : Int
  unrecorded : List String
  deriving DecidableEq, Repr

def conclude (formula : String) (rolled : Expr (List Int)) : Play ρ σ Roll := do
  match rolled.total with
  | .error fault => throw (.total fault)
  | .ok total =>
    return { formula, rolled, total, display := rolled.display,
             unrecorded := (← get).unrecorded }

/-- Read a formula, roll it, and work out its total. The dice fall before the total is known
to exist. -/
def roll (who : Roller) (allowed : Option Int) (formula : String) : Play ρ σ Roll := do
  match Formula.read formula with
  | .error fault => throw (.formula fault)
  | .ok tree =>
    if let some most := allowed then
      if most < tree.diceCount then throw (.dice (.tooMany most))
    conclude formula (← evaluate g log who tree)

/-- A roll of Cthulhu Dark: a human die for every ten points, and an insight die for what is
left over. -/
structure CthulhuDark where
  human : List Int
  insight : Option Int
  deriving DecidableEq, Repr

def rollCthulhuDark (who : Roller) (faces points : Int) : Play ρ σ CthulhuDark := do
  if points < 1 then return ⟨[], none⟩
  let human ← rollThrow g log who ⟨points / 10, faces⟩
  if points % 10 = 0 then return ⟨human, none⟩
  let insight ← rollThrow g log who ⟨1, faces⟩
  return ⟨human, insight.head?⟩

end

end DiceLedger
