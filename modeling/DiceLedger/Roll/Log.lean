import DiceLedger.Time.Moment

/-!
# Roll logs

Every die that falls is offered to a log as one record. A log may refuse, or fail below; a
roll goes on all the same, and only the failure is remembered. Any other error of a log ends
the roll.
-/

namespace DiceLedger

open DiceLedger.Time

/-- One die: who rolled it, what came up, how many faces it has, and when it was rolled. -/
structure RollRecord where
  roller : Int
  result : Int
  sides : Int
  time : Moment
  deriving DecidableEq, Repr

/-- Why a record was not kept: the log refused it, the system below the log failed, or
something else went wrong, which is no matter of logs. -/
inductive LogFault
  | refused (message : String)
  | system (message : String)
  | invalidDice (message : String)
  | badValue (message : String)
  deriving DecidableEq, Repr

def LogFault.message : LogFault → String
  | .refused message | .system message | .invalidDice message | .badValue message => message

def LogFault.isTolerable : LogFault → Bool
  | .refused _ | .system _ => true
  | .invalidDice _ | .badValue _ => false

/-- A log with state `σ`: it keeps a record, or says why not. -/
structure RollLog (σ : Type) where
  record : RollRecord → σ → Option LogFault × σ

/-- A log in memory, for a single run. It counts the records offered to it, and loses those
that its `failures` name by their number, counted from zero. -/
structure MemoryLog where
  failures : Nat → Option LogFault := fun _ => none
  attempts : Nat := 0
  records : List RollRecord := []

namespace MemoryLog

def offer (m : MemoryLog) (r : RollRecord) : Option LogFault × MemoryLog :=
  match m.failures m.attempts with
  | some fault => (some fault, { m with attempts := m.attempts + 1 })
  | none => (none, { m with attempts := m.attempts + 1, records := m.records ++ [r] })

def log : RollLog MemoryLog := ⟨fun r m => m.offer r⟩

theorem records_offer (r : RollRecord) (m : MemoryLog) :
    (m.offer r).2.records =
      if (m.offer r).1 = none then m.records ++ [r] else m.records := by
  cases h : m.failures m.attempts <;> simp [offer, h]

end MemoryLog

end DiceLedger
