import DiceLedger.Bot.Message
import DiceLedger.Bot.RollReply
import DiceLedger.Session.Log

/-!
# Commands

A command is given by an author at a time, and answered by messages and reactions. An error
that ends a command goes to the command's own handler: a refused permission is passed over in
silence, other errors of the roll, session and card commands are answered with their text, and
the rest is left to whoever runs the bot.
-/

namespace DiceLedger.Bot

open DiceLedger.Text DiceLedger.Time DiceLedger.Session

/-- What can be asked of the bot. -/
inductive Command
  | roll (formula : String)
  | session
  | rcd (points : Int)
  | draw
  | forcesave
  | ping
  | uptime
  deriving DecidableEq, Repr

inductive Permission
  | check
  | owner
  | server
  deriving DecidableEq, Repr

/-- Why a command fails: before it runs, over its permissions or arguments, or while it runs. -/
inductive CommandFault
  | refused (permission : Permission) (message : String)
  | badArgument (message : String)
  | command (message : String)
  | badValue (message : String)
  | roll (fault : RollFault)
  | draw (fault : DrawFault)
  | session (fault : Session.Fault)
  | uptime
  deriving DecidableEq, Repr

def CommandFault.message : CommandFault → String
  | .refused _ message | .badArgument message | .command message | .badValue message => message
  | .roll fault => fault.message
  | .draw fault => fault.message
  | .session fault => fault.message
  | .uptime => "can't subtract offset-naive and offset-aware datetimes"

/-- Is the fault a missing permission, which needs no answer? -/
def CommandFault.isIgnorable : CommandFault → Bool
  | .refused .. => true
  | _ => false

/-- What a command brings about. -/
inductive Event
  | reply (text : String) (embed : Option Embed)
  | reaction (emoji : String)
  | raised (fault : CommandFault)
  deriving DecidableEq, Repr

/-- Who gives a command and when, and when the bot was started. -/
structure Occasion where
  author : Author
  now : Moment
  started : Moment
  deriving DecidableEq, Repr

/-- What commands work on: the session log and its disk, and a source of chance. -/
structure Parlour (ρ : Type) where
  archive : Archive
  source : ρ

abbrev Service (ρ : Type) := EStateM CommandFault (Parlour ρ)

def say (text : String) (embed : Option Embed := none) : Event :=
  .reply ((deliver .command (some text)).text.getD "") embed

def uptimeSeconds (started now : Moment) : Except CommandFault Int :=
  match elapsed? started now with
  | some microseconds => .ok (wholeSeconds microseconds)
  | none => .error .uptime

section

variable {ρ : Type} (g : Generator ρ)

def withDice (play : Play ρ Log Reply) : Service ρ Reply := fun p =>
  match play { source := p.source, log := p.archive.log } with
  | .ok reply table => .ok reply ⟨{ p.archive with log := table.log }, table.source⟩
  | .error fault table =>
    .error (.roll fault) ⟨{ p.archive with log := table.log }, table.source⟩

def withLog {α : Type} (work : Work α) : Service ρ α := fun p =>
  match work p.archive with
  | .ok a archive => .ok a { p with archive }
  | .error fault archive => .error (.session fault) { p with archive }

def withDeck (name : String) : Service ρ Draw := fun p =>
  match drawReply g name p.source with
  | (.ok drawn, source) => .ok drawn { p with source }
  | (.error fault, source) => .error (.draw fault) { p with source }

def cardEmbed (card : Card) : Except Card.Fault Embed := do
  return Embed.ofPicture (← card.name) (← card.picture) none none

def Command.run (o : Occasion) : Command → Service ρ (List Event)
  | .roll formula => do
    let reply ← withDice (rollReply g rollLog ⟨o.author.id, o.now.toUniversal⟩ formula)
    return say reply.text :: if reply.nice then niceReactions.map .reaction else []
  | .session => do
    let name ← withLog (newSession o.now)
    return [say ("A new session has begun! Rolls now go to " ++ Fence.wrap .line name ++ ".")]
  | .rcd points => do
    let reply ← withDice (cthulhuReply g rollLog ⟨o.author.id, o.now.toUniversal⟩ points)
    return [say reply.text]
  | .draw => do
    let drawn ← withDeck g o.author.name
    match cardEmbed drawn.card with
    | .ok embed => return [say drawn.text embed]
    | .error fault => throw (.draw (.unnamed fault))
  | .forcesave => do
    if ← withLog flush then return [say "Encountered error while saving. Check the logs."]
    else return [say "Succesfully stored rolls."]
  | .ping => return [say "Pong"]
  | .uptime => do
    match uptimeSeconds o.started o.now.toUniversal with
    | .error fault => throw fault
    | .ok seconds =>
      let number (n : Int) := String.ofList (signedDecimal n)
      return [say ("Running without interruption for " ++ number seconds ++ "s (roughly "
        ++ number (seconds / 86400) ++ " days).")]

/-- What becomes of an error: `none` if no handler of the command takes it. -/
def Command.handle (c : Command) (fault : CommandFault) : Option (List Event) :=
  match c with
  | .forcesave => none
  | .ping | .uptime => if fault.isIgnorable then some [.raised fault] else none
  | .roll _ | .session | .rcd _ | .draw =>
    some (.raised fault :: if fault.isIgnorable then [] else [say fault.message])

def Command.serve (o : Occasion) (c : Command) : Service ρ (List Event) := fun p =>
  match c.run g o p with
  | .ok events p => .ok events p
  | .error fault p =>
    match c.handle fault with
    | some events => .ok events p
    | none => .error fault p

end

end DiceLedger.Bot
