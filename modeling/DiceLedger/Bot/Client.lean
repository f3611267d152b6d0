import DiceLedger.Bot.Catalog
import DiceLedger.Session.Log
import DiceLedger.Text.Integer

/-!
# The life of the bot

The bot keeps its session log in a manager, which it starts once and stops when it leaves the
chat; a stopped manager is not started again. While the manager is set up the log is flushed
at intervals. Stopping flushes it a last time. `start` is the whole of it: set up, log in,
stay connected, stop. An error on the way ends it there, before the stop.
-/

namespace DiceLedger.Bot

open DiceLedger.Text DiceLedger.Time DiceLedger.Session

inductive Manager
  | started
  | stopped
  deriving DecidableEq, Repr

/-- What the chat sees of the bot. -/
inductive Contact
  | login (token : String)
  | connect (reconnect : Bool)
  | sync (server : Option Int)
  deriving DecidableEq, Repr

/-- A bot: what it is set up with, its manager and log, whether the log is flushed at
intervals, its commands, and its contacts with the chat so far. -/
structure Client where
  summons : String
  dataDirectory : Option String
  manager : Option Manager := none
  managed : List String := []
  log : Option Log := none
  flushing : Bool := false
  commands : List CommandInfo := [helpInfo]
  contacts : List Contact := []
  deriving DecidableEq, Repr

inductive ClientFault
  | noManager
  | noLog
  | log (fault : Session.Fault)
  | registered (command : String)
  | server (fault : Integer.Fault)
  | network (message : String)
  deriving DecidableEq, Repr

def ClientFault.message : ClientFault → String
  | .noManager => "Missing sync manager for SpyClient bot."
  | .noLog => "Roll session log has not been set up."
  | .log fault => fault.message
  | .registered command =>
    "The command " ++ command ++ " is already an existing command or alias."
  | .server fault => fault.message
  | .network message => message

/-- The bot and the disk that its log writes to, with the turns to come. -/
structure House where
  client : Client
  disk : Disk
  turns : List Turn := []

abbrev Chore := EStateM ClientFault House

namespace Client

def getManager : Chore Manager := do
  match (← get).client.manager with
  | none => throw .noManager
  | some manager => return manager

def getLog : Chore Log := do
  match (← get).client.log with
  | none => throw .noLog
  | some log => return log

/-- Work of the session log. -/
def withLog {α : Type} (work : Work α) : Chore α := fun h =>
  match h.client.log with
  | none => .error .noLog h
  | some log =>
    match work ⟨log, h.disk, h.turns⟩ with
    | .ok a archive =>
      .ok a ⟨{ h.client with log := some archive.log }, archive.disk, archive.turns⟩
    | .error fault archive =>
      .error (.log fault) ⟨{ h.client with log := some archive.log }, archive.disk, archive.turns⟩

def change (f : Client → Client) : Chore Unit := modify fun h => { h with client := f h.client }

def contact (c : Contact) : Chore Unit :=
  change fun client => { client with contacts := client.contacts ++ [c] }

/-- Start the manager and open the session log, unless that was done before. The log is
flushed at intervals once it has a session. -/
def setUp (now : Moment) : Chore Unit := do
  if (← get).client.manager.isSome then return
  change fun client =>
    { client with
      managed := ["SessionLog"]
      manager := some .started
      log := some { directory := rollsDirectory client.dataDirectory } }
  let _ ← withLog (init now)
  change fun client => { client with flushing := true }

def flushLog : Chore Unit := do
  if (← get).client.log.isSome then
    let _ ← withLog flush

/-- Stop flushing at intervals, flush a last time and stop the manager. -/
def shutDown : Chore Unit := do
  change fun client => { client with flushing := false }
  flushLog
  change fun client => { client with manager := client.manager.map fun _ => .stopped }

def flushTask : Chore Unit := do
  let _ ← withLog flush

/-- Add commands to those of the bot. No two commands go by one name. -/
def register : List CommandInfo → Chore Unit
  | [] => return
  | c :: rest => do
    if (Bot.find? (← get).client.commands c.name).isSome then throw (.registered c.name)
    change fun client => { client with commands := client.commands ++ [c] }
    register rest

/-- Get ready for the chat: add the commands, and have them listed on one server or on all. -/
def prepare (server : Option String) : Chore Unit := do
  register catalog
  match server with
  | none => contact (.sync none)
  | some text =>
    match Integer.read text with
    | .error fault => throw (.server fault)
    | .ok n => contact (.sync (some n))

/-- How a visit to the chat goes: whether the login fails, what happens while the bot is
connected, and whether the connection ends in an error. -/
structure Visit (α : Type) where
  loginFailure : Option String := none
  stay : House → α × House
  connectFailure : Option String := none

def start {α : Type} (now : Moment) (token : String) (reconnect : Bool) (visit : Visit α) :
    Chore α := do
  setUp now
  contact (.login token)
  if let some message := visit.loginFailure then throw (.network message)
  contact (.connect reconnect)
  let outcome ← modifyGet visit.stay
  if let some message := visit.connectFailure then throw (.network message)
  shutDown
  return outcome

/-- What may stand in front of a command for the bot with this identity: its mention, in two
spellings, or the word that summons it. -/
def salutations (client : Client) (id : Int) : List String :=
  let number := String.ofList (signedDecimal id)
  ["<@" ++ number ++ "> ", "<@!" ++ number ++ "> ", client.summons]

end Client

end DiceLedger.Bot
