import DiceLedger.Bot.RollReply
import DiceLedger.Bot.Setup

/-!
# The catalog of commands

What the chat shows of each command: its name and other names, the group it belongs to, a
brief and a full description, and its parameters. The list of commands of an application has
no room for the full description, so the brief one is shown there.
-/

namespace DiceLedger.Bot

open DiceLedger.Text

structure CommandInfo where
  name : String
  aliases : List String := []
  group : Option String := none
  brief : String
  description : String := ""
  parameters : List (String × String) := []
  deriving DecidableEq, Repr

/-- Why a command cannot be listed: it has no listing, or no brief description. -/
inductive ListingFault
  | incomplete (command : String)
  deriving DecidableEq, Repr

def ListingFault.message : ListingFault → String
  | .incomplete command =>
    "Tried to swap missing description/brief on hybrid command " ++ command

/-- The description of a command in a listing that had one: the brief one. -/
def listed (command : String) (listing brief : Option String) : Except ListingFault String :=
  match listing, brief with
  | some _, some brief =>
    if brief.isEmpty then .error (.incomplete command) else .ok brief
  | _, _ => .error (.incomplete command)

/-- A heading and the lines under it. -/
def page (heading : String) (lines : List String) : String :=
  "\n".intercalate (("__**" ++ heading ++ "**__") :: lines)

def sample (text : String) : String := Fence.wrap .line (defaultSummons ++ text)

def code (text : String) : String := Fence.wrap .line text

def rollInfo : CommandInfo where
  name := "roll"
  aliases := ["r"]
  group := some "DiceRoller"
  brief := "Roll some dice"
  description := page "roll" [
    "Rolls some dice and does some math.",
    "See: (https://en.wikipedia.org/wiki/Dice_notation).",
    "Every die rolled is recorded in the current session.",
    "",
    "__Dice roll__ " ++ code "d",
    "    " ++ code "<N>d<S>" ++ " to roll N dice of size S, like " ++ sample "roll 5d6" ++ ".",
    "__Arithmetic__ " ++ code "+ - * / %",
    "    " ++ code "/" ++ " divides rounding toward zero. " ++ code "%" ++ " is remainder.",
    "    A leading " ++ code "-" ++ " negates, like " ++ sample "roll -1d6 * 2" ++ ".",
    "__Parentheses__ " ++ code "( )" ++ " for associativity and order of operations.",
    "    " ++ sample "roll 1d3 + (3d4 * 2d20)",
    "At most " ++ String.ofList (signedDecimal mostDice) ++ " dice can be rolled at once."]
  parameters := [("formula", "The dice roll formula to evaluate")]

def sessionInfo : CommandInfo where
  name := "session"
  group := some "DiceRoller"
  brief := "Start a new roll session"
  description := page "session" [
    "Starts a new roll session. Rolls made from now on are kept in a new session file."]

def rcdInfo : CommandInfo where
  name := "rcd"
  group := some "DiceRoller"
  brief := "Roll dice for Cthulhu Dark"
  description := page "rcd" [
    "Rolls dice for the Cthulhu Dark RPG.",
    "Every 10 points rolls a human die, and any remainder rolls an insight die.",
    sample "rcd 10" ++ ", " ++ sample "rcd 21"]
  parameters := [("points", "Points to spend on dice")]

def drawInfo : CommandInfo where
  name := "draw"
  aliases := ["card", "carte", "pioche"]
  group := some "Cards"
  brief := "Draw a playing card"
  description := page "draw" [
    "Draws a random card from a 54-card deck (52 cards and two jokers).",
    "Every draw uses a full deck, so the same card can come up twice in a row.",
    sample "draw"]

def forcesaveInfo : CommandInfo where
  name := "forcesave"
  group := some "Maintenance"
  brief := "Write pending rolls to disk"
  description := page "forcesave" [
    "Immediately write recorded rolls to the current session file.",
    "Normally, the bot does this automatically every " ++ flushInterval ++ " seconds."]

def pingInfo : CommandInfo where
  name := "ping"
  brief := "Check that the bot is alive"
  description := page "ping" ["Replies with Pong."]

def uptimeInfo : CommandInfo where
  name := "uptime"
  brief := "Show how long the bot has been running"
  description := page "uptime" [
    "Shows how long the bot has been running without interruption."]

/-- The command that every bot has. -/
def helpInfo : CommandInfo where
  name := "help"
  brief := "Shows this message"

/-- The commands of this bot, in the order in which they are added. -/
def catalog : List CommandInfo :=
  [pingInfo, uptimeInfo, rollInfo, sessionInfo, rcdInfo, drawInfo, forcesaveInfo]

/-- The command that goes by a name. Of a name with spaces in it the first word counts. -/
def find? (commands : List CommandInfo) (name : String) : Option CommandInfo :=
  let cs := name.toList
  let word := if cs.contains ' ' then (cs.dropWhile isBlank).takeWhile (!isBlank ·) else cs
  commands.find? fun c => c.name.toList = word || c.aliases.any (·.toList = word)

end DiceLedger.Bot
