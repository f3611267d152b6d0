import DiceLedger.Disk.Path

/-!
# How the bot is set up

What the surroundings may set: the word that summons the bot, and the directory for its data.
-/

namespace DiceLedger.Bot

def defaultSummons : String := "~!"

def summons (setting : Option String) : String := setting.getD defaultSummons

def rollsDirectory (setting : Option String) : String :=
  Path.join (setting.getD "data") "rolls"

/-- The seconds between two times the session log is flushed. -/
def flushInterval : String := "10.0"

def description : String := "spyware is a dice rolling bot that keeps track of every roll."

end DiceLedger.Bot
