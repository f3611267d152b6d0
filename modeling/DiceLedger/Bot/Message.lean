import DiceLedger.Text.Digit

/-!
# Messages

A message goes to a channel, answers a command, or follows up on an interaction that has
been acknowledged. No message is longer than `longestMessage` characters: what is too long is
cut there, and says so.
-/

namespace DiceLedger.Bot

open DiceLedger.Text

/-- The most characters of a message that are sent. -/
def longestMessage : Nat := 1900

structure Author where
  name : String
  id : Int
  deriving DecidableEq, Repr

def Author.mention (a : Author) : String := "<@" ++ String.ofList (signedDecimal a.id) ++ ">"

/-- Where a message goes. A command may have been given by an interaction, which may have been
acknowledged. -/
inductive Addressee
  | channel
  | command
  | interaction (acknowledged : Bool)
  deriving DecidableEq, Repr

inductive Route
  | send
  | reply
  | followUp
  deriving DecidableEq, Repr

structure Message where
  route : Route
  text : Option String
  deriving DecidableEq, Repr

def shortened (text : String) : String :=
  let cs := text.toList
  if longestMessage < cs.length then
    String.ofList (cs.take longestMessage) ++ " ... (message too long, truncated "
      ++ String.ofList (decimal (cs.length - longestMessage)) ++ " characters.)"
  else text

/-- Send a text. A follow-up has to have one, if only an empty one. -/
def deliver (addressee : Addressee) (text : Option String) : Message :=
  let text := text.map shortened
  match addressee with
  | .channel => ⟨.send, text⟩
  | .command | .interaction false => ⟨.reply, text⟩
  | .interaction true => ⟨.followUp, some (text.getD "")⟩

/-- Send a text as an answer to its author, who may be addressed in it. -/
def answer (addressee : Addressee) (author : Author) (mention : Bool) (text : Option String) :
    Message :=
  deliver addressee <| text.map fun text =>
    if mention && !text.isEmpty && addressee ≠ .channel then author.mention ++ " " ++ text
    else text

/-- A picture under a title that links to it, or to another place. -/
structure Embed where
  title : String
  link : String
  picture : String
  footer : Option String
  deriving DecidableEq, Repr

def Embed.ofPicture (title picture : String) (link footer : Option String) : Embed :=
  { title, picture, footer
    link := match link with
      | none | some "" => picture
      | some link => link }

end DiceLedger.Bot
