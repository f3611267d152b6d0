import DiceLedger.Bot.Command
import DiceLedger.Proofs.Roll.Seen

/-!
# Commands seen through their source

What a command does to the log and what it answers is the same for two sources of which one is
seen as the other.
-/
namespace DiceLedger.Bot

open DiceLedger.Session

def Parlour.see {ρ ρ' : Type} (f : ρ → ρ') (p : Parlour ρ) : Parlour ρ' := ⟨p.archive, f p.source⟩

section

variable {ρ ρ' : Type} {g : Generator ρ} {g' : Generator ρ'} {f : ρ → ρ'}

theorem seen_withDice {play : Play ρ Log Reply} {play' : Play ρ' Log Reply}
    (h : Seen (Table.see f) play play') : Seen (Parlour.see f) (withDice play) (withDice play') := by
  intro p
  have hplay : play' ⟨f p.source, p.archive.log, []⟩ = _ := h ⟨p.source, p.archive.log, []⟩
  rw [withDice, withDice, Parlour.see, hplay]
  cases play ⟨p.source, p.archive.log, []⟩ <;> rfl

theorem seen_withLog {α : Type} (work : Work α) :
    Seen (Parlour.see f) (withLog work) (withLog work) := by
  intro p
  rw [withLog, withLog, Parlour.see]
  cases work p.archive <;> rfl

theorem seen_withDeck (h : g.SeenAs f g') (name : String) :
    Seen (Parlour.see f) (withDeck g name) (withDeck g' name) := by
  intro p
  rw [withDeck, withDeck, Parlour.see, seen_drawReply h]
  rcases drawReply g name p.source with ⟨drawn | fault, source⟩ <;> rfl

theorem seen_run (h : g.SeenAs f g') (o : Occasion) (c : Command) :
    Seen (Parlour.see f) (c.run g o) (c.run g' o) := by
  cases c with
  | roll formula => exact (seen_withDice (seen_rollReply h formula)).bind fun _ _ => rfl
  | session => exact (seen_withLog _).bind fun _ _ => rfl
  | rcd points => exact (seen_withDice (seen_cthulhuReply h points)).bind fun _ _ => rfl
  | draw =>
    refine (seen_withDeck h _).bind fun drawn => ?_
    cases cardEmbed drawn.card with
    | ok embed => exact fun _ => rfl
    | error fault => exact fun _ => rfl
  | forcesave =>
    refine (seen_withLog flush).bind fun trouble => ?_
    cases trouble <;> exact fun _ => rfl
  | ping => exact fun _ => rfl
  | uptime =>
    simp only [Command.run]
    cases uptimeSeconds o.started o.now.toUniversal with
    | ok seconds => exact fun _ => rfl
    | error fault => exact fun _ => rfl

/-- **A command** is answered alike. -/
theorem seen_serve (h : g.SeenAs f g') (o : Occasion) (c : Command) :
    Seen (Parlour.see f) (c.serve g o) (c.serve g' o) := by
  intro p
  rw [Command.serve, Command.serve, seen_run h]
  cases c.run g o p with
  | ok events q => rfl
  | error fault q =>
    simp only [seen]
    cases c.handle fault <;> rfl

end

end DiceLedger.Bot
