import DiceLedger.Bot.Command
import DiceLedger.Proofs.Roll.Recorded
import DiceLedger.Proofs.Session.ReadBack

/-!
# Commands as operations of the session log

Whatever a command says in answer, and whether it fails or not, the session log is left as by
some of its own operations: one record for each die thrown, or a flush, or a new session.
-/
namespace DiceLedger.Bot

open DiceLedger.Session

/-- A command, and when and by whom it is given. -/
structure Request where
  occasion : Occasion
  command : Command

def Request.roller (c : Request) : Roller := ⟨c.occasion.author.id, c.occasion.now.toUniversal⟩

section

variable {ρ : Type} (g : Generator ρ)

/-- What a command leaves behind, whether it fails or not. -/
def Request.serve (p : Parlour ρ) (c : Request) : Parlour ρ := final (c.command.serve g c.occasion p)

def serveAll (p : Parlour ρ) (requests : List Request) : Parlour ρ := requests.foldl (Request.serve g) p

/-- The dice that fall at a command. A card is drawn from the same source but is not a die. -/
def Request.thrown (p : Parlour (Watched ρ)) (c : Request) : List Die :=
  match c.command with
  | .roll _ | .rcd _ => (c.serve g.watched p).source.thrown.drop p.source.thrown.length
  | .session | .draw | .forcesave | .ping | .uptime => []

/-- All dice that fall, as they are to be recorded, each with the session that is current then. -/
def fallen : Parlour (Watched ρ) → List Request → List (Option String × RollRecord)
  | _, [] => []
  | p, c :: requests =>
    (c.thrown g p).map (fun d => (p.archive.log.current, c.roller.recordDie d))
      ++ fallen (c.serve g.watched p) requests

/-- What a command asks of the session log. -/
def Request.ops (p : Parlour (Watched ρ)) (c : Request) : List Op :=
  match c.command with
  | .roll _ | .rcd _ => (c.thrown g p).map fun d => .record (c.roller.recordDie d)
  | .session => [.newSession c.occasion.now]
  | .forcesave => [.flush]
  | .draw | .ping | .uptime => []

end

section

variable {ρ : Type} {g : Generator ρ}

theorem final_serve (c : Command) (o : Occasion) (p : Parlour ρ) :
    final (c.serve g o p) = final (c.run g o p) := by
  rw [Command.serve]
  cases c.run g o p with
  | ok events q => rfl
  | error fault q =>
    dsimp only
    cases c.handle fault <;> rfl

theorem final_withLog {α : Type} (work : Work α) (p : Parlour ρ) :
    final (withLog work p) = { p with archive := final (work p.archive) } := by
  rw [withLog]
  cases work p.archive <;> rfl

theorem final_withDeck (name : String) (p : Parlour ρ) :
    (final (withDeck g name p)).archive = p.archive := by
  rw [withDeck]
  rcases drawReply g name p.source with ⟨drawn | fault, source⟩ <;> rfl

/-- Dice that are rolled leave the log with their records. -/
theorem final_withDice {who : Roller} {play : Play (Watched ρ) Log Reply}
    (h : ∀ table, Rolls who table (final (play table))) (p : Parlour (Watched ρ)) :
    ∃ dice : List Die, (final (withDice play p)).source.thrown = p.source.thrown ++ dice ∧
      (final (withDice play p)).archive =
        { p.archive with log := p.archive.log.receive (dice.map who.recordDie) } ∧
      ∀ d ∈ dice, d.IsFair := by
  obtain ⟨dice, hthrown, hlog, hfair⟩ := h ⟨p.source, p.archive.log, []⟩
  refine ⟨dice, ?_⟩
  rw [withDice]
  cases hplay : play ⟨p.source, p.archive.log, []⟩ with
  | ok reply table =>
    rw [hplay, final] at hthrown hlog
    exact ⟨hthrown, congrArg (fun log => { p.archive with log }) hlog, hfair⟩
  | error fault table =>
    rw [hplay, final] at hthrown hlog
    exact ⟨hthrown, congrArg (fun log => { p.archive with log }) hlog, hfair⟩

/-- What a command has asked of the log when its dice have fallen. -/
theorem Request.serve_dice {who : Roller} {play : Play (Watched ρ) Log Reply}
    (h : ∀ table, Rolls who table (final (play table))) (p : Parlour (Watched ρ))
    {tell : Reply → List Event} :
    let q := final ((withDice play >>= fun reply => return tell reply : Service _ _) p)
    q.archive = run p.archive ((q.source.thrown.drop p.source.thrown.length).map
        fun d => .record (who.recordDie d)) ∧
      ∀ d ∈ q.source.thrown.drop p.source.thrown.length, d.IsFair := by
  intro q
  have hq : q = final (withDice play p) := final_bind_of_still fun _ _ => rfl
  obtain ⟨dice, hthrown, harchive, hfair⟩ := final_withDice h p
  rw [hq, hthrown, List.drop_left, harchive]
  refine ⟨?_, hfair⟩
  rw [← run_record, List.map_map]
  rfl

theorem Request.serve_eq (p : Parlour ρ) (c : Request) :
    c.serve g p = final (c.command.run g c.occasion p) := final_serve c.command c.occasion p

/-- **Every command** leaves the log as the operations that it asks for do, and throws fair dice. -/
theorem Request.serve_archive (hg : g.Honest) (p : Parlour (Watched ρ)) (c : Request) :
    (c.serve g.watched p).archive = run p.archive (c.ops g p) ∧ ∀ d ∈ c.thrown g p, d.IsFair := by
  obtain ⟨o, command⟩ := c
  cases command with
  | roll formula =>
    rw [ops, thrown, serve_eq]
    exact serve_dice (rollReply_rolls hg formula) p
  | rcd points =>
    rw [ops, thrown, serve_eq]
    exact serve_dice (cthulhuReply_rolls hg points) p
  | session =>
    have hfinal : (⟨o, .session⟩ : Request).serve g.watched p = final (withLog (newSession o.now) p) := by
      rw [serve_eq]
      exact final_bind_of_still fun _ _ => rfl
    rw [hfinal, final_withLog]
    exact ⟨rfl, nofun⟩
  | forcesave =>
    have hfinal : (⟨o, .forcesave⟩ : Request).serve g.watched p = final (withLog flush p) := by
      rw [serve_eq]
      exact final_bind_of_still fun trouble _ => by cases trouble <;> rfl
    rw [hfinal, final_withLog]
    exact ⟨rfl, nofun⟩
  | draw =>
    have hfinal : (⟨o, .draw⟩ : Request).serve g.watched p =
        final (withDeck g.watched o.author.name p) := by
      rw [serve_eq]
      exact final_bind_of_still fun drawn _ => by cases cardEmbed drawn.card <;> rfl
    rw [hfinal, final_withDeck]
    exact ⟨rfl, nofun⟩
  | ping => exact ⟨rfl, nofun⟩
  | uptime =>
    rw [serve_eq]
    refine ⟨?_, nofun⟩
    simp only [Command.run]
    cases uptimeSeconds o.started o.now.toUniversal <;> rfl

end

end DiceLedger.Bot
