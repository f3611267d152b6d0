import DiceLedger.Bot.RollReply
import DiceLedger.Proofs.Formula.Reading
import DiceLedger.Proofs.Roll.Seen
import DiceLedger.Proofs.Session.Turns

/-!
# Dice that are rolled into a session log

The source is watched, so that every die thrown with it is known. Whatever becomes of a roll,
its log has received one record for each of these dice, in the order in which they fell.
-/
namespace DiceLedger

open DiceLedger.Time DiceLedger.Session

structure Die where
  faces : Int
  value : Int
  deriving DecidableEq, Repr

/-- A source with what was drawn from it, as dice, the oldest first. -/
structure Watched (ρ : Type) where
  source : ρ
  thrown : List Die := []

def Generator.watched {ρ : Type} (g : Generator ρ) : Generator (Watched ρ) where
  draw lowest highest w :=
    match g.draw lowest highest w.source with
    | (some n, source) => (some n, ⟨source, w.thrown ++ [⟨highest, n⟩]⟩)
    | (none, source) => (none, ⟨source, w.thrown⟩)

theorem watched_seenAs {ρ : Type} (g : Generator ρ) : g.watched.SeenAs Watched.source g := by
  intro lowest highest w
  simp only [Generator.watched]
  rcases g.draw lowest highest w.source with ⟨n | n, source⟩ <;> rfl

def Roller.recordDie (who : Roller) (d : Die) : RollRecord :=
  ⟨who.user, d.value, d.faces, who.time⟩

/-- A die that shows one of its faces, of which there are not too many. -/
def Die.IsFair (d : Die) : Prop :=
  1 ≤ d.value ∧ d.value ≤ d.faces ∧ d.faces ≤ Formula.largestThrow

/-- From one table to the next some dice were thrown and the log received their records. -/
def Rolls {ρ : Type} (who : Roller) (t t' : Table (Watched ρ) Log) : Prop :=
  ∃ dice : List Die, t'.source.thrown = t.source.thrown ++ dice ∧
    t'.log = t.log.receive (dice.map who.recordDie) ∧ ∀ d ∈ dice, d.IsFair

section

variable {ρ : Type} {g : Generator ρ} {who : Roller}

theorem Rolls.refl (t : Table (Watched ρ) Log) : Rolls who t t :=
  ⟨[], (List.append_nil _).symm, (receive_nil _).symm, nofun⟩

theorem Rolls.trans {t t' t'' : Table (Watched ρ) Log} (h : Rolls who t t')
    (h' : Rolls who t' t'') : Rolls who t t'' := by
  obtain ⟨dice, hthrown, hlog, hfair⟩ := h
  obtain ⟨dice', hthrown', hlog', hfair'⟩ := h'
  refine ⟨dice ++ dice', ?_, ?_, fun d hd => ?_⟩
  · rw [hthrown', hthrown, List.append_assoc]
  · rw [hlog', hlog, receive_append, List.map_append]
  · rcases List.mem_append.mp hd with hd | hd
    · exact hfair d hd
    · exact hfair' d hd

/-- A session log takes every record that it can, and refuses without ending the roll. -/
theorem keep_rollLog (r : RollRecord) (t : Table ρ Log) :
    ∃ unrecorded, keep rollLog r t = .ok () ⟨t.source, t.log.receive [r], unrecorded⟩ := by
  obtain ⟨source, ⟨directory, current, pending⟩, unrecorded⟩ := t
  cases current with
  | none => exact ⟨_, rfl⟩
  | some session => exact ⟨unrecorded, rfl⟩

theorem rollDie_rolls (hg : g.Honest) {faces : Int} (hpos : 1 ≤ faces)
    (hmost : faces ≤ Formula.largestThrow) (t : Table (Watched ρ) Log) :
    Rolls who t (final (rollDie g.watched rollLog who faces t)) := by
  obtain ⟨n, s', hdraw, hlow, hhigh⟩ := hg 1 faces t.source.source hpos
  let mid : Table (Watched ρ) Log :=
    ⟨⟨s', t.source.thrown ++ [⟨faces, n⟩]⟩, t.log, t.unrecorded⟩
  have hfirst : draw g.watched 1 faces t = .ok n mid := by
    simp only [draw, Generator.watched, hdraw]
    rfl
  obtain ⟨unrecorded, hkeep⟩ := keep_rollLog ⟨who.user, n, faces, who.time⟩ mid
  rw [rollDie, run_of_ok hfirst, run_of_ok hkeep]
  exact ⟨[⟨faces, n⟩], rfl, rfl, by simpa using ⟨hlow, hhigh, hmost⟩⟩

theorem rollDice_rolls (hg : g.Honest) {faces : Int} (hpos : 1 ≤ faces)
    (hmost : faces ≤ Formula.largestThrow) (count : Nat) :
    ∀ t : Table (Watched ρ) Log, Rolls who t (final (rollDice g.watched rollLog who faces count t)) := by
  induction count with
  | zero => exact .refl
  | succ count ih =>
    intro t
    exact final_bind .trans (rollDie_rolls hg hpos hmost t) fun _ mid _ =>
      final_bind .trans (ih mid) fun _ last _ => .refl last

theorem rollThrow_rolls (hg : g.Honest) {t : Throw} (hmost : t.faces ≤ Formula.largestThrow)
    (table : Table (Watched ρ) Log) :
    Rolls who table (final (rollThrow g.watched rollLog who t table)) := by
  rw [rollThrow]
  split
  · exact .refl table
  · exact rollDice_rolls hg (by omega) hmost _ table

theorem rollTree_rolls (hg : g.Honest) (e : Expr Throw) :
    (∀ t ∈ e.leaves, t.faces ≤ Formula.largestThrow) → ∀ table : Table (Watched ρ) Log,
      Rolls who table (final (rollTree g.watched rollLog who e table)) := by
  induction e with
  | number n => exact fun _ table => .refl table
  | dice t =>
    intro h table
    exact final_bind .trans (rollThrow_rolls hg (h t (by simp [Expr.leaves])) table)
      fun _ last _ => .refl last
  | unary sign operand ih =>
    intro h table
    exact final_bind .trans (ih h table) fun _ last _ => .refl last
  | binary left op right ihl ihr =>
    intro h table
    exact final_bind .trans (ihl (fun t ht => h t (List.mem_append_left _ ht)) table)
      fun _ mid _ => final_bind .trans (ihr (fun t ht => h t (List.mem_append_right _ ht)) mid)
        fun _ last _ => .refl last

theorem evaluate_rolls (hg : g.Honest) (e : Expr Throw)
    (h : ∀ t ∈ e.leaves, t.faces ≤ Formula.largestThrow) (table : Table (Watched ρ) Log) :
    Rolls who table (final (evaluate g.watched rollLog who e table)) := by
  rw [evaluate]
  cases validate e with
  | error fault => exact .refl table
  | ok _ => exact rollTree_rolls hg e h table

theorem conclude_rolls (formula : String) (rolled : Expr (List Int))
    (table : Table (Watched ρ) Log) : Rolls who table (final (conclude formula rolled table)) := by
  rw [conclude]
  cases rolled.total with
  | error fault => exact .refl table
  | ok total => exact .refl table

/-- **Every roll of a formula records its dice**, also one whose total does not exist. -/
theorem roll_rolls (hg : g.Honest) (allowed : Option Int) (formula : String)
    (table : Table (Watched ρ) Log) :
    Rolls who table (final (roll g.watched rollLog who allowed formula table)) := by
  rw [roll]
  cases hread : Formula.read formula with
  | error fault => exact .refl table
  | ok tree =>
    have hmost := Formula.faces_le_of_isWritable (Formula.isWritable_of_read hread)
    have hrest (table : Table (Watched ρ) Log) : Rolls who table
        (final ((evaluate g.watched rollLog who tree >>= conclude formula) table)) :=
      final_bind .trans (evaluate_rolls hg tree hmost table) fun rolled last _ =>
        conclude_rolls formula rolled last
    cases allowed with
    | none => exact hrest table
    | some most =>
      dsimp only
      split
      · exact .refl table
      · exact hrest table

theorem rollReply_rolls (hg : g.Honest) (formula : String) (table : Table (Watched ρ) Log) :
    Rolls who table (final (Bot.rollReply g.watched rollLog who formula table)) := by
  have hroll : Rolls who table _ := roll_rolls hg (some Bot.mostDice) formula table
  rw [Bot.rollReply]
  cases hout : roll g.watched rollLog who (some Bot.mostDice) formula table with
  | ok r last =>
    rw [hout] at hroll
    exact hroll
  | error fault last =>
    rw [hout] at hroll
    dsimp only
    split
    · exact hroll
    · exact hroll

theorem cthulhuReply_rolls (hg : g.Honest) (points : Int) (table : Table (Watched ρ) Log) :
    Rolls who table (final (Bot.cthulhuReply g.watched rollLog who points table)) := by
  have hfaces : Bot.cthulhuFaces ≤ Formula.largestThrow := by decide
  have hthrow (count : Int) (table : Table (Watched ρ) Log) : Rolls who table
      (final (rollThrow g.watched rollLog who ⟨count, Bot.cthulhuFaces⟩ table)) :=
    rollThrow_rolls hg hfaces table
  refine final_bind .trans ?_ fun _ last _ => .refl last
  rw [rollCthulhuDark]
  split
  · exact .refl table
  refine final_bind .trans (hthrow _ table) fun human mid _ => ?_
  split
  · exact .refl mid
  · exact final_bind .trans (hthrow 1 mid) fun _ last _ => .refl last

end

end DiceLedger
