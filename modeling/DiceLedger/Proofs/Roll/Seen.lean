import DiceLedger.Bot.RollReply
import DiceLedger.Proofs.Outcome

/-!
# Rolls seen through their source

A source that keeps more than it draws with, like a count of its numbers, can be seen as the
source without it. Rolls and answers are then the same.
-/
namespace DiceLedger

/-- The outcome of a step, its state seen through `f`. -/
def seen {ε σ τ α : Type} (f : σ → τ) : EStateM.Result ε σ α → EStateM.Result ε τ α
  | .ok a s => .ok a (f s)
  | .error e s => .error e (f s)

/-- One step seen through `f` is another. -/
def Seen {ε σ τ α : Type} (f : σ → τ) (x : EStateM ε σ α) (y : EStateM ε τ α) : Prop :=
  ∀ s, y (f s) = seen f (x s)

section

variable {ε σ τ α β : Type} {f : σ → τ} {x : EStateM ε σ α} {y : EStateM ε τ α}

theorem Seen.bind {k : α → EStateM ε σ β} {k' : α → EStateM ε τ β} (h : Seen f x y)
    (hk : ∀ a, Seen f (k a) (k' a)) : Seen f (x >>= k) (y >>= k') := by
  intro s
  have hs := h s
  cases hx : x s with
  | ok a mid =>
    rw [hx] at hs
    rw [run_of_ok hx, run_of_ok hs]
    exact hk a mid
  | error e mid =>
    rw [hx] at hs
    rw [run_of_error hx, run_of_error hs]
    rfl

theorem final_seen (f : σ → τ) (r : EStateM.Result ε σ α) : final (seen f r) = f (final r) := by
  cases r <;> rfl

end

/-- One source is seen as another: both draw the same. -/
def Generator.SeenAs {ρ ρ' : Type} (g : Generator ρ) (f : ρ → ρ') (g' : Generator ρ') : Prop :=
  ∀ lowest highest s, g'.draw lowest highest (f s) =
    ((g.draw lowest highest s).1, f (g.draw lowest highest s).2)

def Table.see {ρ ρ' σ : Type} (f : ρ → ρ') (t : Table ρ σ) : Table ρ' σ :=
  ⟨f t.source, t.log, t.unrecorded⟩

section

variable {ρ ρ' σ : Type} {g : Generator ρ} {g' : Generator ρ'} {f : ρ → ρ'} {log : RollLog σ}
  {who : Roller}

theorem seen_draw (h : g.SeenAs f g') (lowest highest : Int) :
    Seen (Table.see f) (draw g lowest highest : Play ρ σ Int) (draw g' lowest highest) := by
  intro t
  have hdraw : g'.draw lowest highest (t.see f).source = _ := h lowest highest t.source
  rw [draw, draw, hdraw]
  rcases g.draw lowest highest t.source with ⟨n | n, source⟩ <;> rfl

theorem seen_keep (r : RollRecord) :
    Seen (Table.see f) (keep log r : Play ρ σ Unit) (keep log r) := by
  intro t
  rw [keep, keep, Table.see]
  rcases log.record r t.log with ⟨fault | fault, after⟩
  · rfl
  · dsimp only
    split <;> rfl

theorem seen_rollDie (h : g.SeenAs f g') (faces : Int) :
    Seen (Table.see f) (rollDie g log who faces) (rollDie g' log who faces) :=
  (seen_draw h 1 faces).bind fun _ => (seen_keep _).bind fun _ _ => rfl

theorem seen_rollDice (h : g.SeenAs f g') (faces : Int) (count : Nat) :
    Seen (Table.see f) (rollDice g log who faces count) (rollDice g' log who faces count) := by
  induction count with
  | zero => exact fun _ => rfl
  | succ count ih => exact (seen_rollDie h faces).bind fun _ => ih.bind fun _ _ => rfl

theorem seen_rollThrow (h : g.SeenAs f g') (t : Throw) :
    Seen (Table.see f) (rollThrow g log who t) (rollThrow g' log who t) := by
  rw [rollThrow, rollThrow]
  split
  · exact fun _ => rfl
  · exact seen_rollDice h t.faces _

theorem seen_rollTree (h : g.SeenAs f g') (e : Expr Throw) :
    Seen (Table.see f) (rollTree g log who e) (rollTree g' log who e) := by
  induction e with
  | number n => exact fun _ => rfl
  | dice t => exact (seen_rollThrow h t).bind fun _ _ => rfl
  | unary sign operand ih => exact ih.bind fun _ _ => rfl
  | binary left op right ihl ihr => exact ihl.bind fun _ => ihr.bind fun _ _ => rfl

theorem seen_evaluate (h : g.SeenAs f g') (e : Expr Throw) :
    Seen (Table.see f) (evaluate g log who e) (evaluate g' log who e) := by
  rw [evaluate, evaluate]
  cases validate e with
  | error fault => exact fun _ => rfl
  | ok _ => exact seen_rollTree h e

theorem seen_conclude (formula : String) (rolled : Expr (List Int)) :
    Seen (Table.see f) (conclude formula rolled : Play ρ σ Roll) (conclude formula rolled) := by
  rw [conclude, conclude]
  cases rolled.total with
  | error fault => exact fun _ => rfl
  | ok total => exact fun _ => rfl

theorem seen_roll (h : g.SeenAs f g') (allowed : Option Int) (formula : String) :
    Seen (Table.see f) (roll g log who allowed formula) (roll g' log who allowed formula) := by
  rw [roll, roll]
  cases Formula.read formula with
  | error fault => exact fun _ => rfl
  | ok tree =>
    have hrest : Seen (Table.see f) (evaluate g log who tree >>= conclude formula)
        (evaluate g' log who tree >>= conclude formula) :=
      (seen_evaluate h tree).bind fun rolled => seen_conclude formula rolled
    cases allowed with
    | none => exact hrest
    | some most =>
      dsimp only
      split
      · exact fun _ => rfl
      · exact hrest

theorem seen_rollReply (h : g.SeenAs f g') (formula : String) :
    Seen (Table.see f) (Bot.rollReply g log who formula) (Bot.rollReply g' log who formula) := by
  intro t
  have hroll : roll g' log who _ formula (t.see f) = _ := seen_roll h (some Bot.mostDice) formula t
  rw [Bot.rollReply, Bot.rollReply, hroll]
  cases roll g log who (some Bot.mostDice) formula t with
  | ok r last => rfl
  | error fault last =>
    simp only [seen]
    split <;> rfl

theorem seen_cthulhuReply (h : g.SeenAs f g') (points : Int) :
    Seen (Table.see f) (Bot.cthulhuReply g log who points) (Bot.cthulhuReply g' log who points) := by
  refine Seen.bind ?_ fun _ _ => rfl
  rw [rollCthulhuDark, rollCthulhuDark]
  split
  · exact fun _ => rfl
  refine (seen_rollThrow h _).bind fun human => ?_
  split
  · exact fun _ => rfl
  · exact (seen_rollThrow h _).bind fun _ _ => rfl

theorem seen_drawReply (h : g.SeenAs f g') (name : String) (source : ρ) :
    Bot.drawReply g' name (f source) =
      ((Bot.drawReply g name source).1, f (Bot.drawReply g name source).2) := by
  have hdraw : g'.draw 1 deckSize (f source) = _ := h 1 deckSize source
  rw [Bot.drawReply, Bot.drawReply, drawCard, drawCard, hdraw]
  rcases g.draw 1 deckSize source with ⟨position | position, after⟩ <;> rfl

end

end DiceLedger
