import DiceLedger.Proofs.Outcome
import DiceLedger.Roll.Evaluate

/-!
# The dice of a tree, one after the other

Rolling a tree is rolling its dice in one row and putting the values back at the leaves.
`rollTree_eq` says so for every source and every log, whatever fails on the way: all that
happens to the source and the log is told by the row of dice alone.
-/
namespace DiceLedger

/-- The same tree with other leaves. -/
def Expr.map {α β : Type} (f : α → β) : Expr α → Expr β
  | .number n => .number n
  | .dice held => .dice (f held)
  | .unary sign operand => .unary sign (operand.map f)
  | .binary left op right => .binary (left.map f) op (right.map f)

/-- How many dice a leaf asks for; a count below one asks for none. -/
def Throw.number (t : Throw) : Nat := t.count.toNat

/-- The dice of a tree from left to right: the faces of each. -/
def Expr.row (e : Expr Throw) : List Int :=
  e.leaves.flatMap fun t => List.replicate t.number t.faces

/-- The tree with values put at its leaves in order. -/
def Expr.fill : Expr Throw → List Int → Expr (List Int)
  | .number n, _ => .number n
  | .dice _, values => .dice values
  | .unary sign operand, values => .unary sign (operand.fill values)
  | .binary left op right, values =>
    .binary (left.fill (values.take left.row.length)) op (right.fill (values.drop left.row.length))

@[simp] theorem row_number (n : Int) : (Expr.number n).row = [] := rfl

@[simp] theorem row_dice (t : Throw) : (Expr.dice t).row = List.replicate t.number t.faces := by
  simp [Expr.row, Expr.leaves]

@[simp] theorem row_unary (sign : Sign) (operand : Expr Throw) :
    (Expr.unary sign operand).row = operand.row := rfl

@[simp] theorem row_binary (left right : Expr Throw) (op : Operator) :
    (Expr.binary left op right).row = left.row ++ right.row := by
  simp [Expr.row, Expr.leaves]

/-- As many values as two operands ask for are as many as each of them asks for. -/
theorem length_shares {left right : Expr Throw} {op : Operator} {values : List Int}
    (h : values.length = (Expr.binary left op right).row.length) :
    (values.take left.row.length).length = left.row.length ∧
      (values.drop left.row.length).length = right.row.length := by
  rw [row_binary, List.length_append] at h
  rw [List.length_take, List.length_drop, h]
  exact ⟨Nat.min_eq_left (Nat.le_add_right _ _), Nat.add_sub_cancel_left _ _⟩

/-- The filled tree has the shape, operators and numbers of the tree, as many values at each
leaf as the leaf asks for, and all values in order. -/
theorem fill_spec (e : Expr Throw) {values : List Int} (h : values.length = e.row.length) :
    (e.fill values).map List.length = e.map Throw.number ∧
      (e.fill values).leaves.flatten = values := by
  induction e generalizing values with
  | number n => exact ⟨rfl, by simpa [Expr.fill, Expr.leaves, eq_comm] using h⟩
  | dice t => simpa [Expr.fill, Expr.map, Expr.leaves] using h
  | unary sign operand ih =>
    obtain ⟨hmap, hleaves⟩ := ih h
    exact ⟨by rw [Expr.fill, Expr.map, hmap, Expr.map], hleaves⟩
  | binary left op right ihl ihr =>
    obtain ⟨htake, hdrop⟩ := length_shares h
    obtain ⟨hl, hl'⟩ := ihl htake
    obtain ⟨hr, hr'⟩ := ihr hdrop
    constructor
    · rw [Expr.fill, Expr.map, hl, hr, Expr.map]
    · rw [Expr.fill, Expr.leaves, List.flatten_append, hl', hr', List.take_append_drop]

section

variable {ρ σ : Type} (g : Generator ρ) (log : RollLog σ) (who : Roller)

def rollRow : List Int → Play ρ σ (List Int)
  | [] => return []
  | faces :: row => do
    let result ← rollDie g log who faces
    return result :: (← rollRow row)

theorem rollDice_eq (faces : Int) (count : Nat) :
    rollDice g log who faces count = rollRow g log who (List.replicate count faces) := by
  induction count with
  | zero => rfl
  | succ count ih => rw [rollDice, List.replicate_succ, rollRow, ih]

theorem rollRow_append (xs ys : List Int) :
    rollRow g log who (xs ++ ys) = do
      let vs ← rollRow g log who xs
      return vs ++ (← rollRow g log who ys) := by
  induction xs with
  | nil => simp [rollRow]
  | cons x xs ih => simp [rollRow, ih]

variable {g log who}

theorem length_rollRow {row values : List Int} {table table' : Table ρ σ}
    (h : rollRow g log who row table = .ok values table') : values.length = row.length := by
  induction row generalizing values table with
  | nil =>
    cases h
    rfl
  | cons faces row ih =>
    obtain ⟨v, mid, -, hrest⟩ := run_eq_ok_iff.mp h
    obtain ⟨vs, last, hvs, hpure⟩ := run_eq_ok_iff.mp hrest
    cases hpure
    rw [List.length_cons, ih hvs, List.length_cons]

/-- A leaf with faces rolls its dice in a row. -/
theorem rollThrow_eq {t : Throw} (h : 1 ≤ t.faces) :
    rollThrow g log who t = rollRow g log who (List.replicate t.number t.faces) := by
  rw [rollThrow, if_neg (by omega), rollDice_eq, Throw.number]

/-- **Rolling a tree is rolling its row of dice.** -/
theorem rollTree_eq (e : Expr Throw) (hfaces : ∀ t ∈ e.leaves, 1 ≤ t.faces)
    (table : Table ρ σ) :
    rollTree g log who e table =
      match rollRow g log who e.row table with
      | .ok values after => .ok (e.fill values) after
      | .error fault after => .error fault after := by
  induction e generalizing table with
  | number n => rfl
  | dice t =>
    rw [rollTree, rollThrow_eq (hfaces t (by simp [Expr.leaves])), row_dice]
    cases h : rollRow g log who (List.replicate t.number t.faces) table with
    | ok values after => exact run_of_ok h
    | error fault after => exact run_of_error h
  | unary sign operand ih =>
    rw [rollTree, row_unary]
    have hop := ih hfaces table
    cases h : rollRow g log who operand.row table with
    | ok values after => exact run_of_ok (by rw [hop, h])
    | error fault after => exact run_of_error (by rw [hop, h])
  | binary left op right ihl ihr =>
    have hl := ihl (fun t ht => hfaces t (by simp [Expr.leaves, ht])) table
    rw [rollTree, row_binary, rollRow_append]
    cases h : rollRow g log who left.row table with
    | error fault mid =>
      rw [h] at hl
      rw [run_of_error hl, run_of_error h]
    | ok vs mid =>
      rw [h] at hl
      rw [run_of_ok hl, run_of_ok h]
      have hr := ihr (fun t ht => hfaces t (by simp [Expr.leaves, ht])) mid
      cases h' : rollRow g log who right.row mid with
      | error fault after =>
        rw [h'] at hr
        rw [run_of_error hr, run_of_error h']
      | ok ws after =>
        rw [h'] at hr
        rw [run_of_ok hr, run_of_ok h']
        have hlen := length_rollRow h
        simp [pure, EStateM.pure, Expr.fill, ← hlen]

/-- A tree whose dice all have faces passes. -/
theorem validate_eq_ok {e : Expr Throw} (h : ∀ t ∈ e.leaves, 1 ≤ t.faces) :
    validate e = .ok () := by
  have hnone : faceless? e = none := by
    rw [faceless?, List.find?_eq_none]
    intro t ht
    have := h t ht
    simpa using this
  rw [validate, hnone]

theorem evaluate_eq {e : Expr Throw} (h : ∀ t ∈ e.leaves, 1 ≤ t.faces) :
    evaluate g log who e = rollTree g log who e := by
  rw [evaluate, validate_eq_ok h]

end

end DiceLedger
