import DiceLedger.Proofs.Formula.Reading
import DiceLedger.Proofs.Roll.Evaluation

/-!
# Rolls beside their log

A log that does no worse than refuse a record, or fail below, has no say in a roll. The source
alone decides what comes up, and the log is offered one record for each die that fell; of its
answers only the failures are remembered. `roll_eq` says so for a whole roll: before the first
die falls it may be refused for its formula or its dice, and after that all dice fall.
-/
namespace DiceLedger

/-! ## Logs -/

section

variable {σ : Type} (log : RollLog σ)

namespace RollLog

/-- A log after records were offered to it one after the other. -/
def after (s : σ) (rs : List RollRecord) : σ := rs.foldl (fun s r => (log.record r s).2) s

/-- What a log answers to records that are offered to it one after the other. -/
def answers : σ → List RollRecord → List (Option LogFault)
  | _, [] => []
  | s, r :: rs => (log.record r s).1 :: answers (log.record r s).2 rs

/-- Whatever it is offered from now on, a log does no worse than refuse a record or fail below. -/
def IsLenient (s : σ) : Prop :=
  ∀ rs r fault, (log.record r (log.after s rs)).1 = some fault → fault.isTolerable

variable {log}

theorem length_answers (rs : List RollRecord) :
    ∀ s : σ, (log.answers s rs).length = rs.length := by
  induction rs with
  | nil => exact fun s => rfl
  | cons r rs ih => exact fun s => congrArg Nat.succ (ih _)

theorem IsLenient.after {s : σ} (h : log.IsLenient s) (rs : List RollRecord) :
    log.IsLenient (log.after s rs) := by
  intro rs' r fault hfault
  rw [RollLog.after, RollLog.after, ← List.foldl_append] at hfault
  exact h (rs ++ rs') r fault hfault

end RollLog

/-- What is said of the records that were not kept. -/
def complaints (answers : List (Option LogFault)) : List String :=
  answers.filterMap fun answer => answer.map LogFault.message

/-- The table after records were offered to its log. -/
def Table.offered {ρ : Type} (log : RollLog σ) (rs : List RollRecord) (t : Table ρ σ) :
    Table ρ σ :=
  { t with
    log := log.after t.log rs
    unrecorded := t.unrecorded ++ complaints (log.answers t.log rs) }

variable {log} {ρ : Type}

theorem offered_nil (t : Table ρ σ) : t.offered log [] = t := by
  simp [Table.offered, RollLog.after, RollLog.answers, complaints]

theorem offered_cons (r : RollRecord) (rs : List RollRecord) (t : Table ρ σ) :
    (t.offered log [r]).offered log rs = t.offered log (r :: rs) := by
  cases hanswer : (log.record r t.log).1 <;>
    simp [Table.offered, complaints, RollLog.after, RollLog.answers, hanswer]

/-- A lenient log lets every die pass. -/
theorem keep_of_isLenient {t : Table ρ σ} (h : log.IsLenient t.log) (r : RollRecord) :
    keep log r t = .ok () (t.offered log [r]) := by
  have htolerable (fault : LogFault) (hfault : (log.record r t.log).1 = some fault) :
      fault.isTolerable := h [] r fault hfault
  simp only [keep, Table.offered, RollLog.after, RollLog.answers, List.foldl_cons, List.foldl_nil,
    complaints]
  rcases hrecord : log.record r t.log with ⟨_ | fault, after⟩
  · simp
  · have hpass := htolerable fault (by rw [hrecord])
    simp [hpass]

end

/-! ## Rows of dice -/

/-- The values that come up for a row of dice, whether they come up for all of it, and the
source after them. -/
structure Cast (ρ : Type) where
  values : List Int
  whole : Bool
  source : ρ

/-- Draw for dice in a row until the source has nothing left. -/
def cast {ρ : Type} (g : Generator ρ) : List Int → ρ → Cast ρ
  | [], s => ⟨[], true, s⟩
  | faces :: row, s =>
    match g.draw 1 faces s with
    | (none, s) => ⟨[], false, s⟩
    | (some n, s) =>
      let rest := cast g row s
      { rest with values := n :: rest.values }

section

variable {ρ σ : Type} {g : Generator ρ} {log : RollLog σ} {who : Roller}

/-- The table after a row of dice, of which those that fell were offered to the log. -/
def Table.thrown (log : RollLog σ) (who : Roller) (row : List Int) (c : Cast ρ)
    (t : Table ρ σ) : Table ρ σ :=
  Table.offered log (List.zipWith who.recordOf row c.values) { t with source := c.source }

/-- Dice are drawn in a row as if there were no log. -/
theorem rollRow_eq (row : List Int) :
    ∀ {t : Table ρ σ}, log.IsLenient t.log →
      let c := cast g row t.source
      rollRow g log who row t =
        if c.whole then .ok c.values (t.thrown log who row c)
        else .error .exhausted (t.thrown log who row c) := by
  induction row with
  | nil =>
    intro t _
    simp only [cast, Table.thrown, List.zipWith_nil_left, offered_nil, if_true]
    rfl
  | cons faces row ih =>
    intro t h
    rcases hdraw : g.draw 1 faces t.source with ⟨_ | n, s⟩
    · have hdie : rollDie g log who faces t = .error .exhausted { t with source := s } :=
        run_of_error (by rw [draw, hdraw])
      simp only [cast, hdraw, Table.thrown, List.zipWith_nil_right, offered_nil]
      exact run_of_error hdie
    · let c := cast g row s
      let mid : Table ρ σ := Table.offered log [who.recordOf faces n] { t with source := s }
      have hfall : draw g 1 faces t = .ok n { t with source := s } := by rw [draw, hdraw]
      have hkeep : keep log ⟨who.user, n, faces, who.time⟩ { t with source := s } = .ok () mid :=
        keep_of_isLenient (t := { t with source := s }) h _
      have hdie : rollDie g log who faces t = .ok n mid := by
        rw [rollDie, run_of_ok hfall, run_of_ok hkeep]
        rfl
      have hthrown : mid.thrown log who row c =
          t.thrown log who (faces :: row) { c with values := n :: c.values } :=
        offered_cons (who.recordOf faces n) (List.zipWith who.recordOf row c.values)
          { t with source := c.source }
      have hrest : rollRow g log who row mid = if c.whole then .ok c.values (mid.thrown log who row c)
          else .error .exhausted (mid.thrown log who row c) := ih (h.after _)
      simp only [cast, hdraw]
      rw [rollRow, run_of_ok hdie, ← hthrown]
      cases hwhole : c.whole with
      | true => exact run_of_ok (hrest.trans (if_pos hwhole))
      | false => exact run_of_error (hrest.trans (if_neg (by simp [hwhole])))

/-! ## Whole rolls -/

/-- Why no die of a tree is thrown: there are more than allowed, or some have no faces. -/
def refusal? (allowed : Option Int) (e : Expr Throw) : Option DiceFault :=
  match allowed.filter (· < e.diceCount) with
  | some most => some (.tooMany most)
  | none => (faceless? e).map .noFaces

/-- The tree whose dice are thrown, unless the roll is refused before. -/
def admitted (allowed : Option Int) (formula : String) : Except RollFault (Expr Throw) :=
  match Formula.read formula with
  | .error fault => .error (.formula fault)
  | .ok tree =>
    match refusal? allowed tree with
    | some fault => .error (.dice fault)
    | none => .ok tree

/-- The rolled tree and its total, once its dice have fallen. -/
def ending (e : Expr Throw) (c : Cast ρ) : Except RollFault (Expr (List Int) × Int) :=
  if c.whole then
    match (e.fill c.values).total with
    | .error fault => .error (.total fault)
    | .ok total => .ok (e.fill c.values, total)
  else .error .exhausted

theorem exists_refusal_iff {allowed : Option Int} {e : Expr Throw} :
    (∃ fault, refusal? allowed e = some fault) ↔
      (∃ most, allowed = some most ∧ most < e.diceCount) ∨ ∃ t ∈ e.leaves, t.faces < 1 := by
  rw [refusal?]
  cases hmany : allowed.filter (· < e.diceCount) with
  | some most =>
    simp only [Option.filter_eq_some_iff, decide_eq_true_eq] at hmany
    simp [hmany]
  | none =>
    simp only [Option.filter_eq_none_iff, decide_eq_true_eq] at hmany
    have hfew : ¬∃ most, allowed = some most ∧ most < e.diceCount := by simpa using hmany
    rw [or_iff_right hfew]
    simp [faceless?, ← Option.isSome_iff_exists]

theorem faces_pos_of_refusal {allowed : Option Int} {e : Expr Throw}
    (h : refusal? allowed e = none) : ∀ t ∈ e.leaves, 1 ≤ t.faces := by
  intro t ht
  by_contra hfaces
  obtain ⟨fault, hfault⟩ := exists_refusal_iff.mpr (.inr ⟨t, ht, by omega⟩)
  rw [h] at hfault
  cases hfault

theorem diceCount_le_of_refusal {most : Int} {e : Expr Throw}
    (h : refusal? (some most) e = none) : e.diceCount ≤ most := by
  by_contra hmany
  obtain ⟨fault, hfault⟩ := exists_refusal_iff.mpr (.inl ⟨most, rfl, Int.not_le.mp hmany⟩)
  rw [h] at hfault
  cases hfault

theorem admitted_eq_ok_iff {allowed : Option Int} {formula : String} {e : Expr Throw} :
    admitted allowed formula = .ok e ↔ Formula.read formula = .ok e ∧ refusal? allowed e = none := by
  rw [admitted]
  cases Formula.read formula with
  | error fault => simp
  | ok tree =>
    dsimp only
    cases hrefusal : refusal? allowed tree with
    | some fault =>
      refine ⟨nofun, fun ⟨htree, hnone⟩ => ?_⟩
      obtain rfl := Except.ok.inj htree
      rw [hrefusal] at hnone
      cases hnone
    | none =>
      constructor
      · intro htree
        obtain rfl := Except.ok.inj htree
        exact ⟨rfl, hrefusal⟩
      · rintro ⟨htree, -⟩
        rw [Except.ok.inj htree]

theorem admitted_eq_error {allowed : Option Int} {formula : String} {fault : RollFault}
    (h : admitted allowed formula = .error fault) :
    (∃ f, fault = .formula f) ∨ ∃ f, fault = .dice f := by
  rw [admitted] at h
  split at h
  · cases h
    exact .inl ⟨_, rfl⟩
  · split at h
    · cases h
      exact .inr ⟨_, rfl⟩
    · cases h

/-- A tree is checked for dice without faces before its first die falls. -/
theorem evaluate_eq_checked (e : Expr Throw) :
    evaluate g log who e =
      match faceless? e with
      | some u => throw (.dice (.noFaces u))
      | none => rollTree g log who e := by
  rw [evaluate, validate]
  cases faceless? e <;> rfl

/-- A roll is checked before the first die falls, whatever its source and its log are. -/
theorem roll_eq_admitted (allowed : Option Int) (formula : String) (t : Table ρ σ) :
    roll g log who allowed formula t =
      match admitted allowed formula with
      | .error fault => .error fault t
      | .ok tree => (rollTree g log who tree >>= conclude formula) t := by
  rw [roll, admitted]
  cases Formula.read formula with
  | error fault => rfl
  | ok tree =>
    dsimp only
    rw [evaluate_eq_checked, refusal?]
    cases allowed with
    | none => cases faceless? tree <;> rfl
    | some most =>
      by_cases hmany : most < tree.diceCount
      · simp only [hmany, if_true, Option.filter, decide_true]
        rfl
      · simp only [hmany, if_false, Option.filter, decide_false]
        cases faceless? tree <;> rfl

/-- **A roll beside a lenient log.** The checks, the source and the tree decide how it ends. -/
theorem roll_eq {t : Table ρ σ} (h : log.IsLenient t.log) (allowed : Option Int)
    (formula : String) :
    roll g log who allowed formula t =
      match admitted allowed formula with
      | .error fault => .error fault t
      | .ok tree =>
        let c := cast g tree.row t.source
        let last := t.thrown log who tree.row c
        match ending tree c with
        | .error fault => .error fault last
        | .ok (rolled, total) =>
          .ok ⟨formula, rolled, rolled.display, total, last.unrecorded⟩ last := by
  rw [roll_eq_admitted]
  cases hadmitted : admitted allowed formula with
  | error fault => rfl
  | ok tree =>
    dsimp only
    have htree : rollTree g log who tree t = _ :=
      rollTree_eq tree (faces_pos_of_refusal (admitted_eq_ok_iff.mp hadmitted).2) t
    rw [rollRow_eq tree.row h] at htree
    rw [ending]
    cases hwhole : (cast g tree.row t.source).whole with
    | true =>
      simp only [hwhole, if_true] at htree ⊢
      rw [run_of_ok htree, conclude]
      cases (tree.fill (cast g tree.row t.source).values).total <;> rfl
    | false =>
      simp only [hwhole, Bool.false_eq_true, if_false] at htree ⊢
      rw [run_of_error htree]

end

end DiceLedger
