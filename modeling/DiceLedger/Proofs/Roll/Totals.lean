import DiceLedger.Proofs.Roll.Attempts
import Mathlib.Algebra.Ring.Int.Defs

/-!
# Totals are exact or refused

The value of a rolled tree is worked out here in the integers, without a bound. Where each part
of the tree has a value and it fits, the total is that of the whole. Otherwise the first part in
the order of evaluation that has none, or one that does not fit, is what is reported; later parts
have no say, not even if they would bring the total back.
-/
namespace DiceLedger

open DiceLedger.Formula

namespace Arithmetic

/-- The value of an operation in the integers. Quotients are rounded toward zero, and the
remainder is what is left over then. -/
def exactly? (op : Operator) (x y : Int) : Option Int :=
  match op with
  | .add => some (x + y)
  | .sub => some (x - y)
  | .mul => some (x * y)
  | .div => if y = 0 then none else some (Int.tdiv x y)
  | .mod => if y = 0 then none else some (Int.tmod x y)
  | .other _ => none

/-- What is reported when a number is divided by zero. -/
def byZero? (op : Operator) (x : Int) : Option Fault :=
  match op with
  | .div => some (.divisionByZero x 0)
  | .mod => some (.moduloByZero x 0)
  | _ => none

end Arithmetic

namespace Expr

open Arithmetic

/-- The parts of a tree, each behind its own parts, from left to right. -/
def nodes {α : Type} : Expr α → List (Expr α)
  | .number n => [.number n]
  | .dice held => [.dice held]
  | .unary sign operand => operand.nodes ++ [.unary sign operand]
  | .binary left op right => left.nodes ++ (right.nodes ++ [.binary left op right])

/-- The value of a rolled tree in the integers, if nothing in it is divided by zero. -/
def value? : Expr (List Int) → Option Int
  | .number n => some n
  | .dice values => some values.sum
  | .unary sign operand =>
    match sign with
    | .minus => operand.value?.map (- ·)
    | .other _ => none
  | .binary left op right => do exactly? op (← left.value?) (← right.value?)

/-- Has a tree a value that fits? -/
def isExact (e : Expr (List Int)) : Bool := e.value?.any (Fits ·)

/-- The first part of a tree whose value does not fit, or that has none. -/
def misfit? (e : Expr (List Int)) : Option (Expr (List Int)) := e.nodes.find? (!·.isExact)

/-- What is reported of a part whose own parts are all right: the value that does not fit, or that
its divisor is zero. -/
def complaint? (e : Expr (List Int)) : Option Arithmetic.Fault :=
  match e, e.value? with
  | .number _, _ => none
  | .dice values, _ => some (.overflow ("dice " ++ rolledText values) values.sum)
  | .unary _ _, value => value.map (.overflow ("negation " ++ e.display) ·)
  | .binary _ _ _, some n => some (.overflow e.display n)
  | .binary left op _, none => do byZero? op (← left.value?)

/-- A tree as it can come of a formula: its numbers fit, and its signs and operators have a
meaning. -/
def IsSensible : Expr (List Int) → Prop
  | .number n => Fits n
  | .dice _ => True
  | .unary sign operand => sign = .minus ∧ operand.IsSensible
  | .binary left op right => (Operator.symbol? op).isSome ∧ left.IsSensible ∧ right.IsSensible

end Expr

theorem isSensible_fill {e : Expr Throw} (h : IsWritable e) :
    ∀ values : List Int, (e.fill values).IsSensible := by
  induction e with
  | number n =>
    intro values
    obtain ⟨hlow, hhigh⟩ := h
    have hmost : ((largestNumber : Nat) : Int) = Arithmetic.greatest := rfl
    have hleast : Arithmetic.least ≤ 0 := by decide
    exact ⟨by omega, by omega⟩
  | dice t => exact fun _ => trivial
  | unary sign operand ih => exact fun values => ⟨h.1, ih h.2 values⟩
  | binary left op right ihl ihr => exact fun values => ⟨h.1, ihl h.2.1 _, ihr h.2.2 _⟩

/-! ## Totals -/

theorem fitting_eq (part : Unit → String) (n : Int) :
    fitting part n =
      if Arithmetic.Fits n then .ok n else .error (.arithmetic (.overflow (part ()) n)) := by
  rw [fitting, Arithmetic.checked]
  split <;> rfl

/-- How a total comes out, by the part of the tree that has none and the exact value. -/
def ComesOut (misfit : Option (Expr (List Int))) (value : Option Int)
    (total : Except TotalFault Int) : Prop :=
  match misfit with
  | none => ∃ n, value = some n ∧ Arithmetic.Fits n ∧ total = .ok n
  | some node => ∃ f, node.complaint? = some f ∧ total = .error (.arithmetic f)

/-- The total of a tree whose parts are all right. -/
theorem comesOut_own {e : Expr (List Int)} {part : Unit → String} {n : Int}
    (hvalue : e.value? = some n) (hcomplaint : e.complaint? = some (.overflow (part ()) n)) :
    ComesOut ([e].find? (!·.isExact)) e.value? (fitting part n) := by
  have hexact : e.isExact = decide (Arithmetic.Fits n) := by rw [Expr.isExact, hvalue]; rfl
  rw [fitting_eq]
  by_cases hfits : Arithmetic.Fits n
  · rw [if_pos hfits, List.find?_cons, hexact, decide_eq_true hfits]
    exact ⟨n, hvalue, hfits, rfl⟩
  · rw [if_neg hfits, List.find?_cons, hexact, decide_eq_false hfits]
    exact ⟨_, hcomplaint, rfl⟩

theorem meaning_of_symbol {op : Operator} (h : (Operator.symbol? op).isSome) :
    ∃ apply, Arithmetic.meaning? op = some apply := by
  cases op with
  | other symbol => cases h
  | _ => exact ⟨_, rfl⟩

/-- The total of an operation on two values that are right. -/
theorem comesOut_binary {left right : Expr (List Int)} {op : Operator} {x y : Int}
    {apply : Int → Int → Except Arithmetic.Fault Int}
    (hmeaning : Arithmetic.meaning? op = some apply) (hx : left.value? = some x)
    (hy : right.value? = some y) :
    let e := Expr.binary left op right
    ComesOut ([e].find? (!·.isExact)) e.value?
      ((apply x y).mapError .arithmetic >>= fitting fun _ => e.display) := by
  intro e
  have hvalue : e.value? = Arithmetic.exactly? op x y := by
    simp only [e, Expr.value?, hx, hy]
    rfl
  have hown {n : Int} (hn : Arithmetic.exactly? op x y = some n) :
      ComesOut ([e].find? (!·.isExact)) e.value? (fitting (fun _ => e.display) n) := by
    refine comesOut_own (hvalue.trans hn) ?_
    simp only [Expr.complaint?, hvalue.trans hn, e]
  have hnone {f : Arithmetic.Fault} (hn : Arithmetic.exactly? op x y = none)
      (hf : Arithmetic.byZero? op x = some f) :
      ComesOut ([e].find? (!·.isExact)) e.value? (.error (.arithmetic f)) := by
    have hexact : e.isExact = false := by rw [Expr.isExact, hvalue, hn]; rfl
    rw [List.find?_cons, hexact]
    refine ⟨f, ?_, rfl⟩
    simp only [Expr.complaint?, hvalue.trans hn, e, hx]
    exact hf
  cases op with
  | add | sub | mul =>
    cases hmeaning
    exact hown rfl
  | div =>
    cases hmeaning
    rw [Arithmetic.divide]
    split
    · next hzero =>
      subst hzero
      exact hnone rfl rfl
    · next hzero => exact hown (if_neg hzero)
  | mod =>
    cases hmeaning
    rw [Arithmetic.modulo]
    split
    · next hzero =>
      subst hzero
      exact hnone rfl rfl
    · next hzero => exact hown (if_neg hzero)
  | other symbol => cases hmeaning

/-- Where an earlier part is not right, later ones have no say. -/
theorem ComesOut.bind {xs ys : List (Expr (List Int))} {inner whole : Option Int}
    {total : Except TotalFault Int} {next : Int → Except TotalFault Int}
    (h : ComesOut (xs.find? (!·.isExact)) inner total)
    (hnext : ∀ n, inner = some n → ComesOut (ys.find? (!·.isExact)) whole (next n)) :
    ComesOut ((xs ++ ys).find? (!·.isExact)) whole (total >>= next) := by
  rw [List.find?_append]
  cases hmisfit : xs.find? (!·.isExact) with
  | some node =>
    rw [hmisfit] at h
    obtain ⟨f, hf, herror⟩ := h
    exact ⟨f, hf, bind_eq_error_iff.mpr (.inl herror)⟩
  | none =>
    rw [hmisfit] at h
    obtain ⟨n, hn, -, rfl⟩ := h
    exact hnext n hn

/-- **A total is exact, or the first part that has none is reported.** -/
theorem total_comesOut {e : Expr (List Int)} (h : e.IsSensible) :
    ComesOut e.misfit? e.value? e.total := by
  induction e with
  | number n =>
    have hexact : (Expr.number n).isExact = true := decide_eq_true h
    rw [Expr.misfit?, Expr.nodes, List.find?_cons, hexact]
    exact ⟨n, rfl, h, rfl⟩
  | dice values =>
    have hsum : values.foldl (· + ·) 0 = values.sum := List.sum_eq_foldl.symm
    rw [Expr.total, Expr.totalWith, rolledTotal, hsum]
    exact comesOut_own rfl rfl
  | unary sign operand ih =>
    obtain ⟨rfl, hoperand⟩ := h
    refine (ih hoperand).bind fun n hn => ?_
    have hvalue : (Expr.unary .minus operand).value? = some (-n) := by
      rw [Expr.value?, hn]
      rfl
    refine comesOut_own hvalue ?_
    rw [Expr.complaint?, hvalue]
    rfl
  | binary left op right ihl ihr =>
    obtain ⟨hop, hleft, hright⟩ := h
    obtain ⟨apply, hmeaning⟩ := meaning_of_symbol hop
    have htotal : (Expr.binary left op right).total = (do
        let x ← left.total
        let y ← right.total
        let n ← (apply x y).mapError .arithmetic
        fitting (fun _ => (Expr.binary left op right).display) n) := by
      rw [Expr.total, Expr.totalWith, hmeaning]
      rfl
    rw [Expr.misfit?, Expr.nodes, htotal]
    refine (ihl hleft).bind fun x hx => ?_
    exact (ihr hright).bind fun y hy => comesOut_binary hmeaning hx hy

/-- The total of a tree that was read fails only in its arithmetic. -/
theorem arithmetic_of_total {e : Expr Throw} (he : IsWritable e) {values : List Int}
    {f : TotalFault} (h : (e.fill values).total = .error f) : ∃ a, f = .arithmetic a := by
  have hcomes := total_comesOut (isSensible_fill he values)
  rw [h] at hcomes
  cases hmisfit : (e.fill values).misfit? with
  | none =>
    rw [hmisfit] at hcomes
    obtain ⟨n, -, -, hok⟩ := hcomes
    cases hok
  | some node =>
    rw [hmisfit] at hcomes
    obtain ⟨a, -, herror⟩ := hcomes
    exact ⟨a, Except.error.inj herror⟩

/-! ## Rolls -/

section

variable {ρ σ : Type} {g : Generator ρ} {log : RollLog σ} {who : Roller}

/-- The tree that is built for a formula is that of the formula with values at its leaves. -/
theorem fill_of_evaluate {e : Expr Throw} (hfaces : ∀ t ∈ e.leaves, 1 ≤ t.faces)
    {t last : Table ρ σ} {rolled : Expr (List Int)}
    (h : evaluate g log who e t = .ok rolled last) :
    ∃ values, values.length = e.row.length ∧ rolled = e.fill values := by
  rw [evaluate_eq hfaces, rollTree_eq e hfaces] at h
  cases hrow : rollRow g log who e.row t with
  | ok values after =>
    rw [hrow] at h
    obtain ⟨rfl, rfl⟩ := EStateM.Result.ok.inj h
    exact ⟨values, length_rollRow hrow, rfl⟩
  | error fault after =>
    rw [hrow] at h
    cases h

theorem evaluate_of_honest (hg : g.Honest) {e : Expr Throw} (hfaces : ∀ t ∈ e.leaves, 1 ≤ t.faces)
    {t : Table ρ σ} (hlog : log.IsLenient t.log) :
    ∃ rolled last, evaluate g log who e t = .ok rolled last := by
  rw [evaluate_eq hfaces, rollTree_eq e hfaces, rollRow_eq e.row hlog,
    if_pos (cast_whole hg (faces_pos_of_row hfaces) t.source)]
  exact ⟨_, _, rfl⟩

/-- **Totals are exact or refused.** With an honest source and a lenient log a formula that is
admitted is built into a tree of the same shape. Any tree that is built for it has its value in the
integers as total if all its parts have values that fit. If not, the first part that has none is
reported, and nothing else can go wrong. -/
theorem roll_exact (hg : g.Honest) {t : Table ρ σ} {allowed : Option Int} {formula : String}
    {e : Expr Throw} (h : admitted allowed formula = .ok e) :
    (log.IsLenient t.log → ∃ rolled last, evaluate g log who e t = .ok rolled last) ∧
    ∀ rolled last, evaluate g log who e t = .ok rolled last →
      rolled.map List.length = e.map Throw.number ∧
      match rolled.misfit? with
      | none => ∃ n, rolled.value? = some n ∧ Arithmetic.Fits n ∧ rolled.total = .ok n ∧
          roll g log who allowed formula t =
            .ok ⟨formula, rolled, rolled.display, n, last.unrecorded⟩ last
      | some node => ∃ f, node.complaint? = some f ∧ rolled.total = .error (.arithmetic f) ∧
          roll g log who allowed formula t = .error (.total (.arithmetic f)) last := by
  obtain ⟨hread, hrefusal⟩ := admitted_eq_ok_iff.mp h
  have hfaces := faces_pos_of_refusal hrefusal
  refine ⟨fun hlog => evaluate_of_honest hg hfaces hlog, fun rolled last hbuilt => ?_⟩
  obtain ⟨values, hlength, rfl⟩ := fill_of_evaluate hfaces hbuilt
  refine ⟨(fill_spec e hlength).1, ?_⟩
  have hroll : roll g log who allowed formula t = conclude formula (e.fill values) last := by
    rw [roll_eq_admitted, h]
    rw [evaluate_eq hfaces] at hbuilt
    exact run_of_ok hbuilt
  have hcomes := total_comesOut (isSensible_fill (isWritable_of_read hread) values)
  rw [hroll]
  cases hmisfit : (e.fill values).misfit? with
  | none =>
    rw [hmisfit] at hcomes
    obtain ⟨n, hn, hfits, htotal⟩ := hcomes
    refine ⟨n, hn, hfits, htotal, ?_⟩
    rw [conclude, htotal]
    rfl
  | some node =>
    rw [hmisfit] at hcomes
    obtain ⟨f, hf, htotal⟩ := hcomes
    refine ⟨f, hf, htotal, ?_⟩
    rw [conclude, htotal]
    rfl

/-- An overflow on the way to a total that would fit again. -/
theorem roll_exact_overflow :
    let who : Roller := ⟨7, ⟨2024, 5, 1, 12, 0, 0, 0, some 0⟩⟩
    let e : Expr Throw :=
      .binary (.binary (.number 9223372036854775807) .add (.dice ⟨1, 6⟩)) .sub (.number 9)
    let rolled : Expr (List Int) :=
      .binary (.binary (.number 9223372036854775807) .add (.dice [3])) .sub (.number 9)
    let roll := roll Source.congruence MemoryLog.log who (some 500) "9223372036854775807 + 1d6 - 9"
    admitted (some 500) "9223372036854775807 + 1d6 - 9" = .ok e ∧
      rolled.value? = some 9223372036854775801 ∧
      rolled.misfit? = some (.binary (.number 9223372036854775807) .add (.dice [3])) ∧
      ∃ last, evaluate Source.congruence MemoryLog.log who e ⟨5, {}, []⟩ = .ok rolled last ∧
        roll ⟨5, {}, []⟩ = .error (.total (.arithmetic
          (.overflow "9223372036854775807 + [3]" 9223372036854775810))) last := by
  intro who e rolled roll
  have hadmitted : admitted (some 500) "9223372036854775807 + 1d6 - 9" = .ok e := by decide +kernel
  have hmisfit : rolled.misfit? =
      some (.binary (.number 9223372036854775807) .add (.dice [3])) := by decide +kernel
  have hanswer : answer? (evaluate Source.congruence MemoryLog.log who e ⟨5, {}, []⟩) =
      some rolled := by decide +kernel
  have hbuilt := eq_ok_of_answer? hanswer
  obtain ⟨-, hspec⟩ := (roll_exact Source.congruence_honest hadmitted).2 rolled _ hbuilt
  rw [hmisfit] at hspec
  obtain ⟨f, hf, -, hroll⟩ := hspec
  obtain rfl : Arithmetic.Fault.overflow "9223372036854775807 + [3]" 9223372036854775810 = f :=
    Option.some.inj (Eq.trans (by decide +kernel) hf)
  exact ⟨hadmitted, by decide +kernel, hmisfit, _, hbuilt, hroll⟩

end

end DiceLedger
