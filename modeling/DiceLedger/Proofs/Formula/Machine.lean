import DiceLedger.Formula.Grammar
import DiceLedger.Proofs.Outcome
import DiceLedger.Proofs.Formula.Lexing

/-!
# The one-pass reader against the grammar

The reader keeps a stack of open levels; the grammar is a relation on lexemes. `Holds` says
which lexemes a state stands for, and every accepted token preserves it. In the other
direction `Reads` follows a derivation through the reader. Positions matter to neither: only
faults name them.
-/
namespace DiceLedger.Formula

open DiceLedger.Text

/-- The lexemes of a sum that waits for its right side. -/
inductive WaitSum : Option (Expr Throw × Operator) → List Lexeme → Prop
  | none : WaitSum none []
  | some {ls : List Lexeme} {l : Expr Throw} {s : Symbol} {op : Operator}
      (hl : Denotes .sum ls l) (hs : s.operator? = some op) (hop : ¬ op.isProduct) :
      WaitSum (some (l, op)) (ls ++ [.symbol s])

/-- The lexemes of a product that waits for its right side. -/
inductive WaitProduct (first : Bool) : Option (Expr Throw × Operator) → List Lexeme → Prop
  | none : WaitProduct first none []
  | some {ls : List Lexeme} {l : Expr Throw} {s : Symbol} {op : Operator}
      (hl : Denotes (.product first) ls l) (hs : s.operator? = some op) (hop : op.isProduct) :
      WaitProduct first (some (l, op)) (ls ++ [.symbol s])

/-- The lexemes of a level that waits for an operand. -/
inductive Waits : Level → List Lexeme → Prop
  | plain {sum product : Option (Expr Throw × Operator)} {ls rs : List Lexeme}
      (hs : WaitSum sum ls) (hp : WaitProduct sum.isNone product rs) :
      Waits { sum, product, negated := false } (ls ++ rs)
  | negated : Waits { negated := true } [.symbol .minus]

/-- The lexemes of a level up to the operand that has just ended. -/
structure Ended (level : Level) (e : Expr Throw) (ls : List Lexeme) : Prop where
  split : ∃ before rest, ls = before ++ rest ∧ WaitSum level.sum before ∧
    Denotes (.product level.sum.isNone) rest (join level.product e)

/-- The lexemes of the open levels, each up to its opening parenthesis. -/
inductive Around : List Level → List Lexeme → Prop
  | nil : Around [] []
  | cons {level : Level} {outer : List Level} {ls rs : List Lexeme} (ho : Around outer ls)
      (hl : Waits level rs) : Around (level :: outer) (ls ++ rs ++ [.symbol .opening])

/-- The lexemes that a state stands for. Only an empty level is open to a minus. -/
inductive Holds : State → List Lexeme → Prop
  | awaiting {first : Bool} {level : Level} {outer : List Level} {ls rs : List Lexeme}
      (hfirst : first → level = {}) (ho : Around outer ls) (hl : Waits level rs) :
      Holds (.awaiting first level outer) (ls ++ rs)
  | ended {level : Level} {e : Expr Throw} {outer : List Level} {ls rs : List Lexeme}
      (ho : Around outer ls) (hl : Ended level e rs) : Holds (.ended level e outer) (ls ++ rs)

theorem waits_empty : Waits {} [] := .plain .none .none

theorem holds_start : Holds .start [] := .awaiting (fun _ => rfl) .nil waits_empty

theorem ended_of_operand {level : Level} {ls rs : List Lexeme} {e : Expr Throw}
    (hl : Waits level ls) (he : Denotes .operand rs e) :
    Ended level (level.signed e) (ls ++ rs) := by
  cases hl with
  | negated => exact ⟨[], _, rfl, .none, .negated he⟩
  | @plain sum product ls ps hs hp =>
    cases hp with
    | none => exact ⟨ls, rs, by simp, hs, .factor he⟩
    | @some ps l s op hl hsym hop =>
      exact ⟨ls, ps ++ .symbol s :: rs, by simp, hs, .times hsym hop hl he⟩

theorem denotes_close {level : Level} {e : Expr Throw} {ls : List Lexeme}
    (h : Ended level e ls) : Denotes .sum ls (level.close e) := by
  obtain ⟨sum, product, negated⟩ := level
  obtain ⟨before, rest, rfl, hs, hr⟩ := h
  cases hs with
  | none => exact .term hr
  | @some ls l s op hl hsym hop =>
    rw [List.append_assoc]
    exact .plus hsym hop hl hr

theorem waits_extend {level : Level} {e : Expr Throw} {ls : List Lexeme} {s : Symbol}
    {op : Operator} (h : Ended level e ls) (hs : s.operator? = some op) :
    Waits (level.extend e op) (ls ++ [.symbol s]) := by
  by_cases hop : op.isProduct
  · obtain ⟨before, rest, rfl, hb, hr⟩ := h
    rw [Level.extend, if_pos hop, List.append_assoc]
    exact .plain hb (.some hr hs hop)
  · rw [Level.extend, if_neg hop, ← List.append_nil (ls ++ [_])]
    exact .plain (.some (denotes_close h) hs hop) .none

/-! ## Operands of one token -/

theorem readNumber_eq_ok_iff {digits : List Char} {e : Expr Throw} :
    readNumber digits = .ok e ↔
      digits.length ≤ digitLimit ∧ value digits ≤ largestNumber ∧ e = .number (value digits) := by
  simp only [readNumber, readDigits, bind, Except.bind]
  by_cases hl : digitLimit < digits.length
  · simp [hl, Nat.not_le.mpr hl]
  · by_cases hv : largestNumber < value digits
    · simp [hl, hv, Nat.not_le.mpr hv]
    · simp [hl, hv, Nat.not_lt.mp hl, Nat.not_lt.mp hv, eq_comm]

theorem readThrow_eq_ok_iff {count faces : List Char} {e : Expr Throw} :
    readThrow count faces = .ok e ↔
      (count.length ≤ digitLimit ∧ faces.length ≤ digitLimit) ∧
      (value count ≤ largestThrow ∧ value faces ≤ largestThrow) ∧
      e = .dice ⟨value count, value faces⟩ := by
  simp only [readThrow, readDigits, bind, Except.bind]
  by_cases hc : digitLimit < count.length
  · simp [hc, Nat.not_le.mpr hc]
  · by_cases hf : digitLimit < faces.length
    · simp [hc, hf, Nat.not_le.mpr hf]
    · by_cases hn : largestThrow < value count
      · simp [hc, hf, hn, Nat.not_le.mpr hn]
      · by_cases hm : largestThrow < value faces
        · simp [hc, hf, hn, hm, Nat.not_le.mpr hm]
        · simp [hc, hf, hn, hm, Nat.not_lt.mp hc, Nat.not_lt.mp hf, Nat.not_lt.mp hn,
            Nat.not_lt.mp hm, eq_comm]

/-! ## Soundness: what has been read is what the state holds -/

theorem holds_beginOperand {first : Bool} {level : Level} {outer : List Level} {t : Token}
    {s : State} {ls : List Lexeme} (h : Holds (.awaiting first level outer) ls)
    (hr : beginOperand first level outer t = .ok s) : Holds s (ls ++ [t.lexeme]) := by
  obtain ⟨lexeme, position⟩ := t
  cases h with
  | @awaiting _ _ _ os rs hfirst ho hl =>
    cases lexeme with
    | number digits =>
      obtain ⟨e, he, rfl⟩ := map_eq_ok_iff.mp hr
      obtain ⟨-, -, rfl⟩ := readNumber_eq_ok_iff.mp he
      rw [List.append_assoc]
      exact .ended ho (ended_of_operand hl .number)
    | dice count faces =>
      obtain ⟨e, he, rfl⟩ := map_eq_ok_iff.mp hr
      obtain ⟨-, -, rfl⟩ := readThrow_eq_ok_iff.mp he
      rw [List.append_assoc]
      exact .ended ho (ended_of_operand hl .dice)
    | symbol c =>
      cases c with
      | opening =>
        cases hr
        rw [← List.append_nil (os ++ rs ++ _)]
        exact .awaiting (fun _ => rfl) (.cons ho hl) waits_empty
      | minus =>
        cases first with
        | false => cases hr
        | true =>
          cases hr
          obtain rfl := hfirst rfl
          cases hl with
          | plain hs hp =>
            cases hs
            cases hp
            have hnext : Holds (.awaiting false { negated := true } outer)
                (os ++ [.symbol .minus]) := .awaiting nofun ho .negated
            simpa using hnext
      | _ => cases hr

theorem holds_endOperand {level : Level} {e : Expr Throw} {outer : List Level} {t : Token}
    {s : State} {ls : List Lexeme} (h : Holds (.ended level e outer) ls)
    (hr : endOperand level e outer t = .ok s) : Holds s (ls ++ [t.lexeme]) := by
  obtain ⟨lexeme, position⟩ := t
  cases h with
  | @ended _ _ _ os rs ho hl =>
    have extended {c : Symbol} {op : Operator} (hop : c.operator? = some op)
        (hs : State.awaiting false (level.extend e op) outer = s) :
        Holds s (os ++ rs ++ [.symbol c]) := by
      rw [← hs, List.append_assoc]
      exact .awaiting nofun ho (waits_extend hl hop)
    cases lexeme with
    | number digits => cases outer <;> cases hr
    | dice count faces => cases outer <;> cases hr
    | symbol c =>
      cases c with
      | closing =>
        cases outer with
        | nil => cases hr
        | cons up outer =>
          cases hr
          cases ho with
          | @cons _ _ us vs ho hup =>
            have hgroup := Denotes.group (denotes_close hl)
            have hended := ended_of_operand hup hgroup
            simpa [bracketed] using Holds.ended ho hended
      | opening => cases outer <;> cases hr
      | plus => cases outer <;> exact extended rfl (Except.ok.inj hr)
      | minus => cases outer <;> exact extended rfl (Except.ok.inj hr)
      | times => cases outer <;> exact extended rfl (Except.ok.inj hr)
      | divide => cases outer <;> exact extended rfl (Except.ok.inj hr)
      | modulo => cases outer <;> exact extended rfl (Except.ok.inj hr)

/-- Every accepted token is added to what the state holds. -/
theorem holds_read {s s' : State} {t : Token} {ls : List Lexeme} (h : Holds s ls)
    (hr : s.read t = .ok s') : Holds s' (ls ++ [t.lexeme]) := by
  cases s with
  | awaiting first level outer => exact holds_beginOperand h hr
  | ended level e outer => exact holds_endOperand h hr

theorem holds_foldlM {tokens : List Token} :
    ∀ {s s' : State} {ls : List Lexeme}, Holds s ls → tokens.foldlM State.read s = .ok s' →
      Holds s' (ls ++ tokens.map (·.lexeme)) := by
  induction tokens with
  | nil =>
    intro s s' ls h hr
    obtain rfl := Except.ok.inj hr
    simpa using h
  | cons t tokens ih =>
    intro s s' ls h hr
    rw [List.foldlM_cons] at hr
    obtain ⟨mid, hmid, hrest⟩ := bind_eq_ok_iff.mp hr
    simpa using ih (holds_read h hmid) hrest

/-- The reader only ever builds trees that the lexemes denote. -/
theorem denotes_of_readTokens {length : Nat} {tokens : List Token} {e : Expr Throw}
    (h : readTokens length tokens = .ok e) : Denotes .sum (tokens.map (·.lexeme)) e := by
  obtain ⟨s, hs, hfinish⟩ := bind_eq_ok_iff.mp h
  have hholds := holds_foldlM holds_start hs
  rw [List.nil_append] at hholds
  generalize tokens.map (·.lexeme) = ls at hholds ⊢
  cases s with
  | awaiting first level outer => cases hfinish
  | ended level operand outer =>
    cases outer with
    | cons up outer => cases hfinish
    | nil =>
      cases hfinish
      cases hholds with
      | ended ho hl =>
        cases ho
        exact denotes_close hl

end DiceLedger.Formula
