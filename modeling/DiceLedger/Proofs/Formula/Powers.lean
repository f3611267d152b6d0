import DiceLedger.Formula.Powers
import DiceLedger.Proofs.Formula.Reading

/-!
# Powers and levels agree

Reading by powers keeps what is still open in its calls, the one-pass reader in its levels. A
call of some power stands for a level in which nothing waits that only an operator above that
power could join: this is `Frame`. Under it a call and the reader take the same tokens and
leave the same tree, and they refuse the same token in the same words.
-/

namespace DiceLedger.Formula

open Powers

variable {length power : Nat} {leading : Bool} {level other : Level} {outer : List Level}
  {s : Symbol} {op : Operator}

/-! ## The powers of tokens -/

theorem power_of_operator (hs : s.operator? = some op) :
    s.power = if op.isProduct then Symbol.times.power else Symbol.plus.power := by
  cases s <;> cases hs <;> rfl

theorem exists_operator_of_power {lexeme : Lexeme} (h : power < lexeme.power) :
    ∃ s op, lexeme = .symbol s ∧ s.operator? = some op := by
  cases lexeme with
  | symbol s =>
    cases s with
    | opening | closing => exact absurd h (Nat.not_lt_zero _)
    | _ => exact ⟨_, _, rfl, rfl⟩
  | _ => exact absurd h (Nat.not_lt_zero _)

/-- A token that binds nothing is no operator. -/
theorem operator?_of_power {lexeme : Lexeme} (h : lexeme.power ≤ 0) :
    lexeme.operator? = none := by
  cases lexeme with
  | symbol s =>
    cases s with
    | opening | closing => rfl
    | _ => exact absurd h (Nat.not_le_of_lt (Nat.zero_lt_succ _))
  | _ => rfl

theorem Lexeme.power_le (l : Lexeme) : l.power ≤ Symbol.times.power := by
  cases l with
  | symbol s => cases s <;> decide
  | _ => exact Nat.zero_le _

/-! ## Levels behind an operand -/

/-- What a state makes of the tokens that are left. -/
def State.run (length : Nat) (s : State) (tokens : List Token) : Except Fault (Expr Throw) := do
  (← tokens.foldlM State.read s).finish length

theorem run_cons (s : State) (token : Token) (tokens : List Token) :
    s.run length (token :: tokens) = s.read token >>= (·.run length tokens) := by
  rw [State.run, List.foldlM_cons, bind_assoc]
  rfl

theorem extend_congr {x y : Expr Throw} (hs : s.operator? = some op)
    (hclose : level.close x = other.close y)
    (hproduct : Symbol.plus.power < s.power →
      level.sum = other.sum ∧ join level.product x = join other.product y) :
    level.extend x op = other.extend y op := by
  rw [Level.extend, Level.extend, hclose]
  split
  · next hop =>
    have hpower : Symbol.plus.power < s.power := by
      rw [power_of_operator hs, if_pos hop]
      decide
    obtain ⟨hsum, hjoin⟩ := hproduct hpower
    rw [hsum, hjoin]
  · rfl

/-- Behind an operand it matters what its level would close to and, before an operator of
products, what waits in the level; else nothing of the level does. -/
theorem run_ended_congr {tokens : List Token} {x y : Expr Throw}
    (hclose : level.close x = other.close y)
    (hproduct : Symbol.plus.power < (ahead length tokens).power →
      level.sum = other.sum ∧ join level.product x = join other.product y) :
    (State.ended level x outer).run length tokens =
      (State.ended other y outer).run length tokens := by
  cases tokens with
  | nil => cases outer <;> simp [State.run, State.finish, hclose]
  | cons token tokens =>
    obtain ⟨lexeme, position⟩ := token
    have hread : (State.ended level x outer).read ⟨lexeme, position⟩ =
        (State.ended other y outer).read ⟨lexeme, position⟩ := by
      cases lexeme with
      | number digits => cases outer <;> rfl
      | dice count faces => cases outer <;> rfl
      | symbol s =>
        cases hs : s.operator? with
        | some op =>
          rw [read_operator rfl hs, read_operator rfl hs, extend_congr hs hclose hproduct]
        | none =>
          -- Only a closing parenthesis leads on, with the level closed.
          cases s <;> cases hs <;> cases outer <;>
            simp [State.read, endOperand, Symbol.operator?, hclose]
    rw [run_cons, run_cons, hread]

/-- A level in which nothing waits that only an operator above a power could join. -/
structure Frame (power : Nat) (level : Level) : Prop where
  sum : power < Symbol.plus.power → level.sum = none
  product : power < Symbol.times.power → level.product = none ∧ ¬ level.negated

theorem frame_empty : Frame power {} := ⟨fun _ => rfl, fun _ => ⟨rfl, Bool.false_ne_true⟩⟩

theorem frame_negated : Frame negationPower { negated := true } := by
  constructor <;> intro h <;> revert h <;> decide

theorem Frame.signed (h : Frame power level) (hpower : power < Symbol.times.power)
    (x : Expr Throw) : level.signed x = x := by
  rw [Level.signed, if_neg (h.product hpower).2]

/-- The level that an operator makes waits for an expression of its power. -/
theorem frame_extend (hs : s.operator? = some op) (x : Expr Throw) :
    Frame s.power (level.extend x op) := by
  rw [power_of_operator hs, Level.extend]
  split
  · exact ⟨fun h => absurd h (by decide), fun h => absurd h (Nat.lt_irrefl _)⟩
  · exact ⟨fun h => absurd h (Nat.lt_irrefl _), fun _ => ⟨rfl, Bool.false_ne_true⟩⟩

/-- An operation that has been read is itself an operand of the level it was made in. -/
theorem run_operation (h : Frame power level) (hs : s.operator? = some op)
    (hpower : power < s.power) {x y : Expr Throw} {tokens : List Token}
    (hahead : (ahead length tokens).power ≤ s.power) :
    (State.ended (level.extend x op) ((level.extend x op).signed y) outer).run length tokens =
      (State.ended level (.binary x op y) outer).run length tokens := by
  by_cases hop : op.isProduct
  · rw [power_of_operator hs, if_pos hop] at hpower
    have hproduct := (h.product hpower).1
    apply run_ended_congr <;> simp [Level.extend, Level.signed, Level.close, hop, hproduct, join]
  · rw [power_of_operator hs, if_neg hop] at hpower hahead
    have hsum := h.sum hpower
    have hproduct := (h.product (hpower.trans (by decide))).1
    refine run_ended_congr ?_ fun hmore => absurd hahead (Nat.not_le_of_lt hmore)
    simp [Level.extend, Level.signed, Level.close, hop, hsum, hproduct, join]

/-! ## What is ahead of an expression -/

/-- Nothing that could still be joined is left ahead. -/
theorem power_ahead_of_extended {tokens : List Token} {left : Expr Throw} {reading : Reading tokens}
    (h : extended length power left tokens = .ok reading) :
    (ahead length reading.rest).power ≤ power := by
  match tokens with
  | [] =>
    rw [extended] at h
    cases h
    exact Nat.zero_le _
  | token :: rest =>
    rw [extended] at h
    split at h
    · obtain ⟨longer, -, h⟩ := bind_eq_ok_iff.mp h
      obtain ⟨whole, hwhole, h⟩ := bind_eq_ok_iff.mp h
      cases h
      show (ahead length whole.rest).power ≤ power
      exact power_ahead_of_extended hwhole
    · next hpower =>
      cases h
      exact Nat.not_lt.mp hpower
  termination_by tokens.length
  decreasing_by exact Nat.lt_succ_of_le longer.shorter

theorem power_ahead_of_expression {tokens : List Token} {reading : Reading tokens}
    (h : expression length power leading tokens = .ok reading) :
    (ahead length reading.rest).power ≤ power := by
  cases tokens with
  | nil =>
    rw [expression] at h
    cases h
  | cons token rest =>
    rw [expression] at h
    obtain ⟨operand, -, h⟩ := bind_eq_ok_iff.mp h
    obtain ⟨whole, hwhole, h⟩ := bind_eq_ok_iff.mp h
    cases h
    show (ahead length whole.rest).power ≤ power
    exact power_ahead_of_extended hwhole

/-! ## A call for a level -/

/-- The reader behind what was read as the last operand of a level. -/
def behind (length : Nat) (level : Level) (outer : List Level) {tokens : List Token}
    (reading : Reading tokens) : Except Fault (Expr Throw) :=
  (State.ended level (level.signed reading.tree) outer).run length reading.rest

/-- A closing parenthesis leads back to the level outside; all else that can stand behind a
whole expression is refused in its place. -/
theorem behind_closed {tokens : List Token} {reading : Reading tokens}
    (hahead : (ahead length reading.rest).power ≤ 0) :
    behind length {} (level :: outer) reading =
      reading.closed length >>= behind length level outer := by
  obtain ⟨tree, rest, h⟩ := reading
  cases rest with
  | nil => rfl
  | cons token rest =>
    obtain ⟨lexeme, position⟩ := token
    have hoperator : lexeme.operator? = none := operator?_of_power hahead
    cases lexeme with
    | symbol s =>
      cases s with
      | opening | closing => rfl
      | _ => cases hoperator
    | _ => rfl

/-! The induction follows the calls, on the number of tokens that are left. -/

mutual

/-- Where a level awaits an operand, the reader takes an expression of its power. -/
theorem run_expression {power : Nat} {leading : Bool} {level : Level} (hframe : Frame power level)
    (hlead : leading → level = {}) (outer : List Level) : (tokens : List Token) →
    (State.awaiting leading level outer).run length tokens =
      expression length power leading tokens >>= behind length level outer
  | [] => by
    rw [expression]
    rfl
  | token :: rest => by
    rw [expression, run_begun hlead outer token rest, bind_assoc]
    refine bind_congr fun operand => ?_
    rw [behind, run_extended hframe outer operand.tree operand.rest, bind_assoc]
    rfl
  termination_by tokens => (tokens.length, 0)
  decreasing_by
  · exact .left _ _ (Nat.lt_succ_self _)
  · exact .left _ _ (Nat.lt_succ_of_le operand.shorter)

/-- A token begins for the reader what it begins by its powers. Only an empty level may lead
with a minus. -/
theorem run_begun {leading : Bool} {level : Level} (hlead : leading → level = {})
    (outer : List Level) (token : Token) (rest : List Token) :
    (State.awaiting leading level outer).run length (token :: rest) =
      begun length leading token rest >>= behind length level outer := by
  obtain ⟨lexeme, position⟩ := token
  rw [run_cons, begun]
  cases lexeme with
  | number digits =>
    dsimp only [State.read, beginOperand]
    cases readNumber digits <;> rfl
  | dice count faces =>
    dsimp only [State.read, beginOperand]
    cases readThrow count faces <;> rfl
  | symbol s =>
    cases s with
    | opening =>
      -- What stands in parentheses is read on a level of its own.
      show (State.awaiting true {} (level :: outer)).run length rest =
        (expression length 0 true rest >>= Reading.closed length) >>= behind length level outer
      rw [run_expression frame_empty fun _ => rfl, bind_assoc]
      cases h : expression length 0 true rest with
      | error f => rfl
      | ok reading => exact behind_closed (power_ahead_of_expression h)
    | minus =>
      cases leading with
      | false => rfl
      | true =>
        -- The level keeps the minus until its operand has ended, and is then as it was.
        obtain rfl := hlead rfl
        show (State.awaiting false { negated := true } outer).run length rest =
          (expression length negationPower false rest).map (·.mapTree (.unary .minus)) >>=
            behind length {} outer
        rw [run_expression frame_negated fun h => absurd h Bool.false_ne_true]
        cases expression length negationPower false rest with
        | error f => rfl
        | ok reading => exact run_ended_congr rfl fun _ => ⟨rfl, rfl⟩
    | _ => rfl
  termination_by (rest.length, 1)

/-- An operator above the power of a level makes, with the right side that is read for it, one
operand of the level. -/
theorem run_continued {power : Nat} {level : Level} (hframe : Frame power level)
    (outer : List Level) (left : Expr Throw) (token : Token) (rest : List Token)
    (hpower : power < token.lexeme.power) :
    (State.ended level left outer).run length (token :: rest) =
      continued length left token rest >>= fun reading =>
        (State.ended level reading.tree outer).run length reading.rest := by
  obtain ⟨lexeme, position⟩ := token
  obtain ⟨s, op, rfl, hs⟩ := exists_operator_of_power hpower
  rw [run_cons, read_operator rfl hs, continued]
  simp only [Lexeme.operator?, Lexeme.power, hs]
  show (State.awaiting false (level.extend left op) outer).run length rest =
    (expression length s.power false rest).map (·.mapTree (.binary left op)) >>= _
  rw [run_expression (frame_extend hs left) fun h => absurd h Bool.false_ne_true]
  cases h : expression length s.power false rest with
  | error f => rfl
  | ok reading => exact run_operation hframe hs hpower (power_ahead_of_expression h)
  termination_by (rest.length, 1)

/-- Behind an operand the reader goes on as long as the token ahead binds tighter. -/
theorem run_extended {power : Nat} {level : Level} (hframe : Frame power level)
    (outer : List Level) (left : Expr Throw) : (tokens : List Token) →
    (State.ended level (level.signed left) outer).run length tokens =
      extended length power left tokens >>= behind length level outer
  | [] => by
    rw [extended]
    rfl
  | token :: rest => by
    rw [extended]
    split
    · next hpower =>
      have hsigned := hframe.signed (hpower.trans_le (Lexeme.power_le _))
      rw [hsigned, run_continued hframe outer left token rest hpower, bind_assoc]
      refine bind_congr fun longer => ?_
      have hwhole := run_extended hframe outer longer.tree longer.rest
      rw [hsigned] at hwhole
      rw [hwhole, bind_assoc]
      rfl
    · rfl
  termination_by tokens => (tokens.length, 0)
  decreasing_by
  · exact .left _ _ (Nat.lt_succ_self _)
  · exact .left _ _ (Nat.lt_succ_of_le longer.shorter)

end

namespace Powers

/-- **Both readers make the same of every list of tokens.** -/
theorem parse_eq_readTokens (length : Nat) (tokens : List Token) :
    parse length tokens = readTokens length tokens := by
  have hrun : readTokens length tokens = expression length 0 true tokens >>= behind length {} [] :=
    run_expression frame_empty (fun _ => rfl) [] tokens
  rw [hrun, parse]
  cases h : expression length 0 true tokens with
  | error f => rfl
  | ok whole =>
    have hahead := power_ahead_of_expression h
    obtain ⟨tree, rest, hshorter⟩ := whole
    cases rest with
    | nil => rfl
    | cons token rest =>
      obtain ⟨lexeme, position⟩ := token
      have hoperator : lexeme.operator? = none := operator?_of_power hahead
      cases lexeme with
      | symbol s =>
        cases s with
        | opening | closing => rfl
        | _ => cases hoperator
      | _ => rfl

/-- Both readers make the same of every formula: the same tree, or the same fault. -/
theorem read_eq (formula : String) : Powers.read formula = Formula.read formula := by
  rw [Powers.read, Formula.read]
  split
  · rfl
  · exact bind_congr fun tokens => parse_eq_readTokens _ tokens

end Powers

end DiceLedger.Formula
