import DiceLedger.Formula.Spacing
import DiceLedger.Proofs.Formula.Reading

/-!
# Formulas with too many digits

The reader has three kinds of faults. Those of grammar and of size are a matter of dice, and are
answered. The third is no matter of dice: a run of more digits than can be read. Here is which
formulas have it. The token with the run must stand where an operand may, and every token before
it must be readable, since the first fault of a formula is the one that is told.
-/
namespace DiceLedger.Formula

open DiceLedger.Text

/-- Lexemes behind which an operand may stand: a zero and some closing parentheses make a
formula of them. -/
def AwaitsOperand (ls : List Lexeme) : Prop :=
  ∃ n, Formed .formula (ls ++ .number ['0'] :: List.replicate n (.symbol .closing))

/-- An operand of a formula, which can be read up to there, has more digits than can be read. -/
def Overlong (formula : String) : Prop :=
  ∃ done t rest, scan formula = .ok (done ++ t :: rest) ∧ (∀ u ∈ done, u.lexeme.IsReadable) ∧
    AwaitsOperand (done.map (·.lexeme)) ∧ ¬t.lexeme.IsShort

/-- No token of a formula with short runs of digits is overlong. -/
theorem not_overlong_of_shortRuns {formula : String} (h : ShortRuns formula.toList) :
    ¬Overlong formula := by
  rintro ⟨done, t, rest, hscan, -, -, hlong⟩
  exact hlong (isShort_of_scan h hscan t (by simp))

/-! ## Where the reader awaits an operand -/

theorem isReadable_zero : (Lexeme.number ['0']).IsReadable := by
  have hrange : value ['0'] ≤ largestNumber := by decide
  have hshort : ['0'].length ≤ digitLimit := by decide
  exact ⟨hrange, by simpa [Lexeme.IsShort, Lexeme.runs] using hshort⟩

theorem isReadable_symbol (s : Symbol) : (Lexeme.symbol s).IsReadable :=
  ⟨trivial, by simp [Lexeme.IsShort, Lexeme.runs]⟩

theorem awaiting_of_read_operand {s s' : State} {t : Token} (hop : t.lexeme.isOperand)
    (h : s.read t = .ok s') : ∃ first level outer, s = .awaiting first level outer := by
  cases s with
  | awaiting first level outer => exact ⟨first, level, outer, rfl⟩
  | ended level e outer =>
    obtain ⟨lexeme, position⟩ := t
    cases lexeme with
    | symbol s => cases hop
    | _ => cases outer <;> cases h

/-- As many closing parentheses as levels are open end a formula. -/
theorem ended_of_closings (outer : List Level) :
    ∀ (level : Level) (e : Expr Throw), ∃ last e',
      (List.replicate outer.length ⟨.symbol .closing, 0⟩).foldlM State.read
        (.ended level e outer) = .ok (.ended last e' []) := by
  induction outer with
  | nil => exact fun level e => ⟨level, e, rfl⟩
  | cons up outer ih => exact fun level e => ih up (up.signed (level.close e))

/-- The reader awaits an operand behind just those lexemes behind which one may stand. -/
theorem foldlM_awaiting_iff {tokens : List Token} :
    (∃ first level outer, tokens.foldlM State.read .start = .ok (.awaiting first level outer)) ↔
      (∀ t ∈ tokens, t.lexeme.IsReadable) ∧ AwaitsOperand (tokens.map (·.lexeme)) := by
  let zero : Token := ⟨.number ['0'], 0⟩
  let closings (n : Nat) : List Token := List.replicate n ⟨.symbol .closing, 0⟩
  have hlexemes (n : Nat) : (tokens ++ zero :: closings n).map (·.lexeme) =
      tokens.map (·.lexeme) ++ .number ['0'] :: List.replicate n (.symbol .closing) := by
    simp [zero, closings]
  constructor
  · rintro ⟨first, level, outer, hread⟩
    obtain ⟨last, e, hclose⟩ := ended_of_closings outer level (level.signed (.number 0))
    have hzero : (State.awaiting first level outer).read zero =
        .ok (.ended level (level.signed (.number 0)) outer) :=
      read_number isReadable_zero first level outer
    have hwhole : readTokens 0 (tokens ++ zero :: closings outer.length) = .ok (last.close e) := by
      rw [readTokens, foldlM_append_ok hread, foldlM_cons_ok hzero, hclose]
      rfl
    obtain ⟨-, hdenotes⟩ := readTokens_eq_ok_iff.mp hwhole
    rw [hlexemes] at hdenotes
    exact ⟨isReadable_of_foldlM hread, outer.length, formed_of_denotes hdenotes⟩
  · rintro ⟨hreadable, n, hformed⟩
    obtain ⟨e, hdenotes⟩ := denotes_of_formed hformed
    rw [← hlexemes] at hdenotes
    have hall : ∀ t ∈ tokens ++ zero :: closings n, t.lexeme.IsReadable := by
      intro t ht
      rcases List.mem_append.mp ht with ht | ht
      · exact hreadable t ht
      rcases List.mem_cons.mp ht with rfl | ht
      · exact isReadable_zero
      · rw [(List.mem_replicate.mp ht).2]
        exact isReadable_symbol .closing
    have hwhole : readTokens 0 (tokens ++ zero :: closings n) = .ok e :=
      readTokens_of_denotes hdenotes hall
    obtain ⟨s, hs, -⟩ := bind_eq_ok_iff.mp hwhole
    obtain ⟨mid, hmid, hrest⟩ := foldlM_append_eq_ok_iff.mp hs
    obtain ⟨_, hzero, -⟩ := bind_eq_ok_iff.mp hrest
    obtain ⟨first, level, outer, rfl⟩ := awaiting_of_read_operand rfl hzero
    exact ⟨first, level, outer, hmid⟩

/-! ## The fault of too many digits -/

theorem not_isOrdinary_tooManyDigits (n : Nat) : ¬(Fault.tooManyDigits n).IsOrdinary := by
  rintro (h | h) <;> cases h

/-- A fault that is neither of grammar nor of size is one of too many digits. -/
theorem Fault.isOrdinary_or (f : Fault) : f.IsOrdinary ∨ ∃ n, f = .tooManyDigits n := by
  cases f with
  | tooManyDigits n => exact .inr ⟨n, rfl⟩
  | numberTooLarge digits => exact .inl (.inr trivial)
  | tooManyDice lexeme => exact .inl (.inr trivial)
  | tooManyFaces lexeme => exact .inl (.inr trivial)
  | _ => exact .inl (.inl rfl)

theorem beginOperand_tooManyDigits {first : Bool} {level : Level} {outer : List Level}
    {t : Token} (h : ¬t.lexeme.IsShort) :
    ∃ n, beginOperand first level outer t = .error (.tooManyDigits n) := by
  obtain ⟨lexeme, position⟩ := t
  cases lexeme with
  | symbol s => exact absurd (isReadable_symbol s).2 h
  | number digits =>
    have hlong : digitLimit < digits.length := by
      simpa [Lexeme.IsShort, Lexeme.runs] using h
    refine ⟨digits.length, ?_⟩
    simp only [beginOperand, readNumber, readDigits, hlong, if_true]
    rfl
  | dice count faces =>
    by_cases hcount : digitLimit < count.length
    · refine ⟨count.length, ?_⟩
      simp only [beginOperand, readThrow, readDigits, hcount, if_true]
      rfl
    · have hfaces : digitLimit < faces.length := by
        by_contra hfaces
        exact h (by simp [Lexeme.IsShort, Lexeme.runs]; omega)
      refine ⟨faces.length, ?_⟩
      simp only [beginOperand, readThrow, readDigits, hcount, hfaces, if_true, if_false]
      rfl

theorem read_tooManyDigits_iff {s : State} {t : Token} :
    (∃ n, s.read t = .error (.tooManyDigits n)) ↔
      (∃ first level outer, s = .awaiting first level outer) ∧ ¬t.lexeme.IsShort := by
  constructor
  · rintro ⟨n, h⟩
    cases s with
    | awaiting first level outer =>
      refine ⟨⟨first, level, outer, rfl⟩, fun hshort => ?_⟩
      exact not_isOrdinary_tooManyDigits n (beginOperand_error h hshort)
    | ended level e outer => exact absurd (endOperand_error h) (not_isOrdinary_tooManyDigits n)
  · rintro ⟨⟨first, level, outer, rfl⟩, hlong⟩
    exact beginOperand_tooManyDigits hlong

theorem readTokens_tooManyDigits_iff {length : Nat} {tokens : List Token} :
    (∃ n, readTokens length tokens = .error (.tooManyDigits n)) ↔
      ∃ done t rest, tokens = done ++ t :: rest ∧ (∀ u ∈ done, u.lexeme.IsReadable) ∧
        AwaitsOperand (done.map (·.lexeme)) ∧ ¬t.lexeme.IsShort := by
  constructor
  · rintro ⟨n, h⟩
    rcases bind_eq_error_iff.mp h with h | ⟨s, -, h⟩
    · obtain ⟨done, t, rest, mid, rfl, hdone, ht⟩ := foldlM_eq_error_iff.mp h
      obtain ⟨⟨first, level, outer, rfl⟩, hlong⟩ := read_tooManyDigits_iff.mp ⟨n, ht⟩
      obtain ⟨hreadable, hawaits⟩ := foldlM_awaiting_iff.mp ⟨first, level, outer, hdone⟩
      exact ⟨done, t, rest, rfl, hreadable, hawaits, hlong⟩
    · exact absurd (finish_error h) (not_isOrdinary_tooManyDigits n)
  · rintro ⟨done, t, rest, rfl, hreadable, hawaits, hlong⟩
    obtain ⟨first, level, outer, hdone⟩ := foldlM_awaiting_iff.mpr ⟨hreadable, hawaits⟩
    obtain ⟨n, ht⟩ := read_tooManyDigits_iff.mpr ⟨⟨first, level, outer, rfl⟩, hlong⟩
    have hfold := foldlM_eq_error_iff.mpr ⟨done, t, rest, _, rfl, hdone, ht⟩
    exact ⟨n, bind_eq_error_iff.mpr (.inl hfold)⟩

/-- **A formula is refused for its digits** exactly when it is overlong. -/
theorem read_tooManyDigits_iff_overlong {formula : String} :
    (∃ n, read formula = .error (.tooManyDigits n)) ↔ Overlong formula := by
  rw [read]
  split
  · next hblank =>
    have hscan : scan formula = .ok [] := scanFrom_blank hblank 0
    constructor
    · rintro ⟨n, h⟩
      cases h
    · rintro ⟨done, t, rest, hscan', -⟩
      rw [hscan] at hscan'
      simp at hscan'
  · cases hscan : scan formula with
    | error f =>
      obtain ⟨c, place, rfl⟩ := scanFrom_error hscan
      constructor
      · rintro ⟨n, h⟩
        cases h
      · rintro ⟨done, t, rest, hscan', -⟩
        rw [hscan] at hscan'
        cases hscan'
    | ok tokens =>
      have htokens : Overlong formula ↔ ∃ done t rest, tokens = done ++ t :: rest ∧
          (∀ u ∈ done, u.lexeme.IsReadable) ∧ AwaitsOperand (done.map (·.lexeme)) ∧
            ¬t.lexeme.IsShort := by
        simp only [Overlong, hscan, Except.ok.injEq]
      rw [htokens]
      exact readTokens_tooManyDigits_iff

/-- Every other fault is one of grammar or of size. -/
theorem isOrdinary_of_read {formula : String} {f : Fault} (hshort : ¬Overlong formula)
    (h : read formula = .error f) : f.IsOrdinary := by
  obtain hordinary | ⟨n, rfl⟩ := f.isOrdinary_or
  · exact hordinary
  · exact absurd (read_tooManyDigits_iff_overlong.mp ⟨n, h⟩) hshort

/-! ## Numbers of ones -/

theorem first_ones (n : Nat) :
    Lexeme.first? (List.replicate (n + 1) '1') = some (.number (List.replicate (n + 1) '1')) := by
  have hdigit : isDigit '1' = true := by decide
  have htake : (List.replicate (n + 1) '1').takeWhile isDigit = List.replicate (n + 1) '1' := by
    simp [hdigit]
  rw [List.replicate_succ] at htake ⊢
  simp only [Lexeme.first?, hdigit, if_true, htake, List.drop_length]

theorem scan_ones (n : Nat) : scan (String.ofList (List.replicate (n + 1) '1')) =
    .ok [⟨.number (List.replicate (n + 1) '1'), 0⟩] := by
  have hblank : isBlank '1' = false := by decide
  have hfirst := first_ones n
  rw [scan, String.toList_ofList]
  rw [List.replicate_succ] at hfirst ⊢
  rw [scanFrom, hblank, hfirst]
  simp only [Bool.false_eq_true, if_false, Lexeme.text, List.length_cons, List.length_replicate,
    Nat.add_sub_cancel]
  rw [scanFrom_skip _ _ _ _ (by simp)]
  simp [scanFrom, Except.map]

/-- A number of too many ones is refused for its digits. -/
theorem read_ones {n : Nat} (h : digitLimit < n) :
    read (String.ofList (List.replicate n '1')) = .error (.tooManyDigits n) := by
  have hblank : isBlank '1' = false := by decide
  obtain ⟨m, rfl⟩ : ∃ m, n = m + 1 := Nat.exists_eq_add_one.mpr (Nat.zero_lt_of_lt h)
  rw [read, scan_ones, if_neg (by simp [List.replicate_succ, hblank])]
  simp [readTokens, State.start, State.read, beginOperand, readNumber, readDigits, h, bind,
    Except.bind, Except.map]

end DiceLedger.Formula
