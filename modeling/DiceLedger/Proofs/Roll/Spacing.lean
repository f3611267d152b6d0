import DiceLedger.Proofs.Formula.Tokenizing
import DiceLedger.Proofs.Roll.Dice

/-!
# Blanks have no say in a roll

A roll knows its formula only by the tree that is read from it, and keeps the text to tell it
again. Formulas that are read as one tree are therefore rolled alike, from any source, into any
log, and within any limit on the dice.
-/
namespace DiceLedger

open DiceLedger.Formula

theorem roll_of_read {ρ σ : Type} (g : Generator ρ) (log : RollLog σ) (who : Roller)
    (allowed : Option Int) {formula formula' : String} {e : Expr Throw}
    (h : read formula = .ok e) (h' : read formula' = .ok e) :
    roll g log who allowed formula' =
      (fun r : Roll => { r with formula := formula' }) <$> roll g log who allowed formula := by
  have hconclude (rolled : Expr (List Int)) :
      (conclude formula' rolled : Play ρ σ Roll) =
        (fun r : Roll => { r with formula := formula' }) <$> conclude formula rolled := by
    unfold conclude
    cases rolled.total <;> rfl
  simp only [roll, h, h', hconclude]
  split
  · split
    · rfl
    · simp [map_bind]
  · simp [map_bind]

/-- **Scanning is lossless, and blanks mean nothing.** A formula is scanned by taking the longest
token from place to place until its end is reached, and is otherwise refused at the first
character that is not blank and where no token starts. The tokens lie in the formula one
behind the other, with nothing but blanks around them. All pieces that are divided where two
operands meet are found again; and a formula that can be read may be given any blanks between
its tokens, without a change to its tree or to what is rolled, drawn, recorded and told. -/
theorem scan_lossless (formula : String) :
    (∀ tokens, scan formula = .ok tokens ↔
      Takes 0 formula.toList tokens formula.toList.length []) ∧
    (∀ fault, scan formula = .error fault ↔
      ∃ tokens place c behind, Takes 0 formula.toList tokens place (c :: behind) ∧
        IsStuck c behind ∧ fault = .unknownCharacter c formula place) ∧
    (∀ tokens, scan formula = .ok tokens → LieIn tokens formula.toList) ∧
    (∀ (pieces : List Piece) (last : Gap), (∀ p ∈ pieces, p.lexeme.IsProper) →
      pieces.IsChain Piece.Divided →
        scan (String.ofList (spread pieces last)) = .ok (placed 0 pieces)) ∧
    ∀ tokens e, scan formula = .ok tokens → read formula = .ok e →
      ∀ (pieces : List Piece) (last : Gap),
        pieces.map (·.lexeme) = tokens.map (·.lexeme) →
        let formula' := String.ofList (spread pieces last)
        read formula' = .ok e ∧
          ∀ {ρ σ : Type} (g : Generator ρ) (log : RollLog σ) (who : Roller)
            (allowed : Option Int), roll g log who allowed formula' =
              (fun r : Roll => { r with formula := formula' }) <$>
                roll g log who allowed formula := by
  refine ⟨fun _ => scan_eq_ok_iff_takes, fun _ => scan_eq_error_iff_takes,
    fun _ => lieIn_of_scan, fun _ last => scan_spread last, ?_⟩
  intro tokens e hscan hread pieces last hpieces formula'
  have hread' : read formula' = .ok e := read_spread hscan hread hpieces last
  exact ⟨hread', fun g log who allowed => roll_of_read g log who allowed hread hread'⟩

/-- Blanks are put into a formula where there were none, and taken out where there were some. -/
theorem scan_lossless_respaced :
    let pieces : List Piece := [⟨spaces 2, .symbol .minus⟩, ⟨spaces 0, .dice ['2'] ['6']⟩,
      ⟨spaces 1, .symbol .times⟩, ⟨spaces 0, .number ['3']⟩]
    let formula' := String.ofList (spread pieces (spaces 1))
    formula' = "  -2d6 *3 " ∧ scan formula' = .ok (placed 0 pieces) ∧
    ∃ e, read "- 2d6* 3" = .ok e ∧ read formula' = .ok e := by
  intro pieces formula'
  have hproper : ∀ p ∈ pieces, p.lexeme.IsProper := by
    simp [pieces, Lexeme.IsProper, IsRun]
    decide
  have hdivided : pieces.IsChain Piece.Divided := by
    simp [pieces, Piece.Divided, Lexeme.isOperand]
  have h := scan_lossless "- 2d6* 3"
  obtain ⟨hread, -⟩ := h.2.2.2.2 _ (.binary (.unary .minus (.dice ⟨2, 6⟩)) .mul (.number 3))
    rfl rfl pieces (spaces 1) rfl
  exact ⟨by decide, h.2.2.2.1 pieces (spaces 1) hproper hdivided, _, rfl, hread⟩

end DiceLedger
