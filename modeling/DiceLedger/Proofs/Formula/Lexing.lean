import DiceLedger.Formula.Scan
import Mathlib.Data.List.Infix
import Mathlib.Data.List.TakeWhile

/-!
# The digits of scanned tokens

Every run of digits in a scanned token is a stretch of the formula. A formula whose runs of
digits are short therefore has short tokens only, and no token is refused for its length.
-/
namespace DiceLedger.Formula

open DiceLedger.Text

/-- No run of digits is too long to be read. -/
def ShortRuns (cs : List Char) : Prop :=
  ∀ run, run <:+: cs → (∀ c ∈ run, isDigit c) → run.length ≤ digitLimit

theorem shortRuns_of_length {cs : List Char} (h : cs.length ≤ digitLimit) : ShortRuns cs :=
  fun _ hi _ => hi.length_le.trans h

/-- The runs of digits of a lexeme. -/
def Lexeme.runs : Lexeme → List (List Char)
  | .number digits => [digits]
  | .dice count faces => [count, faces]
  | .symbol _ => []

/-- A lexeme whose digits are not too many to be read. -/
def Lexeme.IsShort (l : Lexeme) : Prop := ∀ run ∈ l.runs, run.length ≤ digitLimit

theorem runs_first {cs : List Char} {l : Lexeme} (h : Lexeme.first? cs = some l) :
    ∀ run ∈ l.runs, run <:+: cs ∧ ∀ c ∈ run, isDigit c := by
  cases cs with
  | nil => cases h
  | cons c cs =>
    rw [Lexeme.first?] at h
    split at h
    · have hcount : (c :: cs).takeWhile isDigit <:+: c :: cs :=
        (List.takeWhile_prefix _).isInfix
      have hdigits (ds : List Char) : ∀ c ∈ ds.takeWhile isDigit, isDigit c :=
        fun _ => List.mem_takeWhile_imp
      dsimp only at h
      split at h
      · next rest hdrop =>
        have hrest : rest <:+: c :: cs :=
          (List.suffix_cons 'd' rest).isInfix.trans (hdrop ▸ (List.drop_suffix _ _).isInfix)
        split at h
        · obtain rfl := Option.some.inj h
          simpa [Lexeme.runs] using ⟨hcount, hdigits _⟩
        · obtain rfl := Option.some.inj h
          have hfaces := (List.takeWhile_prefix isDigit).isInfix.trans hrest
          intro run hrun
          simp only [Lexeme.runs, List.mem_cons, List.not_mem_nil, or_false] at hrun
          rcases hrun with rfl | rfl
          · exact ⟨hcount, hdigits _⟩
          · exact ⟨hfaces, hdigits _⟩
      · obtain rfl := Option.some.inj h
        simpa [Lexeme.runs] using ⟨hcount, hdigits _⟩
    · obtain ⟨s, -, rfl⟩ := Option.map_eq_some_iff.mp h
      simp [Lexeme.runs]

theorem runs_scanFrom {formula : String} {cs : List Char} :
    ∀ {position skip : Nat} {tokens : List Token},
      scanFrom formula position skip cs = .ok tokens →
      ∀ t ∈ tokens, ∀ run ∈ t.lexeme.runs, run <:+: cs ∧ ∀ c ∈ run, isDigit c := by
  induction cs with
  | nil =>
    intro position skip tokens h
    rw [scanFrom] at h
    obtain rfl := Except.ok.inj h
    simp
  | cons c cs ih =>
    intro position skip tokens h t ht run hrun
    have widen (h : run <:+: cs ∧ ∀ c ∈ run, isDigit c) :
        run <:+: c :: cs ∧ ∀ c ∈ run, isDigit c :=
      ⟨h.1.trans (List.suffix_cons c cs).isInfix, h.2⟩
    cases skip with
    | succ skip =>
      rw [scanFrom] at h
      exact widen (ih h t ht run hrun)
    | zero =>
      rw [scanFrom] at h
      split at h
      · exact widen (ih h t ht run hrun)
      · split at h
        · cases h
        · next lexeme hfirst =>
          cases hs : scanFrom formula (position + 1) (lexeme.text.length - 1) cs with
          | error fault => rw [hs] at h; cases h
          | ok found =>
            rw [hs] at h
            obtain rfl := Except.ok.inj h
            rcases List.mem_cons.mp ht with rfl | ht
            · exact runs_first hfirst run hrun
            · exact widen (ih hs t ht run hrun)

/-- The tokens of a formula with short runs of digits are short. -/
theorem isShort_of_scan {formula : String} {tokens : List Token}
    (hruns : ShortRuns formula.toList) (h : scan formula = .ok tokens) :
    ∀ t ∈ tokens, t.lexeme.IsShort := by
  intro t ht run hrun
  obtain ⟨hi, hd⟩ := runs_scanFrom h t ht run hrun
  exact hruns run hi hd

/-- Scanning only ever fails at a character that starts no token. -/
theorem scanFrom_error {formula : String} {cs : List Char} :
    ∀ {position skip : Nat} {fault : Fault},
      scanFrom formula position skip cs = .error fault →
      ∃ c place, fault = .unknownCharacter c formula place := by
  induction cs with
  | nil => intro position skip fault h; rw [scanFrom] at h; cases h
  | cons c cs ih =>
    intro position skip fault h
    cases skip with
    | succ skip =>
      rw [scanFrom] at h
      exact ih h
    | zero =>
      rw [scanFrom] at h
      split at h
      · exact ih h
      · split at h
        · exact ⟨c, position, (Except.error.inj h).symm⟩
        · next lexeme _ =>
          cases hs : scanFrom formula (position + 1) (lexeme.text.length - 1) cs with
          | error f =>
            rw [hs] at h
            obtain rfl := Except.error.inj h
            exact ih hs
          | ok found => rw [hs] at h; cases h

end DiceLedger.Formula
