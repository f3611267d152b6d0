import DiceLedger.Formula.Spacing
import DiceLedger.Proofs.Formula.Lexing

/-!
# Spelled tokens are scanned

However tokens are spelled, with as many blanks as one likes and with none where none are needed,
scanning finds just them. The longest token at a place is the one that was written there,
because behind the digits of an operand comes neither another digit nor the letter of dice.
-/
namespace DiceLedger.Formula

open DiceLedger.Text

/-! ## Characters of one kind only -/

theorem isDigit_of_isBlank {c : Char} (h : isBlank c) : isDigit c = false := by
  have hzeros : ∀ z ∈ zeros, z = 0x30 ∨ 0x660 ≤ z ∧ z + 10 ≤ 0x1680 ∨
      0x1680 < z ∧ z + 10 ≤ 0x2000 ∨ 0x3000 < z := by decide
  simp only [isBlank, Bool.or_eq_true, Bool.and_eq_true, decide_eq_true_eq, beq_iff_eq] at h
  rw [isDigit, digitValue?]
  split
  · rw [if_neg (by simp only [Bool.and_eq_true, decide_eq_true_eq]; omega)]
    rfl
  · have hnone : zeros.find? (fun z => z ≤ c.toNat && c.toNat < z + 10) = none := by
      refine List.find?_eq_none.mpr fun z hz => ?_
      have := hzeros z hz
      simp only [Bool.and_eq_true, decide_eq_true_eq]
      omega
    rw [hnone]
    rfl

theorem isBlank_of_isDigit {c : Char} (h : isDigit c) : isBlank c = false := by
  by_contra hblank
  rw [isDigit_of_isBlank (by simpa using hblank)] at h
  cases h

theorem isDigit_char (s : Symbol) : isDigit s.char = false := by cases s <;> decide

theorem isBlank_char (s : Symbol) : isBlank s.char = false := by cases s <;> decide

/-- The text of a lexeme begins with a character that is not blank. -/
theorem exists_text {l : Lexeme} (h : l.IsProper) :
    ∃ c cs, l.text = c :: cs ∧ isBlank c = false := by
  cases l with
  | number digits =>
    obtain ⟨c, cs, rfl⟩ := List.exists_cons_of_ne_nil h.1
    exact ⟨c, cs, rfl, isBlank_of_isDigit (h.2 c List.mem_cons_self)⟩
  | dice count faces =>
    obtain ⟨c, cs, rfl⟩ := List.exists_cons_of_ne_nil h.1.1
    exact ⟨c, cs ++ 'd' :: faces, rfl, isBlank_of_isDigit (h.1.2 c List.mem_cons_self)⟩
  | symbol s => exact ⟨s.char, [], rfl, isBlank_char s⟩

/-! ## The longest token -/

/-- A text that the digits of an operand before it do not run into. -/
def IsApart (cs : List Char) : Prop := ∀ c ∈ cs.head?, isDigit c = false ∧ c ≠ 'd'

theorem takeWhile_run {digits cs : List Char} (hdigits : ∀ c ∈ digits, isDigit c)
    (hcs : ∀ c ∈ cs.head?, isDigit c = false) : (digits ++ cs).takeWhile isDigit = digits := by
  rw [List.takeWhile_append_of_pos hdigits]
  cases cs with
  | nil => simp
  | cons c cs => simp [hcs c rfl]

/-- Behind the digits at the front of a text only the letter of dice and more digits count. -/
theorem first?_run {digits cs : List Char} (h : IsRun digits) :
    (∀ c ∈ cs.head?, isDigit c = false) → Lexeme.first? (digits ++ cs) =
      match cs with
      | 'd' :: rest =>
        let faces := rest.takeWhile isDigit
        if faces.isEmpty then some (.number digits) else some (.dice digits faces)
      | _ => some (.number digits) := by
  intro hcs
  have htake := takeWhile_run h.2 hcs
  obtain ⟨c, ds, hd⟩ := List.exists_cons_of_ne_nil h.1
  have hc : isDigit c := h.2 c (by simp [hd])
  rw [hd, List.cons_append] at htake ⊢
  rw [Lexeme.first?, if_pos hc, htake]
  dsimp only
  rewrite [← List.cons_append, List.drop_left]
  rfl

theorem first?_number {digits cs : List Char} (h : IsRun digits) (hcs : IsApart cs) :
    Lexeme.first? (digits ++ cs) = some (.number digits) := by
  rw [first?_run h fun c hc => (hcs c hc).1]
  cases cs with
  | nil => rfl
  | cons b cs =>
    have hb : b ≠ 'd' := (hcs b rfl).2
    split
    · next heq => exact absurd (List.cons.inj heq).1 hb
    · rfl

theorem first?_dice {count faces cs : List Char} (hcount : IsRun count) (hfaces : IsRun faces)
    (hcs : ∀ c ∈ cs.head?, isDigit c = false) :
    Lexeme.first? (count ++ 'd' :: (faces ++ cs)) = some (.dice count faces) := by
  have hletter : ∀ c ∈ ('d' :: (faces ++ cs)).head?, isDigit c = false := by
    rintro c ⟨⟩
    decide
  rw [first?_run hcount hletter]
  simp only [takeWhile_run hfaces.2 hcs]
  rw [if_neg (by simpa using hfaces.1)]

theorem first?_symbol (s : Symbol) (cs : List Char) :
    Lexeme.first? (s.char :: cs) = some (.symbol s) := by
  rw [Lexeme.first?, isDigit_char, if_neg Bool.false_ne_true, Symbol.ofChar?_char]
  rfl

/-- What is written is the longest token at its place. -/
theorem first?_text {l : Lexeme} {cs : List Char} (hl : l.IsProper)
    (hcs : l.isOperand → IsApart cs) : Lexeme.first? (l.text ++ cs) = some l := by
  cases l with
  | number digits => exact first?_number hl (hcs rfl)
  | dice count faces =>
    simpa [Lexeme.text] using first?_dice hl.1 hl.2 fun c hc => (hcs rfl c hc).1
  | symbol s => exact first?_symbol s cs

theorem isApart_of_blank {c : Char} {cs : List Char} (h : isBlank c) : IsApart (c :: cs) := by
  rintro d ⟨⟩
  exact ⟨isDigit_of_isBlank h, by rintro rfl; revert h; decide⟩

theorem isApart_char (s : Symbol) (cs : List Char) : IsApart (s.char :: cs) := by
  rintro d ⟨⟩
  exact ⟨isDigit_char s, by cases s <;> decide⟩

/-- Behind an operand comes nothing that would run together with it. -/
theorem isApart_of_spelled {l : Lexeme} {position : Nat} {tokens : List Token}
    {cs : List Char} (hl : l.isOperand) (hsep : Separated l tokens cs)
    (h : Spelled position tokens cs) : IsApart cs := by
  cases h with
  | nil hgap =>
    cases cs with
    | nil => exact nofun
    | cons b gap => exact isApart_of_blank (hgap b List.mem_cons_self)
  | @cons _ gap m rest cs hgap hm _ _ =>
    cases gap with
    | cons b gap => exact isApart_of_blank (hgap b List.mem_cons_self)
    | nil =>
      cases hop : m.isOperand with
      | false =>
        cases m with
        | symbol s => exact isApart_char s cs
        | _ => cases hop
      | true =>
        -- a second operand right behind the first would not be separated from it
        obtain ⟨c, hc, hblank⟩ := hsep hl (congrArg some hop)
        obtain ⟨d, ds, htext, hd⟩ := exists_text hm
        rw [List.nil_append, htext] at hc
        cases hc
        rw [hd] at hblank
        cases hblank

/-! ## Scanning -/

theorem scanFrom_gap (formula : String) {gap : List Char} (h : IsGap gap) (cs : List Char) :
    ∀ position, scanFrom formula position 0 (gap ++ cs) =
      scanFrom formula (position + gap.length) 0 cs := by
  induction gap with
  | nil => exact fun position => rfl
  | cons c gap ih =>
    intro position
    rw [List.cons_append, scanFrom, if_pos (h c List.mem_cons_self),
      ih fun d hd => h d (List.mem_cons_of_mem c hd)]
    congr 1
    simp only [List.length_cons]
    omega

theorem scanFrom_text (formula : String) (position : Nat) {l : Lexeme} {cs : List Char}
    (hl : l.IsProper) (hfirst : Lexeme.first? (l.text ++ cs) = some l) :
    scanFrom formula position 0 (l.text ++ cs) =
      (scanFrom formula (position + l.text.length) 0 cs).map (⟨l, position⟩ :: ·) := by
  obtain ⟨c, rest, htext, hblank⟩ := exists_text hl
  rw [htext, List.cons_append] at hfirst ⊢
  rw [scanFrom, hblank, if_neg Bool.false_ne_true, hfirst]
  simp only [htext, List.length_cons, Nat.add_sub_cancel]
  rw [scanFrom_skip formula _ _ _ (by simp), List.drop_left, Nat.add_assoc,
    Nat.add_comm 1 rest.length]

/-- **Spelled tokens are scanned**, at the places where they are spelled. -/
theorem scanFrom_of_spelled (formula : String) {position : Nat} {tokens : List Token}
    {cs : List Char} (h : Spelled position tokens cs) :
    scanFrom formula position 0 cs = .ok tokens := by
  induction h with
  | @nil position gap hgap =>
    have hskip := scanFrom_gap formula hgap [] position
    rw [List.append_nil] at hskip
    rw [hskip, scanFrom]
  | @cons position gap l tokens cs hgap hl hsep h ih =>
    have hfirst := first?_text hl fun hop => isApart_of_spelled hop hsep h
    rw [List.append_assoc, scanFrom_gap formula hgap, scanFrom_text formula _ hl hfirst, ih]
    rfl

theorem scan_of_spelled {tokens : List Token} {cs : List Char} (h : Spelled 0 tokens cs) :
    scan (String.ofList cs) = .ok tokens := by
  rw [scan, String.toList_ofList]
  exact scanFrom_of_spelled _ h

/-- Lexemes can be spelled with one blank before each of them. -/
theorem exists_spelled {ls : List Lexeme} (h : ∀ l ∈ ls, l.IsProper) :
    ∀ position, ∃ tokens cs, Spelled position tokens cs ∧ tokens.map (·.lexeme) = ls ∧
      (ls ≠ [] → cs.head? = some ' ') := by
  have hspace : IsGap [' '] := by simp [IsGap, isBlank]
  induction ls with
  | nil => exact fun position => ⟨[], [], .nil nofun, rfl, nofun⟩
  | cons l ls ih =>
    intro position
    obtain ⟨tokens, cs, hspelled, hlexemes, hhead⟩ :=
      ih (fun m hm => h m (List.mem_cons_of_mem l hm)) (position + [' '].length + l.text.length)
    have hsep : Separated l tokens cs := by
      intro _ hnext
      have hne : ls ≠ [] := by
        rintro rfl
        rw [List.map_eq_nil_iff.mp hlexemes] at hnext
        cases hnext
      exact ⟨' ', hhead hne, by decide⟩
    exact ⟨_, _, .cons hspace (h l List.mem_cons_self) hsep hspelled,
      by rw [List.map_cons, hlexemes], fun _ => rfl⟩

end DiceLedger.Formula
