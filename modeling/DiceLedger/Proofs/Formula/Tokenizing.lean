import DiceLedger.Formula.Mark
import DiceLedger.Proofs.Formula.Reading
import DiceLedger.Proofs.Formula.Spelling

/-!
# Scanning takes the longest token

What scanning does is said here without the scanner: from left to right, blanks are passed
over and the longest token that starts at a place is taken. `Takes` is any stretch of such a
run. A formula is scanned exactly when a run goes through to its end, and is otherwise refused
at the character where a run is stuck. The tokens that are found spell the formula, and all
divided pieces are found as they were put down.
-/
namespace DiceLedger.Formula

open DiceLedger.Text

/-! ## The longest token at a place -/

/-- Does a text start with a lexeme that can be spelled? -/
def Lexeme.Starts (l : Lexeme) (cs : List Char) : Prop := l.IsProper ∧ l.text <+: cs

/-- A lexeme that a text starts with, and no longer one. -/
def Lexeme.IsLongest (l : Lexeme) (cs : List Char) : Prop :=
  l.Starts cs ∧ ∀ m : Lexeme, m.Starts cs → m.text.length ≤ l.text.length

theorem isRun_takeWhile {c : Char} {cs : List Char} (hc : isDigit c) :
    IsRun ((c :: cs).takeWhile isDigit) := by
  refine ⟨?_, fun _ => List.mem_takeWhile_imp⟩
  rw [List.takeWhile_cons_of_pos hc]
  exact List.cons_ne_nil c _

theorem Symbol.char_of_ofChar? {c : Char} {s : Symbol} (h : Symbol.ofChar? c = some s) :
    c = s.char := by
  unfold Symbol.ofChar? at h
  split at h <;> cases h <;> rfl

/-- The scanner takes a token that starts where it looks, and all digits that stand there
belong to it. -/
theorem first?_spec {cs : List Char} {l : Lexeme} (h : Lexeme.first? cs = some l) :
    l.Starts cs ∧ (cs.takeWhile isDigit).length ≤ l.text.length := by
  cases cs with
  | nil => cases h
  | cons c cs =>
    rw [Lexeme.first?] at h
    by_cases hc : isDigit c
    · rw [if_pos hc] at h
      have hrun : IsRun ((c :: cs).takeWhile isDigit) := isRun_takeWhile hc
      have hprefix := List.takeWhile_prefix (l := c :: cs) isDigit
      dsimp only at h
      split at h
      · next rest hdrop =>
        split at h
        · obtain rfl := Option.some.inj h
          exact ⟨⟨hrun, hprefix⟩, le_rfl⟩
        · next hfaces =>
          obtain rfl := Option.some.inj h
          have hwhole := List.prefix_iff_eq_append.mp hprefix
          rw [hdrop] at hwhole
          have hfaces : IsRun (rest.takeWhile isDigit) :=
            ⟨by simpa using hfaces, fun _ => List.mem_takeWhile_imp⟩
          have hpart : (c :: cs).takeWhile isDigit ++ 'd' :: rest.takeWhile isDigit <+:
              (c :: cs).takeWhile isDigit ++ 'd' :: rest :=
            (List.prefix_append_right_inj _).mpr
              (List.cons_prefix_cons.mpr ⟨rfl, List.takeWhile_prefix isDigit⟩)
          rw [hwhole] at hpart
          exact ⟨⟨⟨hrun, hfaces⟩, hpart⟩, by simp [Lexeme.text]⟩
      · obtain rfl := Option.some.inj h
        exact ⟨⟨hrun, hprefix⟩, le_rfl⟩
    · rw [if_neg hc] at h
      obtain ⟨s, hs, rfl⟩ := Option.map_eq_some_iff.mp h
      obtain rfl := Symbol.char_of_ofChar? hs
      exact ⟨⟨trivial, by simp [Lexeme.text]⟩, by simp [hc]⟩

theorem exists_first?_of_isDigit {c : Char} (hc : isDigit c) (cs : List Char) :
    ∃ l, Lexeme.first? (c :: cs) = some l := by
  rw [Lexeme.first?, if_pos hc]
  dsimp only
  split
  · split <;> exact ⟨_, rfl⟩
  · exact ⟨_, rfl⟩

/-- Where a token starts, the scanner takes one that is no shorter. -/
theorem exists_first? {l : Lexeme} {cs : List Char} (h : l.Starts cs) :
    ∃ m, Lexeme.first? cs = some m ∧ l.text.length ≤ m.text.length := by
  obtain ⟨hl, rest, rfl⟩ := h
  cases l with
  | symbol s => exact ⟨_, first?_symbol s rest, le_rfl⟩
  | number digits =>
    obtain ⟨c, ds, rfl⟩ := List.exists_cons_of_ne_nil hl.1
    obtain ⟨m, hm⟩ := exists_first?_of_isDigit (hl.2 c List.mem_cons_self) (ds ++ rest)
    have hall := (first?_spec hm).2
    rw [← List.cons_append, List.takeWhile_append_of_pos hl.2, List.length_append] at hall
    exact ⟨m, hm, (Nat.le_add_right _ _).trans hall⟩
  | dice count faces =>
    have hstop : ∀ c ∈ (rest.dropWhile isDigit).head?, isDigit c = false := by
      intro c hc
      have hnot := List.head?_dropWhile_not isDigit rest
      rwa [hc] at hnot
    have hfaces : IsRun (faces ++ rest.takeWhile isDigit) := by
      refine ⟨List.append_ne_nil_of_left_ne_nil hl.2.1 _, fun c hc => ?_⟩
      exact (List.mem_append.mp hc).elim (hl.2.2 c) List.mem_takeWhile_imp
    have hfirst := first?_dice hl.1 hfaces hstop
    rw [List.append_assoc, List.takeWhile_append_dropWhile] at hfirst
    exact ⟨_, by simpa [Lexeme.text] using hfirst, by simp [Lexeme.text]⟩

/-- A proper lexeme is known by its text. -/
theorem eq_of_text {l m : Lexeme} (hl : l.IsProper) (hm : m.IsProper) (h : l.text = m.text) :
    l = m := by
  have hfirst {k : Lexeme} (hk : k.IsProper) : Lexeme.first? (k.text ++ []) = some k :=
    first?_text hk fun _ => nofun
  exact Option.some.inj ((hfirst hl).symm.trans (h ▸ hfirst hm))

/-- **The scanner takes the longest token.** -/
theorem first?_eq_some_iff {l : Lexeme} {cs : List Char} :
    Lexeme.first? cs = some l ↔ l.IsLongest cs := by
  constructor
  · intro h
    refine ⟨(first?_spec h).1, fun m hm => ?_⟩
    obtain ⟨k, hk, hle⟩ := exists_first? hm
    rwa [Option.some.inj (h.symm.trans hk)]
  · rintro ⟨hl, hlongest⟩
    obtain ⟨m, hm, hle⟩ := exists_first? hl
    have hstarts := (first?_spec hm).1
    have hlength := Nat.le_antisymm hle (hlongest m hstarts)
    have htext := (List.prefix_of_prefix_length_le hl.2 hstarts.2 hle).eq_of_length hlength
    rw [hm, eq_of_text hl.1 hstarts.1 htext]

theorem first?_eq_none_iff {cs : List Char} :
    Lexeme.first? cs = none ↔ ∀ l : Lexeme, ¬l.Starts cs := by
  constructor
  · intro h l hl
    obtain ⟨m, hm, -⟩ := exists_first? hl
    rw [h] at hm
    cases hm
  · intro h
    rw [Option.eq_none_iff_forall_ne_some]
    exact fun l hl => h l (first?_spec hl).1

/-! ## A run over a text -/

/-- Going over a text from a position on, passing over blanks and taking the longest token
elsewhere: the tokens that were taken, and the place and the text where the run has got to. -/
inductive Takes : (position : Nat) → List Char → List Token → (place : Nat) → List Char → Prop
  | here {position : Nat} {cs : List Char} : Takes position cs [] position cs
  | blank {position place : Nat} {c : Char} {cs rest : List Char} {tokens : List Token}
      (hc : isBlank c) (h : Takes (position + 1) cs tokens place rest) :
      Takes position (c :: cs) tokens place rest
  | token {position place : Nat} {l : Lexeme} {cs rest : List Char} {tokens : List Token}
      (hl : l.IsLongest (l.text ++ cs))
      (h : Takes (position + l.text.length) cs tokens place rest) :
      Takes position (l.text ++ cs) (⟨l, position⟩ :: tokens) place rest

/-- The rest of a text is what stands from the place on. -/
theorem Takes.place_eq {position place : Nat} {cs rest : List Char} {tokens : List Token}
    (h : Takes position cs tokens place rest) :
    place + rest.length = position + cs.length := by
  induction h with
  | here => rfl
  | blank hc h ih =>
    rw [ih, List.length_cons]
    omega
  | token hl h ih =>
    rw [ih, List.length_append]
    omega

/-- A character at which no run goes on, and what stands behind it. -/
def IsStuck (c : Char) (cs : List Char) : Prop :=
  isBlank c = false ∧ ∀ l : Lexeme, ¬l.Starts (c :: cs)

/-- Scanning follows a run, and goes on where it has got to. -/
theorem scanFrom_takes (formula : String) {position place : Nat} {cs rest : List Char}
    {tokens : List Token} (h : Takes position cs tokens place rest) :
    scanFrom formula position 0 cs = (scanFrom formula place 0 rest).map (tokens ++ ·) := by
  induction h with
  | @here position cs => cases scanFrom formula position 0 cs <;> rfl
  | blank hc h ih => rw [scanFrom, if_pos hc, ih]
  | @token position place l cs rest tokens hl h ih =>
    rw [scanFrom_text formula _ hl.1.1 (first?_eq_some_iff.mpr hl), ih]
    cases scanFrom formula place 0 rest <;> rfl

theorem scanFrom_of_isStuck (formula : String) (position : Nat) {c : Char} {cs : List Char}
    (h : IsStuck c cs) :
    scanFrom formula position 0 (c :: cs) = .error (.unknownCharacter c formula position) := by
  rw [scanFrom, h.1, if_neg Bool.false_ne_true, first?_eq_none_iff.mpr h.2]

/-- Every text can be gone over to its end, or until the run is stuck. -/
theorem exists_takes (cs : List Char) (position : Nat) :
    ∃ tokens place rest, Takes position cs tokens place rest ∧
      (rest = [] ∨ ∃ c behind, rest = c :: behind ∧ IsStuck c behind) := by
  induction hn : cs.length using Nat.strongRecOn generalizing cs position with
  | ind n ih =>
    subst hn
    cases cs with
    | nil => exact ⟨[], position, [], .here, .inl rfl⟩
    | cons c cs =>
      by_cases hc : isBlank c
      · obtain ⟨tokens, place, rest, h, hend⟩ := ih cs.length (by simp) cs (position + 1) rfl
        exact ⟨tokens, place, rest, .blank hc h, hend⟩
      · cases hfirst : Lexeme.first? (c :: cs) with
        | none =>
          have hstuck : IsStuck c cs := ⟨by simpa using hc, first?_eq_none_iff.mp hfirst⟩
          exact ⟨[], position, c :: cs, .here, .inr ⟨c, cs, rfl, hstuck⟩⟩
        | some l =>
          have hl := first?_eq_some_iff.mp hfirst
          obtain ⟨behind, htext⟩ := hl.1.2
          have hshorter : behind.length < (c :: cs).length := by
            obtain ⟨d, ds, hd, -⟩ := exists_text hl.1.1
            rw [← htext, hd, List.length_append, List.length_cons]
            omega
          rw [← htext] at hl ⊢
          obtain ⟨tokens, place, rest, h, hend⟩ :=
            ih behind.length hshorter behind (position + l.text.length) rfl
          exact ⟨⟨l, position⟩ :: tokens, place, rest, .token hl h, hend⟩

/-- What a run takes of a formula decides how it is scanned: it goes through to the end, or is
stuck at a character. -/
theorem scan_cases (formula : String) :
    (∃ tokens, Takes 0 formula.toList tokens formula.toList.length [] ∧
      scan formula = .ok tokens) ∨
    ∃ tokens place c behind, Takes 0 formula.toList tokens place (c :: behind) ∧
      IsStuck c behind ∧ scan formula = .error (.unknownCharacter c formula place) := by
  obtain ⟨tokens, place, rest, htakes, hend⟩ := exists_takes formula.toList 0
  have hscan := scanFrom_takes formula htakes
  rw [← scan] at hscan
  rcases hend with rfl | ⟨c, behind, rfl, hstuck⟩
  · rw [scanFrom, Except.map, List.append_nil] at hscan
    have hplace := htakes.place_eq
    rw [List.length_nil, Nat.add_zero, Nat.zero_add] at hplace
    exact .inl ⟨tokens, hplace ▸ htakes, hscan⟩
  · rw [scanFrom_of_isStuck formula place hstuck] at hscan
    exact .inr ⟨tokens, place, c, behind, htakes, hstuck, hscan⟩

/-- A formula is scanned exactly when a run goes through to its end. -/
theorem scan_eq_ok_iff_takes {formula : String} {tokens : List Token} :
    scan formula = .ok tokens ↔
      Takes 0 formula.toList tokens formula.toList.length [] := by
  constructor
  · intro h
    rcases scan_cases formula with ⟨taken, htakes, hscan⟩ | ⟨_, _, _, _, _, _, hscan⟩
    · obtain rfl := Except.ok.inj (h.symm.trans hscan)
      exact htakes
    · cases h.symm.trans hscan
  · intro h
    rw [scan, scanFrom_takes formula h, scanFrom, Except.map, List.append_nil]

/-- A formula is refused exactly at the character at which a run is stuck. -/
theorem scan_eq_error_iff_takes {formula : String} {fault : Fault} :
    scan formula = .error fault ↔
      ∃ tokens place c behind, Takes 0 formula.toList tokens place (c :: behind) ∧
        IsStuck c behind ∧ fault = .unknownCharacter c formula place := by
  constructor
  · intro h
    rcases scan_cases formula with ⟨_, _, hscan⟩ | ⟨taken, place, c, behind, htakes, hstuck, hscan⟩
    · cases h.symm.trans hscan
    · exact ⟨taken, place, c, behind, htakes, hstuck, Except.error.inj (h.symm.trans hscan)⟩
  · rintro ⟨tokens, place, c, behind, htakes, hstuck, rfl⟩
    rw [scan, scanFrom_takes formula htakes, scanFrom_of_isStuck formula place hstuck]
    rfl

/-! ## Tokens that are found spell the formula -/

/-- Behind the longest token comes no digit that would make an operand longer. -/
theorem isDigit_of_isLongest {l : Lexeme} {c : Char} {cs : List Char} (hop : l.isOperand)
    (h : l.IsLongest (l.text ++ c :: cs)) : isDigit c = false := by
  by_contra hdigit
  have hc : isDigit c := by simpa using hdigit
  have hlonger {digits : List Char} (hd : IsRun digits) : IsRun (digits ++ [c]) := by
    refine ⟨by simp, fun d hmem => ?_⟩
    rcases List.mem_append.mp hmem with hmem | hmem
    · exact hd.2 d hmem
    · rwa [List.mem_singleton.mp hmem]
  cases l with
  | number digits =>
    have hle := h.2 (.number (digits ++ [c])) ⟨hlonger h.1.1, by simp [Lexeme.text]⟩
    simp only [Lexeme.text, List.length_append, List.length_singleton] at hle
    omega
  | dice count faces =>
    have hle := h.2 (.dice count (faces ++ [c]))
      ⟨⟨h.1.1.1, hlonger h.1.1.2⟩, by simp [Lexeme.text]⟩
    simp only [Lexeme.text, List.length_append, List.length_cons, List.length_nil] at hle
    omega
  | symbol s => cases hop

theorem exists_digit_of_isOperand {l : Lexeme} (hl : l.IsProper) (hop : l.isOperand) :
    ∃ c cs, l.text = c :: cs ∧ isDigit c := by
  cases l with
  | number digits =>
    obtain ⟨c, cs, rfl⟩ := List.exists_cons_of_ne_nil hl.1
    exact ⟨c, cs, rfl, hl.2 c List.mem_cons_self⟩
  | dice count faces =>
    obtain ⟨c, cs, rfl⟩ := List.exists_cons_of_ne_nil hl.1.1
    exact ⟨c, cs ++ 'd' :: faces, rfl, hl.1.2 c List.mem_cons_self⟩
  | symbol s => cases hop

/-- The next token is apart from one that was the longest. -/
theorem separated_of_isLongest {l : Lexeme} {position : Nat} {tokens : List Token}
    {cs : List Char} (hl : l.IsLongest (l.text ++ cs)) (h : Spelled position tokens cs) :
    Separated l tokens cs := by
  intro hop hnext
  cases h with
  | nil hgap => cases hnext
  | @cons _ gap m rest cs hgap hm _ _ =>
    cases gap with
    | cons b gap => exact ⟨b, rfl, hgap b List.mem_cons_self⟩
    | nil =>
      obtain ⟨d, ds, htext, hd⟩ := exists_digit_of_isOperand hm (Option.some.inj hnext)
      rw [List.nil_append, htext, List.cons_append] at hl
      rw [isDigit_of_isLongest hop hl] at hd
      cases hd

theorem spelled_of_takes {position place : Nat} {cs rest : List Char} {tokens : List Token}
    (h : Takes position cs tokens place rest) (hrest : rest = []) :
    Spelled position tokens cs := by
  induction h with
  | here => exact .nil (hrest ▸ nofun)
  | blank hc h ih => exact .blank hc (ih hrest)
  | @token position place l cs rest tokens hl h ih =>
    have hnil : IsGap [] := nofun
    exact .cons hnil hl.1.1 (separated_of_isLongest hl (ih hrest)) (ih hrest)

/-- Scanning finds just the tokens that are spelled. -/
theorem scan_eq_ok_iff_spelled {formula : String} {tokens : List Token} :
    scan formula = .ok tokens ↔ Spelled 0 tokens formula.toList := by
  constructor
  · exact fun h => spelled_of_takes (scan_eq_ok_iff_takes.mp h) rfl
  · intro h
    exact scanFrom_of_spelled formula h

/-- Tokens as they lie in a text: the text of each at its place, one behind the other, and
every character that is no part of them is blank. -/
structure LieIn (tokens : List Token) (cs : List Char) : Prop where
  sits : ∀ t ∈ tokens, t.lexeme.text <+: cs.drop t.position
  ordered : tokens.Pairwise fun t u => t.position + t.lexeme.text.length ≤ u.position
  covers : ∀ i c, cs[i]? = some c → isBlank c = false →
    ∃ t ∈ tokens, t.position ≤ i ∧ i < t.position + t.lexeme.text.length

/-- Spelled tokens lie in any text that goes on with their spelling. -/
theorem lieIn_of_spelled_behind {position : Nat} {tokens : List Token} {cs : List Char}
    (h : Spelled position tokens cs) :
    ∀ front : List Char, front.length = position →
      (∀ t ∈ tokens, position ≤ t.position ∧ t.lexeme.text <+: (front ++ cs).drop t.position) ∧
      (tokens.Pairwise fun t u => t.position + t.lexeme.text.length ≤ u.position) ∧
      ∀ i c, position ≤ i → (front ++ cs)[i]? = some c → isBlank c = false →
        ∃ t ∈ tokens, t.position ≤ i ∧ i < t.position + t.lexeme.text.length := by
  have hgap {gap : List Char} (h : IsGap gap) {i : Nat} {c : Char} (hc : gap[i]? = some c) :
      isBlank c := h c (List.mem_of_getElem? hc)
  induction h with
  | @nil position gap h =>
    rintro front rfl
    refine ⟨nofun, .nil, fun i c hi hc hblank => ?_⟩
    rw [List.getElem?_append_right hi] at hc
    rw [hgap h hc] at hblank
    cases hblank
  | @cons position gap l tokens cs h hl _ _ ih =>
    rintro front rfl
    have hshift : front ++ (gap ++ l.text ++ cs) = (front ++ gap ++ l.text) ++ cs := by simp
    have hhead : (front ++ (gap ++ l.text ++ cs)).drop (front.length + gap.length) =
        l.text ++ cs := by
      rw [hshift, ← List.length_append, List.append_assoc (front ++ gap), List.drop_left]
    obtain ⟨hsits, hordered, hcovers⟩ := ih (front ++ gap ++ l.text) (by simp [Nat.add_assoc])
    rw [← hshift] at hsits hcovers
    refine ⟨?_, List.pairwise_cons.mpr ⟨fun t ht => (hsits t ht).1, hordered⟩, ?_⟩
    · intro t ht
      rcases List.mem_cons.mp ht with rfl | ht
      · exact ⟨Nat.le_add_right _ _, by rw [hhead]; exact List.prefix_append _ _⟩
      · obtain ⟨hle, hprefix⟩ := hsits t ht
        exact ⟨by omega, hprefix⟩
    · intro i c hi hc hblank
      by_cases hbefore : i < front.length + gap.length
      · -- the character stands in the gap
        rw [List.getElem?_append_right hi, List.append_assoc,
          List.getElem?_append_left (by omega)] at hc
        rw [hgap h hc] at hblank
        cases hblank
      · by_cases hinside : i < front.length + gap.length + l.text.length
        · exact ⟨_, List.mem_cons_self, by dsimp only; omega, hinside⟩
        · obtain ⟨t, ht, hin⟩ := hcovers i c (by omega) hc hblank
          exact ⟨t, List.mem_cons_of_mem _ ht, hin⟩

theorem lieIn_of_scan {formula : String} {tokens : List Token} (h : scan formula = .ok tokens) :
    LieIn tokens formula.toList := by
  obtain ⟨hsits, hordered, hcovers⟩ :=
    lieIn_of_spelled_behind (scan_eq_ok_iff_spelled.mp h) [] rfl
  exact ⟨fun t ht => (hsits t ht).2, hordered, fun i c => hcovers i c (Nat.zero_le i)⟩

theorem Spelled.isProper {position : Nat} {tokens : List Token} {cs : List Char}
    (h : Spelled position tokens cs) : ∀ t ∈ tokens, t.lexeme.IsProper := by
  induction h with
  | nil => exact nofun
  | cons _ hl _ _ ih => exact List.forall_mem_cons.mpr ⟨hl, ih⟩

/-! ## Blanks between the tokens of a formula -/

/-- May one lexeme stand right behind another without a blank? -/
def MayTouch (l m : Lexeme) : Prop := l.isOperand → ¬m.isOperand

/-- No two operands stand side by side in a formula. -/
theorem mayTouch_of_formed {shape : Shape} {ls : List Lexeme} (h : Formed shape ls) :
    ls.IsChain MayTouch := by
  have hbehind {ls : List Lexeme} (s : Symbol) (h : ls.IsChain MayTouch) :
      (Lexeme.symbol s :: ls).IsChain MayTouch := List.isChain_cons.mpr ⟨fun _ _ => nofun, h⟩
  have hjoin {ls rs : List Lexeme} (s : Symbol) (hl : ls.IsChain MayTouch)
      (hr : rs.IsChain MayTouch) : (ls ++ .symbol s :: rs).IsChain MayTouch := by
    refine List.isChain_append.mpr ⟨hl, hbehind s hr, ?_⟩
    rintro l - m ⟨⟩ -
    exact Bool.false_ne_true
  induction h with
  | number => exact .singleton _
  | dice => exact .singleton _
  | group _ ih => exact hbehind _ (hjoin _ ih .nil)
  | bare _ ih => exact ih
  | negated _ ih => exact hbehind _ ih
  | extended _ _ _ ihl ihr => exact hjoin _ ihl ihr

/-- Divided pieces are scanned as they were put down. -/
theorem scan_spread {pieces : List Piece} (last : Gap)
    (hproper : ∀ p ∈ pieces, p.lexeme.IsProper) (hdivided : pieces.IsChain Piece.Divided) :
    scan (String.ofList (spread pieces last)) = .ok (placed 0 pieces) :=
  scan_of_spelled (spelled_spread last hproper hdivided 0)

/-- A formula with other blanks between its tokens is still read as the same tree. -/
theorem read_spread_of_denotes {pieces : List Piece} {e : Expr Throw} (last : Gap)
    (hproper : ∀ p ∈ pieces, p.lexeme.IsProper) (hreadable : ∀ p ∈ pieces, p.lexeme.IsReadable)
    (h : Denotes .sum (pieces.map (·.lexeme)) e) :
    read (String.ofList (spread pieces last)) = .ok e := by
  have htouch := mayTouch_of_formed (formed_of_denotes h)
  rw [List.isChain_map] at htouch
  have hdivided : pieces.IsChain Piece.Divided :=
    htouch.imp fun p q hpq hp hq => absurd hq (hpq hp)
  refine read_eq_ok_iff.mpr ⟨_, scan_spread last hproper hdivided, ?_, ?_⟩
  · intro t ht
    have hmem : t.lexeme ∈ pieces.map (·.lexeme) :=
      lexemes_placed pieces 0 ▸ List.mem_map_of_mem ht
    obtain ⟨p, hp, hl⟩ := List.mem_map.mp hmem
    exact hl ▸ hreadable p hp
  · rwa [lexemes_placed]

theorem read_spread {formula : String} {tokens : List Token} {e : Expr Throw}
    (hscan : scan formula = .ok tokens) (hread : read formula = .ok e) {pieces : List Piece}
    (hpieces : pieces.map (·.lexeme) = tokens.map (·.lexeme)) (last : Gap) :
    read (String.ofList (spread pieces last)) = .ok e := by
  obtain ⟨found, hfound, hreadable, h⟩ := read_eq_ok_iff.mp hread
  obtain rfl := Except.ok.inj (hfound.symm.trans hscan)
  have hproper := (scan_eq_ok_iff_spelled.mp hscan).isProper
  have hall {P : Lexeme → Prop} (h : ∀ t ∈ found, P t.lexeme) : ∀ p ∈ pieces, P p.lexeme := by
    intro p hp
    obtain ⟨t, ht, hl⟩ := List.mem_map.mp (hpieces ▸ List.mem_map_of_mem hp)
    exact hl ▸ h t ht
  exact read_spread_of_denotes last (hall hproper) (hall hreadable) (hpieces ▸ h)

end DiceLedger.Formula
