import DiceLedger.Formula.Scan
import Mathlib.Data.List.Chain

/-!
# Blanks between tokens

How a list of tokens is spelled as text: each token at its place, blanks before, between and
after them. Blanks may be left out everywhere but between two operands, whose digits would
run together. `Lexeme.IsProper` says which lexemes can be spelled at all.
-/

namespace DiceLedger.Formula

open DiceLedger.Text

def IsRun (digits : List Char) : Prop := digits ≠ [] ∧ ∀ c ∈ digits, isDigit c

def Lexeme.IsProper : Lexeme → Prop
  | .number digits => IsRun digits
  | .dice count faces => IsRun count ∧ IsRun faces
  | .symbol _ => True

/-- Does a lexeme consist of digits, so that it would run together with another such? -/
def Lexeme.isOperand : Lexeme → Bool
  | .number _ | .dice .. => true
  | .symbol _ => false

def IsGap (cs : List Char) : Prop := ∀ c ∈ cs, isBlank c

/-- Two operands in a row have a blank between them. -/
def Separated (l : Lexeme) (tokens : List Token) (cs : List Char) : Prop :=
  l.isOperand → (tokens.head?.map (·.lexeme.isOperand)) = some true →
    ∃ c ∈ cs.head?, isBlank c

/-- Tokens spelled as text that begins at a position. -/
inductive Spelled : (position : Nat) → List Token → List Char → Prop
  | nil {position : Nat} {gap : List Char} (h : IsGap gap) : Spelled position [] gap
  | cons {position : Nat} {gap : List Char} {l : Lexeme} {tokens : List Token}
      {cs : List Char} (hgap : IsGap gap) (hl : l.IsProper) (hsep : Separated l tokens cs)
      (h : Spelled (position + gap.length + l.text.length) tokens cs) :
      Spelled position (⟨l, position + gap.length⟩ :: tokens) (gap ++ l.text ++ cs)

/-- One more blank in front moves every token by one place. -/
theorem Spelled.blank {position : Nat} {tokens : List Token} {cs : List Char} {c : Char}
    (hc : isBlank c) (h : Spelled (position + 1) tokens cs) :
    Spelled position tokens (c :: cs) := by
  have hgap {gap : List Char} (h : IsGap gap) : IsGap (c :: gap) := by
    intro d hd
    rcases List.mem_cons.1 hd with rfl | hd
    · exact hc
    · exact h d hd
  cases h with
  | nil h => exact .nil (hgap h)
  | @cons _ gap l tokens cs h hl hsep hrest =>
    have hlen : position + 1 + gap.length = position + (c :: gap).length := by simp; omega
    rw [hlen] at hrest ⊢
    exact .cons (hgap h) hl hsep hrest

/-- Blanks, or nothing. -/
abbrev Gap := {cs : List Char // IsGap cs}

/-- A number of spaces. -/
def spaces (count : Nat) : Gap :=
  ⟨List.replicate count ' ', fun _ hc => List.eq_of_mem_replicate hc ▸ by decide⟩

/-- A lexeme and what stands before it. -/
structure Piece where
  gap : Gap
  lexeme : Lexeme

/-- Pieces as text, with a gap behind the last of them. -/
def spread : List Piece → Gap → List Char
  | [], last => last
  | p :: pieces, last => p.gap ++ p.lexeme.text ++ spread pieces last

/-- Lexemes with one space between each two. -/
def spaced : List Lexeme → List Piece
  | [] => []
  | l :: ls => ⟨spaces 0, l⟩ :: ls.map (⟨spaces 1, ·⟩)

/-- The tokens of pieces that begin at a position. -/
def placed : (position : Nat) → List Piece → List Token
  | _, [] => []
  | position, p :: pieces =>
    ⟨p.lexeme, position + p.gap.1.length⟩ ::
      placed (position + p.gap.1.length + p.lexeme.text.length) pieces

/-- Two operands in a row have blanks between them. -/
def Piece.Divided (p q : Piece) : Prop := p.lexeme.isOperand → q.lexeme.isOperand → q.gap.1 ≠ []

theorem lexemes_placed (pieces : List Piece) :
    ∀ position, (placed position pieces).map (·.lexeme) = pieces.map (·.lexeme) := by
  induction pieces with
  | nil => exact fun position => rfl
  | cons p pieces ih => exact fun position => congrArg (p.lexeme :: ·) (ih _)

theorem lexemes_spaced (ls : List Lexeme) : (spaced ls).map (·.lexeme) = ls := by
  cases ls <;> simp [spaced, Function.comp_def]

theorem divided_spaced (ls : List Lexeme) : (spaced ls).IsChain Piece.Divided := by
  have hspace (p : Piece) (l : Lexeme) : p.Divided ⟨spaces 1, l⟩ := fun _ _ => List.cons_ne_nil _ _
  cases ls with
  | nil => exact .nil
  | cons l ls =>
    rw [spaced]
    generalize (⟨spaces 0, l⟩ : Piece) = p
    induction ls generalizing p with
    | nil => exact .singleton p
    | cons m ls ih => exact List.isChain_cons_cons.mpr ⟨hspace p m, ih _⟩

/-- Divided pieces spell their tokens. -/
theorem spelled_spread {pieces : List Piece} (last : Gap)
    (hproper : ∀ p ∈ pieces, p.lexeme.IsProper) (hdivided : pieces.IsChain Piece.Divided) :
    ∀ position, Spelled position (placed position pieces) (spread pieces last) := by
  induction pieces with
  | nil => exact fun position => .nil last.2
  | cons p pieces ih =>
    intro position
    obtain ⟨hp, hproper⟩ := List.forall_mem_cons.mp hproper
    obtain ⟨hnext, hdivided⟩ := List.isChain_cons.mp hdivided
    refine .cons p.gap.2 hp ?_ (ih hproper hdivided _)
    intro hop hhead
    cases pieces with
    | nil => cases hhead
    | cons q pieces =>
      have hne := hnext q rfl hop (Option.some.inj hhead)
      obtain ⟨c, cs, hgap⟩ := List.exists_cons_of_ne_nil hne
      refine ⟨c, ?_, q.gap.2 c (by simp [hgap])⟩
      rw [spread, hgap]
      rfl

end DiceLedger.Formula
