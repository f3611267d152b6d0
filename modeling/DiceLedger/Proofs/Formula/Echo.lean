import DiceLedger.Proofs.Formula.Writing

/-!
# The text of a tree is its formula without parentheses

The text of a tree is made of words with a space between each two. For a tree that was read from
a formula the words are the lexemes of that formula, each written out again, but for the
parentheses: reading drops no other lexeme, repeats none and changes no two about.
-/
namespace DiceLedger

open DiceLedger.Text DiceLedger.Formula

/-! ## Words -/

/-- The words of the text of a tree, given the text of its dice leaves. -/
def Expr.words {α : Type} (shown : α → String) : Expr α → List String
  | .number n => [String.ofList (signedDecimal n)]
  | .dice held => [shown held]
  | .unary sign operand => sign.symbol :: operand.words shown
  | .binary left op right => left.words shown ++ op.symbol :: right.words shown

theorem words_ne_nil {α : Type} (shown : α → String) (e : Expr α) : e.words shown ≠ [] := by
  cases e <;> simp [Expr.words]

/-- The text of a tree is its words with spaces between them. -/
theorem textWith_eq {α : Type} (shown : α → String) (e : Expr α) :
    e.textWith shown = " ".intercalate (e.words shown) := by
  induction e with
  | number n => exact String.intercalate_singleton.symm
  | dice held => exact String.intercalate_singleton.symm
  | unary sign operand ih =>
    rw [Expr.textWith, ih, Expr.words,
      String.intercalate_cons_of_ne_nil (words_ne_nil shown operand)]
  | binary left op right ihl ihr =>
    rw [Expr.textWith, ihl, ihr, Expr.words,
      String.intercalate_append_of_ne_nil (words_ne_nil shown left) (List.cons_ne_nil _ _),
      String.intercalate_cons_of_ne_nil (words_ne_nil shown right)]
    simp only [String.append_assoc]

/-! ## The words are lexemes -/

theorem text_of_nonneg {t : Throw} (hcount : 0 ≤ t.count) (hfaces : 0 ≤ t.faces) :
    t.text = String.ofList (Lexeme.dice (decimal t.count.toNat) (decimal t.faces.toNat)).text := by
  rw [Throw.text, signedDecimal_of_nonneg hcount, signedDecimal_of_nonneg hfaces, Lexeme.text]

theorem symbol_of_symbol? {op : Operator} {s : Symbol} (h : Operator.symbol? op = some s) :
    op.symbol = String.ofList (Lexeme.symbol s).text := by
  cases op <;> cases h <;> rfl

theorem words_eq_echoed {e : Expr Throw} (he : IsWritable e) :
    e.words Throw.text = (echoed e).map fun l => String.ofList l.text := by
  induction e with
  | number n =>
    rw [Expr.words, signedDecimal_of_nonneg he.1]
    rfl
  | dice t =>
    rw [Expr.words, text_of_nonneg he.1.1 he.2.1]
    rfl
  | unary sign operand ih =>
    obtain ⟨rfl, hoperand⟩ := he
    rw [Expr.words, ih hoperand]
    rfl
  | binary left op right ihl ihr =>
    obtain ⟨s, hs⟩ := Option.isSome_iff_exists.mp he.1
    rw [Expr.words, ihl he.2.1, ihr he.2.2, symbol_of_symbol? hs, echoed, hs]
    simp

/-- The lexemes of the text are those of the written tree without parentheses. -/
theorem filter_written {e : Expr Throw} (he : IsWritable e) :
    ∀ leading, (written leading e).filter (!·.isParenthesis) = echoed e := by
  have hbracketed (ls : List Lexeme) :
      (bracketed ls).filter (!·.isParenthesis) = ls.filter (!·.isParenthesis) := by
    simp [bracketed, Lexeme.isParenthesis]
  have hpart (holds : Bool) (ls bs : List Lexeme) :
      (if holds then ls else bracketed bs).filter (!·.isParenthesis) =
        if holds then ls.filter (!·.isParenthesis) else bs.filter (!·.isParenthesis) := by
    cases holds with
    | true => rfl
    | false => exact hbracketed bs
  induction e with
  | number n => exact fun _ => rfl
  | dice t => exact fun _ => rfl
  | unary sign operand ih =>
    intro leading
    have hsigned (ls : List Lexeme) : (Lexeme.symbol .minus :: ls).filter (!·.isParenthesis) =
        .symbol .minus :: ls.filter (!·.isParenthesis) := rfl
    cases leading <;>
      simp only [written, echoed, if_true, Bool.false_eq_true, if_false, hbracketed, hsigned, hpart,
        ih he.2, ite_self]
  | binary left op right ihl ihr =>
    intro leading
    have hoperator : ((Operator.symbol? op).toList.map Lexeme.symbol).filter (!·.isParenthesis) =
        (Operator.symbol? op).toList.map .symbol := by
      cases op <;> rfl
    simp only [written, echoed, List.filter_append, hpart, ihl he.2.1, ihr he.2.2, hoperator,
      ite_self]

theorem isReadable_echoed {e : Expr Throw} (he : IsWritable e) :
    ∀ l ∈ echoed e, l.IsProper ∧ l.IsReadable := by
  intro l hl
  rw [← filter_written he true, ← writtenWith_none] at hl
  exact isReadable_writtenWith he _ true l (List.mem_of_mem_filter hl)

/-- Spaced lexemes are their texts with spaces between them. -/
theorem spread_spaced (ls : List Lexeme) :
    spread (spaced ls) (spaces 0) = [' '].intercalate (ls.map (·.text)) := by
  have htail (ls : List Lexeme) : spread (ls.map (⟨spaces 1, ·⟩)) (spaces 0) =
      ls.flatMap fun l => ' ' :: l.text := by
    induction ls with
    | nil => rfl
    | cons l ls ih => rw [List.map_cons, spread, ih, List.flatMap_cons]; rfl
  cases ls with
  | nil => rfl
  | cons l ls =>
    rw [spaced, spread, htail]
    induction ls generalizing l with
    | nil => simp [spaces]
    | cons m ls ih =>
      rw [List.map_cons, List.map_cons, List.intercalate_cons_cons, ← List.map_cons, ← ih]
      simp [spaces]

theorem text_eq_spread {e : Expr Throw} (he : IsWritable e) :
    e.text = String.ofList (spread (spaced (echoed e)) (spaces 0)) := by
  apply String.toList_inj.mp
  rw [Expr.text, textWith_eq, words_eq_echoed he, spread_spaced]
  simp [String.toList_intercalate, Function.comp_def]

/-- The tokens of the text of a tree. -/
def echoTokens (e : Expr Throw) : List Token := placed 0 (spaced (echoed e))

theorem lexemes_echoTokens (e : Expr Throw) :
    (echoTokens e).map (·.lexeme) = echoed e := by
  rw [echoTokens, lexemes_placed, lexemes_spaced]

/-- The text of a tree is scanned as its own lexemes. -/
theorem scan_text {e : Expr Throw} (he : IsWritable e) : scan e.text = .ok (echoTokens e) := by
  rw [text_eq_spread he]
  refine scan_spread _ (fun p hp => ?_) (divided_spaced _)
  have hmem : p.lexeme ∈ (spaced (echoed e)).map (·.lexeme) := List.mem_map_of_mem hp
  rw [lexemes_spaced] at hmem
  exact (isReadable_echoed he _ hmem).1

/-! ## The lexemes of a formula and of the text of its tree -/

/-- Reading drops the parentheses, and nothing else. -/
theorem marks_echoed {rank : Rank} {ls : List Lexeme} {e : Expr Throw} (h : Denotes rank ls e) :
    (echoed e).map (·.mark) = (ls.filter (!·.isParenthesis)).map (·.mark) := by
  have hsymbol {s : Symbol} {op : Operator} (hs : s.operator? = some op) :
      (Operator.symbol? op).toList.map (fun s => (Lexeme.symbol s).mark) =
        ([Lexeme.symbol s].filter (!·.isParenthesis)).map (·.mark) := by
    cases s <;> cases hs <;> rfl
  have hbinary {ls rs : List Lexeme} {s : Symbol} {op : Operator} {l r : Expr Throw}
      (hs : s.operator? = some op)
      (hl : (echoed l).map (·.mark) = (ls.filter (!·.isParenthesis)).map (·.mark))
      (hr : (echoed r).map (·.mark) = (rs.filter (!·.isParenthesis)).map (·.mark)) :
      (echoed (.binary l op r)).map (·.mark) =
        ((ls ++ .symbol s :: rs).filter (!·.isParenthesis)).map (·.mark) := by
    rw [echoed, List.append_cons, List.filter_append, List.filter_append, List.map_append,
      List.map_append, List.map_append, List.map_append, hl, hr, ← hsymbol hs, List.map_map]
    rfl
  induction h with
  | number => simp [echoed, Lexeme.mark, Lexeme.isParenthesis, value_decimal]
  | dice => simp [echoed, Lexeme.mark, Lexeme.isParenthesis, value_decimal]
  | group _ ih => simpa [bracketed, Lexeme.isParenthesis] using ih
  | factor _ ih => exact ih
  | negated _ ih => simpa [echoed, Lexeme.isParenthesis] using ih
  | times hs _ _ _ ihl ihr => exact hbinary hs ihl ihr
  | term _ ih => exact ih
  | plus hs _ _ _ ihl ihr => exact hbinary hs ihl ihr

/-- A formula without parentheses has the same tree as the text of its tree. -/
theorem read_text {formula : String} {tokens : List Token} {e : Expr Throw}
    (hscan : scan formula = .ok tokens) (hread : read formula = .ok e)
    (hplain : ∀ t ∈ tokens, ¬t.lexeme.isParenthesis) : read e.text = .ok e := by
  obtain ⟨found, hfound, hreadable, h⟩ := read_eq_ok_iff.mp hread
  obtain rfl := Except.ok.inj (hfound.symm.trans hscan)
  have he := isWritable_of_read hread
  have hmarks : found.map (·.lexeme.mark) = (echoTokens e).map (·.lexeme.mark) := by
    have hfilter : (found.map (·.lexeme)).filter (!·.isParenthesis) = found.map (·.lexeme) := by
      simpa [List.filter_eq_self] using hplain
    have hmark := marks_echoed h
    rw [hfilter, ← lexemes_echoTokens e] at hmark
    simpa [Function.comp_def] using hmark.symm
  have hshort : ∀ t ∈ echoTokens e, t.lexeme.IsShort := by
    intro t ht
    have hmem : t.lexeme ∈ echoed e := lexemes_echoTokens e ▸ List.mem_map_of_mem ht
    exact (isReadable_echoed he _ hmem).2.2
  have hfound : readTokens 0 found = .ok e := readTokens_eq_ok_iff.mpr ⟨hreadable, h⟩
  have hread' : readTokens 0 (echoTokens e) = .ok e := readTokens_of_marks hmarks hshort hfound
  exact read_eq_ok_iff.mpr ⟨_, scan_text he, readTokens_eq_ok_iff.mp hread'⟩

end DiceLedger
