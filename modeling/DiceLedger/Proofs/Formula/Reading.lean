import DiceLedger.Formula.Written
import DiceLedger.Proofs.Formula.Machine

/-!
# Reading accepts exactly the grammar

Every derivation can be followed through the reader, which therefore accepts a formula exactly
when its tokens are formed by the grammar and write no number too large. The reader answers
one tree, so the tree that lexemes denote is unique.
-/
namespace DiceLedger.Formula

open DiceLedger.Text

/-- A lexeme that no size keeps from being read. -/
def Lexeme.IsReadable (l : Lexeme) : Prop := l.InRange ∧ l.IsShort

/-! ## Completeness: a derivation is followed token by token -/

/-- What reading lexemes of a rank does, from any state that awaits them. -/
def Reads : Rank → List Token → Expr Throw → Prop
  | .operand, tokens, e => ∀ first level outer,
      tokens.foldlM State.read (.awaiting first level outer) =
        .ok (.ended level (level.signed e) outer)
  | .product first, tokens, e => ∀ sum outer, ∃ level last,
      tokens.foldlM State.read (.awaiting first { sum } outer) = .ok (.ended level last outer) ∧
        level.sum = sum ∧ join level.product last = e
  | .sum, tokens, e => ∀ outer, ∃ level last,
      tokens.foldlM State.read (.awaiting true {} outer) = .ok (.ended level last outer) ∧
        level.close last = e

theorem foldlM_append_ok {tokens rest : List Token} {s mid : State}
    (h : tokens.foldlM State.read s = .ok mid) :
    (tokens ++ rest).foldlM State.read s = rest.foldlM State.read mid := by
  rw [List.foldlM_append, h]
  rfl

theorem foldlM_cons_ok {t : Token} {rest : List Token} {s mid : State}
    (h : s.read t = .ok mid) :
    (t :: rest).foldlM State.read s = rest.foldlM State.read mid := by
  rw [List.foldlM_cons, h]
  rfl

theorem read_number {digits : List Char} {position : Nat}
    (hfit : (Lexeme.number digits).IsReadable) (first : Bool) (level : Level) (outer : List Level) :
    (State.awaiting first level outer).read ⟨.number digits, position⟩ =
      .ok (.ended level (level.signed (.number (value digits))) outer) := by
  obtain ⟨hrange, hshort⟩ := hfit
  have hread : readNumber digits = .ok (.number (value digits)) :=
    readNumber_eq_ok_iff.mpr ⟨hshort digits (by simp [Lexeme.runs]), hrange, rfl⟩
  simp only [State.read, beginOperand, hread]
  rfl

theorem read_dice {count faces : List Char} {position : Nat}
    (hfit : (Lexeme.dice count faces).IsReadable) (first : Bool) (level : Level)
    (outer : List Level) :
    (State.awaiting first level outer).read ⟨.dice count faces, position⟩ =
      .ok (.ended level (level.signed (.dice ⟨value count, value faces⟩)) outer) := by
  obtain ⟨hrange, hshort⟩ := hfit
  have hread : readThrow count faces = .ok (.dice ⟨value count, value faces⟩) :=
    readThrow_eq_ok_iff.mpr ⟨⟨hshort count (by simp [Lexeme.runs]),
      hshort faces (by simp [Lexeme.runs])⟩, hrange, rfl⟩
  simp only [State.read, beginOperand, hread]
  rfl

theorem exists_of_map_eq_append_cons {tokens : List Token} {ls rs : List Lexeme} {l : Lexeme}
    (h : tokens.map (·.lexeme) = ls ++ l :: rs) :
    ∃ left t right, tokens = left ++ t :: right ∧ left.map (·.lexeme) = ls ∧ t.lexeme = l ∧
      right.map (·.lexeme) = rs := by
  obtain ⟨left, rest, rfl, hleft, hrest⟩ := List.map_eq_append_iff.mp h
  obtain ⟨t, right, rfl, ht, hright⟩ := List.map_eq_cons_iff.mp hrest
  exact ⟨left, t, right, rfl, hleft, ht, hright⟩

theorem read_operator {level : Level} {e : Expr Throw} {outer : List Level} {t : Token}
    {s : Symbol} {op : Operator} (ht : t.lexeme = .symbol s) (hs : s.operator? = some op) :
    (State.ended level e outer).read t = .ok (.awaiting false (level.extend e op) outer) := by
  obtain ⟨lexeme, position⟩ := t
  obtain rfl := ht
  cases s <;> cases hs <;> cases outer <;> rfl

theorem reads_of_denotes {rank : Rank} {ls : List Lexeme} {e : Expr Throw}
    (h : Denotes rank ls e) :
    ∀ tokens : List Token, tokens.map (·.lexeme) = ls →
      (∀ t ∈ tokens, t.lexeme.IsReadable) → Reads rank tokens e := by
  induction h with
  | @number digits =>
    intro tokens hls hfit first level outer
    obtain ⟨⟨lexeme, position⟩, rfl, rfl⟩ := List.map_eq_singleton_iff.mp hls
    rw [foldlM_cons_ok (read_number (hfit _ (List.mem_singleton_self _)) first level outer)]
    rfl
  | @dice count faces =>
    intro tokens hls hfit first level outer
    obtain ⟨⟨lexeme, position⟩, rfl, rfl⟩ := List.map_eq_singleton_iff.mp hls
    rw [foldlM_cons_ok (read_dice (hfit _ (List.mem_singleton_self _)) first level outer)]
    rfl
  | @group ls e _ ih =>
    intro tokens hls hfit first level outer
    obtain ⟨o, rest, rfl, ho, hrest⟩ := List.map_eq_cons_iff.mp hls
    obtain ⟨inner, close, rfl, hinner, hclose⟩ := List.map_eq_append_iff.mp hrest
    obtain ⟨c, rfl, hc⟩ := List.map_eq_singleton_iff.mp hclose
    obtain ⟨lo, po⟩ := o
    obtain ⟨lc, pc⟩ := c
    obtain rfl := ho
    obtain rfl := hc
    obtain ⟨mid, last, hmid, rfl⟩ := ih inner hinner
      (fun t ht => hfit t (by simp [ht])) (level :: outer)
    rw [foldlM_cons_ok rfl, foldlM_append_ok hmid]
    rfl
  | @factor first ls e _ ih =>
    intro tokens hls hfit sum outer
    exact ⟨{ sum }, e, ih tokens hls hfit first { sum } outer, rfl, rfl⟩
  | @negated ls e _ ih =>
    intro tokens hls hfit sum outer
    obtain ⟨⟨lm, pm⟩, rest, rfl, rfl, hrest⟩ := List.map_eq_cons_iff.mp hls
    refine ⟨{ sum, negated := true }, .unary .minus e, ?_, rfl, rfl⟩
    rw [foldlM_cons_ok rfl]
    exact ih rest hrest (fun t ht => hfit t (by simp [ht])) false { sum, negated := true } outer
  | @times first ls rs s op l r hs hop _ _ ihl ihr =>
    intro tokens hls hfit sum outer
    obtain ⟨left, t, right, rfl, hleft, ht, hright⟩ := exists_of_map_eq_append_cons hls
    obtain ⟨level, last, hl, hsum, rfl⟩ := ihl left hleft
      (fun t ht => hfit t (by simp [ht])) sum outer
    have hr := ihr right hright (fun t ht => hfit t (by simp [ht])) false
      (level.extend last op) outer
    refine ⟨level.extend last op, r, ?_, ?_, ?_⟩
    · rw [foldlM_append_ok hl, foldlM_cons_ok (read_operator ht hs), hr]
      simp [Level.signed, Level.extend, hop]
    · simp [Level.extend, hop, hsum]
    · simp [Level.extend, hop, join]
  | term _ ih =>
    intro tokens hls hfit outer
    obtain ⟨level, last, hl, hsum, rfl⟩ := ih tokens hls hfit none outer
    exact ⟨level, last, hl, by rw [Level.close, hsum, join]⟩
  | @plus ls rs s op l r hs hop _ _ ihl ihr =>
    intro tokens hls hfit outer
    obtain ⟨left, t, right, rfl, hleft, ht, hright⟩ := exists_of_map_eq_append_cons hls
    obtain ⟨level, last, hl, rfl⟩ := ihl left hleft (fun t ht => hfit t (by simp [ht])) outer
    obtain ⟨level', last', hr, hsum, rfl⟩ := ihr right hright
      (fun t ht => hfit t (by simp [ht])) (some (level.close last, op)) outer
    refine ⟨level', last', ?_, by rw [Level.close, hsum, join]⟩
    rw [foldlM_append_ok hl, foldlM_cons_ok (read_operator ht hs), Level.extend, if_neg hop]
    exact hr

/-- The reader finds the tree of every derivation. -/
theorem readTokens_of_denotes {length : Nat} {tokens : List Token} {e : Expr Throw}
    (h : Denotes .sum (tokens.map (·.lexeme)) e)
    (hfit : ∀ t ∈ tokens, t.lexeme.IsReadable) : readTokens length tokens = .ok e := by
  obtain ⟨level, last, hread, rfl⟩ := reads_of_denotes h tokens rfl hfit []
  rw [readTokens, State.start, hread]
  rfl

/-! ## What an accepted token writes, and how a refused one is reported -/

theorem isReadable_of_read {s s' : State} {t : Token} (h : s.read t = .ok s') :
    t.lexeme.IsReadable := by
  obtain ⟨lexeme, position⟩ := t
  cases lexeme with
  | symbol c => exact ⟨trivial, by simp [Lexeme.IsShort, Lexeme.runs]⟩
  | number digits =>
    cases s with
    | ended level e outer => cases outer <;> cases h
    | awaiting first level outer =>
      obtain ⟨e, he, -⟩ := map_eq_ok_iff.mp h
      obtain ⟨hlength, hvalue, -⟩ := readNumber_eq_ok_iff.mp he
      exact ⟨hvalue, by simpa [Lexeme.IsShort, Lexeme.runs] using hlength⟩
  | dice count faces =>
    cases s with
    | ended level e outer => cases outer <;> cases h
    | awaiting first level outer =>
      obtain ⟨e, he, -⟩ := map_eq_ok_iff.mp h
      obtain ⟨hlength, hvalue, -⟩ := readThrow_eq_ok_iff.mp he
      exact ⟨hvalue, by simpa [Lexeme.IsShort, Lexeme.runs] using hlength⟩

theorem isReadable_of_foldlM {tokens : List Token} :
    ∀ {s s' : State}, tokens.foldlM State.read s = .ok s' →
      ∀ t ∈ tokens, t.lexeme.IsReadable := by
  induction tokens with
  | nil => simp
  | cons t tokens ih =>
    intro s s' h u hu
    rw [List.foldlM_cons] at h
    obtain ⟨mid, hmid, hrest⟩ := bind_eq_ok_iff.mp h
    rcases List.mem_cons.mp hu with rfl | hu
    · exact isReadable_of_read hmid
    · exact ih hrest u hu

theorem readTokens_eq_ok_iff {length : Nat} {tokens : List Token} {e : Expr Throw} :
    readTokens length tokens = .ok e ↔
      (∀ t ∈ tokens, t.lexeme.IsReadable) ∧ Denotes .sum (tokens.map (·.lexeme)) e := by
  constructor
  · intro h
    obtain ⟨s, hs, -⟩ := bind_eq_ok_iff.mp h
    exact ⟨isReadable_of_foldlM hs, denotes_of_readTokens h⟩
  · rintro ⟨hfit, h⟩
    exact readTokens_of_denotes h hfit

/-- A fault that a formula with short runs of digits can have. -/
def Fault.IsOrdinary (f : Fault) : Prop := f.IsGrammar ∨ f.IsSize

theorem readNumber_error {digits : List Char} {f : Fault} (h : readNumber digits = .error f)
    (hshort : digits.length ≤ digitLimit) : f.IsOrdinary := by
  simp only [readNumber, readDigits, Nat.not_lt.mpr hshort, if_false, bind, Except.bind] at h
  split at h
  · obtain rfl := Except.error.inj h
    exact .inr trivial
  · cases h

theorem readThrow_error {count faces : List Char} {f : Fault}
    (h : readThrow count faces = .error f) (hcount : count.length ≤ digitLimit)
    (hfaces : faces.length ≤ digitLimit) : f.IsOrdinary := by
  simp only [readThrow, readDigits, Nat.not_lt.mpr hcount, Nat.not_lt.mpr hfaces, if_false,
    bind, Except.bind] at h
  split at h
  · obtain rfl := Except.error.inj h
    exact .inr trivial
  · split at h
    · obtain rfl := Except.error.inj h
      exact .inr trivial
    · cases h

theorem beginOperand_error {first : Bool} {level : Level} {outer : List Level} {t : Token}
    {f : Fault} (h : beginOperand first level outer t = .error f) (hshort : t.lexeme.IsShort) :
    f.IsOrdinary := by
  obtain ⟨lexeme, position⟩ := t
  cases lexeme with
  | number digits =>
    exact readNumber_error (map_eq_error_iff.mp h) (hshort digits (by simp [Lexeme.runs]))
  | dice count faces =>
    exact readThrow_error (map_eq_error_iff.mp h) (hshort count (by simp [Lexeme.runs]))
      (hshort faces (by simp [Lexeme.runs]))
  | symbol c =>
    cases c with
    | opening => cases h
    | minus =>
      cases first with
      | true => cases h
      | false => cases h; exact .inl rfl
    | _ => cases h; exact .inl rfl

theorem endOperand_error {level : Level} {e : Expr Throw} {outer : List Level} {t : Token}
    {f : Fault} (h : endOperand level e outer t = .error f) : f.IsOrdinary := by
  obtain ⟨lexeme, position⟩ := t
  cases outer with
  | nil =>
    cases lexeme with
    | symbol c => cases c <;> cases h <;> exact .inl rfl
    | _ => cases h; exact .inl rfl
  | cons up outer =>
    cases lexeme with
    | symbol c =>
      cases c <;> cases h
      exact .inl rfl
    | _ => cases h; exact .inl rfl

theorem foldlM_read_error {tokens : List Token} :
    ∀ {s : State} {f : Fault}, tokens.foldlM State.read s = .error f →
      (∀ t ∈ tokens, t.lexeme.IsShort) → f.IsOrdinary := by
  induction tokens with
  | nil => intro s f h _; cases h
  | cons t tokens ih =>
    intro s f h hshort
    rw [List.foldlM_cons] at h
    rcases bind_eq_error_iff.mp h with ht | ⟨mid, -, hrest⟩
    · cases s with
      | awaiting first level outer => exact beginOperand_error ht (hshort t (by simp))
      | ended level e outer => exact endOperand_error ht
    · exact ih hrest (fun u hu => hshort u (by simp [hu]))

theorem finish_error {s : State} {length : Nat} {f : Fault} (h : s.finish length = .error f) :
    f.IsOrdinary := by
  cases s with
  | awaiting first level outer => cases h; exact .inl rfl
  | ended level e outer =>
    cases outer with
    | nil => cases h
    | cons up outer => cases h; exact .inl rfl

theorem readTokens_error {length : Nat} {tokens : List Token} {f : Fault}
    (h : readTokens length tokens = .error f) (hshort : ∀ t ∈ tokens, t.lexeme.IsShort) :
    f.IsOrdinary := by
  rcases bind_eq_error_iff.mp h with hs | ⟨s, -, hfinish⟩
  · exact foldlM_read_error hs hshort
  · exact finish_error hfinish

/-- Every fault of a formula with short runs of digits is one of grammar or of size. -/
theorem read_error {formula : String} {f : Fault} (hruns : ShortRuns formula.toList)
    (h : read formula = .error f) : f.IsOrdinary := by
  rw [read] at h
  split at h
  · obtain rfl := Except.error.inj h
    exact .inl rfl
  · rcases bind_eq_error_iff.mp h with hscan | ⟨tokens, hscan, hread⟩
    · obtain ⟨c, place, rfl⟩ := scanFrom_error hscan
      exact .inl rfl
    · exact readTokens_error hread (isShort_of_scan hruns hscan)

/-! ## The grammar itself: every formed list of lexemes denotes one tree -/

theorem denotes_extend_product {ls rs : List Lexeme} {s : Symbol} {op : Operator}
    {l r : Expr Throw} (hs : s.operator? = some op) (hop : op.isProduct)
    (hl : Denotes .sum ls l) (hr : Denotes .operand rs r) :
    ∃ e, Denotes .sum (ls ++ .symbol s :: rs) e := by
  cases hl with
  | term h => exact ⟨_, .term (.times hs hop h hr)⟩
  | plus hs' hop' hl' hr' =>
    have h := Denotes.plus hs' hop' hl' (.times hs hop hr' hr)
    exact ⟨_, by simpa using h⟩

theorem denotes_of_formed {shape : Shape} {ls : List Lexeme} (h : Formed shape ls) :
    ∃ e, Denotes (match shape with | .operand => .operand | .formula => .sum) ls e := by
  induction h with
  | number => exact ⟨_, .number⟩
  | dice => exact ⟨_, .dice⟩
  | group _ ih => exact ih.imp fun e he => .group he
  | bare _ ih => exact ih.imp fun e he => .term (.factor he)
  | negated _ ih =>
    obtain ⟨e, he⟩ := ih
    exact ⟨_, .term (.negated he)⟩
  | @extended ls rs s op hs _ _ ihl ihr =>
    obtain ⟨l, hl⟩ := ihl
    obtain ⟨r, hr⟩ := ihr
    by_cases hop : op.isProduct
    · exact denotes_extend_product hs hop hl hr
    · exact ⟨_, .plus hs hop hl (.factor hr)⟩

theorem denotes_ne_nil {rank : Rank} {ls : List Lexeme} {e : Expr Throw}
    (h : Denotes rank ls e) : ls ≠ [] := by
  induction h with
  | factor _ ih => exact ih
  | term _ ih => exact ih
  | _ => simp [bracketed]

/-! ## What trees are read -/

/-- A tree holds no number larger than its lexemes do. -/
theorem isWritable_of_denotes {rank : Rank} {ls : List Lexeme} {e : Expr Throw}
    (h : Denotes rank ls e) (hrange : ∀ l ∈ ls, l.InRange) : IsWritable e := by
  have hoperator {s : Symbol} {op : Operator} (hs : s.operator? = some op) :
      (Operator.symbol? op).isSome := by
    cases s <;> cases hs <;> rfl
  induction h with
  | number =>
    have hvalue := hrange _ (List.mem_singleton_self _)
    exact ⟨Int.natCast_nonneg _, Int.ofNat_le.mpr hvalue⟩
  | dice =>
    obtain ⟨hcount, hfaces⟩ := hrange _ (List.mem_singleton_self _)
    exact ⟨⟨Int.natCast_nonneg _, Int.ofNat_le.mpr hcount⟩,
      Int.natCast_nonneg _, Int.ofNat_le.mpr hfaces⟩
  | group _ ih => exact ih fun l hl => hrange l (by simp [bracketed, hl])
  | factor _ ih => exact ih hrange
  | negated _ ih => exact ⟨rfl, ih fun l hl => hrange l (List.mem_cons_of_mem _ hl)⟩
  | times hs _ _ _ ihl ihr =>
    exact ⟨hoperator hs, ihl fun l hl => hrange l (by simp [hl]),
      ihr fun l hl => hrange l (by simp [hl])⟩
  | term _ ih => exact ih hrange
  | plus hs _ _ _ ihl ihr =>
    exact ⟨hoperator hs, ihl fun l hl => hrange l (by simp [hl]),
      ihr fun l hl => hrange l (by simp [hl])⟩

/-- The dice of a tree ask for no more than their lexemes do. -/
theorem leaves_of_isWritable {e : Expr Throw} (h : IsWritable e) :
    ∀ t ∈ e.leaves,
      (0 ≤ t.count ∧ t.count ≤ largestThrow) ∧ 0 ≤ t.faces ∧ t.faces ≤ largestThrow := by
  induction e with
  | number n => simp [Expr.leaves]
  | dice t => simpa [Expr.leaves] using show _ ∧ _ from h
  | unary sign operand ih => exact ih h.2
  | binary left op right ihl ihr =>
    intro t ht
    rcases List.mem_append.mp ht with ht | ht
    · exact ihl h.2.1 t ht
    · exact ihr h.2.2 t ht

theorem faces_le_of_isWritable {e : Expr Throw} (h : IsWritable e) :
    ∀ t ∈ e.leaves, t.faces ≤ largestThrow :=
  fun t ht => (leaves_of_isWritable h t ht).2.2

/-! ## The reader and the grammar -/

theorem scanFrom_blank {formula : String} {cs : List Char} (h : cs.all isBlank) :
    ∀ position, scanFrom formula position 0 cs = .ok [] := by
  induction cs with
  | nil => intro position; rfl
  | cons c cs ih =>
    intro position
    rw [List.all_cons, Bool.and_eq_true] at h
    rw [scanFrom, if_pos h.1]
    exact ih h.2 _

theorem read_eq_ok_iff {formula : String} {e : Expr Throw} :
    read formula = .ok e ↔ ∃ tokens, scan formula = .ok tokens ∧
      (∀ t ∈ tokens, t.lexeme.IsReadable) ∧ Denotes .sum (tokens.map (·.lexeme)) e := by
  rw [read]
  split
  · next hblank =>
    have hscan : scan formula = .ok [] := scanFrom_blank hblank 0
    constructor
    · intro h; cases h
    · rintro ⟨tokens, htokens, -, h⟩
      obtain rfl := Except.ok.inj (hscan.symm.trans htokens)
      exact absurd rfl (denotes_ne_nil h)
  · rw [bind_eq_ok_iff]
    exact exists_congr fun tokens => and_congr_right fun _ => readTokens_eq_ok_iff

theorem isWritable_of_read {formula : String} {e : Expr Throw} (h : read formula = .ok e) :
    IsWritable e := by
  obtain ⟨tokens, -, hfit, hd⟩ := read_eq_ok_iff.mp h
  refine isWritable_of_denotes hd fun l hl => ?_
  obtain ⟨t, ht, rfl⟩ := List.mem_map.mp hl
  exact (hfit t ht).1

/-- **Reading accepts exactly the grammar.** A formula without overlong runs of digits has a
tree exactly when it can be scanned, writes no number too large and is formed by the rules;
the tree is then the one that its lexemes denote. It is refused only for its grammar or for
the size of a number. -/
theorem read_corresponds_grammar (formula : String) (hruns : ShortRuns formula.toList) :
    ((∃ e, read formula = .ok e) ↔ ∃ tokens, scan formula = .ok tokens ∧
      (∀ t ∈ tokens, t.lexeme.InRange) ∧ Formed .formula (tokens.map (·.lexeme))) ∧
    (∀ e, read formula = .ok e ↔ ∃ tokens, scan formula = .ok tokens ∧
      (∀ t ∈ tokens, t.lexeme.InRange) ∧ Denotes .sum (tokens.map (·.lexeme)) e ∧
      ∀ e', Denotes .sum (tokens.map (·.lexeme)) e' → e' = e) ∧
    (∀ f, read formula = .error f → f.IsGrammar ∨ f.IsSize) := by
  have hreadable {tokens : List Token} (hscan : scan formula = .ok tokens)
      (hrange : ∀ t ∈ tokens, t.lexeme.InRange) : ∀ t ∈ tokens, t.lexeme.IsReadable :=
    fun t ht => ⟨hrange t ht, isShort_of_scan hruns hscan t ht⟩
  refine ⟨⟨?_, ?_⟩, fun e => ⟨?_, ?_⟩, fun f hf => read_error hruns hf⟩
  · rintro ⟨e, h⟩
    obtain ⟨tokens, hscan, hfit, hd⟩ := read_eq_ok_iff.mp h
    exact ⟨tokens, hscan, fun t ht => (hfit t ht).1, formed_of_denotes hd⟩
  · rintro ⟨tokens, hscan, hrange, hformed⟩
    obtain ⟨e, hd⟩ := denotes_of_formed hformed
    exact ⟨e, read_eq_ok_iff.mpr ⟨tokens, hscan, hreadable hscan hrange, hd⟩⟩
  · intro h
    obtain ⟨tokens, hscan, hfit, hd⟩ := read_eq_ok_iff.mp h
    refine ⟨tokens, hscan, fun t ht => (hfit t ht).1, hd, fun e' hd' => ?_⟩
    have h' := read_eq_ok_iff.mpr ⟨tokens, hscan, hfit, hd'⟩
    exact Except.ok.inj (h'.symm.trans h)
  · rintro ⟨tokens, hscan, hrange, hd, -⟩
    exact read_eq_ok_iff.mpr ⟨tokens, hscan, hreadable hscan hrange, hd⟩

/-- A minus, parentheses, and operators of both ranks. -/
theorem read_corresponds_grammar_nested :
    ShortRuns "-(1d6 + 2) * 3 - 4".toList ∧
    ∃ tokens, scan "-(1d6 + 2) * 3 - 4" = .ok tokens ∧ (∀ t ∈ tokens, t.lexeme.InRange) ∧
      Formed .formula (tokens.map (·.lexeme)) := by
  have hruns : ShortRuns "-(1d6 + 2) * 3 - 4".toList := shortRuns_of_length (by decide)
  exact ⟨hruns, (read_corresponds_grammar _ hruns).1.mp
    ⟨.binary (.binary (.unary .minus (.binary (.dice ⟨1, 6⟩) .add (.number 2))) .mul (.number 3))
      .sub (.number 4), by rfl⟩⟩

end DiceLedger.Formula
