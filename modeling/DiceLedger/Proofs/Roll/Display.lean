import DiceLedger.Proofs.Formula.Echo
import DiceLedger.Proofs.Roll.Totals

/-!
# What is shown of a formula and of its dice

The echo of a formula is the text of its tree, and the display of a roll is the same text with
the values that came up in place of the dice. The values stand in the order in which they were
offered to the log, and can be read back from the display alone.
-/
namespace DiceLedger

open DiceLedger.Text DiceLedger.Formula

/-! ## Reading a display -/

/-- The integer that digits write, with a minus before them or without. -/
def signedValue : List Char → Int
  | '-' :: digits => -(value digits : Int)
  | digits => value digits

/-- The values that stand between brackets. -/
def shownRow (body : List Char) : List Int :=
  if body.isEmpty then []
  else (body.splitOn ',').map fun part => signedValue (part.dropWhile (· = ' '))

/-- The values of a display: those of each pair of brackets, from left to right. -/
def shownRows : List Char → List (List Int)
  | [] => []
  | '[' :: cs => shownRow (cs.takeWhile (· ≠ ']')) :: shownRows cs
  | _ :: cs => shownRows cs

theorem signedValue_signedDecimal (n : Int) : signedValue (signedDecimal n) = n := by
  cases n with
  | ofNat n =>
    rw [signedDecimal]
    unfold signedValue
    split
    · next heq =>
      have hminus : '-' ∈ digits := mem_digits_of_decimal (heq ▸ List.mem_cons_self)
      exact absurd hminus (by decide)
    · rw [value_decimal]
      rfl
  | negSucc n =>
    rw [signedDecimal, signedValue, value_decimal]
    rfl

theorem signedDecimal_ne_nil (n : Int) : signedDecimal n ≠ [] := by
  cases n with
  | ofNat n => exact decimal_ne_nil n
  | negSucc n => exact List.cons_ne_nil _ _

/-- What stands between the brackets of a row of values. -/
def rowBody (values : List Int) : List Char := [',', ' '].intercalate (values.map signedDecimal)

theorem toList_rolledText (values : List Int) :
    (rolledText values).toList = '[' :: (rowBody values ++ [']']) := by
  simp [rolledText, rowBody, String.toList_intercalate, Function.comp_def]

theorem rowBody_cons (v : Int) (values : List Int) :
    rowBody (v :: values) =
      [','].intercalate (signedDecimal v :: values.map fun n => ' ' :: signedDecimal n) := by
  induction values generalizing v with
  | nil => simp [rowBody]
  | cons w values ih =>
    rw [List.map_cons, List.intercalate_cons_cons, List.intercalate_cons_cons_left, ← ih w,
      rowBody, List.map_cons, List.map_cons, List.intercalate_cons_cons]
    simp [rowBody]

theorem mem_intercalate {α : Type} {separator : List α} {parts : List (List α)} {c : α}
    (h : c ∈ separator.intercalate parts) : c ∈ separator ∨ ∃ part ∈ parts, c ∈ part := by
  induction parts with
  | nil => simp at h
  | cons part parts ih =>
    cases parts with
    | nil => exact .inr ⟨part, List.mem_cons_self, by simpa using h⟩
    | cons next parts =>
      rw [List.intercalate_cons_cons, List.mem_append, List.mem_append] at h
      rcases h with (hpart | hseparator) | hrest
      · exact .inr ⟨part, List.mem_cons_self, hpart⟩
      · exact .inl hseparator
      · exact (ih hrest).imp_right fun ⟨other, hother, hc⟩ =>
          ⟨other, List.mem_cons_of_mem part hother, hc⟩

theorem mem_rowBody {values : List Int} {c : Char} (h : c ∈ rowBody values) :
    c ∈ ',' :: ' ' :: '-' :: digits := by
  rcases mem_intercalate h with hseparator | ⟨part, hpart, hc⟩
  · exact List.mem_append_left ('-' :: digits) hseparator
  · obtain ⟨n, -, rfl⟩ := List.mem_map.mp hpart
    exact List.mem_append_right [',', ' '] (mem_signedDecimal hc)

/-- The values of one pair of brackets are read back. -/
theorem shownRow_rowBody (values : List Int) : shownRow (rowBody values) = values := by
  have hread (n : Int) :
      signedValue ((signedDecimal n).dropWhile (· = ' ')) = n := by
    obtain ⟨c, cs, hcs⟩ := List.exists_cons_of_ne_nil (signedDecimal_ne_nil n)
    have hc : c ∈ '-' :: digits := mem_signedDecimal (hcs ▸ List.mem_cons_self)
    have hne : c ≠ ' ' := by
      rintro rfl
      exact absurd hc (by decide)
    rw [hcs, List.dropWhile_cons_of_neg (by simpa using hne), ← hcs, signedValue_signedDecimal]
  cases values with
  | nil => rfl
  | cons v values =>
    have hcomma (n : Int) : ',' ∉ signedDecimal n :=
      fun h => absurd (mem_signedDecimal h) (by decide)
    have hparts : ∀ part ∈ signedDecimal v :: values.map fun n => ' ' :: signedDecimal n,
        ',' ∉ part := by
      simp [hcomma]
    have hfull : (rowBody (v :: values)).isEmpty = false := by
      obtain ⟨c, cs, hcs⟩ := List.exists_cons_of_ne_nil (signedDecimal_ne_nil v)
      rw [rowBody_cons, hcs]
      cases values <;> rfl
    rw [shownRow, hfull, if_neg Bool.false_ne_true, rowBody_cons,
      List.splitOn_intercalate ',' hparts (List.cons_ne_nil _ _)]
    simp [hread, Function.comp_def]

theorem shownRows_skip {cs : List Char} (h : '[' ∉ cs) (ys : List Char) :
    shownRows (cs ++ ys) = shownRows ys := by
  induction cs with
  | nil => rfl
  | cons c cs ih =>
    rw [List.mem_cons, not_or] at h
    rw [List.cons_append, shownRows.eq_3 _ _ fun hc => h.1 hc.symm, ih h.2]

theorem shownRows_rolledText (values : List Int) (ys : List Char) :
    shownRows ((rolledText values).toList ++ ys) = values :: shownRows ys := by
  have hclosing : ∀ c ∈ rowBody values, decide (c ≠ ']') = true := by
    intro c hc
    have hne : c ≠ ']' := by
      rintro rfl
      exact absurd (mem_rowBody hc) (by decide)
    simpa using hne
  have hopening : '[' ∉ rowBody values ++ [']'] := by
    intro h
    rcases List.mem_append.mp h with h | h
    · exact absurd (mem_rowBody h) (by decide)
    · exact absurd (List.mem_singleton.mp h) (by decide)
  rw [toList_rolledText, List.cons_append, shownRows, shownRows_skip hopening,
    List.append_assoc, List.takeWhile_append_of_pos hclosing, List.singleton_append,
    List.takeWhile_cons_of_neg (by decide), List.append_nil, shownRow_rowBody]

/-- **The values of a rolled tree are read back from its text.** -/
theorem shownRows_textWith {e : Expr (List Int)} (h : e.IsSensible) :
    ∀ ys, shownRows ((e.textWith rolledText).toList ++ ys) = e.leaves ++ shownRows ys := by
  induction e with
  | number n =>
    intro ys
    have hopening : '[' ∉ signedDecimal n := fun h => absurd (mem_signedDecimal h) (by decide)
    rw [Expr.textWith, String.toList_ofList, shownRows_skip hopening]
    rfl
  | dice values => exact fun ys => shownRows_rolledText values ys
  | unary sign operand ih =>
    intro ys
    obtain ⟨rfl, hoperand⟩ := h
    simp only [Expr.textWith, String.toList_append, List.append_assoc]
    rw [shownRows_skip (by decide), shownRows_skip (by decide), ih hoperand]
    rfl
  | binary left op right ihl ihr =>
    intro ys
    obtain ⟨hop, hleft, hright⟩ := h
    have hsymbol : '[' ∉ op.symbol.toList := by
      cases op with
      | other symbol => cases hop
      | _ => decide
    simp only [Expr.textWith, String.toList_append, List.append_assoc]
    rw [ihl hleft, shownRows_skip (by decide), shownRows_skip hsymbol, shownRows_skip (by decide),
      ihr hright, Expr.leaves, List.append_assoc]

theorem shownRows_display {e : Expr (List Int)} (h : e.IsSensible) :
    shownRows e.display.toList = e.leaves := by
  have hrows := shownRows_textWith h []
  rwa [List.append_nil, shownRows, List.append_nil] at hrows

/-! ## Values in place of the dice -/

/-- The texts of lexemes, with other texts in place of the dice, one after the other. -/
def withDiceAs : List Lexeme → List String → List String
  | [], _ => []
  | .dice _ _ :: ls, text :: texts => text :: withDiceAs ls texts
  | l :: ls, texts => String.ofList l.text :: withDiceAs ls texts

theorem withDiceAs_append {ls : List Lexeme} (ms : List Lexeme) :
    ∀ {texts : List String} (us : List String), texts.length = ls.countP (·.isDice) →
      withDiceAs (ls ++ ms) (texts ++ us) = withDiceAs ls texts ++ withDiceAs ms us := by
  induction ls with
  | nil =>
    intro texts us h
    obtain rfl := List.length_eq_zero_iff.mp h
    rfl
  | cons l ls ih =>
    intro texts us h
    cases l with
    | dice count faces =>
      rw [List.countP_cons_of_pos rfl] at h
      obtain ⟨text, texts, rfl⟩ := List.exists_cons_of_length_eq_add_one h
      exact congrArg (text :: ·) (ih us (Nat.succ.inj h))
    | number digits =>
      rw [List.countP_cons_of_neg Bool.false_ne_true] at h
      exact congrArg (_ :: ·) (ih us h)
    | symbol s =>
      rw [List.countP_cons_of_neg Bool.false_ne_true] at h
      exact congrArg (_ :: ·) (ih us h)

theorem length_leaves_fill (e : Expr Throw) :
    ∀ values, (e.fill values).leaves.length = e.leaves.length := by
  induction e with
  | number n => exact fun _ => rfl
  | dice t => exact fun _ => rfl
  | unary sign operand ih => exact fun values => ih values
  | binary left op right ihl ihr =>
    intro values
    rw [Expr.fill, Expr.leaves, Expr.leaves, List.length_append, List.length_append, ihl, ihr]

theorem countP_echoed (e : Expr Throw) :
    (echoed e).countP (·.isDice) = e.leaves.length := by
  induction e with
  | number n => rfl
  | dice t => rfl
  | unary sign operand ih =>
    rw [echoed, List.countP_cons_of_neg Bool.false_ne_true, ih]
    rfl
  | binary left op right ihl ihr =>
    have hoperator : ((Operator.symbol? op).toList.map Lexeme.symbol).countP (·.isDice) = 0 := by
      cases op <;> rfl
    rw [echoed, List.countP_append, List.countP_append, hoperator, ihl, ihr, Expr.leaves,
      List.length_append]
    rfl

/-- The words of a rolled tree are the lexemes of the tree with values in place of its dice. -/
theorem words_fill {e : Expr Throw} (he : IsWritable e) :
    ∀ values, (e.fill values).words rolledText =
      withDiceAs (echoed e) ((e.fill values).leaves.map rolledText) := by
  induction e with
  | number n =>
    intro values
    rw [Expr.fill, Expr.words, signedDecimal_of_nonneg he.1]
    rfl
  | dice t => exact fun values => rfl
  | unary sign operand ih =>
    intro values
    obtain ⟨rfl, hoperand⟩ := he
    rw [Expr.fill, Expr.words, ih hoperand]
    rfl
  | binary left op right ihl ihr =>
    intro values
    obtain ⟨s, hs⟩ := Option.isSome_iff_exists.mp he.1
    have hlength (values : List Int) : ((left.fill values).leaves.map rolledText).length =
        (echoed left).countP (·.isDice) := by
      rw [List.length_map, length_leaves_fill, countP_echoed]
    have hcons (ls : List Lexeme) (texts : List String) :
        withDiceAs (.symbol s :: ls) texts = op.symbol :: withDiceAs ls texts := by
      rw [symbol_of_symbol? hs]
      rfl
    rw [Expr.fill, Expr.words, ihl he.2.1, ihr he.2.2, echoed, hs, Expr.leaves, List.map_append,
      List.append_assoc, withDiceAs_append _ _ (hlength _)]
    exact congrArg _ (hcons _ _).symm

/-! ## Records -/

/-- The records of a rolled tree, a row for each of its dice leaves. -/
def recordsFor (who : Roller) (e : Expr Throw) (rolled : Expr (List Int)) :
    List (List RollRecord) :=
  List.zipWith (fun t values => values.map (who.recordOf t.faces)) e.leaves rolled.leaves

theorem recordsFor_binary (who : Roller) (left right : Expr Throw) (op : Operator)
    (values : List Int) :
    recordsFor who (.binary left op right) ((Expr.binary left op right).fill values) =
      recordsFor who left (left.fill (values.take left.row.length)) ++
        recordsFor who right (right.fill (values.drop left.row.length)) :=
  List.zipWith_append (length_leaves_fill left _).symm

/-- The records of dice that have all the same faces. -/
theorem recordsOf_replicate (who : Roller) (faces : Int) (n : Nat) :
    ∀ values : List Int, List.zipWith who.recordOf (List.replicate n faces) values =
      (values.take n).map (who.recordOf faces) := by
  induction n with
  | zero => exact fun _ => rfl
  | succ n ih =>
    intro values
    cases values with
    | nil => rfl
    | cons v values => exact congrArg (_ :: ·) (ih values)

/-- The records of a tree, leaf by leaf, are those of its dice in a row. -/
theorem flatten_recordsFor (who : Roller) (e : Expr Throw) :
    ∀ values : List Int, values.length = e.row.length →
      (recordsFor who e (e.fill values)).flatten = List.zipWith who.recordOf e.row values := by
  induction e with
  | number n => exact fun values _ => rfl
  | dice t =>
    intro values h
    rw [row_dice, List.length_replicate] at h
    rw [row_dice, ← h, recordsOf_replicate, List.take_length]
    simp [recordsFor, Expr.fill, Expr.leaves]
  | unary sign operand ih => exact fun values h => ih values h
  | binary left op right ihl ihr =>
    intro values h
    obtain ⟨htake, hdrop⟩ := length_shares h
    rw [recordsFor_binary, List.flatten_append, ihl _ htake, ihr _ hdrop,
      ← List.zipWith_append htake.symm, List.take_append_drop, row_binary]

theorem results_recordsFor (who : Roller) {e : Expr Throw} {rolled : Expr (List Int)}
    (h : rolled.leaves.length = e.leaves.length) :
    (recordsFor who e rolled).map (·.map (·.result)) = rolled.leaves := by
  have hresult (faces : Int) (values : List Int) :
      (values.map (who.recordOf faces)).map (·.result) = values := by
    rw [List.map_map]
    exact List.map_id' values
  have hsnd : (e.leaves.zip rolled.leaves).map Prod.snd = rolled.leaves :=
    List.map_snd_zip (Nat.le_of_eq h)
  rw [List.zip, List.map_zipWith] at hsnd
  rw [recordsFor, List.map_zipWith]
  simpa only [hresult] using hsnd

section

variable {ρ σ : Type} {g : Generator ρ} {log : RollLog σ} {who : Roller}

theorem log_of_keep {r : RollRecord} {t t' : Table ρ σ} {u : Unit}
    (h : keep log r t = .ok u t') : t'.log = log.after t.log [r] := by
  have hafter : log.after t.log [r] = (log.record r t.log).2 := rfl
  rw [hafter]
  rw [keep] at h
  split at h
  · next after hrecord =>
    cases h
    rw [hrecord]
  · next fault after hrecord =>
    split at h
    · cases h
      rw [hrecord]
    · cases h

theorem log_of_draw {lowest highest n : Int} {t t' : Table ρ σ}
    (h : draw g lowest highest t = .ok n t') : t'.log = t.log := by
  rw [draw] at h
  split at h <;> cases h
  rfl

/-- What a row of dice offers to the log. -/
theorem log_of_rollRow {row values : List Int} {t t' : Table ρ σ}
    (h : rollRow g log who row t = .ok values t') :
    t'.log = log.after t.log (List.zipWith who.recordOf row values) := by
  induction row generalizing values t with
  | nil =>
    cases h
    rfl
  | cons faces row ih =>
    obtain ⟨v, mid, hdie, hrest⟩ := run_eq_ok_iff.mp h
    obtain ⟨vs, last, hvs, hpure⟩ := run_eq_ok_iff.mp hrest
    cases hpure
    obtain ⟨n, drawn, hdraw, hkept⟩ := run_eq_ok_iff.mp hdie
    obtain ⟨u, offered, hkeep, hpure⟩ := run_eq_ok_iff.mp hkept
    cases hpure
    rw [ih hvs, log_of_keep hkeep, log_of_draw hdraw]
    rfl

theorem faces_pos_of_evaluate {e : Expr Throw} {t t' : Table ρ σ} {rolled : Expr (List Int)}
    (h : evaluate g log who e t = .ok rolled t') : ∀ u ∈ e.leaves, 1 ≤ u.faces := by
  rw [evaluate_eq_checked] at h
  split at h
  · cases h
  · next hfaceless =>
    intro u hu
    have hnone := List.find?_eq_none.mp hfaceless u hu
    simpa using hnone

/-- What an evaluation shows and records. -/
theorem evaluate_spec {e : Expr Throw} (he : IsWritable e) {t t' : Table ρ σ}
    {rolled : Expr (List Int)} (h : evaluate g log who e t = .ok rolled t') :
    t'.log = log.after t.log (recordsFor who e rolled).flatten ∧
      (recordsFor who e rolled).map (·.map (·.result)) = rolled.leaves ∧
      rolled.leaves.length = e.leaves.length ∧ rolled.IsSensible ∧
      rolled.words rolledText = withDiceAs (echoed e) (rolled.leaves.map rolledText) := by
  have hfaces := faces_pos_of_evaluate h
  rw [evaluate_eq hfaces, rollTree_eq e hfaces] at h
  cases hrow : rollRow g log who e.row t with
  | error fault after =>
    rw [hrow] at h
    cases h
  | ok values after =>
    rw [hrow] at h
    obtain ⟨rfl, rfl⟩ := EStateM.Result.ok.inj h
    have hleaves := length_leaves_fill e values
    refine ⟨?_, results_recordsFor who hleaves, hleaves, isSensible_fill he values,
      words_fill he values⟩
    rw [flatten_recordsFor who e values (length_rollRow hrow)]
    exact log_of_rollRow hrow

end

/-- **Echo and display are faithful.** The text of the tree of a formula is scanned as the lexemes
of the formula without its parentheses, in order and of the same value; a formula without
parentheses is read back from it. However the tree is rolled, a row of records is offered to the
log for each of its dice, and the display is the text with the values of the rows in place of
the dice. From the display alone they are read back, row by row in that order. -/
theorem echo_faithful {formula : String} {tokens : List Token} {e : Expr Throw}
    (hscan : scan formula = .ok tokens) (hread : Formula.read formula = .ok e) :
    ∃ shown, scan e.text = .ok shown ∧
      shown.map (·.lexeme.mark) =
        (tokens.filter (!·.lexeme.isParenthesis)).map (·.lexeme.mark) ∧
      ((∀ t ∈ tokens, ¬t.lexeme.isParenthesis) → Formula.read e.text = .ok e) ∧
      e.text = " ".intercalate (shown.map fun t => String.ofList t.lexeme.text) ∧
      ∀ {ρ σ : Type} (g : Generator ρ) (log : RollLog σ) (who : Roller) (t t' : Table ρ σ)
        (rolled : Expr (List Int)), evaluate g log who e t = .ok rolled t' →
          let rows := recordsFor who e rolled
          t'.log = log.after t.log rows.flatten ∧
          rows.length = shown.countP (·.lexeme.isDice) ∧
          rolled.display = " ".intercalate (withDiceAs (shown.map (·.lexeme))
            (rows.map fun row => rolledText (row.map (·.result)))) ∧
          shownRows rolled.display.toList = rows.map (·.map (·.result)) := by
  have he := isWritable_of_read hread
  obtain ⟨found, hfound, -, h⟩ := read_eq_ok_iff.mp hread
  obtain rfl := Except.ok.inj (hfound.symm.trans hscan)
  refine ⟨echoTokens e, scan_text he, ?_, read_text hscan hread, ?_, ?_⟩
  · have hmarks := marks_echoed h
    rw [← lexemes_echoTokens e, List.filter_map, List.map_map, List.map_map] at hmarks
    exact hmarks
  · rw [Expr.text, textWith_eq, words_eq_echoed he, ← lexemes_echoTokens e, List.map_map]
    rfl
  · intro ρ σ g log who t t' rolled hrolled rows
    obtain ⟨hlog, hresults, hlength, hsensible, hwords⟩ := evaluate_spec he hrolled
    have hrows : rows.length = e.leaves.length := by
      rw [← hlength, ← hresults, List.length_map]
    have hdice : (echoTokens e).countP (·.lexeme.isDice) = e.leaves.length := by
      rw [← countP_echoed, ← lexemes_echoTokens e, List.countP_map]
      rfl
    refine ⟨hlog, hrows.trans hdice.symm, ?_, (shownRows_display hsensible).trans hresults.symm⟩
    rw [Expr.display, textWith_eq, hwords, ← hresults, lexemes_echoTokens, List.map_map]
    rfl

/-- Parentheses are gone from the echo, and the values stand where the dice stood. -/
theorem echo_faithful_grouped :
    let who : Roller := ⟨7, ⟨2024, 5, 1, 12, 0, 0, 0, some 0⟩⟩
    let e : Expr Throw := .binary (.binary (.dice ⟨1, 3⟩) .add (.number 2)) .mul (.dice ⟨2, 6⟩)
    let rolled : Expr (List Int) := .binary (.binary (.dice [2]) .add (.number 2)) .mul (.dice [5, 3])
    Formula.read "(1d3 + 2)*2d6" = .ok e ∧ e.text = "1d3 + 2 * 2d6" ∧
      ∃ t', evaluate Source.generator MemoryLog.log who e ⟨.script [2, 5, 3], {}, []⟩ =
          .ok rolled t' ∧
        rolled.display = "[2] + 2 * [5, 3]" ∧ shownRows rolled.display.toList = [[2], [5, 3]] := by
  intro who e rolled
  have hread : Formula.read "(1d3 + 2)*2d6" = .ok e := by rfl
  obtain ⟨tokens, hscan, -⟩ := read_eq_ok_iff.mp hread
  obtain ⟨shown, -, -, -, -, hrolls⟩ := echo_faithful hscan hread
  obtain ⟨t', hrolled⟩ : ∃ t', evaluate Source.generator MemoryLog.log who e
      ⟨.script [2, 5, 3], {}, []⟩ = .ok rolled t' := ⟨_, rfl⟩
  obtain ⟨-, -, -, hrows⟩ := hrolls Source.generator MemoryLog.log who _ t' rolled hrolled
  exact ⟨hread, by decide +kernel, t', hrolled, by decide +kernel, hrows⟩

end DiceLedger
