import DiceLedger.Bot.RollReply
import DiceLedger.Proofs.Roll.Display
import DiceLedger.Proofs.Text.Fence
import DiceLedger.Proofs.Text.Markdown

/-!
# Replies that nothing breaks

A formula that is rolled has no backtick, because none is part of a token, so it stands in its
reply as it was typed. What was rolled has asterisks, and perhaps a dash in front, and nothing
else that a chat would take for markup. An error may quote whatever was typed, but not so that it
closes the block around it.
-/
namespace DiceLedger

open DiceLedger.Text

/-! ## The characters of a formula -/

namespace Formula

/-- What formulas are made of: blanks, digits of any script, the letter of dice and symbols. -/
def IsFormulaChar (c : Char) : Prop :=
  isBlank c ∨ isDigit c ∨ c = 'd' ∨ ∃ s : Symbol, c = s.char

theorem isFormulaChar_of_mem_text {l : Lexeme} (h : l.IsProper) {c : Char} (hc : c ∈ l.text) :
    IsFormulaChar c := by
  cases l with
  | number digits => exact .inr (.inl (h.2 c hc))
  | dice count faces =>
    rcases List.mem_append.mp hc with hc | hc
    · exact .inr (.inl (h.1.2 c hc))
    · rcases List.mem_cons.mp hc with hletter | hc
      · exact .inr (.inr (.inl hletter))
      · exact .inr (.inl (h.2.2 c hc))
  | symbol s => exact .inr (.inr (.inr ⟨s, List.mem_singleton.mp hc⟩))

theorem Spelled.isFormulaChar {position : Nat} {tokens : List Token} {cs : List Char}
    (h : Spelled position tokens cs) : ∀ c ∈ cs, IsFormulaChar c := by
  induction h with
  | nil hgap => exact fun c hc => .inl (hgap c hc)
  | cons hgap hl _ _ ih =>
    intro c hc
    rw [List.mem_append, List.mem_append] at hc
    rcases hc with (hc | hc) | hc
    · exact .inl (hgap c hc)
    · exact isFormulaChar_of_mem_text hl hc
    · exact ih c hc

theorem not_isFormulaChar_tick : ¬IsFormulaChar Fence.tick := by
  rintro (hblank | hdigit | hletter | ⟨s, hs⟩)
  · revert hblank
    decide
  · revert hdigit
    decide
  · revert hletter
    decide
  · revert hs
    cases s <;> decide

theorem isFormulaChar_of_read {formula : String} {e : Expr Throw} (h : read formula = .ok e) :
    ∀ c ∈ formula.toList, IsFormulaChar c := by
  obtain ⟨tokens, hscan, -⟩ := read_eq_ok_iff.mp h
  exact (scan_eq_ok_iff_spelled.mp hscan).isFormulaChar

theorem tick_not_mem_of_read {formula : String} {e : Expr Throw} (h : read formula = .ok e) :
    Fence.tick ∉ formula.toList :=
  fun hmem => not_isFormulaChar_tick (isFormulaChar_of_read h _ hmem)

theorem toList_ne_nil_of_read {formula : String} {e : Expr Throw} (h : read formula = .ok e) :
    formula.toList ≠ [] := by
  intro hempty
  rw [String.toList_eq_nil_iff.mp hempty] at h
  cases h

end Formula

/-! ## The characters of a display -/

namespace Expr

open DiceLedger.Text.Markdown

theorem mem_displayChars_of_signedDecimal {n : Int} {c : Char} (h : c ∈ signedDecimal n) :
    c ∈ displayChars := by
  have hall : ∀ c ∈ '-' :: digits, c ∈ displayChars := forall_of_all (by decide)
  exact hall c (mem_signedDecimal h)

theorem mem_displayChars_of_rolledText {values : List Int} {c : Char}
    (h : c ∈ (rolledText values).toList) : c ∈ displayChars := by
  have hall : ∀ c ∈ '[' :: ']' :: ',' :: ' ' :: '-' :: digits, c ∈ displayChars :=
    forall_of_all (by decide)
  rw [toList_rolledText, List.mem_cons, List.mem_append, List.mem_singleton] at h
  apply hall
  rcases h with h | h | h
  · exact List.mem_cons.mpr (.inl h)
  · exact List.mem_cons_of_mem _ (List.mem_cons_of_mem _ (mem_rowBody h))
  · exact List.mem_cons_of_mem _ (List.mem_cons.mpr (.inl h))

theorem mem_displayChars_of_symbol {op : Operator} (hop : (Formula.Operator.symbol? op).isSome) :
    ∀ c ∈ op.symbol.toList, c ∈ displayChars := by
  cases op with
  | other symbol => cases hop
  | _ => exact forall_of_all (by decide)

/-- A display is made of digits, brackets, commas, spaces and the signs of arithmetic. -/
theorem mem_displayChars {e : Expr (List Int)} (h : e.IsSensible) :
    ∀ c ∈ e.display.toList, c ∈ displayChars := by
  have hspace : ∀ c ∈ " ".toList, c ∈ displayChars := forall_of_all (by decide)
  have hminus : ∀ c ∈ "-".toList, c ∈ displayChars := forall_of_all (by decide)
  unfold display
  induction e with
  | number n =>
    intro c hc
    rw [textWith, String.toList_ofList] at hc
    exact mem_displayChars_of_signedDecimal hc
  | dice values => exact fun c hc => mem_displayChars_of_rolledText hc
  | unary sign operand ih =>
    intro c hc
    obtain ⟨rfl, hoperand⟩ := h
    rw [textWith, String.toList_append, String.toList_append, List.mem_append,
      List.mem_append] at hc
    rcases hc with (hc | hc) | hc
    · exact hminus c hc
    · exact hspace c hc
    · exact ih hoperand c hc
  | binary left op right ihl ihr =>
    intro c hc
    obtain ⟨hop, hleft, hright⟩ := h
    simp only [textWith, String.toList_append, List.mem_append] at hc
    rcases hc with (((hc | hc) | hc) | hc) | hc
    · exact ihl hleft c hc
    · exact hspace c hc
    · exact mem_displayChars_of_symbol hop c hc
    · exact hspace c hc
    · exact ihr hright c hc

/-- A display begins with an operand or a minus, and not with a blank. -/
theorem head?_display {e : Expr (List Int)} (h : e.IsSensible) :
    ∃ c, e.display.toList.head? = some c ∧ c ≠ ' ' := by
  unfold display
  induction e with
  | number n =>
    obtain ⟨c, cs, hcs⟩ := List.exists_cons_of_ne_nil (signedDecimal_ne_nil n)
    refine ⟨c, by rw [textWith, String.toList_ofList, hcs, List.head?_cons], ?_⟩
    rintro rfl
    exact absurd (mem_signedDecimal (hcs ▸ List.mem_cons_self)) (by decide)
  | dice values =>
    refine ⟨'[', ?_, by decide⟩
    rw [textWith, toList_rolledText, List.head?_cons]
  | unary sign operand =>
    obtain ⟨rfl, -⟩ := h
    refine ⟨'-', ?_, by decide⟩
    rw [textWith, String.toList_append, String.toList_append]
    rfl
  | binary left op right ihl =>
    obtain ⟨c, hc, hspace⟩ := ihl h.2.1
    refine ⟨c, ?_, hspace⟩
    simp only [textWith, String.toList_append, List.append_assoc, List.head?_append, hc,
      Option.some_or]

end Expr

/-! ## Replies -/

section

variable {ρ σ : Type} {g : Generator ρ} {log : RollLog σ} {who : Roller}

/-- What a roll that succeeds tells, beside any log: its formula as it was given, and the display
of a tree that was read from it. -/
theorem roll_tells {allowed : Option Int} {formula : String} {t last : Table ρ σ} {r : Roll}
    (h : roll g log who allowed formula t = .ok r last) :
    (∃ e, Formula.read formula = .ok e) ∧ r.formula = formula ∧
      r.display = r.rolled.display ∧ r.rolled.IsSensible := by
  rw [roll_eq_admitted] at h
  cases hadmitted : admitted allowed formula with
  | error fault =>
    rw [hadmitted] at h
    cases h
  | ok tree =>
    rw [hadmitted] at h
    obtain ⟨hread, hrefusal⟩ := admitted_eq_ok_iff.mp hadmitted
    obtain ⟨rolled, mid, hbuilt, hconclude⟩ := run_eq_ok_iff.mp h
    rw [← evaluate_eq (faces_pos_of_refusal hrefusal)] at hbuilt
    obtain ⟨-, -, -, hsensible, -⟩ := evaluate_spec (Formula.isWritable_of_read hread) hbuilt
    cases htotal : rolled.total with
    | error fault =>
      rw [conclude, htotal] at hconclude
      cases hconclude
    | ok total =>
      rw [conclude, htotal] at hconclude
      cases hconclude
      exact ⟨⟨tree, hread⟩, rfl, rfl, hsensible⟩

end

namespace Bot

open DiceLedger.Text.Fence DiceLedger.Text.Markdown

section

variable {ρ σ : Type} {g : Generator ρ} {log : RollLog σ} {who : Roller}

/-- **No reply to a roll is broken by what was typed.** A roll that succeeds is told by its
formula, in which there is no backtick, its total, and its display with a backslash before each
asterisk and before a dash in front; without its backslashes that is the display again. The
records that were not kept are counted behind it. A roll that fails is told by a block that its
text, whatever it quotes, neither empties nor closes. -/
theorem reply_unbroken {formula : String} {t last : Table ρ σ} {reply : Reply}
    (h : rollReply g log who formula t = .ok reply last) :
    (∃ r, roll g log who (some mostDice) formula t = .ok r last ∧
      let shown := starredLine r.display.toList
      let note := if r.unrecorded = [] then "" else "\n(Failed to record " ++
        String.ofList (decimal r.unrecorded.length) ++ " roll(s) in the session log.)"
      reply.text = "`" ++ formula ++ "` ⇒ **" ++ String.ofList (signedDecimal r.total) ++
        "**  |  " ++ String.ofList shown ++ note ∧
      tick ∉ formula.toList ∧ shown.filter (· ≠ '\\') = r.display.toList) ∨
    ∃ fault, roll g log who (some mostDice) formula t = .error fault last ∧ fault.isReported ∧
      let shown := inner fault.message.toList
      reply.text = "Roll error.\n```" ++ String.ofList shown ++ "```" ∧ IsContained shown := by
  rw [rollReply] at h
  cases hroll : roll g log who (some mostDice) formula t with
  | ok r last' =>
    rw [hroll] at h
    obtain ⟨rfl, rfl⟩ := EStateM.Result.ok.inj h
    obtain ⟨⟨e, hread⟩, hformula, hdisplay, hsensible⟩ := roll_tells hroll
    have htick := Formula.tick_not_mem_of_read hread
    have hchars : ∀ c ∈ r.display.toList, c ∈ displayChars := by
      rw [hdisplay]
      exact Expr.mem_displayChars hsensible
    have hspace : r.display.toList.head? ≠ some ' ' := by
      obtain ⟨c, hc, hne⟩ := Expr.head?_display hsensible
      rw [hdisplay, hc]
      simpa using hne
    have hbackslash : '\\' ∉ r.display.toList := fun hmem => absurd (hchars _ hmem) (by decide)
    refine .inl ⟨r, rfl, ?_, htick, filter_starredLine hbackslash⟩
    have hcode : wrap .line formula ++ " ⇒ **" = "`" ++ formula ++ "` ⇒ **" := by
      rw [wrap_line, inner_eq_self (Formula.toList_ne_nil_of_read hread) htick,
        String.ofList_toList, String.append_assoc]
      rfl
    have hescaped : Markdown.escape r.display = String.ofList (starredLine r.display.toList) := by
      rw [← escape_displayed hchars hspace, String.ofList_toList]
    have hnone : r.unrecorded.length = 0 ↔ r.unrecorded = [] := List.length_eq_zero_iff
    simp only [rollText, hformula, hcode, hescaped, hnone]
  | error fault last' =>
    rw [hroll] at h
    dsimp only at h
    split at h
    · next hreported =>
      cases h
      refine .inr ⟨fault, rfl, hreported, ?_, isContained_inner _⟩
      rw [faultText, wrap_block, ← String.append_assoc, ← String.append_assoc]
      rfl
    · cases h

/-- A product with a minus in front, one of whose dice was not recorded; and a formula that is
nothing but the end of a block. -/
theorem reply_unbroken_starred :
    let who : Roller := ⟨7, ⟨2024, 5, 1, 12, 0, 0, 0, some 0⟩⟩
    let m : MemoryLog := { failures := fun n => if n = 1 then some (.system "disk full") else none }
    let t : Table Source MemoryLog := ⟨.script [2, 5], m, []⟩
    let out (formula : String) := rollReply Source.generator MemoryLog.log who formula t
    let reply : Reply := ⟨"`-2d6 *3` ⇒ **-21**  |  \\- [2, 5] \\* 3\n" ++
      "(Failed to record 1 roll(s) in the session log.)", false⟩
    let fault : RollFault := .formula (.unknownCharacter tick "```" 0)
    out "-2d6 *3" = .ok reply (final (out "-2d6 *3")) ∧ tick ∉ "-2d6 *3".toList ∧
      out "```" = .ok ⟨faultText fault, false⟩ t ∧ IsContained (inner fault.message.toList) := by
  intro who m t out reply fault
  have hout : out "-2d6 *3" = .ok reply (final (out "-2d6 *3")) :=
    eq_ok_of_answer? (by decide +kernel)
  have hfault : admitted (some mostDice) "```" = .error fault := by decide +kernel
  have herror : roll Source.generator MemoryLog.log who (some mostDice) "```" t =
      .error fault t := by
    rw [roll_eq_admitted, hfault]
  have htold : out "```" = .ok ⟨faultText fault, false⟩ t := by
    show rollReply Source.generator MemoryLog.log who "```" t = _
    rw [rollReply, herror]
    rfl
  refine ⟨hout, ?_, htold, ?_⟩
  · rcases reply_unbroken hout with ⟨r, -, -, htick, -⟩ | ⟨fault', hroll, -⟩
    · exact htick
    · have hsucceeds : succeeds (roll Source.generator MemoryLog.log who (some mostDice)
          "-2d6 *3" t) := by decide +kernel
      rw [hroll] at hsucceeds
      cases hsucceeds
  · rcases reply_unbroken htold with ⟨r, hroll, -⟩ | ⟨fault', hroll, -, -, hcontained⟩
    · rw [herror] at hroll
      cases hroll
    · rw [herror] at hroll
      cases hroll
      exact hcontained

end

end Bot

end DiceLedger
