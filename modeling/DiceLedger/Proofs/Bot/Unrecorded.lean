import DiceLedger.Proofs.Bot.Points
import DiceLedger.Proofs.Bot.Replies

/-!
# What is said of records that were not kept

The answer to a roll ends in a note that counts the dice which the log did not keep. The note is
found here in a text by its letters alone: nothing else that is said of a roll has its capital in
it, and so the number in it can be read back. An answer to a roll of Cthulhu Dark has no such
note, whatever the log did.
-/
namespace DiceLedger

open DiceLedger.Text

/-- How many of the records offered were not kept. -/
def missed (offers : List (RollRecord × Option LogFault)) : Nat :=
  offers.countP fun offer => offer.2.isSome

theorem length_complaints (offers : List (RollRecord × Option LogFault)) :
    (complaints (offers.map (·.2))).length = missed offers := by
  rw [complaints, List.length_filterMap_eq_countP, List.countP_map, missed]
  congr 1
  funext offer
  exact Option.isSome_map

section

variable {ρ σ : Type} {g : Generator ρ} {log : RollLog σ} {who : Roller}

/-- Each die of a row that falls as a whole is offered. -/
theorem length_offers {row : List Int} {source : ρ} {s : σ} (h : (cast g row source).whole) :
    (Table.thrown log.noted who row (cast g row source)
      ⟨source, ⟨s, []⟩, []⟩).log.offers.length = row.length := by
  rw [thrown_noted]
  dsimp only
  rw [List.length_zip, RollLog.length_answers, Nat.min_self, List.length_zipWith, length_cast h,
    Nat.min_self]

/-- All dice of a roll that succeeds were offered, and its result tells how many of them were not
kept. -/
theorem unrecorded_of_roll {s : σ} (hs : log.IsLenient s) {allowed : Option Int} {formula : String}
    {source : ρ} {r : Roll} {last : Table ρ (Noted σ)}
    (h : roll g log.noted who allowed formula ⟨source, ⟨s, []⟩, []⟩ = .ok r last) :
    last.log.offers.length = r.rolled.leaves.flatten.length ∧
      r.unrecorded.length = missed last.log.offers := by
  have hnoted : log.noted.IsLenient ⟨s, []⟩ := RollLog.IsLenient.noted (n := ⟨s, []⟩) hs
  rw [roll_eq hnoted] at h
  cases hadmitted : admitted allowed formula with
  | error fault =>
    rw [hadmitted] at h
    cases h
  | ok tree =>
    let c := cast g tree.row source
    let rs := List.zipWith who.recordOf tree.row c.values
    rw [hadmitted] at h
    dsimp only at h
    cases hending : ending tree c with
    | error fault =>
      rw [hending] at h
      cases h
    | ok p =>
      rw [hending] at h
      obtain ⟨rfl, rfl⟩ := EStateM.Result.ok.inj h
      obtain ⟨hwhole, hfill⟩ := ending_eq_ok hending
      have hvalues : c.values.length = tree.row.length := length_cast hwhole
      constructor
      · rw [length_offers hwhole, ← hvalues, hfill, (fill_spec tree hvalues).2]
      · have hanswers : (rs.zip (log.answers s rs)).map (·.2) = log.answers s rs :=
          List.map_snd_zip (RollLog.length_answers rs s).le
        rw [thrown_noted, ← length_complaints, hanswers]

end

namespace Bot

/-! ## The note -/

/-- What is said of records that were not kept. -/
def unrecordedNote (k : Nat) : String :=
  "\n(Failed to record " ++ String.ofList (decimal k) ++ " roll(s) in the session log.)"

/-- Does a text say that so many records were not kept? -/
def Tells (text : String) (k : Nat) : Prop := (unrecordedNote k).toList <:+: text.toList

def noteLabel : List Char := "ailed to record ".toList

def noteTail : List Char := " roll(s) in the session log.)".toList

/-- The note behind its one capital letter. -/
def noteEnd (k : Nat) : List Char := noteLabel ++ (decimal k ++ noteTail)

theorem toList_unrecordedNote (k : Nat) :
    (unrecordedNote k).toList = ['\n', '('] ++ 'F' :: noteEnd k := by
  -- for any label, because the characters of a long literal are slow to look through
  have hassoc {label start rest : List Char} (h : label = start ++ 'F' :: rest)
      (number tail : List Char) :
      label ++ number ++ tail = start ++ 'F' :: (rest ++ (number ++ tail)) := by
    rw [h]
    simp
  have hlabel : "\n(Failed to record ".toList = ['\n', '('] ++ 'F' :: noteLabel := rfl
  exact (toList_around _ _ (decimal k)).trans (hassoc hlabel (decimal k) noteTail)

theorem capital_not_mem_noteEnd (k : Nat) : 'F' ∉ noteEnd k := by
  intro h
  rw [noteEnd, List.mem_append, List.mem_append] at h
  rcases h with h | h | h
  · exact absurd h (by decide)
  · exact absurd (mem_digits_of_decimal h) (by decide)
  · exact absurd h (by decide)

/-- The number in the note is read back. -/
theorem eq_of_noteEnd {k n : Nat} {rest : List Char} (h : noteEnd n = noteEnd k ++ rest) :
    k = n := by
  have hnumber (k : Nat) (rest : List Char) :
      (decimal k ++ ' ' :: rest).takeWhile (· ≠ ' ') = decimal k := by
    rw [List.takeWhile_append_of_pos, List.takeWhile_cons_of_neg (by decide), List.append_nil]
    intro c hc
    have hne : c ≠ ' ' := by
      rintro rfl
      exact absurd (mem_digits_of_decimal hc) (by decide)
    simpa using hne
  rw [noteEnd, noteEnd, List.append_assoc, List.append_cancel_left_eq, List.append_assoc] at h
  have hread := congrArg (List.takeWhile (· ≠ ' ')) h
  exact decimal_injective ((hnumber k _).symm.trans (hread.symm.trans (hnumber n _)))

/-- A text without the capital of the note says nothing of records. -/
theorem not_tells_of_not_mem {text : String} (h : 'F' ∉ text.toList) (k : Nat) : ¬Tells text k := by
  intro hnote
  rw [Tells, toList_unrecordedNote] at hnote
  exact h (hnote.subset (List.mem_append_right _ List.mem_cons_self))

/-- A text that is followed by a note says what the note says, and nothing else. -/
theorem tells_iff {body : String} (h : 'F' ∉ body.toList) (n k : Nat) :
    Tells (body ++ if n = 0 then "" else unrecordedNote n) k ↔ 0 < k ∧ k = n := by
  by_cases hn : n = 0
  · rw [if_pos hn, String.append_empty]
    constructor
    · intro htold
      exact absurd htold (not_tells_of_not_mem h k)
    · rintro ⟨hk, rfl⟩
      exact absurd hn (Nat.ne_of_gt hk)
  · rw [if_neg hn]
    constructor
    · rintro ⟨before, rest, htold⟩
      rw [String.toList_append, toList_unrecordedNote, toList_unrecordedNote] at htold
      have hsplit : body.toList ++ ['\n', '('] ++ 'F' :: noteEnd n =
          before ++ ['\n', '('] ++ 'F' :: (noteEnd k ++ rest) := by
        simpa using htold.symm
      have hbody : 'F' ∉ body.toList ++ ['\n', '('] := by simp [h]
      -- the capital stands once in the whole text, so both notes begin at the same place
      obtain ⟨-, -, hend⟩ :=
        (List.append_cons_inj_of_notMem hbody (capital_not_mem_noteEnd n)).mp hsplit
      have hkn : k = n := eq_of_noteEnd hend
      exact ⟨hkn ▸ Nat.pos_of_ne_zero hn, hkn⟩
    · rintro ⟨-, rfl⟩
      rw [Tells, String.toList_append]
      exact (List.suffix_append _ _).isInfix

/-! ## What else is said -/

/-- What a roll is told by, but for its records. -/
def rollHeading (formula display : String) (total : Int) : String :=
  Fence.wrap .line formula ++ " ⇒ **" ++ String.ofList (signedDecimal total) ++ "**  |  "
    ++ Markdown.escape display

theorem rollText_eq (formula display : String) (total : Int) (n : Nat) :
    rollText formula display total n =
      rollHeading formula display total ++ if n = 0 then "" else unrecordedNote n := rfl

theorem not_isFormulaChar_capital : ¬Formula.IsFormulaChar 'F' := by
  rintro (hblank | hdigit | hletter | ⟨s, hs⟩)
  · revert hblank
    decide
  · revert hdigit
    decide
  · revert hletter
    decide
  · revert hs
    cases s <;> decide

theorem not_mem_append {c : Char} {s t : String} (hs : c ∉ s.toList) (ht : c ∉ t.toList) :
    c ∉ (s ++ t).toList := by
  rw [String.toList_append, List.mem_append, not_or]
  exact ⟨hs, ht⟩

theorem capital_not_mem_rollHeading {formula display : String} (total : Int)
    (hformula : 'F' ∉ formula.toList) (hdisplay : 'F' ∉ display.toList) :
    'F' ∉ (rollHeading formula display total).toList := by
  have hcode : 'F' ∉ (Fence.wrap .line formula).toList := by
    rw [Fence.wrap, String.toList_ofList]
    intro h
    rcases List.mem_append.mp h with h | h
    · rcases List.mem_append.mp h with h | h
      · exact absurd h (by decide)
      · rcases Fence.mem_inner h with h | h
        · exact absurd h (by decide)
        · exact hformula h
    · exact absurd h (by decide)
  have htotal : 'F' ∉ (String.ofList (signedDecimal total)).toList := by
    rw [String.toList_ofList]
    exact fun h => absurd (mem_signedDecimal h) (by decide)
  have hescaped : 'F' ∉ (Markdown.escape display).toList := by
    rw [Markdown.escape, String.toList_ofList]
    intro h
    rcases Markdown.mem_escapeFrom h with h | h
    · exact absurd h (by decide)
    · exact hdisplay h
  have harrow : 'F' ∉ " ⇒ **".toList := by decide
  have hbar : 'F' ∉ "**  |  ".toList := by decide
  have hsum := not_mem_append (not_mem_append hcode harrow) htotal
  exact not_mem_append (not_mem_append hsum hbar) hescaped

theorem capital_not_mem_cthulhuText (rolled : CthulhuDark) :
    'F' ∉ (cthulhuText rolled).toList := by
  by_cases hnothing : rolled = ⟨[], none⟩
  · subst hnothing
    decide +kernel
  · rw [toList_cthulhuText hnothing]
    intro h
    rcases mem_intercalate h with hbreak | ⟨line, hline, hc⟩
    · exact absurd hbreak (by decide)
    · exact absurd (mem_lineChars line hline hc) (by decide)

section

variable {ρ σ : Type} {g : Generator ρ} {log : RollLog σ} {who : Roller}

theorem capital_not_mem_of_roll {allowed : Option Int} {formula : String} {t last : Table ρ σ}
    {r : Roll} (h : roll g log who allowed formula t = .ok r last) :
    'F' ∉ (rollHeading r.formula r.display r.total).toList := by
  obtain ⟨⟨e, hread⟩, hformula, hdisplay, hsensible⟩ := roll_tells h
  refine capital_not_mem_rollHeading r.total (fun hmem => ?_) (fun hmem => ?_)
  · rw [hformula] at hmem
    exact not_isFormulaChar_capital (Formula.isFormulaChar_of_read hread _ hmem)
  · rw [hdisplay] at hmem
    exact absurd (Expr.mem_displayChars hsensible _ hmem) (by decide)

/-- **Of dice that were not recorded only a roll tells.** The answer to a roll says how many of
its dice the log did not keep, and says nothing of records if it has kept them all. The answer to
a roll of Cthulhu Dark never says anything of them: it is the same as if the log had kept
everything, and so it is right just if the log has. -/
theorem unrecorded_told (g : Generator ρ) {s : σ} (hs : log.IsLenient s) (who : Roller)
    (source : ρ) :
    let start : Table ρ (Noted σ) := ⟨source, ⟨s, []⟩, []⟩
    (∀ formula r last, roll g log.noted who (some mostDice) formula start = .ok r last →
      ∃ reply, rollReply g log.noted who formula start = .ok reply last ∧
        last.log.offers.length = r.rolled.leaves.flatten.length ∧
        ∀ k, Tells reply.text k ↔ 0 < k ∧ k = missed last.log.offers) ∧
    ∀ points, (cast g (List.replicate (cthulhuDice points) cthulhuFaces) source).whole →
      ∃ reply last, cthulhuReply g log.noted who points start = .ok reply last ∧
        last.log.offers.length = cthulhuDice points ∧
        (∃ kept, cthulhuReply g MemoryLog.log who points ⟨source, {}, []⟩ = .ok reply kept) ∧
        (∀ k, ¬Tells reply.text k) ∧
        ((∀ k, Tells reply.text k ↔ 0 < k ∧ k = missed last.log.offers) ↔
          missed last.log.offers = 0) := by
  intro start
  have hnoted : log.noted.IsLenient start.log := RollLog.IsLenient.noted (n := ⟨s, []⟩) hs
  have hsound : MemoryLog.log.IsLenient {} := MemoryLog.isLenient_log nofun
  refine ⟨fun formula r last h => ?_, fun points hwhole => ?_⟩
  · obtain ⟨hoffers, hunrecorded⟩ := unrecorded_of_roll hs h
    refine ⟨⟨rollText r.formula r.display r.total r.unrecorded.length,
      isNice r.rolled.leaves.flatten⟩, ?_, hoffers, fun k => ?_⟩
    · rw [rollReply, h]
    · rw [rollText_eq, hunrecorded]
      exact tells_iff (capital_not_mem_of_roll h) _ k
  · let row := List.replicate (cthulhuDice points) cthulhuFaces
    let c := cast g row source
    let reply : Reply := ⟨cthulhuText (dealt points c.values), false⟩
    let last := start.thrown log.noted who row c
    have hsilent (k : Nat) : ¬Tells reply.text k :=
      not_tells_of_not_mem (capital_not_mem_cthulhuText _) k
    have hoffers : last.log.offers.length = cthulhuDice points :=
      (length_offers hwhole).trans List.length_replicate
    refine ⟨reply, last, (cthulhuReply_ends points hnoted).trans (if_pos hwhole), hoffers,
      ⟨_, (cthulhuReply_ends points hsound).trans (if_pos hwhole)⟩, hsilent, ?_⟩
    constructor
    · intro hright
      by_contra hmissed
      exact hsilent _ ((hright _).mpr ⟨Nat.pos_of_ne_zero hmissed, rfl⟩)
    · intro hnone k
      refine iff_of_false (hsilent k) ?_
      rintro ⟨hk, rfl⟩
      exact Nat.ne_of_gt hk hnone

/-- A log that loses two of three records. -/
theorem unrecorded_told_two :
    let who : Roller := ⟨7, ⟨2024, 5, 1, 12, 0, 0, 0, some 0⟩⟩
    let failures (n : Nat) : Option LogFault := if n = 1 then none else some (.system "disk full")
    let m : MemoryLog := { failures }
    let start : Table Source (Noted MemoryLog) := ⟨.script [3, 5, 7], ⟨m, []⟩, []⟩
    let rolled := rollReply Source.generator MemoryLog.log.noted who "2d6 + 1d20" start
    let thrown := cthulhuReply Source.generator MemoryLog.log.noted who 25 start
    MemoryLog.log.IsLenient m ∧
      (∃ reply, rolled = .ok reply (final rolled) ∧ ∀ k, Tells reply.text k ↔ 0 < k ∧ k = 2) ∧
      ∃ reply, thrown = .ok reply (final thrown) ∧ missed (final thrown).log.offers = 2 ∧
        ∀ k, ¬Tells reply.text k := by
  intro who failures m start rolled thrown
  have hm : MemoryLog.log.IsLenient m := MemoryLog.isLenient_log fun n fault h => by
    dsimp only [m, failures] at h
    split at h <;> cases h
    rfl
  have hrun : succeeds (roll Source.generator MemoryLog.log.noted who (some mostDice) "2d6 + 1d20"
      start) := by decide +kernel
  have htwo : missed (final rolled).log.offers = 2 := by decide +kernel
  have htwo' : missed (final thrown).log.offers = 2 := by decide +kernel
  obtain ⟨r, last, hroll⟩ : ∃ r last, roll Source.generator MemoryLog.log.noted who (some mostDice)
      "2d6 + 1d20" start = .ok r last := (exists_of_succeeds hrun).imp fun _ h => ⟨_, h⟩
  obtain ⟨hrolls, hthrows⟩ := unrecorded_told Source.generator hm who (.script [3, 5, 7])
  obtain ⟨reply, hreply, -, htold⟩ := hrolls "2d6 + 1d20" r last hroll
  obtain ⟨silent, last', hsilent, -, -, hnone, -⟩ := hthrows 25 rfl
  have hrolled : rolled = .ok reply last := hreply
  have hthrown : thrown = .ok silent last' := hsilent
  rw [hrolled] at htwo ⊢
  rw [hthrown] at htwo' ⊢
  refine ⟨hm, ⟨reply, rfl, fun k => ?_⟩, silent, rfl, htwo', hnone⟩
  have hmissed : missed last.log.offers = 2 := htwo
  rw [htold k, hmissed]

/-- The one die of ten points is lost, and nothing is said of it. -/
theorem unrecorded_untold :
    let who : Roller := ⟨7, ⟨2024, 5, 1, 12, 0, 0, 0, some 0⟩⟩
    let m : MemoryLog := { failures := fun _ => some (.refused "disk full") }
    let out := cthulhuReply Source.generator MemoryLog.log.noted who 10 ⟨.script [4], ⟨m, []⟩, []⟩
    out = .ok ⟨"Result(s): 4", false⟩ (final out) ∧ missed (final out).log.offers = 1 ∧
      ¬Tells "Result(s): 4" 1 := by
  intro who m out
  exact ⟨eq_ok_of_answer? (by decide +kernel), by decide +kernel,
    not_tells_of_not_mem (by decide +kernel) 1⟩

end

end Bot

end DiceLedger
