import DiceLedger.Bot.RollReply
import DiceLedger.Console
import DiceLedger.Proofs.Formula.Overlong
import DiceLedger.Proofs.Roll.Totals

/-!
# Which formulas are answered

With an honest source and a lenient log, one fault of a roll is not told to whoever rolls: that
of a number with more digits than can be read. All others are answered, by the bot and at the
console alike, and the console reads on.

The limit that the interpreter sets to the depth of recursion is outside the model. A formula
with very many open parentheses can reach it there; here trees of every depth are read and
evaluated.
-/
namespace DiceLedger

open DiceLedger.Formula

/-! ## Rolls -/

section

variable {ρ σ : Type} {g : Generator ρ} {log : RollLog σ} {who : Roller}

theorem isReported_formula {f : Fault} (h : f.IsOrdinary) : (RollFault.formula f).isReported := by
  cases f with
  | tooManyDigits n => exact absurd h (not_isOrdinary_tooManyDigits n)
  | _ => rfl

/-- The faults of a roll that is not overlong are told. -/
theorem isReported_of_roll (hg : g.Honest) {t last : Table ρ σ} (hlog : log.IsLenient t.log)
    {allowed : Option Int} {formula : String} (hshort : ¬Overlong formula) {fault : RollFault}
    (h : roll g log who allowed formula t = .error fault last) : fault.isReported := by
  rw [roll_eq hlog] at h
  cases hadmitted : admitted allowed formula with
  | error fault' =>
    rw [hadmitted] at h
    cases h
    rw [admitted] at hadmitted
    split at hadmitted
    · next f hread =>
      cases hadmitted
      exact isReported_formula (isOrdinary_of_read hshort hread)
    · split at hadmitted
      · cases hadmitted
        rfl
      · cases hadmitted
  | ok tree =>
    obtain ⟨hread, hrefusal⟩ := admitted_eq_ok_iff.mp hadmitted
    have hwhole : (cast g tree.row t.source).whole :=
      cast_whole hg (faces_pos_of_row (faces_pos_of_refusal hrefusal)) t.source
    rw [hadmitted] at h
    dsimp only at h
    rw [ending, if_pos hwhole] at h
    cases htotal : (tree.fill (cast g tree.row t.source).values).total with
    | ok total =>
      rw [htotal] at h
      cases h
    | error f =>
      rw [htotal] at h
      cases h
      obtain ⟨a, rfl⟩ := arithmetic_of_total (isWritable_of_read hread) htotal
      rfl

/-- An overlong formula is refused at once, with a fault that is not told. -/
theorem roll_of_overlong {formula : String} (h : Overlong formula) (allowed : Option Int)
    (t : Table ρ σ) :
    ∃ n, roll g log who allowed formula t = .error (.formula (.tooManyDigits n)) t := by
  obtain ⟨n, hread⟩ := read_tooManyDigits_iff_overlong.mpr h
  refine ⟨n, ?_⟩
  rw [roll, hread]
  rfl

theorem roll_isReported_iff (hg : g.Honest) {t : Table ρ σ} (hlog : log.IsLenient t.log)
    {allowed : Option Int} {formula : String} :
    (∀ fault last, roll g log who allowed formula t = .error fault last → fault.isReported) ↔
      ¬Overlong formula := by
  constructor
  · intro h hlong
    obtain ⟨n, hroll⟩ := roll_of_overlong hlong allowed t
    have := h _ _ hroll
    cases this
  · exact fun hshort fault last => isReported_of_roll hg hlog hshort

/-! ## Answers in the chat -/

theorem rollReply_answers_iff {t : Table ρ σ} {formula : String} :
    (∃ reply last, Bot.rollReply g log who formula t = .ok reply last) ↔
      ∀ fault last, roll g log who (some Bot.mostDice) formula t = .error fault last →
        fault.isReported := by
  rw [Bot.rollReply]
  cases roll g log who (some Bot.mostDice) formula t with
  | ok r last => exact ⟨fun _ => nofun, fun _ => ⟨_, last, rfl⟩⟩
  | error fault last =>
    dsimp only
    constructor
    · rintro ⟨reply, last', h⟩ _ _ ⟨⟩
      split at h
      · next hreported => exact hreported
      · cases h
    · intro h
      exact ⟨_, last, if_pos (h fault last rfl)⟩

end

/-! ## Answers at the console -/

namespace Console

open DiceLedger.Time

section

variable {ρ : Type} {g : Generator ρ}

/-- The answers to lines in a row, each with the source that the one before has left. -/
def answers (g : Generator ρ) (now : Moment) : List String → ρ → List Answer
  | [], _ => []
  | line :: rest, source =>
    let (told, source) := answer g now line source
    told :: answers g now rest source

/-- Is this a text of whole lines, behind which the console reads on? -/
def Answer.IsTold (told : Answer) : Prop :=
  told.fault = none ∧ ∃ text, told.printed = text ++ "\n"

theorem length_answers (now : Moment) (lines : List String) :
    ∀ source : ρ, (answers g now lines source).length = lines.length := by
  induction lines with
  | nil => exact fun source => rfl
  | cons line rest ih => exact fun source => congrArg Nat.succ (ih _)

theorem isTold_faultAnswer {fault : RollFault} (h : fault.isReported) (printed : String) :
    (faultAnswer printed fault).IsTold := by
  rw [faultAnswer, if_pos h]
  exact ⟨rfl, _, rfl⟩

theorem isTold_answer (hg : g.Honest) (now : Moment) {line : String} (hshort : ¬Overlong line)
    (source : ρ) : (answer g now line source).1.IsTold := by
  have hlenient : MemoryLog.log.IsLenient {} := MemoryLog.isLenient_log nofun
  rw [answer]
  cases hread : read line with
  | error fault => exact isTold_faultAnswer (isReported_formula (isOrdinary_of_read hshort hread)) ""
  | ok tree =>
    dsimp only
    cases hroll : roll g MemoryLog.log ⟨0, now⟩ none line { source, log := {} } with
    | ok r last => exact ⟨rfl, _, rfl⟩
    | error fault last =>
      exact isTold_faultAnswer (isReported_of_roll hg hlenient hshort hroll) _

theorem answer_of_overlong (now : Moment) {line : String} (hlong : Overlong line) (source : ρ) :
    ∃ n, answer g now line source = (⟨"", some (.formula (.tooManyDigits n))⟩, source) := by
  obtain ⟨n, hread⟩ := read_tooManyDigits_iff_overlong.mpr hlong
  refine ⟨n, ?_⟩
  rw [answer, hread]
  rfl

theorem isTold_of_mem_answers (hg : g.Honest) (now : Moment) {lines : List String}
    (h : ∀ line ∈ lines, ¬Overlong line) :
    ∀ source : ρ, ∀ told ∈ answers g now lines source, told.IsTold := by
  induction lines with
  | nil => exact fun source => nofun
  | cons line rest ih =>
    intro source
    obtain ⟨hline, hrest⟩ := List.forall_mem_cons.mp h
    exact List.forall_mem_cons.mpr ⟨isTold_answer hg now hline source, ih hrest _⟩

/-- Behind lines of which none is overlong the console reads on. -/
theorem run_append (hg : g.Honest) (now : Moment) {done : List String}
    (hdone : ∀ line ∈ done, ¬Overlong line) (rest : List String) :
    ∀ (printed : String) (source : ρ), ∃ after, run g now printed (done ++ rest) source =
      run g now ((answers g now done source).foldl (fun text told => text ++ told.printed) printed)
        rest after := by
  induction done with
  | nil => exact fun printed source => ⟨source, rfl⟩
  | cons line done ih =>
    intro printed source
    obtain ⟨hline, hdone⟩ := List.forall_mem_cons.mp hdone
    have htold : (answer g now line source).1.fault = none := (isTold_answer hg now hline source).1
    rcases hanswer : answer g now line source with ⟨⟨text, fault⟩, after⟩
    rw [hanswer] at htold
    dsimp only at htold
    subst htold
    simp only [List.cons_append, run, answers, hanswer, List.foldl_cons]
    exact ih hdone (printed ++ text) after

theorem run_of_overlong (now : Moment) {line : String} (hlong : Overlong line)
    (rest : List String) (printed : String) (source : ρ) : ∃ n,
      (run g now printed (line :: rest) source).1 =
        ⟨printed, rest.length, some (.formula (.tooManyDigits n))⟩ := by
  obtain ⟨n, hanswer⟩ := answer_of_overlong (g := g) now hlong source
  refine ⟨n, ?_⟩
  simp only [run, hanswer, String.append_empty]

end

end Console

/-! ## Together -/

section

variable {ρ σ : Type} {g : Generator ρ} {log : RollLog σ}

/-- **Whatever is typed is answered, unless it is overlong.** The faults of reading a formula are
those of grammar and of size, the faults of a roll are told, and the bot has a reply: each of these
holds of just the formulas that are not overlong. At the console every line is answered by lines of
text until the lines end, or the first overlong line ends the session. -/
theorem answered_unless_overlong (hg : g.Honest) {t : Table ρ σ} (hlog : log.IsLenient t.log)
    (who : Roller) (allowed : Option Int) (formula : String) (lines : List String) :
    ((∀ f, read formula = .error f → f.IsGrammar ∨ f.IsSize) ↔ ¬Overlong formula) ∧
      ((∀ fault last, roll g log who allowed formula t = .error fault last → fault.isReported) ↔
        ¬Overlong formula) ∧
      ((∃ reply last, Bot.rollReply g log who formula t = .ok reply last) ↔ ¬Overlong formula) ∧
      (let printed (lines : List String) :=
        (Console.answers g who.time lines t.source).foldl (fun text told => text ++ told.printed) ""
      let out := (Console.run g who.time "" lines t.source).1
      ((∀ line ∈ lines, ¬Overlong line) →
        out = ⟨printed lines, 0, none⟩ ∧
          (Console.answers g who.time lines t.source).length = lines.length ∧
          ∀ told ∈ Console.answers g who.time lines t.source, told.IsTold) ∧
      ∀ done line rest, lines = done ++ line :: rest → (∀ l ∈ done, ¬Overlong l) →
        Overlong line → ∃ n, out = ⟨printed done, rest.length,
          some (.formula (.tooManyDigits n))⟩) := by
  have hread : (∀ f, read formula = .error f → f.IsGrammar ∨ f.IsSize) ↔ ¬Overlong formula := by
    constructor
    · intro h hlong
      obtain ⟨n, hfault⟩ := read_tooManyDigits_iff_overlong.mpr hlong
      exact not_isOrdinary_tooManyDigits n (h _ hfault)
    · exact fun hshort f hf => isOrdinary_of_read hshort hf
  refine ⟨hread, roll_isReported_iff hg hlog,
    rollReply_answers_iff.trans (roll_isReported_iff hg hlog), fun hshort => ?_, ?_⟩
  · obtain ⟨after, hrun⟩ := Console.run_append hg who.time hshort [] "" t.source
    rw [List.append_nil] at hrun
    exact ⟨by rw [hrun]; rfl, Console.length_answers who.time lines t.source,
      Console.isTold_of_mem_answers hg who.time hshort t.source⟩
  · rintro done line rest rfl hdone hlong
    obtain ⟨after, hrun⟩ := Console.run_append hg who.time hdone (line :: rest) "" t.source
    dsimp only
    rw [hrun]
    exact Console.run_of_overlong who.time hlong rest _ after

/-- A roll in the chat, and two lines at the console, of which one is no formula. -/
theorem answered_unless_overlong_short :
    let who : Roller := ⟨7, ⟨2024, 5, 1, 12, 0, 0, 0, some 0⟩⟩
    let t : Table UInt64 MemoryLog := ⟨1, {}, []⟩
    Source.congruence.Honest ∧ MemoryLog.log.IsLenient t.log ∧
      (∃ reply last, Bot.rollReply Source.congruence MemoryLog.log who "3d6 / 0" t = .ok reply last) ∧
      (Console.run Source.congruence who.time "" ["2d6 + 1", "d"] t.source).1.fault = none := by
  intro who t
  have hlenient : MemoryLog.log.IsLenient t.log := MemoryLog.isLenient_log nofun
  have hshort (formula : String) (h : formula.toList.length ≤ Text.digitLimit) : ¬Overlong formula :=
    not_overlong_of_shortRuns (shortRuns_of_length h)
  have hlines : ∀ line ∈ ["2d6 + 1", "d"], ¬Overlong line := by
    simp only [List.forall_mem_cons]
    exact ⟨hshort _ (by decide), hshort _ (by decide), nofun⟩
  obtain ⟨-, -, hreply, hconsole, -⟩ := answered_unless_overlong Source.congruence_honest hlenient
    who none "3d6 / 0" ["2d6 + 1", "d"]
  refine ⟨Source.congruence_honest, hlenient, hreply.mpr (hshort _ (by decide)), ?_⟩
  rw [(hconsole hlines).1]

/-- A number of 4301 digits is not answered in the chat, and ends the session at the console with
a line unread. -/
theorem ones_unanswered :
    let ones := String.ofList (List.replicate 4301 '1')
    let who : Roller := ⟨7, ⟨2024, 5, 1, 12, 0, 0, 0, some 0⟩⟩
    read ones = .error (.tooManyDigits 4301) ∧
      (¬((Fault.tooManyDigits 4301).IsGrammar ∨ (Fault.tooManyDigits 4301).IsSize)) ∧
      (¬∃ reply last, Bot.rollReply Source.congruence MemoryLog.log who ones ⟨1, {}, []⟩ =
        .ok reply last) ∧
      (Console.run Source.congruence who.time "" [ones, "1d6"] 1).1 =
        ⟨"", 1, some (.formula (.tooManyDigits 4301))⟩ := by
  intro ones who
  have hread : read ones = .error (.tooManyDigits 4301) := read_ones (by decide)
  clear_value ones
  refine ⟨hread, not_isOrdinary_tooManyDigits 4301, ?_, ?_⟩
  · rw [rollReply_answers_iff]
    intro h
    have := h (.formula (.tooManyDigits 4301)) ⟨1, {}, []⟩ (by rw [roll, hread]; rfl)
    cases this
  · have hanswer : Console.answer Source.congruence who.time ones 1 =
        (⟨"", some (.formula (.tooManyDigits 4301))⟩, 1) := by
      rw [Console.answer, hread]
      rfl
    rw [Console.run, hanswer]
    rfl

end

end DiceLedger
