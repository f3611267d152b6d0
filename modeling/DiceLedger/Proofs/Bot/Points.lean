import DiceLedger.Proofs.Bot.Limits
import DiceLedger.Proofs.Roll.Display
import Mathlib.Data.Rat.Floor

/-!
# What becomes of points

A roll of Cthulhu Dark is one row of dice, a die for every ten points begun. The row is dealt out
as human dice and an insight die, and the answer lists it in two lines. Both are read back here
from the text alone: no other number stands in it, and no value is left out.
-/
namespace DiceLedger

open DiceLedger.Text

/-! ## Numbers in a text -/

namespace Text

/-- The numbers that stand in a text, as they are written. -/
def numerals (cs : List Char) : List (List Char) :=
  (cs.splitOnP (· ∉ '-' :: digits)).filter (· ≠ [])

theorem numerals_append_cons {c : Char} (hc : c ∉ '-' :: digits) (cs ds : List Char) :
    numerals (cs ++ c :: ds) = numerals cs ++ numerals ds := by
  rw [numerals, List.splitOnP_append_cons _ _ (by simpa using hc), List.filter_append]
  rfl

/-- A label without numbers adds none. -/
theorem numerals_behind {label : List Char} (hlabel : ∀ c ∈ label, c ∉ '-' :: digits)
    (cs : List Char) : numerals (label ++ cs) = numerals cs := by
  induction label with
  | nil => rfl
  | cons c label ih =>
    obtain ⟨hc, hrest⟩ := List.forall_mem_cons.mp hlabel
    exact (numerals_append_cons hc [] (label ++ cs)).trans (ih hrest)

theorem numerals_signedDecimal (n : Int) : numerals (signedDecimal n) = [signedDecimal n] := by
  have hsingle : (signedDecimal n).splitOnP (· ∉ '-' :: digits) = [signedDecimal n] :=
    List.splitOnP_eq_singleton fun c hc =>
      decide_eq_false (not_not_intro (mem_signedDecimal hc))
  rw [numerals, hsingle, List.filter_cons_of_pos (by simpa using signedDecimal_ne_nil n),
    List.filter_nil]

theorem numerals_slashed (values : List Int) :
    numerals (" / ".toList.intercalate (values.map signedDecimal)) = values.map signedDecimal := by
  induction values with
  | nil => rfl
  | cons v values ih =>
    cases values with
    | nil => simpa using numerals_signedDecimal v
    | cons w values =>
      have hslash : " / ".toList = ' ' :: "/ ".toList := rfl
      rw [List.map_cons, List.map_cons, List.intercalate_cons_cons, ← List.map_cons,
        List.append_assoc, hslash, List.cons_append, numerals_append_cons (by decide),
        numerals_signedDecimal, ← hslash, numerals_behind (forall_of_all (by decide)), ih]
      rfl

theorem toList_listing (label separator : String) (texts : List String) :
    (label ++ separator.intercalate texts).toList =
      label.toList ++ separator.toList.intercalate (texts.map String.toList) := by
  rw [String.toList_append, String.toList_intercalate]

end Text

namespace Bot

/-! ## What is told of the dice -/

def humanLabel : List Char := "Result(s): ".toList

def insightLabel : List Char := "Insight: ".toList

/-- The values in a line, if it begins with a label. -/
def valuesBehind (label line : List Char) : List Int :=
  if label <+: line then (numerals line).map signedValue else []

/-- The roll that is told by a text: the human dice in one line, the insight die in another. -/
def toldRoll (text : String) : CthulhuDark :=
  let lines := text.toList.splitOn '\n'
  ⟨lines.flatMap (valuesBehind humanLabel), (lines.flatMap (valuesBehind insightLabel)).head?⟩

def humanText (human : List Int) : String :=
  "Result(s): " ++ " / ".intercalate (human.map fun v => String.ofList (signedDecimal v))

def insightText (v : Int) : String := "Insight: " ++ String.ofList (signedDecimal v)

/-- The lines in which a roll is told. -/
def linesOf (rolled : CthulhuDark) : List String :=
  (if rolled.human.isEmpty then [] else [humanText rolled.human]) ++
    rolled.insight.toList.map insightText

theorem cthulhuText_eq {rolled : CthulhuDark} (h : rolled ≠ ⟨[], none⟩) :
    cthulhuText rolled = "\n".intercalate (linesOf rolled) := by
  obtain ⟨_ | ⟨u, us⟩, _ | v⟩ := rolled
  · exact absurd rfl h
  all_goals rfl

theorem linesOf_ne_nil {rolled : CthulhuDark} (h : rolled ≠ ⟨[], none⟩) : linesOf rolled ≠ [] := by
  obtain ⟨_ | ⟨u, us⟩, _ | v⟩ := rolled
  · exact absurd rfl h
  all_goals exact List.cons_ne_nil _ _

theorem toList_humanText (human : List Int) : (humanText human).toList =
    humanLabel ++ " / ".toList.intercalate (human.map signedDecimal) := by
  have hvalues : (human.map fun v => String.ofList (signedDecimal v)).map String.toList =
      human.map signedDecimal := by
    rw [List.map_map]
    exact List.map_congr_left fun _ _ => String.toList_ofList
  rw [← hvalues]
  exact toList_listing _ _ _

theorem toList_insightText (v : Int) :
    (insightText v).toList = insightLabel ++ signedDecimal v := toList_ending _ _

theorem numerals_humanText (human : List Int) :
    numerals (humanText human).toList = human.map signedDecimal := by
  rw [toList_humanText, numerals_behind (forall_of_all (by decide)), numerals_slashed]

theorem numerals_insightText (v : Int) :
    numerals (insightText v).toList = [signedDecimal v] := by
  rw [toList_insightText, numerals_behind (forall_of_all (by decide)), numerals_signedDecimal]

/-- The characters of a line: those of the labels, the slash and those of numbers. -/
def lineChars : List Char := humanLabel ++ insightLabel ++ '/' :: '-' :: digits

theorem mem_lineChars {rolled : CthulhuDark} {c : Char} :
    ∀ line ∈ (linesOf rolled).map String.toList, c ∈ line → c ∈ lineChars := by
  have hnumber {n : Int} (h : c ∈ signedDecimal n) : c ∈ lineChars :=
    List.mem_append_right _ (List.mem_cons_of_mem _ (mem_signedDecimal h))
  have hhuman (human : List Int) (h : c ∈ (humanText human).toList) : c ∈ lineChars := by
    rw [toList_humanText] at h
    rcases List.mem_append.mp h with hlabel | hvalues
    · exact List.mem_append_left _ (List.mem_append_left _ hlabel)
    · rcases mem_intercalate hvalues with hslash | ⟨part, hpart, hc⟩
      · have hall : ∀ c ∈ " / ".toList, c ∈ lineChars := forall_of_all (by decide)
        exact hall c hslash
      · obtain ⟨v, -, rfl⟩ := List.mem_map.mp hpart
        exact hnumber hc
  have hinsight (v : Int) (h : c ∈ (insightText v).toList) : c ∈ lineChars := by
    rw [toList_insightText] at h
    rcases List.mem_append.mp h with hlabel | hvalue
    · exact List.mem_append_left _ (List.mem_append_right _ hlabel)
    · exact hnumber hvalue
  obtain ⟨_ | ⟨u, us⟩, _ | v⟩ := rolled
  · exact nofun
  · exact List.forall_mem_singleton.mpr (hinsight v)
  · exact List.forall_mem_singleton.mpr (hhuman (u :: us))
  · exact List.forall_mem_cons.mpr ⟨hhuman (u :: us), List.forall_mem_singleton.mpr (hinsight v)⟩

theorem toList_cthulhuText {rolled : CthulhuDark} (h : rolled ≠ ⟨[], none⟩) :
    (cthulhuText rolled).toList = ['\n'].intercalate ((linesOf rolled).map String.toList) := by
  rw [cthulhuText_eq h, String.toList_intercalate]
  rfl

theorem splitOn_cthulhuText {rolled : CthulhuDark} (h : rolled ≠ ⟨[], none⟩) :
    (cthulhuText rolled).toList.splitOn '\n' = (linesOf rolled).map String.toList := by
  have hbreak : ∀ line ∈ (linesOf rolled).map String.toList, '\n' ∉ line :=
    fun line hline h => absurd (mem_lineChars line hline h) (by decide)
  rw [toList_cthulhuText h,
    List.splitOn_intercalate '\n' hbreak (by simpa using linesOf_ne_nil h)]

theorem valuesBehind_label {label : List Char} (hlabel : ∀ c ∈ label, c ∉ '-' :: digits)
    (cs : List Char) : valuesBehind label (label ++ cs) = (numerals cs).map signedValue := by
  rw [valuesBehind, if_pos (List.prefix_append _ _), numerals_behind hlabel]

/-- A line is told from another by its first letter. -/
theorem valuesBehind_of_ne {c d : Char} (h : c ≠ d) (label line : List Char) :
    valuesBehind (c :: label) (d :: line) = [] :=
  if_neg fun hprefix => h (List.cons_prefix_cons.mp hprefix).1

theorem valuesBehind_humanText (human : List Int) :
    valuesBehind humanLabel (humanText human).toList = human ∧
      valuesBehind insightLabel (humanText human).toList = [] := by
  rw [toList_humanText]
  refine ⟨?_, valuesBehind_of_ne (by decide) _ _⟩
  rw [valuesBehind_label (forall_of_all (by decide)), numerals_slashed]
  simp [signedValue_signedDecimal, Function.comp_def]

theorem valuesBehind_insightText (v : Int) :
    valuesBehind humanLabel (insightText v).toList = [] ∧
      valuesBehind insightLabel (insightText v).toList = [v] := by
  rw [toList_insightText]
  refine ⟨valuesBehind_of_ne (by decide) _ _, ?_⟩
  rw [valuesBehind_label (forall_of_all (by decide)), numerals_signedDecimal]
  simp [signedValue_signedDecimal]

/-- **A roll of Cthulhu Dark is read back from its text.** -/
theorem toldRoll_cthulhuText (rolled : CthulhuDark) : toldRoll (cthulhuText rolled) = rolled := by
  by_cases h : rolled = ⟨[], none⟩
  · subst h
    decide +kernel
  · rw [toldRoll, splitOn_cthulhuText h]
    obtain ⟨_ | ⟨u, us⟩, _ | v⟩ := rolled
    · exact absurd rfl h
    all_goals simp [linesOf, valuesBehind_humanText, valuesBehind_insightText]

theorem numerals_cthulhuText (rolled : CthulhuDark) : numerals (cthulhuText rolled).toList =
    (rolled.human ++ rolled.insight.toList).map signedDecimal := by
  by_cases h : rolled = ⟨[], none⟩
  · subst h
    decide +kernel
  · rw [toList_cthulhuText h]
    obtain ⟨_ | ⟨u, us⟩, _ | v⟩ := rolled
    · exact absurd rfl h
    · simp [linesOf, numerals_insightText]
    · simp [linesOf, numerals_humanText]
    · have hlines : ['\n'].intercalate ((linesOf ⟨u :: us, some v⟩).map String.toList) =
          (humanText (u :: us)).toList ++ '\n' :: (insightText v).toList := by
        simp [linesOf, List.intercalate]
      rw [hlines, numerals_append_cons (by decide), numerals_humanText, numerals_insightText]
      simp

end Bot

/-! ## Points and dice -/

theorem cthulhuDice_eq_ceil (points : Int) : cthulhuDice points = ⌈(points : ℚ) / 10⌉₊ := by
  refine eq_of_forall_ge_iff fun n => ?_
  rw [cthulhuDice_le_iff, Nat.ceil_le, div_le_iff₀ (by norm_num), mul_comm]
  exact_mod_cast Iff.rfl

/-- All values are dealt, in order. -/
theorem dealt_all {points : Int} {values : List Int} (h : values.length = cthulhuDice points) :
    (dealt points values).human ++ (dealt points values).insight.toList = values := by
  rw [cthulhuDice] at h
  split at h
  · obtain rfl := List.length_eq_zero_iff.mp h
    simp [dealt]
  · by_cases hround : points % 10 = 0
    · rw [if_pos hround, Nat.add_zero] at h
      have hdivides : 10 ∣ points := Int.dvd_of_emod_eq_zero hround
      simp [dealt, hdivides, h.le]
    · rw [if_neg hround] at h
      have hdivides : ¬10 ∣ points := fun h => hround (Int.emod_eq_zero_of_dvd h)
      have hne : values ≠ [] := List.ne_nil_of_length_eq_add_one h
      have hhuman : values.take (points / 10).toNat = values.dropLast := by
        rw [List.dropLast_eq_take, h, Nat.add_sub_cancel]
      rw [dealt, hhuman, if_neg hdivides, List.getLast?_eq_some_getLast hne]
      exact List.dropLast_append_getLast hne

theorem dealt_eq_nothing_iff {points : Int} {values : List Int}
    (h : values.length = cthulhuDice points) :
    dealt points values = ⟨[], none⟩ ↔ cthulhuDice points = 0 := by
  rw [← h, List.length_eq_zero_iff]
  constructor
  · intro hnothing
    rw [← dealt_all h, hnothing]
    rfl
  · rintro rfl
    simp [dealt]

section

variable {ρ σ : Type} {g : Generator ρ} {log : RollLog σ} {who : Roller}

/-- How a roll of Cthulhu Dark ends beside a lenient log. -/
theorem rollCthulhuDark_ends {faces : Int} (hfaces : 1 ≤ faces) (points : Int) {t : Table ρ σ}
    (h : log.IsLenient t.log) :
    let row := List.replicate (cthulhuDice points) faces
    let c := cast g row t.source
    let last := t.thrown log who row c
    rollCthulhuDark g log who faces points t =
      if c.whole then .ok (dealt points c.values) last else .error .exhausted last := by
  intro row c last
  have hrow : rollRow g log who row t =
      if c.whole then .ok c.values last else .error .exhausted last := rollRow_eq row h
  rw [rollCthulhuDark_eq hfaces]
  exact run_return hrow

/-- Dice without faces are refused as soon as there are points, before anything is drawn. -/
theorem rollCthulhuDark_faceless {faces points : Int} (hpoints : 1 ≤ points) (hfaces : faces < 1)
    (t : Table ρ σ) : rollCthulhuDark g log who faces points t =
      .error (.dice (.noFaces ⟨points / 10, faces⟩)) t := by
  have hthrow : rollThrow g log who ⟨points / 10, faces⟩ t =
      .error (.dice (.noFaces ⟨points / 10, faces⟩)) t := by
    rw [rollThrow, if_pos hfaces]
    rfl
  rw [rollCthulhuDark, if_neg (by omega)]
  exact run_of_error hthrow

/-- What is asked for and what is offered in a row of dice that have all the same faces. -/
theorem thrown_replicate (faces : Int) (n : Nat) (source : ρ) (s : σ) :
    let row := List.replicate n faces
    let c := cast g.traced row ⟨source, []⟩
    let last := Table.thrown log.noted who row c ⟨⟨source, []⟩, ⟨s, []⟩, []⟩
    last.log.offers.map (·.1) = c.values.map (who.recordOf faces) ∧
      (c.whole → c.values.length = n ∧ last.source.requests = List.replicate n (1, faces)) := by
  intro row c last
  have hlast : last = _ := thrown_noted row c ⟨source, []⟩ s
  have hrow : row.length = n := List.length_replicate
  have hshort : c.values.length ≤ n := hrow ▸ length_cast_le row _
  constructor
  · have hrecords : List.zipWith who.recordOf row c.values = c.values.map (who.recordOf faces) := by
      rw [recordsOf_replicate, List.take_of_length_le hshort]
    rw [hlast, hrecords]
    exact List.map_fst_zip (RollLog.length_answers _ s).ge
  · intro hwhole
    have hrequests : c.source.requests = (row.map request).reverse ++ [] := requests_cast hwhole
    have hlength : c.values.length = n := hrow ▸ length_cast hwhole
    refine ⟨hlength, ?_⟩
    rw [hlast, hrequests]
    simp [row, request]

end

namespace Bot

section

variable {ρ σ : Type} {g : Generator ρ} {log : RollLog σ} {who : Roller}

theorem cthulhuReply_ends (points : Int) {t : Table ρ σ} (h : log.IsLenient t.log) :
    let row := List.replicate (cthulhuDice points) cthulhuFaces
    let c := cast g row t.source
    let last := t.thrown log who row c
    cthulhuReply g log who points t =
      if c.whole then .ok ⟨cthulhuText (dealt points c.values), false⟩ last
      else .error .exhausted last := by
  intro row c last
  have hroll : rollCthulhuDark g log who cthulhuFaces points t =
      if c.whole then .ok (dealt points c.values) last else .error .exhausted last :=
    rollCthulhuDark_ends (by decide) points h
  exact run_return hroll

/-- The text of points whose dice have fallen tells of these dice and of nothing else. -/
theorem cthulhuText_dealt {points : Int} {values : List Int}
    (h : values.length = cthulhuDice points) :
    let text := cthulhuText (dealt points values)
    toldRoll text = dealt points values ∧ numerals text.toList = values.map signedDecimal ∧
      (text = "At least call me for something useful. :rage:" ↔ cthulhuDice points = 0) := by
  have hnothing : cthulhuText ⟨[], none⟩ = "At least call me for something useful. :rage:" := rfl
  refine ⟨toldRoll_cthulhuText _, ?_, ?_⟩
  · rw [numerals_cthulhuText, dealt_all h]
  · rw [← hnothing, (Function.LeftInverse.injective toldRoll_cthulhuText).eq_iff,
      dealt_eq_nothing_iff h]

/-- **Every point is accounted for.** Points below one throw nothing. Otherwise dice without
faces are refused before anything is drawn, and dice with faces are thrown as one row, a die for
every ten points begun, whatever the log answers. Each die is offered to the log before the next
is drawn, so that what has fallen is offered even if the source has nothing left. All values are
dealt in order; the answer tells them in that order and no other number, and complains just if
there are none. -/
theorem points_accounted (g : Generator ρ) {s : σ} (hs : log.IsLenient s) (who : Roller)
    (points : Int) (source : ρ) :
    let n := ⌈(points : ℚ) / 10⌉₊
    let start : Table (Traced ρ) (Noted σ) := ⟨⟨source, []⟩, ⟨s, []⟩, []⟩
    (∀ faces,
      let out := rollCthulhuDark g.traced log.noted who faces points start
      let last := final out
      let c := cast g (List.replicate n faces) source
      (points < 1 → out = .ok ⟨[], none⟩ start) ∧
        (1 ≤ points → faces < 1 → out = .error (.dice (.noFaces ⟨points / 10, faces⟩)) start) ∧
        (1 ≤ faces →
          rollCthulhuDark g log who faces points = (do
            return dealt points (← rollRow g log who (List.replicate n faces))) ∧
          last.log.offers.map (·.1) = c.values.map (who.recordOf faces) ∧
          (g.Honest → c.whole) ∧
          (c.whole = false → out = .error .exhausted last) ∧
          (c.whole → out = .ok (dealt points c.values) last ∧ c.values.length = n ∧
            last.source.requests = List.replicate n (1, faces)))) ∧
      let out := cthulhuReply g.traced log.noted who points start
      let c := cast g (List.replicate n cthulhuFaces) source
      c.whole → ∃ text, out = .ok ⟨text, false⟩ (final out) ∧
        toldRoll text = dealt points c.values ∧
        numerals text.toList = c.values.map signedDecimal ∧
        (text = "At least call me for something useful. :rage:" ↔ n = 0) := by
  intro n start
  have hn : n = cthulhuDice points := (cthulhuDice_eq_ceil points).symm
  have hnoted : log.noted.IsLenient start.log := RollLog.IsLenient.noted (n := ⟨s, []⟩) hs
  rw [hn]
  refine ⟨fun faces => ⟨fun hnone => ?_, fun hpoints hfaceless =>
    rollCthulhuDark_faceless hpoints hfaceless start, fun hfaces => ?_⟩, ?_⟩
  · rw [rollCthulhuDark, if_pos hnone]
    rfl
  · let row := List.replicate (cthulhuDice points) faces
    let c := cast g.traced row ⟨source, []⟩
    let last := start.thrown log.noted who row c
    obtain ⟨hvalues, hwhole⟩ : c.values = (cast g row source).values ∧
        c.whole = (cast g row source).whole := cast_traced row ⟨source, []⟩
    have hends : rollCthulhuDark g.traced log.noted who faces points start =
        if c.whole then .ok (dealt points c.values) last else .error .exhausted last :=
      rollCthulhuDark_ends hfaces points hnoted
    have hfinal : final (rollCthulhuDark g.traced log.noted who faces points start) = last := by
      rw [hends]
      split <;> rfl
    obtain ⟨hoffers, hall⟩ : last.log.offers.map (·.1) = c.values.map (who.recordOf faces) ∧
        (c.whole → c.values.length = cthulhuDice points ∧
          last.source.requests = List.replicate (cthulhuDice points) (1, faces)) :=
      thrown_replicate faces (cthulhuDice points) source s
    have hrow : ∀ f ∈ row, 1 ≤ f := fun f hf => (List.mem_replicate.mp hf).2 ▸ hfaces
    rw [hfinal, hends, ← hvalues, ← hwhole]
    exact ⟨rollCthulhuDark_eq hfaces points, hoffers, fun hg => hwhole ▸ cast_whole hg hrow source,
      fun h => if_neg (by simp [h]), fun h => ⟨if_pos h, hall h⟩⟩
  · intro out c hwhole
    let row := List.replicate (cthulhuDice points) cthulhuFaces
    let c' := cast g.traced row ⟨source, []⟩
    obtain ⟨hvalues, hwhole'⟩ : c'.values = c.values ∧ c'.whole = c.whole :=
      cast_traced row ⟨source, []⟩
    have hends : out = .ok ⟨cthulhuText (dealt points c'.values), false⟩
        (start.thrown log.noted who row c') :=
      (cthulhuReply_ends points hnoted).trans (if_pos (hwhole'.trans hwhole))
    have hlength : c.values.length = cthulhuDice points := by simpa [row] using length_cast hwhole
    refine ⟨cthulhuText (dealt points c.values), ?_, cthulhuText_dealt hlength⟩
    rw [hends, hvalues]
    rfl

/-- Points for three dice, of which the log takes one. -/
theorem points_accounted_twenty_five :
    let who : Roller := ⟨7, ⟨2024, 5, 1, 12, 0, 0, 0, some 0⟩⟩
    let failures (n : Nat) : Option LogFault :=
      if n = 0 then some (.refused "closed") else if n = 2 then some (.system "disk full") else none
    let m : MemoryLog := { failures }
    let start : Table (Traced Source) (Noted MemoryLog) := ⟨⟨.script [3, 5, 2], []⟩, ⟨m, []⟩, []⟩
    let roll := rollCthulhuDark Source.generator.traced MemoryLog.log.noted who 6 25 start
    let out := cthulhuReply Source.generator.traced MemoryLog.log.noted who 25 start
    MemoryLog.log.IsLenient m ∧ roll = .ok ⟨[3, 5], some 2⟩ (final roll) ∧
      (final roll).source.requests = [(1, 6), (1, 6), (1, 6)] ∧
      (final roll).log.offers.map (·.1) = [3, 5, 2].map (who.recordOf 6) ∧
      ∃ text, out = .ok ⟨text, false⟩ (final out) ∧ toldRoll text = ⟨[3, 5], some 2⟩ := by
  intro who failures m start roll out
  have hm : MemoryLog.log.IsLenient m := MemoryLog.isLenient_log fun n fault h => by
    dsimp only [m, failures] at h
    split at h
    · cases h
      rfl
    · split at h <;> cases h
      rfl
  have hn : ⌈((25 : Int) : ℚ) / 10⌉₊ = 3 := by
    rw [← cthulhuDice_eq_ceil]
    rfl
  obtain ⟨hroll, hreply⟩ := points_accounted Source.generator hm who 25 (.script [3, 5, 2])
  rw [hn] at hroll hreply
  obtain ⟨-, -, hthrown⟩ := hroll 6
  obtain ⟨-, hoffers, -, -, hwhole⟩ := hthrown (by decide)
  obtain ⟨hok, -, hrequests⟩ := hwhole rfl
  obtain ⟨text, htext, htold, -, -⟩ := hreply rfl
  exact ⟨hm, hok, hrequests, hoffers, text, htext, htold⟩

end

end Bot

end DiceLedger
