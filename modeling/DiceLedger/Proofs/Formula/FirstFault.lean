import DiceLedger.Formula.Mark
import DiceLedger.Proofs.Formula.Overlong
import DiceLedger.Proofs.Formula.Spelling
import DiceLedger.Proofs.Text.Digits
import Mathlib.Order.Bounds.Basic

/-!
# Faults stand at the first token that does not fit

Marks are viable exactly when the reader gets through tokens with these marks. For one thing, what
it makes of tokens depends on their marks alone; for another, every state of the reader can be
brought to an end, and the lexemes that do so can be spelled. Hence the token at which the
reader stops is the first one that no formula goes on with, however deep it stands in
parentheses, and the fault is told for this token.
-/
namespace DiceLedger.Formula

open DiceLedger.Text

/-! ## What is read depends on the marks alone -/

theorem inRange_of_mark {l m : Lexeme} (hmark : l.mark = m.mark) (h : l.InRange) : m.InRange := by
  cases l <;> cases m <;> simp_all [Lexeme.mark, Lexeme.InRange]

theorem read_operand {t : Token} (hop : t.lexeme.isOperand) (hfit : t.lexeme.IsReadable)
    (first : Bool) (level : Level) (outer : List Level) :
    ∃ e, (State.awaiting first level outer).read t = .ok (.ended level e outer) := by
  obtain ⟨lexeme, position⟩ := t
  cases lexeme with
  | number digits => exact ⟨_, read_number hfit first level outer⟩
  | dice count faces => exact ⟨_, read_dice hfit first level outer⟩
  | symbol s => cases hop

theorem read_of_mark {s s' : State} {t u : Token} (hmark : t.lexeme.mark = u.lexeme.mark)
    (hshort : u.lexeme.IsShort) (h : s.read t = .ok s') : s.read u = .ok s' := by
  have ht := isReadable_of_read h
  have hu : u.lexeme.IsReadable := ⟨inRange_of_mark hmark ht.1, hshort⟩
  obtain ⟨l, p⟩ := t
  obtain ⟨m, q⟩ := u
  cases s with
  | awaiting first level outer =>
    cases l with
    | number digits =>
      cases m with
      | number digits' =>
        have hvalue : value digits = value digits' := by simpa [Lexeme.mark] using hmark
        rw [← h, read_number ht, read_number hu, hvalue]
      | _ => cases hmark
    | dice count faces =>
      cases m with
      | dice count' faces' =>
        have hvalues : value count = value count' ∧ value faces = value faces' := by
          simpa [Lexeme.mark] using hmark
        rw [← h, read_dice ht, read_dice hu, hvalues.1, hvalues.2]
      | _ => cases hmark
    | symbol c =>
      cases m with
      | symbol d =>
        cases hmark
        cases c <;> cases first <;> cases h <;> rfl
      | _ => cases hmark
  | ended level e outer =>
    cases l with
    | symbol c =>
      cases m with
      | symbol d =>
        cases hmark
        cases c <;> cases outer <;> cases h <;> rfl
      | _ => cases hmark
    | _ => cases outer <;> cases h

theorem foldlM_of_marks {ts : List Token} :
    ∀ {us : List Token} {s s' : State}, ts.map (·.lexeme.mark) = us.map (·.lexeme.mark) →
      (∀ u ∈ us, u.lexeme.IsShort) → ts.foldlM State.read s = .ok s' →
      us.foldlM State.read s = .ok s' := by
  induction ts with
  | nil =>
    intro us s s' hmarks _ h
    obtain rfl := List.map_eq_nil_iff.mp hmarks.symm
    exact h
  | cons t ts ih =>
    intro us s s' hmarks hshort h
    obtain ⟨u, us, rfl, hmark, hrest⟩ := List.map_eq_cons_iff.mp hmarks.symm
    rw [List.foldlM_cons] at h
    obtain ⟨mid, ht, h⟩ := bind_eq_ok_iff.mp h
    have hu := read_of_mark hmark.symm (hshort u List.mem_cons_self) ht
    rw [foldlM_cons_ok hu]
    exact ih hrest.symm (fun v hv => hshort v (List.mem_cons_of_mem u hv)) h

theorem finish_ok {s : State} {n m : Nat} {e : Expr Throw} (h : s.finish n = .ok e) :
    s.finish m = .ok e := by
  cases s with
  | awaiting first level outer => cases h
  | ended level last outer =>
    cases outer with
    | nil => exact h
    | cons up outer => cases h

theorem readTokens_of_marks {ts us : List Token} {n m : Nat} {e : Expr Throw}
    (hmarks : ts.map (·.lexeme.mark) = us.map (·.lexeme.mark))
    (hshort : ∀ u ∈ us, u.lexeme.IsShort) (h : readTokens n ts = .ok e) :
    readTokens m us = .ok e := by
  obtain ⟨s, hs, hfinish⟩ := bind_eq_ok_iff.mp h
  exact bind_eq_ok_iff.mpr ⟨s, foldlM_of_marks hmarks hshort hs, finish_ok hfinish⟩

/-! ## The shortest lexeme with a mark -/

/-- A lexeme in ASCII digits, without zeros in front. -/
def Lexeme.plain : Lexeme → Lexeme
  | .number digits => .number (decimal (value digits))
  | .dice count faces => .dice (decimal (value count)) (decimal (value faces))
  | .symbol s => .symbol s

@[simp] theorem mark_plain (l : Lexeme) : l.plain.mark = l.mark := by
  cases l <;> simp [Lexeme.plain, Lexeme.mark, value_decimal]

theorem isRun_decimal (n : Nat) : IsRun (decimal n) :=
  ⟨decimal_ne_nil n, fun _ hc => isDigit_of_mem_decimal hc⟩

theorem isProper_plain (l : Lexeme) : l.plain.IsProper := by
  cases l with
  | number digits => exact isRun_decimal _
  | dice count faces => exact ⟨isRun_decimal _, isRun_decimal _⟩
  | symbol s => trivial

theorem isShort_plain {l : Lexeme} (h : l.InRange) : l.plain.IsShort := by
  have hlength {n : Nat} (hn : n ≤ largestNumber) : (decimal n).length ≤ digitLimit := by
    have hlt : n < Nat.pow 10 19 := Nat.lt_of_le_of_lt hn (by decide)
    exact (length_decimal_le (by decide) hlt).trans (by decide)
  have hthrow : largestThrow ≤ largestNumber := by decide
  cases l with
  | number digits =>
    have hvalue : value digits ≤ largestNumber := h
    simpa [Lexeme.IsShort, Lexeme.plain, Lexeme.runs] using hlength hvalue
  | dice count faces =>
    simpa [Lexeme.IsShort, Lexeme.plain, Lexeme.runs] using
      ⟨hlength (h.1.trans hthrow), hlength (h.2.trans hthrow)⟩
  | symbol s => exact (isReadable_symbol s).2

/-! ## Viable marks are those that the reader gets through -/

/-- What the reader makes a tree of can be written as a formula. -/
theorem accepted_of_readTokens {tokens : List Token} {n : Nat} {e : Expr Throw}
    (h : readTokens n tokens = .ok e) : Accepted (marks tokens) := by
  have hproper : ∀ l ∈ tokens.map (·.lexeme.plain), l.IsProper := by simp [isProper_plain]
  obtain ⟨us, cs, hspelled, hus, -⟩ := exists_spelled hproper 0
  have hshort : ∀ u ∈ us, u.lexeme.IsShort := by
    intro u hu
    obtain ⟨t, ht, hplain⟩ := List.mem_map.mp (hus ▸ List.mem_map_of_mem hu)
    rw [← hplain]
    exact isShort_plain ((readTokens_eq_ok_iff.mp h).1 t ht).1
  have hmarks : us.map (·.lexeme.mark) = tokens.map (·.lexeme.mark) := by
    have hmap := congrArg (List.map Lexeme.mark) hus
    simpa [Function.comp_def] using hmap
  have hscan := scan_of_spelled hspelled
  have hread : readTokens n us = .ok e := readTokens_of_marks hmarks.symm hshort h
  exact ⟨String.ofList cs, us, e, hscan,
    read_eq_ok_iff.mpr ⟨us, hscan, readTokens_eq_ok_iff.mp hread⟩, by rw [marks, hmarks, marks]⟩

theorem accepted_iff {ms : List Mark} (n : Nat) :
    Accepted ms ↔ ∃ tokens e, ms = marks tokens ∧ readTokens n tokens = .ok e := by
  constructor
  · rintro ⟨formula, tokens, e, hscan, hread, rfl⟩
    obtain ⟨found, hfound, hfit⟩ := read_eq_ok_iff.mp hread
    obtain rfl := Except.ok.inj (hfound.symm.trans hscan)
    exact ⟨found, e, rfl, readTokens_eq_ok_iff.mpr hfit⟩
  · rintro ⟨tokens, e, rfl, h⟩
    exact accepted_of_readTokens h

/-- Every state of the reader can be brought to an end. -/
theorem exists_ending (s : State) :
    ∃ (rest : List Token) (level : Level) (e : Expr Throw),
      rest.foldlM State.read s = .ok (.ended level e []) := by
  cases s with
  | ended level e outer =>
    obtain ⟨last, e', h⟩ := ended_of_closings outer level e
    exact ⟨_, last, e', h⟩
  | awaiting first level outer =>
    let zero : Token := ⟨.number ['0'], 0⟩
    obtain ⟨e, hzero⟩ := read_operand (t := zero) rfl isReadable_zero first level outer
    obtain ⟨last, e', h⟩ := ended_of_closings outer level e
    exact ⟨zero :: _, last, e', by rw [foldlM_cons_ok hzero, h]⟩

theorem viable_of_foldlM {tokens : List Token} {s : State}
    (h : tokens.foldlM State.read .start = .ok s) : Viable (tokens.map (·.lexeme.mark)) := by
  obtain ⟨rest, level, e, hrest⟩ := exists_ending s
  have hwhole : readTokens 0 (tokens ++ rest) = .ok (level.close e) := by
    rw [readTokens, foldlM_append_ok h, hrest]
    rfl
  exact ⟨_, accepted_of_readTokens hwhole, by simp [marks]⟩

theorem ending_notMem (tokens : List Token) : Mark.ending ∉ tokens.map (·.lexeme.mark) := by
  intro h
  obtain ⟨t, -, ht⟩ := List.mem_map.mp h
  cases hl : t.lexeme <;> rw [hl] at ht <;> cases ht

/-- The reader gets through some tokens with viable marks. -/
theorem foldlM_of_viable {ms : List Mark} (h : Viable ms) (hend : .ending ∉ ms) :
    ∃ (tokens : List Token) (s : State), ms = tokens.map (·.lexeme.mark) ∧
      tokens.foldlM State.read .start = .ok s := by
  obtain ⟨whole, haccepted, hle⟩ := h
  obtain ⟨tokens, e, rfl, hread⟩ := (accepted_iff 0).mp haccepted
  rcases List.prefix_concat_iff.mp hle with rfl | hle
  · exact absurd (by simp) hend
  obtain ⟨us, ⟨rest, rfl⟩, rfl⟩ := List.prefix_map_iff.mp hle
  obtain ⟨s, hs, -⟩ := bind_eq_ok_iff.mp hread
  obtain ⟨mid, hmid, -⟩ := foldlM_append_eq_ok_iff.mp hs
  exact ⟨us, mid, rfl, hmid⟩

theorem viable_iff_foldlM {tokens : List Token} (hshort : ∀ t ∈ tokens, t.lexeme.IsShort) :
    Viable (tokens.map (·.lexeme.mark)) ↔ ∃ s, tokens.foldlM State.read .start = .ok s := by
  constructor
  · intro h
    obtain ⟨us, s, hmarks, hs⟩ := foldlM_of_viable h (ending_notMem tokens)
    exact ⟨s, foldlM_of_marks hmarks.symm hshort hs⟩
  · rintro ⟨s, hs⟩
    exact viable_of_foldlM hs

theorem viable_marks_iff {tokens : List Token} {n : Nat}
    (hshort : ∀ t ∈ tokens, t.lexeme.IsShort) :
    Viable (marks tokens) ↔ ∃ e, readTokens n tokens = .ok e := by
  constructor
  · rintro ⟨whole, haccepted, hle⟩
    obtain ⟨us, e, rfl, hread⟩ := (accepted_iff n).mp haccepted
    rcases List.prefix_concat_iff.mp hle with hmarks | hle
    · exact ⟨e, readTokens_of_marks (List.append_cancel_right hmarks).symm hshort hread⟩
    · exact absurd (hle.subset (by simp [marks])) (ending_notMem us)
  · rintro ⟨e, h⟩
    exact ⟨_, accepted_of_readTokens h, List.prefix_rfl⟩

/-! ## How a refused token is reported -/

/-- The token that a fault of size lies in. -/
def Fault.oversized? : Fault → Option Lexeme
  | .numberTooLarge digits => some (.number digits)
  | .tooManyDice lexeme | .tooManyFaces lexeme => some lexeme
  | _ => none

/-- A smaller operand to stand in for one that is out of range. -/
theorem exists_smaller {l : Lexeme} (h : ¬l.InRange) :
    ∃ z : Lexeme, z.IsReadable ∧ z.isOperand ∧ z.mark.IsSmaller l.mark := by
  have hzero : value ['0'] = 0 := by decide
  cases l with
  | symbol s => exact absurd trivial h
  | number digits =>
    have hlarge : largestNumber < value digits := Nat.lt_of_not_le h
    refine ⟨.number ['0'], isReadable_zero, rfl, ?_⟩
    simp only [Lexeme.mark, Mark.IsSmaller, hzero]
    exact Nat.zero_lt_of_lt hlarge
  | dice count faces =>
    refine ⟨.dice ['0'] ['0'], ⟨⟨by decide, by decide⟩, ?_⟩, rfl, ?_⟩
    · simp [Lexeme.IsShort, Lexeme.runs, digitLimit]
    · simp only [Lexeme.mark, Mark.IsSmaller, hzero]
      refine ⟨Nat.zero_le _, Nat.zero_le _, fun heq => h ?_⟩
      obtain ⟨hcount, hfaces⟩ := Prod.mk.inj heq
      exact ⟨hcount ▸ Nat.zero_le _, hfaces ▸ Nat.zero_le _⟩

theorem isOperand_of_isSmaller {l m : Lexeme} (h : m.mark.IsSmaller l.mark) : m.isOperand := by
  cases m with
  | symbol s => cases l <;> cases h
  | _ => rfl

/-- Where an operand may stand, one that is too large is refused for its size. -/
theorem oversized_of_read {first : Bool} {level : Level} {outer : List Level} {t : Token}
    {f : Fault} (h : (State.awaiting first level outer).read t = .error f)
    (hshort : t.lexeme.IsShort) (hlarge : ¬t.lexeme.InRange) :
    f.oversized? = some t.lexeme := by
  obtain ⟨lexeme, position⟩ := t
  cases lexeme with
  | symbol s => exact absurd trivial hlarge
  | number digits =>
    have hdigits : ¬digitLimit < digits.length :=
      Nat.not_lt.mpr (hshort digits (by simp [Lexeme.runs]))
    have hvalue : largestNumber < value digits := Nat.lt_of_not_le hlarge
    have hread := map_eq_error_iff.mp h
    simp only [readNumber, readDigits, if_neg hdigits, if_pos hvalue, bind, Except.bind] at hread
    obtain rfl := Except.error.inj hread
    rfl
  | dice count faces =>
    have hcount : ¬digitLimit < count.length :=
      Nat.not_lt.mpr (hshort count (by simp [Lexeme.runs]))
    have hfaces : ¬digitLimit < faces.length :=
      Nat.not_lt.mpr (hshort faces (by simp [Lexeme.runs]))
    have hread := map_eq_error_iff.mp h
    simp only [readThrow, readDigits, if_neg hcount, if_neg hfaces, bind, Except.bind] at hread
    split at hread
    · obtain rfl := Except.error.inj hread
      rfl
    · split at hread
      · obtain rfl := Except.error.inj hread
        rfl
      · cases hread

/-- Every other token is refused for standing where it does. -/
theorem position_of_read {s : State} {t : Token} {f : Fault} (h : s.read t = .error f)
    (hfit : (∃ first level outer, s = .awaiting first level outer) → t.lexeme.IsReadable) :
    f.position? = some t.position := by
  cases s with
  | awaiting first level outer =>
    have hfit := hfit ⟨first, level, outer, rfl⟩
    cases hop : t.lexeme.isOperand with
    | true =>
      obtain ⟨e, hok⟩ := read_operand hop hfit first level outer
      rw [hok] at h
      cases h
    | false =>
      obtain ⟨lexeme, position⟩ := t
      cases lexeme with
      | symbol c => cases c <;> cases first <;> cases h <;> rfl
      | _ => cases hop
  | ended level e outer =>
    obtain ⟨lexeme, position⟩ := t
    cases lexeme with
    | symbol c => cases c <;> cases outer <;> cases h <;> rfl
    | _ => cases outer <;> cases h <;> rfl

theorem position_of_finish {s : State} {n : Nat} {f : Fault} (h : s.finish n = .error f) :
    f.position? = some n := by
  cases s with
  | awaiting first level outer => cases h; rfl
  | ended level e outer =>
    cases outer with
    | nil => cases h
    | cons up outer => cases h; rfl

/-! ## The first token that does not fit -/

/-- Where viable marks turn into others that are not is the first place that does not fit. -/
theorem isLeast_misfit {ms : List Mark} {k : Nat} (hbefore : Viable (ms.take k))
    (hat : ¬Viable (ms.take (k + 1))) : IsLeast {i | ¬Viable (ms.take (i + 1))} k := by
  refine ⟨hat, fun i hi => Nat.le_of_not_lt fun hlt => hi ?_⟩
  exact hbefore.of_prefix (List.take_prefix_take_left (by omega))

theorem take_marks (done rest : List Token) :
    (marks (done ++ rest)).take done.length = done.map (·.lexeme.mark) := by
  rw [marks, List.map_append, List.append_assoc]
  exact List.take_left' (List.length_map _)

/-- A token that the reader comes to is only too large if an operand may stand there and this
one is out of range. -/
theorem onlyTooLarge_iff {done rest : List Token} {t u : Token} {s : State}
    (hdone : done.foldlM State.read .start = .ok s) :
    OnlyTooLarge (done ++ t :: rest) done.length u ↔
      u = t ∧ (∃ first level outer, s = .awaiting first level outer) ∧ ¬t.lexeme.InRange := by
  have hget : (done ++ t :: rest)[done.length]? = some t := by simp
  rw [OnlyTooLarge, hget, take_marks]
  constructor
  · rintro ⟨htu, hlarge, m, hsmaller, hviable⟩
    obtain rfl := Option.some.inj htu
    have hend : .ending ∉ done.map (·.lexeme.mark) ++ [m] := by
      rw [List.mem_append, List.mem_singleton]
      rintro (h | rfl)
      · exact ending_notMem done h
      · cases hsmaller
    obtain ⟨us, s', hmarks, hs'⟩ := foldlM_of_viable hviable hend
    obtain ⟨before, last, rfl, hbefore, hlast⟩ := List.map_eq_append_iff.mp hmarks.symm
    obtain ⟨v, rfl, rfl⟩ := List.map_eq_singleton_iff.mp hlast
    obtain ⟨mid, hmid, hv⟩ := foldlM_append_eq_ok_iff.mp hs'
    have hshort : ∀ u ∈ done, u.lexeme.IsShort := fun u hu => (isReadable_of_foldlM hdone u hu).2
    -- the other formula has led the reader to the same state, and goes on with an operand
    obtain rfl := Except.ok.inj ((foldlM_of_marks hbefore hshort hmid).symm.trans hdone)
    obtain ⟨next, hread, -⟩ := bind_eq_ok_iff.mp hv
    exact ⟨rfl, awaiting_of_read_operand (isOperand_of_isSmaller hsmaller) hread, hlarge⟩
  · rintro ⟨rfl, ⟨first, level, outer, rfl⟩, hlarge⟩
    obtain ⟨z, hfit, hop, hsmaller⟩ := exists_smaller hlarge
    let small : Token := ⟨z, 0⟩
    obtain ⟨e, hsmall⟩ := read_operand (t := small) hop hfit first level outer
    have hnext : (done ++ [small]).foldlM State.read .start = .ok (.ended level e outer) := by
      rw [foldlM_append_ok hdone, foldlM_cons_ok hsmall]
      rfl
    have hviable := viable_of_foldlM hnext
    rw [List.map_append] at hviable
    exact ⟨rfl, hlarge, z.mark, hsmaller, hviable⟩

/-- No formula goes on with a token that the reader refuses. -/
theorem not_viable_of_read {done : List Token} {t : Token} {s : State} {f : Fault}
    (hdone : done.foldlM State.read .start = .ok s) (rest : List Token)
    (ht : s.read t = .error f) (hshort : t.lexeme.IsShort) :
    ¬Viable ((marks (done ++ t :: rest)).take (done.length + 1)) := by
  have htake : (marks (done ++ t :: rest)).take (done.length + 1) =
      (done ++ [t]).map (·.lexeme.mark) := by
    rw [← take_marks (done ++ [t]) rest, List.append_assoc, List.length_append]
    rfl
  have hshorts : ∀ u ∈ done ++ [t], u.lexeme.IsShort := by
    intro u hu
    rcases List.mem_append.mp hu with hu | hu
    · exact (isReadable_of_foldlM hdone u hu).2
    · rw [List.mem_singleton.mp hu]
      exact hshort
  rw [htake, viable_iff_foldlM hshorts]
  rintro ⟨next, hnext⟩
  have hfails : (done ++ [t]).foldlM State.read .start = .error f :=
    foldlM_eq_error_iff.mpr ⟨done, t, [], s, rfl, hdone, ht⟩
  rw [hfails] at hnext
  cases hnext

/-- **The fault of a formula stands at its first token that does not fit.** Let `k` be the least
index such that no formula that can be read begins with the tokens up to the one at `k`, the
end being a token of its own. If that token is a number or dice, too large where a smaller one
could stand, the fault is one of size and names it; otherwise the fault is one of grammar, at
its place. What stands before it can be completed. -/
theorem read_faults_at_first_misfit {formula : String} {tokens : List Token} {fault : Fault}
    (hblank : ¬formula.toList.all isBlank) (hruns : ShortRuns formula.toList)
    (hscan : scan formula = .ok tokens) (hread : read formula = .error fault) :
    ∃ k ≤ tokens.length, IsLeast {i | ¬Viable ((marks tokens).take (i + 1))} k ∧
      Viable ((marks tokens).take k) ∧
      (∀ t, OnlyTooLarge tokens k t → fault.oversized? = some t.lexeme) ∧
      ((∀ t, ¬OnlyTooLarge tokens k t) →
        fault.position? = some (placeOf formula tokens k)) := by
  have hshort := isShort_of_scan hruns hscan
  rw [read, if_neg hblank, hscan] at hread
  replace hread : readTokens formula.toList.length tokens = .error fault := hread
  rcases bind_eq_error_iff.mp hread with hfold | ⟨s, hs, hfinish⟩
  · -- the reader stops at a token
    obtain ⟨done, t, rest, s, rfl, hdone, ht⟩ := foldlM_eq_error_iff.mp hfold
    have hbefore : Viable ((marks (done ++ t :: rest)).take done.length) := by
      rw [take_marks]
      exact viable_of_foldlM hdone
    have htShort : t.lexeme.IsShort := hshort t (by simp)
    have hat := not_viable_of_read hdone rest ht htShort
    refine ⟨done.length, by simp, isLeast_misfit hbefore hat, hbefore, ?_, ?_⟩
    · intro u hu
      obtain ⟨rfl, ⟨first, level, outer, rfl⟩, hlarge⟩ := (onlyTooLarge_iff hdone).mp hu
      exact oversized_of_read ht htShort hlarge
    · intro hfits
      have hposition := position_of_read ht fun hawaits => ⟨by_contra fun hlarge =>
        hfits t ((onlyTooLarge_iff hdone).mpr ⟨rfl, hawaits, hlarge⟩), htShort⟩
      simpa [placeOf] using hposition
  · -- the reader gets to the end, where something is missing
    have hbefore : Viable ((marks tokens).take tokens.length) := by
      have htake := take_marks tokens []
      rw [List.append_nil] at htake
      rw [htake]
      exact viable_of_foldlM hs
    have hat : ¬Viable ((marks tokens).take (tokens.length + 1)) := by
      rw [List.take_of_length_le (by simp [marks]), viable_marks_iff hshort]
      rintro ⟨e, hok⟩
      rw [hok] at hread
      cases hread
    have hend : tokens[tokens.length]? = none := List.getElem?_length tokens
    refine ⟨tokens.length, le_rfl, isLeast_misfit hbefore hat, hbefore, ?_, ?_⟩
    · rintro t ⟨ht, -⟩
      rw [hend] at ht
      cases ht
    · intro _
      rw [position_of_finish hfinish, placeOf, hend]
      rfl

/-- Dice that are too many, in parentheses that are never closed. -/
def crowded : String := "2 * (1d6 - 5000000000d6 +"

def crowdedTokens : List Token :=
  [⟨.number ['2'], 0⟩, ⟨.symbol .times, 2⟩, ⟨.symbol .opening, 4⟩, ⟨.dice ['1'] ['6'], 5⟩,
    ⟨.symbol .minus, 9⟩, ⟨.dice "5000000000".toList ['6'], 11⟩, ⟨.symbol .plus, 24⟩]

def crowdedFault : Fault := .tooManyDice (.dice "5000000000".toList ['6'])

/-- The dice are told of, and not the end, where the parenthesis and an operand are missing. -/
theorem read_faults_at_first_misfit_crowded :
    ¬crowded.toList.all isBlank ∧ ShortRuns crowded.toList ∧
      scan crowded = .ok crowdedTokens ∧ read crowded = .error crowdedFault ∧
      ∃ k ≤ crowdedTokens.length,
        IsLeast {i | ¬Viable ((marks crowdedTokens).take (i + 1))} k ∧
        Viable ((marks crowdedTokens).take k) ∧
        (∀ t, OnlyTooLarge crowdedTokens k t → crowdedFault.oversized? = some t.lexeme) ∧
        ((∀ t, ¬OnlyTooLarge crowdedTokens k t) →
          crowdedFault.position? = some (placeOf crowded crowdedTokens k)) := by
  have hblank : ¬crowded.toList.all isBlank := by decide
  have hruns : ShortRuns crowded.toList := shortRuns_of_length (by decide)
  have hscan : scan crowded = .ok crowdedTokens := by rfl
  have hread : read crowded = .error crowdedFault := by rfl
  exact ⟨hblank, hruns, hscan, hread, read_faults_at_first_misfit hblank hruns hscan hread⟩

end DiceLedger.Formula
