import DiceLedger.Proofs.Text.Digits
import DiceLedger.Time.Iso
import DiceLedger.Time.IsoReader
import Mathlib.Data.List.TakeWhile

/-!
# Written moments are read back

The reader takes every form of a moment; here it is followed along the one form in which
moments are written. An offset below a second is read as one of nothing. All else comes back.
-/
namespace DiceLedger.Time

open DiceLedger.Text

/-- A moment that a clock and a calendar can show. -/
structure Moment.IsValid (m : Moment) : Prop where
  year : 1 ≤ m.year ∧ m.year ≤ 9999
  month : 1 ≤ m.month ∧ m.month ≤ 12
  day : 1 ≤ m.day ∧ m.day ≤ daysInMonth m.year m.month
  hour : m.hour ≤ 23
  minute : m.minute ≤ 59
  second : m.second ≤ 59
  microsecond : m.microsecond < 1000000
  offset : ∀ n, m.offset = some n → -dayLength < n ∧ n < dayLength

instance (m : Moment) : Decidable m.IsValid :=
  decidable_of_iff ((1 ≤ m.year ∧ m.year ≤ 9999) ∧ (1 ≤ m.month ∧ m.month ≤ 12) ∧
      (1 ≤ m.day ∧ m.day ≤ daysInMonth m.year m.month) ∧ m.hour ≤ 23 ∧ m.minute ≤ 59 ∧
      m.second ≤ 59 ∧ m.microsecond < 1000000 ∧
      ∀ n ∈ m.offset, -dayLength < n ∧ n < dayLength)
    ⟨fun ⟨year, month, day, hour, minute, second, microsecond, offset⟩ =>
      ⟨year, month, day, hour, minute, second, microsecond, fun n hn => offset n hn⟩,
    fun h => ⟨h.year, h.month, h.day, h.hour, h.minute, h.second, h.microsecond,
      fun n hn => h.offset n hn⟩⟩

/-- An offset as it is read back: of one below a second nothing is left. -/
def rereadOffset (n : Int) : Int := if n.natAbs < 1000000 then 0 else n

theorem rereadOffset_eq_self_iff {n : Int} :
    rereadOffset n = n ↔ n = 0 ∨ 1000000 ≤ n.natAbs := by
  rw [rereadOffset]
  split
  · omega
  · exact iff_of_true rfl (.inr (by omega))

namespace Moment

/-- A moment as it is read back. -/
def reread (m : Moment) : Moment := { m with offset := m.offset.map rereadOffset }

/-- There is no offset, or one of nothing, or one of at least a second. -/
def KeepsOffset (m : Moment) : Prop := ∀ n ∈ m.offset, n = 0 ∨ 1000000 ≤ n.natAbs

instance (m : Moment) : Decidable m.KeepsOffset :=
  inferInstanceAs (Decidable (∀ n ∈ m.offset, n = 0 ∨ 1000000 ≤ n.natAbs))

theorem reread_eq_self_iff {m : Moment} : m.reread = m ↔ m.KeepsOffset := by
  obtain ⟨year, month, day, hour, minute, second, microsecond, offset⟩ := m
  cases offset with
  | none => simp [reread, KeepsOffset]
  | some n => simp [reread, KeepsOffset, rereadOffset_eq_self_iff]

theorem IsValid.reread {m : Moment} (h : m.IsValid) : m.reread.IsValid := by
  refine ⟨h.year, h.month, h.day, h.hour, h.minute, h.second, h.microsecond, fun n hn => ?_⟩
  obtain ⟨k, hk, rfl⟩ := Option.map_eq_some_iff.mp hn
  have hday := h.offset k hk
  rw [rereadOffset]
  split
  · decide
  · exact hday

end Moment

namespace IsoReader

theorem isDigit_of_mem_digits {c : Char} (h : c ∈ digits) : c.isDigit = true := by
  have hall : ∀ c ∈ digits, c.isDigit = true := forall_of_all (by decide)
  exact hall c h

/-- A padded number is read, and what follows it is left. -/
theorem digits?_padded {width n : Nat} (hpos : 0 < width) (h : n < Nat.pow 10 width) (rest : List Char) :
    digits? width (padded width n ++ rest) = some (n, rest) := by
  have hlength := length_padded hpos h
  have htake : (padded width n ++ rest).take width = padded width n := by
    rw [List.take_append_of_le_length (Nat.le_of_eq hlength.symm),
      List.take_of_length_le (Nat.le_of_eq hlength)]
  have hdrop : (padded width n ++ rest).drop width = rest := by
    rw [List.drop_append_of_le_length (Nat.le_of_eq hlength.symm),
      List.drop_of_length_le (Nat.le_of_eq hlength), List.nil_append]
  have hall : (padded width n).all Char.isDigit = true := by
    rw [List.all_eq_true]
    intro c hc
    exact isDigit_of_mem_digits (mem_digits_of_padded hc)
  simp only [digits?, htake, hdrop, hlength, hall, value_padded, decide_true, Bool.and_true,
    if_true]

def clockText (hour minute second microsecond : Nat) : List Char :=
  padded 2 hour ++ ':' :: padded 2 minute ++ ':' :: padded 2 second ++ fraction microsecond

theorem exists_of_padded {width n : Nat} (hpos : 0 < width) (h : n < Nat.pow 10 width) :
    ∃ c cs, padded width n = c :: cs ∧ c ∈ digits := by
  cases hcs : padded width n with
  | nil =>
    have hlength := length_padded hpos h
    rw [hcs, List.length_nil] at hlength
    omega
  | cons c cs =>
    have hc : c ∈ padded width n := hcs ▸ List.mem_cons_self
    exact ⟨c, cs, rfl, mem_digits_of_padded hc⟩

theorem turn?_colon (next : Char) {rest : List Char} (h : rest ≠ []) :
    turn? next true (':' :: rest) = some (.component rest) := by
  cases rest with
  | nil => exact absurd rfl h
  | cons c cs => rfl

theorem turn?_point (next : Char) (colons : Bool) {rest : List Char} (h : rest ≠ []) :
    turn? next colons ('.' :: rest) = some (.fraction rest) := by
  cases rest with
  | nil => exact absurd rfl h
  | cons c cs => cases colons <;> rfl

theorem fraction?_padded (next : Char) {n : Nat} (h : n < Nat.pow 10 6) :
    fraction? next (padded 6 n) = some (n, decide (next ≠ terminator)) := by
  have hlength := length_padded (by decide : 0 < 6) h
  have hread := digits?_padded (by decide : 0 < 6) h []
  rw [List.append_nil] at hread
  have hwhole : n * Nat.pow 10 0 = n := Nat.mul_one n
  rw [fraction?, hlength, Nat.min_self, hread, Option.bind_eq_bind, Option.bind_some, Nat.sub_self]
  dsimp only
  rw [hwhole]
  rfl

theorem clock?_clockText (next : Char) {h m s us : Nat} (hh : h < 100) (hm : m < 100)
    (hs : s < 100) (hus : us < 1000000) :
    clock? next (clockText h m s us) =
      some ⟨h, m, s, us, decide (next ≠ terminator)⟩ := by
  have htwo : 0 < 2 := by decide
  have hsecond : padded 2 s ++ fraction us ≠ [] := by
    obtain ⟨c, cs, hcs, -⟩ := exists_of_padded htwo hs
    simp [hcs]
  rw [clockText, List.append_assoc, List.append_assoc, clock?]
  simp only [List.cons_append, digits?_padded htwo hh, Option.bind_eq_bind,
    Option.bind_some, List.head?_cons, Option.getD_some, decide_true]
  rw [turn?_colon next (by simp)]
  simp only [digits?_padded htwo hm, Option.bind_some]
  rw [turn?_colon next hsecond]
  simp only [digits?_padded htwo hs, Option.bind_some]
  by_cases hzero : us = 0
  · subst hzero
    rfl
  · have hfraction : fraction us = '.' :: padded 6 us := if_neg hzero
    obtain ⟨c, cs, hcs, -⟩ := exists_of_padded (by decide : 0 < 6) hus
    rw [hfraction, turn?_point next true (by simp [hcs])]
    simp only [Option.bind_some, fraction?_padded next hus]

theorem clock?_hourMinute {h m : Nat} (hh : h < 100) (hm : m < 100) :
    clock? terminator (padded 2 h ++ ':' :: padded 2 m) = some ⟨h, m, 0, 0, false⟩ := by
  have htwo : 0 < 2 := by decide
  obtain ⟨c, cs, hcs, -⟩ := exists_of_padded htwo hm
  have hlast := digits?_padded htwo hm []
  rw [List.append_nil] at hlast
  rw [clock?]
  simp only [digits?_padded htwo hh, Option.bind_eq_bind, Option.bind_some, List.head?_cons,
    Option.getD_some, decide_true]
  rw [turn?_colon terminator (by simp [hcs])]
  simp only [hlast, Option.bind_some]
  rfl

/-- An offset without its sign, as it is written. -/
def offsetBody (n : Nat) : List Char :=
  let low := if n % 60000000 = 0 then []
    else ':' :: padded 2 (n / 1000000 % 60) ++ fraction (n % 1000000)
  padded 2 (n / 1000000 / 3600) ++ ':' :: padded 2 (n / 1000000 / 60 % 60) ++ low

theorem offsetText_eq (n : Int) :
    offsetText n = (if n < 0 then '-' else '+') :: offsetBody n.natAbs := rfl

/-- An offset of at least a second is read back; of one below a second nothing is left. -/
theorem offset?_offsetBody (sign : Int) {n : Nat} (hday : n < 86400000000) :
    offset? sign (offsetBody n) = some (if n < 1000000 then 0 else sign * n) := by
  have hhour : n / 1000000 / 3600 < 100 := by omega
  have hminute : n / 1000000 / 60 % 60 < 100 := by omega
  by_cases hlow : n % 60000000 = 0
  · have hbody : offsetBody n =
        padded 2 (n / 1000000 / 3600) ++ ':' :: padded 2 (n / 1000000 / 60 % 60) := by
      rw [offsetBody, if_pos hlow, List.append_nil]
    rw [offset?, hbody, clock?_hourMinute hhour hminute]
    have hseconds : (n / 1000000 / 3600 * 60 + n / 1000000 / 60 % 60) * 60 + 0 = n / 1000000 := by
      omega
    simp only [Option.bind_eq_bind, Option.bind_some, Bool.false_eq_true, if_false, hseconds]
    by_cases hsmall : n < 1000000
    · rw [if_pos (by omega), if_pos hsmall]
    · rw [if_neg (by omega), if_neg hsmall, Nat.add_zero, show n / 1000000 * 1000000 = n by omega]
  · have hbody : offsetBody n = clockText (n / 1000000 / 3600) (n / 1000000 / 60 % 60)
        (n / 1000000 % 60) (n % 1000000) := by
      rw [offsetBody, if_neg hlow, clockText]
      simp
    rw [offset?, hbody, clock?_clockText terminator hhour hminute (by omega) (by omega)]
    have hseconds : (n / 1000000 / 3600 * 60 + n / 1000000 / 60 % 60) * 60 + n / 1000000 % 60 =
        n / 1000000 := by omega
    have hwhole : n / 1000000 * 1000000 + n % 1000000 = n := by omega
    simp only [Option.bind_eq_bind, Option.bind_some, ne_eq, not_true_eq_false, decide_false,
      Bool.false_eq_true, if_false, hseconds, hwhole]
    by_cases hsmall : n < 1000000
    · rw [if_pos (by omega), if_pos hsmall]
    · rw [if_neg (by omega), if_neg hsmall]

def clockChars : List Char := digits ++ ":.".toList

theorem padded_subset (width n : Nat) : padded width n ⊆ clockChars :=
  fun _ hc => List.mem_append_left _ (mem_digits_of_padded hc)

theorem fraction_subset (n : Nat) : fraction n ⊆ clockChars := by
  rw [fraction]
  split
  · exact List.nil_subset _
  · exact List.cons_subset.mpr ⟨by decide, padded_subset 6 n⟩

theorem clockText_subset (h m s us : Nat) : clockText h m s us ⊆ clockChars := by
  simp only [clockText, List.append_subset, List.cons_subset]
  exact ⟨⟨⟨padded_subset 2 h, by decide, padded_subset 2 m⟩, by decide, padded_subset 2 s⟩,
    fraction_subset us⟩

theorem offsetBody_subset (n : Nat) : offsetBody n ⊆ clockChars := by
  simp only [offsetBody, List.append_subset, List.cons_subset]
  refine ⟨⟨padded_subset 2 _, by decide, padded_subset 2 _⟩, ?_⟩
  split
  · exact List.nil_subset _
  · simp only [List.append_subset, List.cons_subset]
    exact ⟨⟨by decide, padded_subset 2 _⟩, fraction_subset _⟩

theorem isOffsetMark_clockText {h m s us : Nat} :
    ∀ c ∈ clockText h m s us, !isOffsetMark c := by
  have hall : ∀ c ∈ clockChars, !isOffsetMark c := forall_of_all (by decide)
  exact fun c hc => hall c (clockText_subset h m s us hc)

section

variable {h m s us : Nat} (hh : h < 100) (hm : m < 100) (hs : s < 100) (hus : us < 1000000)

include hh hm hs hus

theorem time?_unmarked : time? (clockText h m s us) = some (⟨h, m, s, us, false⟩, none) := by
  have hbody : (clockText h m s us).takeWhile (fun c => !isOffsetMark c) = clockText h m s us :=
    List.takeWhile_eq_self_iff.mpr isOffsetMark_clockText
  rw [time?]
  simp only [hbody, List.drop_length, clock?_clockText terminator hh hm hs hus]
  rfl

/-- The clock reading ends where the offset begins. -/
theorem time?_marked {mark : Char} (hmark : isOffsetMark mark) (hz : mark ≠ 'Z')
    (rest : List Char) :
    time? (clockText h m s us ++ mark :: rest) =
      (offset? (if mark = '-' then -1 else 1) rest).map fun offset =>
        (⟨h, m, s, us, decide (mark ≠ terminator)⟩, some offset) := by
  have hbody : (clockText h m s us ++ mark :: rest).takeWhile (fun c => !isOffsetMark c) =
      clockText h m s us := by
    rw [List.takeWhile_append_of_pos isOffsetMark_clockText, List.takeWhile_cons_of_neg (by simpa using hmark),
      List.append_nil]
  rw [time?]
  simp only [hbody, List.drop_left, clock?_clockText mark hh hm hs hus, Option.bind_eq_bind,
    Option.bind_some, hz, if_false]
  cases offset? (if mark = '-' then -1 else 1) rest <;> rfl

theorem time?_clockText {offset : Option Int}
    (hday : ∀ n, offset = some n → -dayLength < n ∧ n < dayLength) :
    ∃ tail, time? (clockText h m s us ++ (offset.map offsetText).getD []) =
      some (⟨h, m, s, us, tail⟩, offset.map rereadOffset) := by
  cases offset with
  | none =>
    refine ⟨false, ?_⟩
    rw [Option.map_none, Option.getD_none, List.append_nil, time?_unmarked hh hm hs hus]
    rfl
  | some n =>
    have hlt : n.natAbs < 86400000000 := by
      obtain ⟨hlow, hhigh⟩ := hday n rfl
      rw [dayLength] at hlow hhigh
      omega
    refine ⟨true, ?_⟩
    rw [Option.map_some, Option.getD_some, offsetText_eq, Option.map_some, rereadOffset]
    by_cases hneg : n < 0
    · have hsign : (-1 : Int) * n.natAbs = n := by omega
      rw [if_pos hneg, time?_marked hh hm hs hus (by decide) (by decide), if_pos rfl,
        offset?_offsetBody (-1) hlt, hsign]
      rfl
    · have hsign : (1 : Int) * n.natAbs = n := by omega
      rw [if_neg hneg, time?_marked hh hm hs hus (by decide) (by decide), if_neg (by decide),
        offset?_offsetBody 1 hlt, hsign]
      rfl

end

def dateText (year month day : Nat) : List Char :=
  padded 4 year ++ '-' :: padded 2 month ++ '-' :: padded 2 day

theorem isoText_eq (m : Moment) :
    m.isoText = dateText m.year m.month m.day ++ 'T' ::
      (clockText m.hour m.minute m.second m.microsecond ++ (m.offset.map offsetText).getD []) := by
  simp [Moment.isoText, dateText, clockText]

theorem length_dateText {y mo d : Nat} (hy : y < 10000) (hmo : mo < 100) (hd : d < 100) :
    (dateText y mo d).length = 10 := by
  simp only [dateText, List.length_append, List.length_cons, length_padded (by decide : 0 < 4) hy,
    length_padded (by decide : 0 < 2) hmo, length_padded (by decide : 0 < 2) hd]

theorem date?_dateText {y mo d : Nat} (hy : y < 10000) (hmo : mo < 100) (hd : d < 100)
    (rest : List Char) : date? 10 (dateText y mo d ++ rest) = some (some (y, mo, d)) := by
  have htwo : 0 < 2 := by decide
  obtain ⟨c, cs, hcs, hc⟩ := exists_of_padded htwo hmo
  have hweek : (padded 2 mo ++ '-' :: (padded 2 d ++ rest)).head? ≠ some 'W' := by
    have hall : ∀ c ∈ digits, c ≠ 'W' := forall_of_all (by decide)
    simpa [hcs] using hall c hc
  have hyear := digits?_padded (by decide : 0 < 4) hy
    ('-' :: (padded 2 mo ++ '-' :: (padded 2 d ++ rest)))
  have htext : dateText y mo d ++ rest =
      padded 4 y ++ '-' :: (padded 2 mo ++ '-' :: (padded 2 d ++ rest)) := by
    simp [dateText]
  rw [date?, htext, hyear]
  simp only [Option.bind_eq_bind, Option.bind_some, List.head?_cons, if_true, List.drop_one,
    List.tail_cons, decide_true]
  rw [if_neg hweek, digits?_padded htwo hmo]
  simp only [Option.bind_some, List.head?_cons, ne_eq, not_true_eq_false, decide_false,
    Bool.and_false, Bool.false_eq_true, if_false, List.tail_cons, digits?_padded htwo hd]

theorem dateLength_dateText {y mo d : Nat} (hy : y < 10000) (hmo : mo < 100) (hd : d < 100)
    {rest : List Char} : dateLength (dateText y mo d ++ rest) = 10 := by
  have hfour := length_padded (by decide : 0 < 4) hy
  obtain ⟨c, cs, hcs, hc⟩ := exists_of_padded (by decide : 0 < 2) hmo
  have hweek : c ≠ 'W' := by
    have hall : ∀ c ∈ digits, c ≠ 'W' := forall_of_all (by decide)
    exact hall c hc
  have hlength : (dateText y mo d ++ rest).length ≠ 7 := by
    rw [List.length_append, length_dateText hy hmo hd]
    omega
  have hdash : (dateText y mo d ++ rest)[4]? = some '-' := by
    simp [dateText, hfour]
  have hfive : (dateText y mo d ++ rest)[5]? = some c := by
    simp [dateText, List.getElem?_append_right, hfour, hcs]
  rw [dateLength]
  simp only [hlength, hdash, hfive, Option.getD_some, hweek, if_true, if_false]

def momentChars : List Char := clockChars ++ "-T+".toList

theorem isoText_subset (m : Moment) : m.isoText ⊆ momentChars := by
  have hclock : clockChars ⊆ momentChars := List.subset_append_left _ _
  have hpadded (width n : Nat) : padded width n ⊆ momentChars :=
    List.Subset.trans (padded_subset width n) hclock
  have hoffset : (m.offset.map offsetText).getD [] ⊆ momentChars := by
    cases m.offset with
    | none => exact List.nil_subset _
    | some n =>
      rw [Option.map_some, Option.getD_some, offsetText_eq, List.cons_subset]
      exact ⟨by split <;> decide, List.Subset.trans (offsetBody_subset _) hclock⟩
  simp only [isoText_eq, dateText, List.append_subset, List.cons_subset]
  exact ⟨⟨⟨hpadded 4 _, by decide, hpadded 2 _⟩, by decide, hpadded 2 _⟩, by decide,
    List.Subset.trans (clockText_subset _ _ _ _) hclock, hoffset⟩

theorem units_eq_self {cs : List Char} (h : ∀ c ∈ cs, c.utf8Size = 1) : units cs = cs := by
  induction cs with
  | nil => rfl
  | cons c cs ih =>
    rw [units, List.flatMap_cons, ← units, ih fun d hd => h d (List.mem_cons_of_mem c hd),
      h c List.mem_cons_self]
    rfl

theorem units_isoText (m : Moment) : units m.isoText = m.isoText := by
  have hsize : ∀ c ∈ momentChars, c.utf8Size = 1 := forall_of_all (by decide)
  exact units_eq_self fun c hc => hsize c (isoText_subset m hc)

theorem length_fraction_le {us : Nat} (h : us < 1000000) : (fraction us).length ≤ 7 := by
  rw [fraction]
  split
  · exact Nat.zero_le 7
  · rw [List.length_cons, length_padded (by decide) h]

theorem length_clockText_le {h m s us : Nat} (hh : h < 100) (hm : m < 100) (hs : s < 100)
    (hus : us < 1000000) : (clockText h m s us).length ≤ 15 := by
  have hfraction := length_fraction_le hus
  have htwo : 0 < 2 := by decide
  simp only [clockText, List.length_append, List.length_cons, length_padded htwo hh,
    length_padded htwo hm, length_padded htwo hs]
  omega

theorem length_offsetBody_le {n : Nat} (h : n < 86400000000) : (offsetBody n).length ≤ 15 := by
  have htwo : 0 < 2 := by decide
  have hhour : n / 1000000 / 3600 < 100 := by omega
  have hminute : n / 1000000 / 60 % 60 < 100 := by omega
  have hsecond : n / 1000000 % 60 < 100 := by omega
  have hfraction := length_fraction_le (by omega : n % 1000000 < 1000000)
  simp only [offsetBody, List.length_append, List.length_cons, length_padded htwo hhour,
    length_padded htwo hminute]
  split
  · decide
  · rw [List.length_append, List.length_cons, length_padded htwo hsecond]
    omega

theorem check_of_isValid {m : Moment} (h : m.IsValid) (tail : Bool) :
    check (some (m.year, m.month, m.day))
      ⟨m.hour, m.minute, m.second, m.microsecond, tail⟩ m.offset = .ok m := by
  obtain ⟨hy, hmo, hd, hh, hm, hs, -, hoffset⟩ := h
  have hyear : (m.year = 0 || 9999 < m.year) = false := by simp; omega
  have hmonth : (m.month = 0 || 12 < m.month) = false := by simp; omega
  have hday : (m.day = 0 || daysInMonth m.year m.month < m.day) = false := by simp; omega
  have hh' := Nat.not_lt_of_le hh
  have hm' := Nat.not_lt_of_le hm
  have hs' := Nat.not_lt_of_le hs
  obtain ⟨year, month, day, hour, minute, second, microsecond, offset⟩ := m
  cases offset with
  | none =>
    simp only [check, hyear, hmonth, hday, hh', hm', hs', if_false]
    rfl
  | some n =>
    obtain ⟨hlow, hhigh⟩ := hoffset n rfl
    have hrange : (n ≤ -dayLength || dayLength ≤ n) = false := by simp; omega
    simp only [check, hrange, hyear, hmonth, hday, hh', hm', hs', if_false]
    rfl

theorem below_of_isValid {m : Moment} (h : m.IsValid) :
    (m.year < 10000 ∧ m.month < 100 ∧ m.day < 100) ∧
      m.hour < 100 ∧ m.minute < 100 ∧ m.second < 100 := by
  have hmonth : daysInMonth m.year m.month ≤ 31 := by
    rw [daysInMonth]
    split
    · split <;> decide
    · split <;> decide
  obtain ⟨hy, hmo, hd, hh, hm, hs, -, -⟩ := h
  omega

theorem length_isoText_le {m : Moment} (h : m.IsValid) : m.isoText.length ≤ 42 := by
  obtain ⟨⟨hy, hmo, hd⟩, hh, hm, hs⟩ := below_of_isValid h
  have hclock := length_clockText_le hh hm hs h.microsecond
  have hoffset : ((m.offset.map offsetText).getD []).length ≤ 16 := by
    cases hn : m.offset with
    | none => decide
    | some n =>
      have hday := h.offset n hn
      rw [dayLength] at hday
      have hbody := length_offsetBody_le (n := n.natAbs) (by omega)
      rw [Option.map_some, Option.getD_some, offsetText_eq, List.length_cons]
      omega
  rw [isoText_eq, List.length_append, length_dateText hy hmo hd, List.length_cons,
    List.length_append]
  omega

/-- **A written moment is read back**, with its wall clock and, but for one below a second, its
offset. -/
theorem read_iso {m : Moment} (h : m.IsValid) : read m.iso = .ok m.reread := by
  obtain ⟨⟨hy, hmo, hd⟩, hh, hm, hs⟩ := below_of_isValid h
  obtain ⟨tail, htime⟩ := time?_clockText hh hm hs h.microsecond h.offset
  have hlong : ¬m.isoText.length < 7 := by
    rw [isoText_eq, List.length_append, length_dateText hy hmo hd]
    omega
  have hparts : parts? (units m.isoText) = some (some (m.year, m.month, m.day),
      ⟨m.hour, m.minute, m.second, m.microsecond, tail⟩, m.reread.offset) := by
    rw [units_isoText, isoText_eq, parts?, dateLength_dateText hy hmo hd,
      date?_dateText hy hmo hd, ← length_dateText hy hmo hd]
    simp only [Option.bind_eq_bind, Option.bind_some, List.drop_left]
    rw [show 'T'.utf8Size - 1 = 0 from rfl, List.drop_zero, htime]
    rfl
  rw [read, Moment.iso, String.toList_ofList, if_neg hlong, hparts]
  exact check_of_isValid h.reread tail

end IsoReader

end DiceLedger.Time
