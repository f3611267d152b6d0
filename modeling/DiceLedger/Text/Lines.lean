import DiceLedger.Text.Utf8

/-!
# Lines

A line ends in a line feed, in a carriage return, or in the two together. A reader that meets
a malformed byte has seen the lines completed before it; a carriage return at the very end of
what was decoded completes nothing, since a line feed may follow.
-/

namespace DiceLedger.Text

def isLineEnd (c : Char) : Bool := c == '\n' || c == '\r'

/-- The stretches between line ends. A carriage return and a line feed together leave an
empty stretch between them. -/
def stretches : List Char → List (List Char) :=
  List.foldr (fun c found =>
    if isLineEnd c then [] :: found
    else match found with
      | [] => [[c]]
      | first :: rest => (c :: first) :: rest) [[]]

/-- The longest start of a text that is made of complete lines, more text being on its way. -/
def completeLines (cs : List Char) : List Char :=
  (cs.foldr (fun c (found : List Char × Bool) =>
    let (kept, more) := found
    if kept.isEmpty && !(c == '\n' || (c == '\r' && more)) then ([], true)
    else (c :: kept, true)) ([], false)).1

/-- The text that a line reader gets to see. -/
def Utf8.Reading.lines (r : Utf8.Reading) : List Char :=
  if r.fault.isSome then completeLines r.text else r.text

/-- A text is split at its line ends, as lists are split. -/
theorem stretches_eq_splitOnP (cs : List Char) : stretches cs = cs.splitOnP isLineEnd := by
  induction cs with
  | nil => rw [List.splitOnP_nil, stretches, List.foldr_nil]
  | cons c cs ih =>
    rw [stretches, List.foldr_cons, ← stretches, ih, List.splitOnP_cons_eq_if_modifyHead]
    split
    · rfl
    · cases hs : cs.splitOnP isLineEnd with
      | nil => exact absurd hs (List.splitOnP_ne_nil _ cs)
      | cons first rest => rfl

/-- A line end separates what is before it from what is behind it. -/
theorem stretches_append_lineEnd {c : Char} (h : isLineEnd c) (s t : List Char) :
    stretches (s ++ c :: t) = stretches s ++ stretches t := by
  simp only [stretches_eq_splitOnP]
  exact List.splitOnP_append_cons s t h

theorem stretches_eq_singleton {cs : List Char} (h : ∀ c ∈ cs, ¬isLineEnd c) :
    stretches cs = [cs] := by
  rw [stretches_eq_splitOnP]
  exact List.splitOnP_eq_singleton fun c hc => eq_false_of_ne_true (h c hc)

end DiceLedger.Text
