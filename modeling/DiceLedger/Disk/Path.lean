/-!
# Paths

A path is a list of names with slashes between them. `components` takes it apart, `join` puts
a name behind a directory, and `split` separates the last name from the rest.
-/

namespace DiceLedger.Path

/-- The stretches between the slashes of a path. -/
def stretches : List Char → List (List Char) :=
  List.foldr (fun c found =>
    if c = '/' then [] :: found
    else match found with
      | [] => [[c]]
      | first :: rest => (c :: first) :: rest) [[]]

/-- The names of a path. A path that begins or ends with a slash has an empty name there. -/
def components (path : String) : List String :=
  (stretches path.toList).map String.ofList

/-- A name in a directory; a name that begins with a slash stands for itself. -/
def join (directory name : String) : String :=
  if name.toList.head? = some '/' then name
  else if directory.isEmpty || directory.toList.getLast? = some '/' then directory ++ name
  else directory ++ "/" ++ name

/-- What stands before the last slash, without slashes at its end unless it has nothing else,
and what stands behind it. -/
def split (path : String) : String × String :=
  let tail := (path.toList.reverse.takeWhile (· ≠ '/')).reverse
  let head := path.toList.take (path.toList.length - tail.length)
  let bare := (head.reverse.dropWhile (· = '/')).reverse
  (String.ofList (if bare.isEmpty then head else bare), String.ofList tail)

/-- The directory of a path and its last name, a slash at the end not counting. -/
def parent (path : String) : String × String :=
  let (head, tail) := split path
  if tail.isEmpty then split head else (head, tail)

/-- A path is split at its slashes, as lists are split. -/
theorem stretches_eq_splitOnP (cs : List Char) : stretches cs = cs.splitOnP (· = '/') := by
  induction cs with
  | nil => rw [List.splitOnP_nil, stretches, List.foldr_nil]
  | cons c cs ih =>
    rw [stretches, List.foldr_cons, ← stretches, ih, List.splitOnP_cons_eq_if_modifyHead]
    simp only [decide_eq_true_eq]
    split
    · rfl
    · cases hs : cs.splitOnP (· = '/') with
      | nil => exact absurd hs (List.splitOnP_ne_nil _ cs)
      | cons first rest => rfl

/-- A slash separates what is before it from what is behind it. -/
theorem stretches_append_slash (s t : List Char) :
    stretches (s ++ '/' :: t) = stretches s ++ stretches t := by
  simp only [stretches_eq_splitOnP]
  exact List.splitOnP_append_cons s t (decide_eq_true rfl)

theorem stretches_eq_singleton {cs : List Char} (h : '/' ∉ cs) : stretches cs = [cs] := by
  rw [stretches_eq_splitOnP]
  refine List.splitOnP_eq_singleton fun c hc => decide_eq_false ?_
  rintro rfl
  exact h hc

end DiceLedger.Path
