import DiceLedger.Proofs.Roll.Dice
import Mathlib.Data.Stream.Init

/-!
# What an evaluation draws, fills in and records

The source is here a stream of numbers with the requests made of it, and the log a memory log
that loses nothing. Evaluations of one tree take consecutive blocks of the stream, one number
for each die, and a record is kept for each die in the order of the draws.
-/
namespace DiceLedger

open DiceLedger.Time

/-- A source that gives the numbers of a stream, whatever the bounds are. -/
def streamed : Generator (Stream' Int) where
  draw _ _ s := (some s.head, s.tail)

def request (faces : Int) : Int × Int := (1, faces)

def Roller.recordOf (who : Roller) (faces result : Int) : RollRecord :=
  ⟨who.user, result, faces, who.time⟩

abbrev Tray := Table (Traced (Stream' Int)) MemoryLog

/-- The table after a row of dice: the numbers of the stream are used up, the requests are
known, and each die has its record. -/
def Tray.after (who : Roller) (row : List Int) (t : Tray) : Tray :=
  { source := ⟨t.source.source.drop row.length, (row.map request).reverse ++ t.source.requests⟩
    log := { t.log with
      attempts := t.log.attempts + row.length
      records := t.log.records ++ List.zipWith who.recordOf row (t.source.source.take row.length) }
    unrecorded := t.unrecorded }

theorem rollDie_streamed (who : Roller) (faces : Int) {t : Tray}
    (hkeep : t.log.failures = fun _ => none) :
    rollDie streamed.traced MemoryLog.log who faces t =
      .ok t.source.source.head (t.after who [faces]) := by
  obtain ⟨⟨s, requests⟩, ⟨failures, attempts, records⟩, unrecorded⟩ := t
  obtain rfl := hkeep
  rfl

theorem after_append (who : Roller) (xs ys : List Int) (t : Tray) :
    (t.after who xs).after who ys = t.after who (xs ++ ys) := by
  have htake : t.source.source.take (xs.length + ys.length) =
      t.source.source.take xs.length ++ (t.source.source.drop xs.length).take ys.length :=
    Stream'.take_add _ _ _
  simp [Tray.after, Stream'.drop_drop, Nat.add_assoc, htake, List.zipWith_append]

theorem rollRow_streamed (who : Roller) (row : List Int) :
    ∀ {t : Tray}, (t.log.failures = fun _ => none) →
      rollRow streamed.traced MemoryLog.log who row t =
        .ok (t.source.source.take row.length) (t.after who row) := by
  induction row with
  | nil =>
    intro t _
    simp [rollRow, Tray.after, pure, EStateM.pure]
  | cons faces row ih =>
    intro t hkeep
    have hrest := ih (t := t.after who [faces]) hkeep
    rw [rollRow, run_of_ok (rollDie_streamed who faces hkeep), run_of_ok hrest, after_append]
    rfl

/-- The first `count` consecutive blocks of a stream. -/
def blocks (size : Nat) (s : Stream' Int) (count : Nat) : List (List Int) :=
  (List.range count).map fun i => (s.drop (i * size)).take size

theorem blocks_succ (size : Nat) (s : Stream' Int) (count : Nat) :
    blocks size s (count + 1) = s.take size :: blocks size (s.drop size) count := by
  have hshift (i : Nat) : (s.drop size).drop (i * size) = s.drop ((i + 1) * size) := by
    rw [Stream'.drop_drop, Nat.succ_mul, Nat.add_comm]
  simp only [blocks, List.range_succ_eq_map, List.map_cons, List.map_map, Function.comp_def,
    hshift, Nat.zero_mul, Stream'.drop_zero]

/-- One evaluation after the other, each for a roller of its own. -/
def evaluations (e : Expr Throw) (whos : List Roller) :
    Play (Traced (Stream' Int)) MemoryLog (List (Expr (List Int))) :=
  whos.mapM fun who => evaluate streamed.traced MemoryLog.log who e

theorem evaluate_streamed {e : Expr Throw} (hfaces : ∀ t ∈ e.leaves, 1 ≤ t.faces)
    (who : Roller) {t : Tray} (hkeep : t.log.failures = fun _ => none) :
    evaluate streamed.traced MemoryLog.log who e t =
      .ok (e.fill (t.source.source.take e.row.length)) (t.after who e.row) := by
  rw [evaluate_eq hfaces, rollTree_eq e hfaces, rollRow_streamed who e.row hkeep]

theorem evaluations_streamed {e : Expr Throw} (hfaces : ∀ t ∈ e.leaves, 1 ≤ t.faces)
    (whos : List Roller) :
    ∀ {t : Tray}, (t.log.failures = fun _ => none) →
      evaluations e whos t =
        .ok ((blocks e.row.length t.source.source whos.length).map e.fill)
          (whos.foldl (fun t who => Tray.after who e.row t) t) := by
  induction whos with
  | nil => intro t _; rfl
  | cons who whos ih =>
    intro t hkeep
    have hrest := ih (t := t.after who e.row) hkeep
    rw [evaluations, List.mapM_cons, run_of_ok (evaluate_streamed hfaces who hkeep)]
    rw [evaluations] at hrest
    rw [run_of_ok hrest, List.length_cons, blocks_succ]
    rfl

/-- What a number of evaluations leaves on the table. -/
theorem foldl_after (row : List Int) (whos : List Roller) :
    ∀ t : Tray, whos.foldl (fun t who => Tray.after who row t) t =
      { source := ⟨t.source.source.drop (whos.length * row.length),
          (whos.flatMap fun _ => row.map request).reverse ++ t.source.requests⟩
        log := { t.log with
          attempts := t.log.attempts + whos.length * row.length
          records := t.log.records ++ (List.zipWith (fun who => List.zipWith who.recordOf row) whos
            (blocks row.length t.source.source whos.length)).flatten }
        unrecorded := t.unrecorded } := by
  induction whos with
  | nil => intro t; simp [blocks]
  | cons who whos ih =>
    intro t
    rw [List.foldl_cons, ih, List.length_cons, blocks_succ]
    simp [Tray.after, Stream'.drop_drop, Nat.succ_mul, Nat.add_comm, Nat.add_assoc]

/-! ## Bounds -/

/-- Every number of a stream lies within the bounds of the request that it answers. -/
def Honours (requests : List (Int × Int)) (s : Stream' Int) : Prop :=
  ∀ p request, requests[p]? = some request → request.1 ≤ s.get p ∧ s.get p ≤ request.2

theorem honours_append {xs ys : List (Int × Int)} {s : Stream' Int} (h : Honours (xs ++ ys) s) :
    Honours xs s ∧ Honours ys (s.drop xs.length) := by
  constructor
  · intro p request hp
    have hlt : p < xs.length := (List.getElem?_eq_some_iff.mp hp).1
    exact h p request (by rw [List.getElem?_append_left hlt, hp])
  · intro p request hp
    have hpos : (xs ++ ys)[p + xs.length]? = some request := by
      rw [List.getElem?_append_right (by omega), Nat.add_sub_cancel, hp]
    exact h _ request hpos

theorem recordOf_bounds {who : Roller} {row : List Int} {s : Stream' Int}
    (h : Honours (row.map request) s) :
    ∀ r ∈ List.zipWith who.recordOf row (s.take row.length),
      1 ≤ r.result ∧ r.result ≤ r.sides := by
  intro r hr
  obtain ⟨p, hp, rfl⟩ := List.mem_iff_getElem.mp hr
  rw [List.length_zipWith, Stream'.length_take, Nat.min_self] at hp
  rw [List.getElem_zipWith, Stream'.take_get]
  exact h p (request row[p]) (by simp [hp])

theorem records_bounds {row : List Int} (whos : List Roller) :
    ∀ {s : Stream' Int}, Honours (whos.flatMap fun _ => row.map request) s →
      ∀ r ∈ (List.zipWith (fun who => List.zipWith who.recordOf row) whos
        (blocks row.length s whos.length)).flatten, 1 ≤ r.result ∧ r.result ≤ r.sides := by
  induction whos with
  | nil => simp
  | cons who whos ih =>
    intro s h r hr
    obtain ⟨hfirst, hrest⟩ := honours_append h
    rw [List.length_map] at hrest
    rw [List.length_cons, blocks_succ, List.zipWith_cons_cons, List.flatten_cons] at hr
    rcases List.mem_append.mp hr with hr | hr
    · exact recordOf_bounds hfirst r hr
    · exact ih hrest r hr

/-- **Evaluations match the tree die by die.** For a tree whose dice all have faces, any
number of evaluations succeed. The `i`-th result has the tree's shape, operators and numbers,
as many values at each leaf as the leaf asks for, and the `i`-th block of the stream in order
from left to right. For every die one request is made and one record kept, in that order. -/
theorem evaluations_match_tree (e : Expr Throw) (hfaces : ∀ t ∈ e.leaves, 1 ≤ t.faces)
    (whos : List Roller) (s : Stream' Int) (requests : List (Int × Int)) (attempts : Nat)
    (records : List RollRecord) (unrecorded : List String) :
    ∃ trees after, evaluations e whos ⟨⟨s, requests⟩, { attempts, records }, unrecorded⟩ =
        .ok trees after ∧
      trees.length = whos.length ∧
      (∀ i r, trees[i]? = some r → r.map List.length = e.map Throw.number ∧
        r.leaves.flatten = (s.drop (i * e.row.length)).take e.row.length) ∧
      after.source.source = s.drop (whos.length * e.row.length) ∧
      after.source.requests.reverse =
        requests.reverse ++ whos.flatMap (fun _ => e.row.map request) ∧
      after.log.records = records ++ (List.zipWith (fun who => List.zipWith who.recordOf e.row)
        whos (blocks e.row.length s whos.length)).flatten ∧
      after.unrecorded = unrecorded ∧
      (Honours (whos.flatMap fun _ => e.row.map request) s →
        ∀ r ∈ after.log.records.drop records.length, 1 ≤ r.result ∧ r.result ≤ r.sides) := by
  have hrun := evaluations_streamed hfaces whos
    (t := ⟨⟨s, requests⟩, { attempts, records }, unrecorded⟩) rfl
  rw [foldl_after] at hrun
  refine ⟨_, _, hrun, by simp [blocks], fun i r hr => ?_, rfl, by simp, rfl, rfl, fun h r hr => ?_⟩
  · simp only [blocks, List.map_map, List.getElem?_map, Option.map_eq_some_iff] at hr
    obtain ⟨j, hj, rfl⟩ := hr
    obtain ⟨hi, rfl⟩ := List.getElem?_eq_some_iff.mp hj
    rw [List.getElem_range hi]
    exact fill_spec e (Stream'.length_take _ _)
  · rw [List.drop_left] at hr
    exact records_bounds whos h r hr

/-- Two rollers, one after the other, roll a tree with dice on both sides. -/
theorem evaluations_match_tree_twice :
    let e : Expr Throw := .binary (.dice ⟨2, 6⟩) .mul (.unary .minus (.dice ⟨1, 20⟩))
    let whos : List Roller := [⟨7, ⟨2024, 5, 1, 12, 0, 0, 0, some 0⟩⟩,
      ⟨8, ⟨2024, 5, 1, 12, 0, 1, 0, some 0⟩⟩]
    (∀ t ∈ e.leaves, 1 ≤ t.faces) ∧
    ∃ trees after, evaluations e whos ⟨⟨Stream'.iterate (· + 1) 1, []⟩, {}, []⟩ =
        .ok trees after ∧
      trees.length = 2 ∧ after.source.requests.reverse =
        [(1, 6), (1, 6), (1, 20), (1, 6), (1, 6), (1, 20)] := by
  intro e whos
  have hfaces : ∀ t ∈ e.leaves, 1 ≤ t.faces := by simp [e, Expr.leaves]
  obtain ⟨trees, after, hrun, hlength, -, -, hrequests, -⟩ :=
    evaluations_match_tree e hfaces whos (Stream'.iterate (· + 1) 1) [] 0 [] []
  exact ⟨hfaces, trees, after, hrun, hlength, hrequests⟩

end DiceLedger
