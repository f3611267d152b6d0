import DiceLedger.Proofs.Text.Fence
import Mathlib.Data.List.Basic

/-!
# Where a code block is closed

A code block is opened by a run of backticks, and closed by the next run of just as many. The
backticks of a text are kept apart from each other and from the delimiters, so each of them is a
run of its own. The delimiter of a block that stands on its own is longer than any such run, so
the block is closed at its end. Within a line the delimiter is a single backtick, too, and there
the first one of the text closes the block. What a client shows beyond that is not described.
-/
namespace DiceLedger.Text.Fence

/-- A run of `n` backticks in a text, as long as it goes, with what stands before and behind it. -/
structure IsTickRun (cs before : List Char) (n : Nat) (after : List Char) : Prop where
  whole : cs = before ++ List.replicate n tick ++ after
  pos : 0 < n
  start : before.getLast? ≠ some tick
  stop : after.head? ≠ some tick

/-- A text begins with a code block of `n` backticks. It shows `body`, up to the first run that is
as long as the one that opens it, and `rest` is left behind. -/
structure IsBlock (n : Nat) (cs body rest : List Char) : Prop where
  opened : IsTickRun cs [] n (body ++ List.replicate n tick ++ rest)
  closed : IsTickRun cs (List.replicate n tick ++ body) n rest
  first : ∀ before after, IsTickRun cs before n after →
    before = [] ∨ List.replicate n tick ++ body <+: before

/-! ## Blocks and runs -/

/-- A text has no two blocks at its start. -/
theorem IsBlock.unique {n : Nat} {cs body rest body' rest' : List Char}
    (h : IsBlock n cs body rest) (h' : IsBlock n cs body' rest') : body = body' ∧ rest = rest' := by
  have hopening (xs : List Char) : List.replicate n tick ++ xs ≠ [] := by
    have hpos := h.opened.pos
    simp [Nat.ne_of_gt hpos]
  have hle : List.replicate n tick ++ body <+: List.replicate n tick ++ body' :=
    (h.first _ _ h'.closed).resolve_left (hopening body')
  have hge : List.replicate n tick ++ body' <+: List.replicate n tick ++ body :=
    (h'.first _ _ h.closed).resolve_left (hopening body)
  obtain rfl : body = body' :=
    List.append_cancel_left (hle.eq_of_length_le hge.length_le)
  exact ⟨rfl, List.append_cancel_left (h.closed.whole.symm.trans h'.closed.whole)⟩

/-- A start of a text that begins with backticks has all of them, unless it ends in one. -/
theorem ticks_prefix_of {n : Nat} {cs rest : List Char}
    (hbegins : cs <+: List.replicate n tick ++ rest) (hne : cs ≠ [])
    (hlast : cs.getLast? ≠ some tick) : List.replicate n tick <+: cs := by
  rcases List.prefix_or_prefix_of_prefix hbegins (List.prefix_append _ _) with hwithin | hbeyond
  · obtain ⟨m, -, rfl⟩ := List.sublist_replicate_iff.mp hwithin.sublist
    have hm : m ≠ 0 := by
      rintro rfl
      exact hne rfl
    rw [List.getLast?_replicate, if_neg hm] at hlast
    exact absurd rfl hlast
  · exact hbeyond

/-- A run that is as long as the delimiters is the first of them, or lies between them, or no
earlier than the second. -/
theorem IsTickRun.cases_of_delimited {n : Nat} {body rest before after : List Char}
    (h : IsTickRun (List.replicate n tick ++ body ++ List.replicate n tick ++ rest) before n after)
    (hlast : body.getLast? ≠ some tick) :
    before = [] ∨ (∃ front back, IsTickRun body front n back) ∨
      List.replicate n tick ++ body <+: before := by
  by_cases hne : before = []
  · exact .inl hne
  -- both the run and the second delimiter stand behind the first delimiter
  have hwhole := h.whole
  rw [List.append_assoc, List.append_assoc, List.append_assoc] at hwhole
  obtain ⟨front, rfl⟩ := ticks_prefix_of ⟨_, hwhole.symm⟩ hne h.start
  rw [List.append_assoc, List.append_cancel_left_eq] at hwhole
  refine .inr ?_
  rcases List.append_eq_append_iff.mp hwhole with ⟨mid, rfl, -⟩ | ⟨mid, hbody, hmid⟩
  · exact .inr ⟨mid, List.append_assoc _ _ _⟩
  · by_cases hempty : mid = []
    · rw [hempty, List.append_nil] at hbody
      exact .inr (hbody ▸ List.prefix_rfl)
    · have hmidLast : mid.getLast? ≠ some tick := by
        rwa [hbody, List.getLast?_append_of_ne_nil _ hempty] at hlast
      obtain ⟨back, rfl⟩ := ticks_prefix_of ⟨_, hmid.symm⟩ hempty hmidLast
      rw [List.append_assoc, List.append_cancel_left_eq] at hmid
      refine .inl ⟨front, back, by rw [hbody, List.append_assoc], h.pos, ?_, ?_⟩
      · intro hfront
        exact h.start (by rw [List.getLast?_append, hfront, Option.some_or])
      · intro hback
        exact h.stop (by rw [hmid, List.head?_append, hback, Option.some_or])

/-- What contains no run that is as long as the delimiters is shown between them as a whole. -/
theorem IsContained.isBlock {n : Nat} {body rest : List Char} (h : IsContained body)
    (hpos : 0 < n) (hrest : rest.head? ≠ some tick)
    (hfree : ∀ front back, ¬IsTickRun body front n back) :
    IsBlock n (List.replicate n tick ++ body ++ List.replicate n tick ++ rest) body rest where
  opened := by
    refine ⟨by simp only [List.nil_append, List.append_assoc], hpos, nofun, ?_⟩
    rw [List.append_assoc, List.head?_append_of_ne_nil _ h.nonempty]
    exact h.head
  closed := by
    refine ⟨rfl, hpos, ?_, hrest⟩
    rw [List.getLast?_append_of_ne_nil _ h.nonempty]
    exact h.last
  first := by
    intro before after hrun
    rcases hrun.cases_of_delimited h.last with hfirst | ⟨front, back, hwithin⟩ | hlater
    · exact .inl hfirst
    · exact absurd hwithin (hfree front back)
    · exact .inr hlater

/-- The backticks of a contained text stand alone, and neither first nor last. -/
theorem IsContained.tick_alone {cs before after : List Char} {n : Nat} (h : IsContained cs)
    (hrun : IsTickRun cs before n after) : n = 1 ∧ before ≠ [] ∧ after ≠ [] := by
  have hwhole := hrun.whole
  have hone : n = 1 := by
    by_contra hmore
    obtain ⟨m, rfl⟩ : ∃ m, n = m + 2 := ⟨n - 2, by have := hrun.pos; omega⟩
    refine h.apart ⟨before, List.replicate m tick ++ after, ?_⟩
    rw [hwhole, List.replicate_succ, List.replicate_succ]
    simp only [List.append_assoc, List.cons_append, List.nil_append]
  subst hone
  refine ⟨rfl, ?_, ?_⟩
  · rintro rfl
    exact h.head (by rw [hwhole]; rfl)
  · rintro rfl
    exact h.last (by rw [hwhole, List.append_nil]; exact List.getLast?_concat)

/-! ## Blocks around a text -/

theorem delimiter_eq (size : Size) :
    size.delimiter = List.replicate size.delimiter.length tick := by
  cases size <;> rfl

theorem spaced_append (xs ys : List Char) : spaced (xs ++ ys) = spaced xs ++ spaced ys :=
  List.flatMap_append

/-- A backtick of the text, with its space behind it, between what is shown before and behind. -/
theorem inner_append_tick (front back : List Char) :
    inner (front ++ tick :: back) = inner front ++ tick :: invisible :: spaced back := by
  unfold inner
  rw [spaced_append, spaced_tick]
  cases spaced front with
  | nil => rfl
  | cons c rest =>
    rw [List.cons_append]
    dsimp only
    split <;> rfl

theorem head?_invisible (cs : List Char) : (invisible :: cs).head? ≠ some tick := by
  rw [List.head?_cons, ne_eq, Option.some_inj]
  exact invisible_ne_tick

theorem isTickRun_inner (front back : List Char) :
    IsTickRun (inner (front ++ tick :: back)) (inner front) 1 (invisible :: spaced back) where
  whole := by
    rw [inner_append_tick, List.append_assoc]
    rfl
  pos := Nat.one_pos
  start := (isContained_inner front).last
  stop := head?_invisible _

theorem tick_mem_of_isTickRun_inner {cs before after : List Char} {n : Nat}
    (h : IsTickRun (inner cs) before n after) : tick ∈ cs := by
  have hmem : tick ∈ inner cs := by
    rw [h.whole]
    simp [Nat.ne_of_gt h.pos]
  exact (mem_inner hmem).resolve_left invisible_ne_tick.symm

/-- A run that is as long as the delimiter is a backtick of the text, within a line. -/
theorem not_isTickRun_inner_iff {size : Size} {cs : List Char} :
    (∀ before after, ¬IsTickRun (inner cs) before size.delimiter.length after) ↔
      size = .block ∨ tick ∉ cs := by
  constructor
  · intro hfree
    cases size with
    | block => exact .inl rfl
    | line =>
      refine .inr fun htick => ?_
      obtain ⟨front, back, rfl⟩ := List.mem_iff_append.mp htick
      exact hfree _ _ (isTickRun_inner front back)
  · rintro hfits before after hrun
    rcases hfits with rfl | htick
    · exact absurd ((isContained_inner cs).tick_alone hrun).1 (by decide)
    · exact htick (tick_mem_of_isTickRun_inner hrun)

theorem isBlock_inner {size : Size} {cs : List Char} (h : size = .block ∨ tick ∉ cs)
    (rest : List Char) (hrest : rest.head? ≠ some tick) :
    IsBlock size.delimiter.length (size.delimiter ++ inner cs ++ size.delimiter ++ rest)
      (inner cs) rest := by
  have hpos : 0 < size.delimiter.length := by cases size <;> decide
  have hblock := (isContained_inner cs).isBlock hpos hrest (not_isTickRun_inner_iff.mpr h)
  rwa [← delimiter_eq] at hblock

/-- Within a line, the first backtick of a text closes the block in which it stands. -/
theorem isBlock_line {front : List Char} (h : tick ∉ front) (back : List Char) :
    IsBlock 1 (Size.line.delimiter ++ inner (front ++ tick :: back) ++ Size.line.delimiter)
      (inner front) (invisible :: spaced back ++ [tick]) := by
  have hfits : Size.line = .block ∨ tick ∉ front := .inr h
  have hblock := isBlock_inner hfits (invisible :: spaced back ++ [tick]) (head?_invisible _)
  have hwhole : Size.line.delimiter ++ inner (front ++ tick :: back) ++ Size.line.delimiter =
      Size.line.delimiter ++ inner front ++ Size.line.delimiter ++
        (invisible :: spaced back ++ [tick]) := by
    rw [inner_append_tick]
    simp only [Size.delimiter, List.append_assoc, List.cons_append, List.nil_append]
  rw [hwhole]
  exact hblock

/-- **A block on its own is closed at its end, and one within a line at the first backtick of its
text.** Whatever the text is, what is shown of it stands between two delimiters, in which each of
its backticks is a run of its own that touches neither. The block is closed at its end, and no
run between is as long as the delimiter, unless the delimiter is a single backtick and the text
has one. Then the block shows what is before the first of them, and the rest is left outside. -/
theorem closed_at_end_iff (size : Size) (text : String) :
    let shown := inner text.toList
    let whole := (wrap size text).toList
    let k := size.delimiter.length
    whole = size.delimiter ++ shown ++ size.delimiter ∧
    (∀ before n after, IsTickRun shown before n after → n = 1 ∧ before ≠ [] ∧ after ≠ []) ∧
    ((∀ before after, ¬IsTickRun shown before k after) ↔ size = .block ∨ tick ∉ text.toList) ∧
    (IsBlock k whole shown [] ↔ size = .block ∨ tick ∉ text.toList) ∧
    ∀ front back, size = .line → text.toList = front ++ tick :: back → tick ∉ front →
      IsBlock k whole (inner front) (invisible :: spaced back ++ [tick]) := by
  intro shown whole k
  have hwhole : whole = size.delimiter ++ shown ++ size.delimiter := String.toList_ofList
  have hearly : ∀ front back, size = .line → text.toList = front ++ tick :: back →
      tick ∉ front → IsBlock k whole (inner front) (invisible :: spaced back ++ [tick]) := by
    rintro front back rfl htext hfront
    have hshown : shown = inner (front ++ tick :: back) := congrArg inner htext
    rw [hwhole, hshown]
    exact isBlock_line hfront back
  refine ⟨hwhole, fun _ _ _ => (isContained_inner _).tick_alone, not_isTickRun_inner_iff, ?_, hearly⟩
  constructor
  · intro hend
    by_contra hneither
    rw [not_or, not_not] at hneither
    have hline : size = .line := by
      cases size with
      | line => rfl
      | block => exact absurd rfl hneither.1
    obtain ⟨front, back, htext, hfront⟩ := List.eq_append_cons_of_mem hneither.2
    exact absurd (hend.unique (hearly front back hline htext hfront)).2 nofun
  · intro h
    have hblock := isBlock_inner h [] nofun
    rwa [List.append_nil, ← hwhole] at hblock

/-- A backtick within a line closes its block, in spite of the invisible space behind it. -/
theorem line_closed_early :
    let whole := (wrap .line "a`b").toList
    wrap .line "a`b" = "`a`\u200bb`" ∧
      IsTickRun (inner "a`b".toList) ['a'] Size.line.delimiter.length [invisible, 'b'] ∧
      IsBlock 1 whole ['a'] [invisible, 'b', tick] ∧
      ¬IsBlock 1 whole (inner "a`b".toList) [] := by
  intro whole
  have hfront : tick ∉ ['a'] := by decide
  have hearly : IsBlock 1 whole ['a'] [invisible, 'b', tick] := isBlock_line hfront ['b']
  refine ⟨by decide, isTickRun_inner ['a'] ['b'], hearly, fun hend => ?_⟩
  exact absurd (hend.unique hearly).2 nofun

end DiceLedger.Text.Fence
