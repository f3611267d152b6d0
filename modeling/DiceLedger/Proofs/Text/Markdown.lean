import DiceLedger.Proofs.Text.Digits
import DiceLedger.Text.Markdown

/-!
# Markup in a display

Of the characters that the display of a roll is made of only two can be markup: the asterisk
anywhere, and the dash at the start of the text, where it would begin a list. A display has one
line, and it has no parentheses and no letters, so nothing in it is a link, a heading or a
quotation.
-/
namespace DiceLedger.Text.Markdown

/-- The characters of displays. -/
def displayChars : List Char := digits ++ "[], +-*/%".toList

/-- The text with a backslash before each asterisk. -/
def starred (cs : List Char) : List Char := cs.flatMap fun c => if c = '*' then ['\\', c] else [c]

/-- The text with a backslash before each asterisk and before a dash at its start. -/
def starredLine : List Char → List Char
  | '-' :: cs => '\\' :: '-' :: starred cs
  | cs => starred cs

theorem starred_star (cs : List Char) : starred ('*' :: cs) = '\\' :: '*' :: starred cs := rfl

theorem starred_cons {c : Char} (h : c ≠ '*') (cs : List Char) :
    starred (c :: cs) = c :: starred cs := by
  rw [starred, List.flatMap_cons, if_neg h]
  rfl

theorem starredLine_of_ne {c : Char} (h : c ≠ '-') (cs : List Char) :
    starredLine (c :: cs) = starred (c :: cs) := by
  unfold starredLine
  split
  · next heq => exact absurd (List.cons.inj heq).1 h
  · rfl

/-! ## What is not markup -/

theorem bracketed?_of_ne {c : Char} (h : c ≠ '<') (cs : List Char) :
    bracketed? (c :: cs) = none := by
  unfold bracketed?
  split
  · next heq => exact absurd (List.cons.inj heq).1 h
  · rfl

theorem after?_of_ne {c d : Char} (h : d ≠ c) (start cs : List Char) :
    after? (d :: start) (c :: cs) = none := by
  have hne : (d == c) = false := by simpa using h
  rw [after?, List.isPrefixOf, hne, Bool.false_and, if_neg Bool.false_ne_true]

theorem bare?_of_ne {c : Char} (hh : c ≠ 'h') (hs : c ≠ 's') (cs : List Char) :
    bare? (c :: cs) = none := by
  have hhttps : after? "https://".toList (c :: cs) = none := after?_of_ne (Ne.symm hh) _ cs
  have hhttp : after? "http://".toList (c :: cs) = none := after?_of_ne (Ne.symm hh) _ cs
  have hsteam : after? "steam://".toList (c :: cs) = none := after?_of_ne (Ne.symm hs) _ cs
  simp only [bare?, List.findSome?_cons, List.findSome?_nil, hhttps, hhttp, hsteam,
    Option.bind_none]

theorem quotation?_of_ne {c : Char} (h : c ≠ '>') (cs : List Char) :
    quotation? (c :: cs) = none := by
  unfold quotation?
  split
  · next heq => exact absurd (List.cons.inj heq).1 h
  · next heq => exact absurd (List.cons.inj heq).1 h
  · rfl

theorem heading?_of_ne {c : Char} (h : c ≠ '#') (cs : List Char) : heading? (c :: cs) = none := by
  have hnone : (c == '#') = false := by simpa using h
  simp [heading?, hnone]

theorem item?_of_ne {c : Char} (hblank : isBlank c = false) (h : c ≠ '-') (cs : List Char) :
    item? (c :: cs) = none := by
  have htake : (c :: cs).takeWhile isBlank = [] := by
    rw [List.takeWhile_cons_of_neg (by simp [hblank])]
  unfold item?
  rw [htake]
  dsimp only [List.length_nil, List.drop_zero]
  split
  · next heq => exact absurd (List.cons.inj heq).1 h
  · rfl

theorem item?_dash (cs : List Char) : item? ('-' :: cs) = some 1 := by
  have htake : ('-' :: cs).takeWhile isBlank = [] := by
    rw [List.takeWhile_cons_of_neg (by decide)]
  rw [item?, htake]
  rfl

/-- A labelled link has a parenthesis behind its label. -/
theorem labelled?_of_not_mem {c : Char} {cs : List Char} (h : '(' ∉ cs) :
    labelled? (c :: cs) = none := by
  unfold labelled?
  split
  · next rest heq =>
    obtain rfl := (List.cons.inj heq).2
    dsimp only
    rw [if_neg]
    intro hlabel
    have hpair := List.contains_iff_mem.mp hlabel
    have hparen := List.mem_of_mem_drop (List.of_mem_zip hpair).2
    have hupTo := List.mem_of_mem_drop
      ((List.dropLast_sublist _).subset ((List.dropLast_sublist _).subset hparen))
    have hdropped := List.mem_reverse.mp hupTo
    have hline := List.mem_reverse.mp ((List.dropWhile_suffix _).subset hdropped)
    exact h ((List.takeWhile_prefix _).subset hline)
  · rfl

/-! ## Characters of an escaped text -/

/-- An escaped text has no characters but those of the text and backslashes. -/
theorem mem_escapeFrom {cs : List Char} {c : Char} :
    ∀ {lineStart : Bool} {skip : Nat}, c ∈ escapeFrom lineStart skip cs →
      c = '\\' ∨ c ∈ cs := by
  induction cs with
  | nil => exact fun h => absurd h List.not_mem_nil
  | cons d cs ih =>
    have hrest {lineStart : Bool} {skip : Nat}
        (h : c ∈ d :: escapeFrom lineStart skip cs) : c = '\\' ∨ c ∈ d :: cs := by
      rcases List.mem_cons.mp h with rfl | h
      · exact .inr List.mem_cons_self
      · exact (ih h).imp_right (List.mem_cons_of_mem d)
    intro lineStart skip h
    cases skip with
    | succ skip => exact hrest h
    | zero =>
      rw [escapeFrom] at h
      split at h
      · exact hrest h
      · exact hrest h
      · rcases List.mem_cons.mp h with rfl | h
        · exact .inl rfl
        · exact hrest h

/-! ## Marks in a display -/

section

variable {c : Char} {cs : List Char}

theorem ne_of_displayed (hc : c ∈ displayChars) {d : Char} (hd : d ∉ displayChars) : c ≠ d :=
  fun he => hd (he ▸ hc)

theorem link?_of_displayed (hc : c ∈ displayChars) :
    (bracketed? (c :: cs)).orElse (fun _ => bare? (c :: cs)) = none := by
  rw [bracketed?_of_ne (ne_of_displayed hc (by decide)),
    bare?_of_ne (ne_of_displayed hc (by decide)) (ne_of_displayed hc (by decide))]
  rfl

theorem isEmphasis_of_displayed (hc : c ∈ displayChars) : isEmphasis c = decide (c = '*') := by
  have hall : ∀ c ∈ displayChars, isEmphasis c = decide (c = '*') := forall_of_all (by decide)
  exact hall c hc

/-- Within a display only the asterisk is markup. -/
theorem mark?_inside (hc : c ∈ displayChars) (hcs : ∀ d ∈ cs, d ∈ displayChars) :
    mark? false (c :: cs) = if c = '*' then some (.markup 1) else none := by
  have hparen : '(' ∉ cs := fun h => absurd (hcs _ h) (by decide)
  simp only [mark?, link?_of_displayed hc, labelled?_of_not_mem hparen, List.head?_cons,
    Option.map_some, Option.getD_some, isEmphasis_of_displayed hc]
  by_cases hstar : c = '*' <;> simp [hstar]

/-- At the start of a display the dash is markup, too. -/
theorem mark?_start (hc : c ∈ displayChars) (hspace : c ≠ ' ')
    (hcs : ∀ d ∈ cs, d ∈ displayChars) :
    mark? true (c :: cs) = if c = '*' ∨ c = '-' then some (.markup 1) else none := by
  have hparen : '(' ∉ cs := fun h => absurd (hcs _ h) (by decide)
  have hblank : isBlank c = false := by
    have hall : ∀ c ∈ displayChars, c = ' ' ∨ isBlank c = false := forall_of_all (by decide)
    exact (hall c hc).resolve_left hspace
  simp only [mark?, link?_of_displayed hc, labelled?_of_not_mem hparen, List.head?_cons,
    Option.map_some, Option.getD_some, isEmphasis_of_displayed hc,
    quotation?_of_ne (ne_of_displayed hc (by decide)), heading?_of_ne (ne_of_displayed hc (by decide))]
  by_cases hstar : c = '*'
  · simp [hstar]
  · by_cases hdash : c = '-'
    · subst hdash
      simp [item?_dash]
    · simp [item?_of_ne hblank hdash, hstar, hdash]

theorem lineEnd_of_displayed (hc : c ∈ displayChars) : (c == '\n') = false := by
  simpa using ne_of_displayed hc (show '\n' ∉ displayChars by decide)

theorem escapeFrom_displayed (h : ∀ c ∈ cs, c ∈ displayChars) :
    escapeFrom false 0 cs = starred cs := by
  induction cs with
  | nil => rfl
  | cons c cs ih =>
    obtain ⟨hc, hcs⟩ := List.forall_mem_cons.mp h
    rw [escapeFrom, mark?_inside hc hcs]
    by_cases hstar : c = '*'
    · subst hstar
      rw [if_pos rfl, starred_star, ← ih hcs]
      rfl
    · rw [if_neg hstar, starred_cons hstar, ← ih hcs]
      dsimp only
      rw [lineEnd_of_displayed hc]

/-- **A display is escaped** by a backslash before each asterisk and before a dash at its start. -/
theorem escape_displayed {text : String} (h : ∀ c ∈ text.toList, c ∈ displayChars)
    (hspace : text.toList.head? ≠ some ' ') :
    (escape text).toList = starredLine text.toList := by
  rw [escape, String.toList_ofList]
  cases htext : text.toList with
  | nil => rfl
  | cons c cs =>
    rw [htext] at h hspace
    obtain ⟨hc, hcs⟩ := List.forall_mem_cons.mp h
    rw [escapeFrom, mark?_start hc (by simpa using hspace) hcs]
    by_cases hstar : c = '*'
    · subst hstar
      rw [if_pos (.inl rfl), starredLine_of_ne (by decide), starred_star,
        ← escapeFrom_displayed hcs]
      rfl
    · by_cases hdash : c = '-'
      · subst hdash
        rw [if_pos (.inr rfl), starredLine, ← escapeFrom_displayed hcs]
        rfl
      · rw [if_neg (not_or.mpr ⟨hstar, hdash⟩), starredLine_of_ne hdash, starred_cons hstar,
          ← escapeFrom_displayed hcs]
        dsimp only
        rw [lineEnd_of_displayed hc]

/-! ## Taking the backslashes out again -/

theorem filter_starred (h : '\\' ∉ cs) : (starred cs).filter (· ≠ '\\') = cs := by
  induction cs with
  | nil => rfl
  | cons c cs ih =>
    rw [List.mem_cons, not_or] at h
    have hc : decide (c ≠ '\\') = true := by simpa using Ne.symm h.1
    by_cases hstar : c = '*'
    · subst hstar
      rw [starred_star, List.filter_cons_of_neg (by decide), List.filter_cons, if_pos hc, ih h.2]
    · rw [starred_cons hstar, List.filter_cons, if_pos hc, ih h.2]

/-- Without its backslashes an escaped text that had none is the text again. -/
theorem filter_starredLine (h : '\\' ∉ cs) : (starredLine cs).filter (· ≠ '\\') = cs := by
  cases cs with
  | nil => rfl
  | cons c cs =>
    by_cases hdash : c = '-'
    · subst hdash
      rw [List.mem_cons, not_or] at h
      rw [starredLine, List.filter_cons_of_neg (by decide), List.filter_cons_of_pos (by decide),
        filter_starred h.2]
    · rw [starredLine_of_ne hdash, filter_starred h]

end

end DiceLedger.Text.Markdown
