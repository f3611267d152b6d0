import DiceLedger.Text.Fence

/-!
# Nothing breaks out of a code block

Behind each backtick of the text stands an invisible space, so no two of them meet and none is
the last character. A text that would begin with one, or with nothing, begins with such a space.
-/
namespace DiceLedger.Text.Fence

/-- A text that ends no code block, neither by itself nor together with what stands around it. -/
structure IsContained (cs : List Char) : Prop where
  nonempty : cs ≠ []
  head : cs.head? ≠ some tick
  last : cs.getLast? ≠ some tick
  apart : ¬[tick, tick] <:+: cs

theorem invisible_ne_tick : invisible ≠ tick := by decide

theorem spaced_tick (cs : List Char) : spaced (tick :: cs) = tick :: invisible :: spaced cs := rfl

theorem spaced_cons {c : Char} (h : c ≠ tick) (cs : List Char) :
    spaced (c :: cs) = c :: spaced cs := by
  rw [spaced, List.flatMap_cons, if_neg h]
  rfl

theorem not_prefix_of_ne {c : Char} (h : c ≠ tick) (cs : List Char) : ¬[tick, tick] <+: c :: cs := by
  intro hprefix
  exact h (List.cons_prefix_cons.mp hprefix).1.symm

theorem getLast?_spaced (cs : List Char) : (spaced cs).getLast? ≠ some tick := by
  induction cs with
  | nil => exact nofun
  | cons c cs ih =>
    by_cases hc : c = tick
    · subst hc
      rw [spaced_tick, List.getLast?_cons_cons, List.getLast?_cons]
      cases hlast : (spaced cs).getLast? with
      | none => decide
      | some d => simpa [hlast] using ih
    · rw [spaced_cons hc, List.getLast?_cons]
      cases hlast : (spaced cs).getLast? with
      | none => simpa using hc
      | some d => simpa [hlast] using ih

theorem apart_spaced (cs : List Char) : ¬[tick, tick] <:+: spaced cs := by
  induction cs with
  | nil =>
    intro hinfix
    cases List.eq_nil_of_infix_nil hinfix
  | cons c cs ih =>
    by_cases hc : c = tick
    · subst hc
      rw [spaced_tick, List.infix_cons_iff, List.infix_cons_iff, List.cons_prefix_cons]
      rintro (⟨-, hpair⟩ | hpair | hrest)
      · exact invisible_ne_tick (List.cons_prefix_cons.mp hpair).1.symm
      · exact not_prefix_of_ne invisible_ne_tick _ hpair
      · exact ih hrest
    · rw [spaced_cons hc, List.infix_cons_iff]
      rintro (hpair | hrest)
      · exact not_prefix_of_ne hc _ hpair
      · exact ih hrest

/-- **What is put between the delimiters stays there**, whatever the text is. -/
theorem isContained_inner (cs : List Char) : IsContained (inner cs) := by
  have hlast := getLast?_spaced cs
  have hapart := apart_spaced cs
  unfold inner
  cases hspaced : spaced cs with
  | nil => exact ⟨by decide, by decide, by decide, by decide⟩
  | cons c rest =>
    rw [hspaced] at hlast hapart
    dsimp only
    split
    · refine ⟨List.cons_ne_nil _ _, by simpa using invisible_ne_tick, ?_, ?_⟩
      · rwa [List.getLast?_cons_cons]
      · rw [List.infix_cons_iff]
        rintro (hpair | hrest)
        · exact not_prefix_of_ne invisible_ne_tick _ hpair
        · exact hapart hrest
    · next hc => exact ⟨List.cons_ne_nil _ _, by simpa using hc, hlast, hapart⟩

theorem spaced_eq_self {cs : List Char} (h : tick ∉ cs) : spaced cs = cs := by
  induction cs with
  | nil => rfl
  | cons c cs ih =>
    rw [List.mem_cons, not_or] at h
    rw [spaced_cons (Ne.symm h.1), ih h.2]

/-- A text without backticks is shown as it is, unless it is empty. -/
theorem inner_eq_self {cs : List Char} (hfull : cs ≠ []) (h : tick ∉ cs) : inner cs = cs := by
  obtain ⟨c, rest, rfl⟩ := List.exists_cons_of_ne_nil hfull
  have hc : c ≠ tick := fun he => h (he ▸ List.mem_cons_self)
  rw [inner, spaced_eq_self h]
  exact if_neg hc

/-- Nothing is put between the delimiters but the text and invisible spaces. -/
theorem mem_inner {cs : List Char} {c : Char} (h : c ∈ inner cs) :
    c = invisible ∨ c ∈ cs := by
  have hspaced : ∀ c ∈ spaced cs, c = invisible ∨ c ∈ cs := by
    intro c hc
    obtain ⟨d, hd, hc⟩ := List.mem_flatMap.mp hc
    split at hc
    · next htick =>
      rcases List.mem_cons.mp hc with rfl | hc
      · exact .inr (htick ▸ hd)
      · exact .inl (List.mem_singleton.mp hc)
    · exact .inr (List.mem_singleton.mp hc ▸ hd)
  unfold inner at h
  split at h
  · exact .inl (List.mem_singleton.mp h)
  · next d rest hcons =>
    rw [hcons] at hspaced
    split at h
    · rcases List.mem_cons.mp h with rfl | h
      · exact .inl rfl
      · exact hspaced c h
    · exact hspaced c h

theorem wrap_line (text : String) :
    wrap .line text = "`" ++ String.ofList (inner text.toList) ++ "`" := by
  rw [← String.toList_inj, wrap, String.toList_ofList]
  simp [Size.delimiter, tick]

theorem wrap_block (text : String) :
    wrap .block text = "```" ++ String.ofList (inner text.toList) ++ "```" := by
  rw [← String.toList_inj, wrap, String.toList_ofList]
  simp [Size.delimiter, tick]

/-! ## Blocks that are cut off -/

theorem prefix_of_not_mem {α : Type} {c : α} {l xs ys : List α} (hc : c ∉ l)
    (h : l <+: xs ++ c :: ys) : l <+: xs := by
  by_cases hle : l.length ≤ xs.length
  · exact List.prefix_of_prefix_length_le h (List.prefix_append _ _) hle
  · have hfirst : xs ++ [c] <+: l := by
      have hwhole : xs ++ [c] <+: xs ++ c :: ys := ⟨ys, by simp⟩
      refine List.prefix_of_prefix_length_le hwhole h ?_
      simp only [List.length_append, List.length_singleton]
      omega
    exact absurd (hfirst.subset (List.mem_append_right _ List.mem_cons_self)) hc

/-- A part of a text does not reach beyond a character that it does not have. -/
theorem infix_of_not_mem {α : Type} {c : α} {l xs ys : List α} (hc : c ∉ l)
    (h : l <:+: xs ++ c :: ys) : l <:+: xs ∨ l <:+: ys := by
  induction xs with
  | nil =>
    rcases List.infix_cons_iff.mp h with hfirst | hrest
    · have hprefix : l <+: [] := prefix_of_not_mem hc hfirst
      exact .inl hprefix.isInfix
    · exact .inr hrest
  | cons x xs ih =>
    rcases List.infix_cons_iff.mp h with hfirst | hrest
    · have hprefix : l <+: x :: xs := prefix_of_not_mem hc hfirst
      exact .inl hprefix.isInfix
    · exact (ih hrest).imp_left fun hxs => List.infix_cons_iff.mpr (.inr hxs)

/-- Two backticks behind a contained text do not close a block, however the text goes on. -/
theorem IsContained.not_infix_cut {cs : List Char} (h : IsContained cs) :
    ¬Size.block.delimiter <:+: cs ++ [tick, tick] := by
  obtain ⟨front, c, rfl⟩ : ∃ front c, cs = front ++ [c] :=
    ⟨cs.dropLast, cs.getLast h.nonempty, (List.dropLast_concat_getLast h.nonempty).symm⟩
  have hc : c ≠ tick := by
    have hlast := h.last
    rintro rfl
    simp at hlast
  intro hblock
  rw [List.append_assoc, List.singleton_append] at hblock
  have hmem : c ∉ Size.block.delimiter := by simp [Size.delimiter, hc]
  rcases infix_of_not_mem hmem hblock with hfront | htwo
  · refine h.apart (List.IsInfix.trans ?_ (hfront.trans (List.infix_append [] _ _)))
    exact ⟨[], [tick], rfl⟩
  · exact absurd htwo.length_le (by decide)

/-- A block that is cut off anywhere stays open in front of a text without backticks. -/
theorem IsContained.not_infix_take {cs note : List Char} (h : IsContained cs)
    (hnote : tick ∉ note) {n : Nat} (hn : n < cs.length + Size.block.delimiter.length) :
    ¬Size.block.delimiter <:+: (cs ++ Size.block.delimiter).take n ++ note := by
  have hleft : (cs ++ Size.block.delimiter).take n <+: cs ++ [tick, tick] := by
    have hsplit : cs ++ Size.block.delimiter = cs ++ [tick, tick] ++ [tick] := by
      simp [Size.delimiter]
    rw [hsplit, List.take_append_of_le_length]
    · exact List.take_prefix _ _
    · simp only [Size.delimiter, List.length_append, List.length_cons, List.length_nil] at hn ⊢
      omega
  have hopen : ¬Size.block.delimiter <:+: (cs ++ Size.block.delimiter).take n :=
    fun hblock => h.not_infix_cut (hblock.trans hleft.isInfix)
  cases note with
  | nil => rwa [List.append_nil]
  | cons c note =>
    rw [List.mem_cons, not_or] at hnote
    have hc : c ∉ Size.block.delimiter := by simp [Size.delimiter, Ne.symm hnote.1]
    intro hblock
    rcases infix_of_not_mem hc hblock with hfront | hback
    · exact hopen hfront
    · exact hnote.2 (hback.subset List.mem_cons_self)

theorem length_le_spaced (cs : List Char) : cs.length ≤ (spaced cs).length := by
  induction cs with
  | nil => exact Nat.le_refl 0
  | cons c cs ih =>
    by_cases hc : c = tick
    · subst hc
      rw [spaced_tick, List.length_cons, List.length_cons, List.length_cons]
      omega
    · rw [spaced_cons hc, List.length_cons, List.length_cons]
      omega

theorem length_le_inner (cs : List Char) : cs.length ≤ (inner cs).length := by
  have hspaced := length_le_spaced cs
  rw [inner]
  split
  · next hnil =>
    rw [hnil] at hspaced
    exact Nat.le_succ_of_le hspaced
  · next hcons =>
    rw [hcons] at hspaced
    split
    · exact Nat.le_succ_of_le hspaced
    · exact hspaced

end DiceLedger.Text.Fence
