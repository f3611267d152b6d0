import DiceLedger.Session.Csv

/-!
# Rows that need no quotes

Fields without commas, quotes and line ends are written as they are. The reader finds them
again, field by field and row by row.
-/
namespace DiceLedger.Csv

/-- A field that is written as it is and read in full. -/
structure IsPlain (f : Field) : Prop where
  ne_nil : f ≠ []
  clear : ∀ c ∈ f, isSpecial c = false
  length_le : f.length ≤ fieldLimit

theorem IsPlain.writeField {f : Field} (h : IsPlain f) : writeField f = f := by
  have hany : f.any isSpecial = false := by
    rw [List.any_eq_false]
    intro c hc
    simp [h.clear c hc]
  rw [Csv.writeField, hany]
  rfl

namespace Reader

variable {rows : List Row} {fields : List Field}

theorem foldl_plain {cs : List Char} (h : ∀ c ∈ cs, isSpecial c = false) :
    ∀ {chars : List Char} {size : Nat}, size + cs.length ≤ fieldLimit →
      cs.foldl read ⟨rows, fields, chars, size, .plain, false⟩ =
        ⟨rows, fields, cs.reverse ++ chars, size + cs.length, .plain, false⟩ := by
  induction cs with
  | nil => intro chars size _; rfl
  | cons c cs ih =>
    intro chars size hsize
    rw [List.length_cons] at hsize
    have hc := h c List.mem_cons_self
    simp only [isSpecial, Bool.or_eq_false_iff, beq_eq_false_iff_ne] at hc
    obtain ⟨⟨⟨hcomma, -⟩, hreturn⟩, hfeed⟩ := hc
    have hstep : read ⟨rows, fields, chars, size, .plain, false⟩ c =
        ⟨rows, fields, c :: chars, size + 1, .plain, false⟩ := by
      simp [read, add, hcomma, hreturn, hfeed, show size < fieldLimit by omega]
    rw [List.foldl_cons, hstep, ih (fun d hd => h d (List.mem_cons_of_mem c hd)) (by omega),
      List.reverse_cons, List.append_assoc, List.length_cons, Nat.add_assoc, Nat.add_comm 1]
    rfl

/-- A plain field is read at the start of a row and behind a comma. -/
theorem foldl_field {f : Field} (h : IsPlain f) {mode : Mode} (hmode : mode = .row ∨ mode = .field) :
    f.foldl read ⟨rows, fields, [], 0, mode, false⟩ =
      ⟨rows, fields, f.reverse, f.length, .plain, false⟩ := by
  cases f with
  | nil => exact absurd rfl h.ne_nil
  | cons c cs =>
    have hc := h.clear c List.mem_cons_self
    have hlength := h.length_le
    rw [List.length_cons] at hlength
    simp only [isSpecial, Bool.or_eq_false_iff, beq_eq_false_iff_ne] at hc
    obtain ⟨⟨⟨hcomma, hquote⟩, hreturn⟩, hfeed⟩ := hc
    have hstep : read ⟨rows, fields, [], 0, mode, false⟩ c =
        ⟨rows, fields, [c], 1, .plain, false⟩ := by
      rcases hmode with rfl | rfl <;>
        simp [read, startRow, start, add, hcomma, hquote, hreturn, hfeed, fieldLimit]
    rw [List.foldl_cons, hstep,
      foldl_plain (fun d hd => h.clear d (List.mem_cons_of_mem c hd)) (by omega),
      List.reverse_cons, List.length_cons, Nat.add_comm]

/-- The fields of a row without its line end. The last of them is still open. -/
theorem foldl_fields (row : Row) :
    ∀ {f : Field} {fields : List Field} {mode : Mode}, (mode = .row ∨ mode = .field) →
      (∀ g ∈ f :: row, IsPlain g) →
      ∃ r, (",".toList.intercalate ((f :: row).map writeField)).foldl read
          ⟨rows, fields, [], 0, mode, false⟩ = r ∧ r.mode = .plain ∧ r.overlong = false ∧
        r.endField .row = ⟨rows, (f :: row).reverse ++ fields, [], 0, .row, false⟩ := by
  induction row with
  | nil =>
    intro f fields mode hmode h
    have hf := h f List.mem_cons_self
    have htext : ",".toList.intercalate ([f].map writeField) = f := by
      simp [hf.writeField]
    rw [htext, foldl_field hf hmode]
    exact ⟨_, rfl, rfl, rfl, by simp [endField]⟩
  | cons g row ih =>
    intro f fields mode hmode h
    have hf := h f List.mem_cons_self
    have htext : ",".toList.intercalate ((f :: g :: row).map writeField) =
        f ++ ',' :: ",".toList.intercalate ((g :: row).map writeField) := by
      simp [hf.writeField, List.intercalate]
    have hcomma : read ⟨rows, fields, f.reverse, f.length, .plain, false⟩ ',' =
        ⟨rows, f :: fields, [], 0, .field, false⟩ := by
      simp [read, endField]
    rw [htext, List.foldl_append, foldl_field hf hmode, List.foldl_cons, hcomma]
    simpa using ih (.inr rfl) (fun k hk => h k (List.mem_cons_of_mem f hk))

theorem foldl_row {row : Row} {f : Field} {mode : Mode} (hmode : mode = .row ∨ mode = .field)
    (h : ∀ g ∈ f :: row, IsPlain g) :
    (writeRow (f :: row)).foldl read ⟨rows, fields, [], 0, mode, false⟩ =
      ⟨(fields.reverse ++ f :: row) :: rows, [], [], 0, .row, false⟩ := by
  obtain ⟨r, hr, hmode, hfits, hend⟩ := foldl_fields row hmode h
  have hreturn : read r '\r' = (r.endField .row).endRow .lineFeed := by
    simp [read, hmode, hfits, behind]
  rw [writeRow, List.foldl_append, hr, List.foldl_cons, hreturn, hend]
  simp [endRow, read]

end Reader

/-- A row that is written as it is and read back. -/
structure IsPlainRow (row : Row) : Prop where
  ne_nil : row ≠ []
  fields : ∀ f ∈ row, IsPlain f

theorem filter_of_isPlainRow {rows : List Row} (h : ∀ row ∈ rows, IsPlainRow row) :
    rows.filter (· ≠ []) = rows := by
  rw [List.filter_eq_self]
  intro row hrow
  simpa using (h row hrow).ne_nil

theorem foldl_rows (rows : List Row) (h : ∀ row ∈ rows, IsPlainRow row) :
    ∀ {done : List Row}, (rows.flatMap writeRow).foldl Reader.read ⟨done, [], [], 0, .row, false⟩ =
      ⟨rows.reverse ++ done, [], [], 0, .row, false⟩ := by
  induction rows with
  | nil => intro done; rfl
  | cons row rows ih =>
    intro done
    obtain ⟨hne, hfields⟩ := h row List.mem_cons_self
    obtain ⟨f, fs, rfl⟩ := List.exists_cons_of_ne_nil hne
    rw [List.flatMap_cons, List.foldl_append, Reader.foldl_row (.inl rfl) hfields,
      ih fun other hother => h other (List.mem_cons_of_mem _ hother)]
    simp

/-- **Plain rows are read back** as they were written. -/
theorem read_writeRows (rows : List Row) (h : ∀ row ∈ rows, IsPlainRow row) :
    read false (rows.flatMap writeRow) = ⟨rows, false⟩ := by
  have hread : (rows.flatMap writeRow).foldl Reader.read {} = { rows := rows.reverse ++ [] } :=
    foldl_rows rows h
  simp [read, hread, Reader.finish]

/-- The end of the text ends a last row that has no line end. -/
theorem read_openRow {rows : List Row} (h : ∀ row ∈ rows, IsPlainRow row) {row : Row}
    (hrow : IsPlainRow row) :
    read false (rows.flatMap writeRow ++ ",".toList.intercalate (row.map writeField)) =
      ⟨rows ++ [row], false⟩ := by
  have hread : (rows.flatMap writeRow).foldl Reader.read {} = { rows := rows.reverse ++ [] } :=
    foldl_rows rows h
  obtain ⟨f, fs, rfl⟩ := List.exists_cons_of_ne_nil hrow.ne_nil
  obtain ⟨r, hr, hmode, hfits, hend⟩ :=
    @Reader.foldl_fields (rows.reverse ++ []) fs f [] .row (.inl rfl) hrow.fields
  have hfinish : r.finish = (r.endField .row).endRow .row := by
    simp [Reader.finish, hmode, hfits]
  simp only [read, List.foldl_append, hread, hr, Bool.false_eq_true, if_false, hfinish, hend]
  simp [Reader.endRow]

end DiceLedger.Csv
