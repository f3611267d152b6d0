import DiceLedger.Proofs.Session.Loading

/-!
# Faults that are not reported

Loading reports what is wrong with a session, save for two things: a row that ends before a
column which the header promises, and a field that is longer than the reader takes. The first
is what a file looks like whose last row was not written to its end.
-/
namespace DiceLedger.Session

open DiceLedger.Text DiceLedger.Time

/-- Is a fault reported as one of the session? -/
def LoadFault.isReported : LoadFault → Bool
  | .unloadable _ _ => true
  | .missing _ => false
  | .overlong => false

/-- The columns that are read before a column. -/
def Column.before : Column → List Column
  | .user => []
  | .result => [.user]
  | .sides => [.user, .result]
  | .time => [.user, .result, .sides]

/-- A row that ends before a column, while those read before it are in order. -/
structure EndsBefore (session : String) (names fields : Csv.Row) (c : Column) : Prop where
  short : ∃ place, column? names c = some place ∧ fields.length ≤ place
  before : ∀ c' ∈ c.before, ∃ n, integerField session names fields c' = .ok n

section

variable {session : String} {names fields : Csv.Row} {c : Column}

theorem field_eq_error {fault : LoadFault} (h : field session names fields c = .error fault) :
    fault.isReported ∨
      fault = .missing c ∧ ∃ place, column? names c = some place ∧ fields.length ≤ place := by
  rw [field] at h
  split at h
  · cases h
    exact .inl rfl
  · next place hplace =>
    split at h
    · next hnone =>
      cases h
      exact .inr ⟨rfl, place, hplace, List.getElem?_eq_none_iff.mp hnone⟩
    · cases h

theorem field_of_short (session : String)
    (h : ∃ place, column? names c = some place ∧ fields.length ≤ place) :
    field session names fields c = .error (.missing c) := by
  obtain ⟨place, hplace, hlength⟩ := h
  simp only [field, hplace, List.getElem?_eq_none hlength]

/-- A field that stands there is read, or why it cannot be read is reported. -/
theorem isReported_of_mapError {ε α : Type} {x : Except ε α} {cause : ε → Cause}
    {fault : LoadFault} (h : x.mapError (.unloadable session <| cause ·) = .error fault) :
    fault.isReported := by
  cases x with
  | error e => cases h; rfl
  | ok a => cases h

theorem integerField_eq_error {fault : LoadFault}
    (h : integerField session names fields c = .error fault) :
    fault.isReported ∨
      fault = .missing c ∧ ∃ place, column? names c = some place ∧ fields.length ≤ place := by
  rw [integerField, bind_eq_error_iff] at h
  obtain h | ⟨text, -, h⟩ := h
  · exact field_eq_error h
  · exact .inl (isReported_of_mapError h)

theorem record_eq_error {fault : LoadFault} (h : record session names fields = .error fault) :
    fault.isReported ∨ ∃ c, fault = .missing c ∧ EndsBefore session names fields c := by
  simp only [record, bind_eq_error_iff] at h
  rcases h with h | ⟨roller, hroller, h | ⟨result, hresult, h | ⟨sides, hsides,
    h | ⟨text, -, h | ⟨time, -, h⟩⟩⟩⟩⟩
  · refine (integerField_eq_error h).imp_right ?_
    rintro ⟨hfault, hshort⟩
    exact ⟨.user, hfault, hshort, by simp [Column.before]⟩
  · refine (integerField_eq_error h).imp_right ?_
    rintro ⟨hfault, hshort⟩
    exact ⟨.result, hfault, hshort, by simp [Column.before, hroller]⟩
  · refine (integerField_eq_error h).imp_right ?_
    rintro ⟨hfault, hshort⟩
    exact ⟨.sides, hfault, hshort, by simp [Column.before, hroller, hresult]⟩
  · refine (field_eq_error h).imp_right ?_
    rintro ⟨hfault, hshort⟩
    exact ⟨.time, hfault, hshort, by simp [Column.before, hroller, hresult, hsides]⟩
  · exact .inl (isReported_of_mapError h)
  · cases h

theorem record_of_endsBefore (h : EndsBefore session names fields c) :
    record session names fields = .error (.missing c) := by
  obtain ⟨hshort, hbefore⟩ := h
  have hfield := field_of_short session hshort
  have hinteger : integerField session names fields c = .error (.missing c) := by
    rw [integerField, hfield]
    rfl
  cases c with
  | user => simp only [record, hinteger, bind, Except.bind]
  | result =>
    obtain ⟨roller, hroller⟩ := hbefore .user (by decide)
    simp only [record, hroller, hinteger, bind, Except.bind]
  | sides =>
    obtain ⟨roller, hroller⟩ := hbefore .user (by decide)
    obtain ⟨result, hresult⟩ := hbefore .result (by decide)
    simp only [record, hroller, hresult, hinteger, bind, Except.bind]
  | time =>
    obtain ⟨roller, hroller⟩ := hbefore .user (by decide)
    obtain ⟨result, hresult⟩ := hbefore .result (by decide)
    obtain ⟨sides, hsides⟩ := hbefore .sides (by decide)
    simp only [record, hroller, hresult, hsides, hfield, bind, Except.bind]

end

/-! ## Files -/

/-- The rows of a file, as far as its bytes can be decoded. -/
def sheet (content : ByteArray) : Csv.Sheet :=
  Csv.read (Utf8.read content).fault.isSome (Utf8.read content).lines

/-- A file that is not reported as faulty but cannot be loaded: its first bad row ends early,
or there is none before a field that is too long. -/
inductive IsUnreported (session : String) (content : ByteArray) : Prop
  | cut {names : Csv.Row} {rows good rest : List Csv.Row} {fields : Csv.Row} {c : Column}
    (hsheet : (sheet content).rows = names :: rows)
    (hrows : rows.filter (· ≠ []) = good ++ fields :: rest)
    (hgood : ∀ g ∈ good, ∃ r, record session names g = .ok r)
    (hends : EndsBefore session names fields c)
  | overlong
    (hrows : ∀ names rows, (sheet content).rows = names :: rows →
      ∀ fields ∈ rows.filter (· ≠ []), ∃ r, record session names fields = .ok r)
    (hlong : (sheet content).overlong = true)

/-- What becomes of the records read when the end of the file is reached. -/
def closing (session : String) (content : ByteArray) (rs : List RollRecord) :
    Except LoadFault (List RollRecord) :=
  if (sheet content).overlong then .error .overlong
  else match (Utf8.read content).fault with
    | some fault => .error (.unloadable session (.bytes fault))
    | none => .ok rs

section

variable {session : String} {content : ByteArray}

theorem parse_of_rows {names : Csv.Row} {rows : List Csv.Row}
    (h : (sheet content).rows = names :: rows) : parse session content =
      (rows.filter (· ≠ [])).mapM (record session names) >>= closing session content := by
  unfold sheet at h
  simp only [parse, h]
  rfl

theorem parse_of_no_rows (h : (sheet content).rows = []) :
    parse session content = closing session content [] := by
  unfold sheet at h
  simp only [parse, h]
  rfl

theorem closing_of_overlong {rs : List RollRecord} (h : (sheet content).overlong = true) :
    closing session content rs = .error .overlong := by
  rw [closing, if_pos h]

theorem overlong_of_closing {rs : List RollRecord} {fault : LoadFault}
    (h : closing session content rs = .error fault) (hfault : fault.isReported = false) :
    (sheet content).overlong = true := by
  rw [closing] at h
  split at h
  · assumption
  · split at h
    · cases h
      cases hfault
    · cases h

theorem parse_of_isUnreported (h : IsUnreported session content) :
    ∃ fault, parse session content = .error fault ∧ fault.isReported = false := by
  cases h with
  | @cut names rows good rest fields c hsheet hrows hgood hends =>
    have hmap : (rows.filter (· ≠ [])).mapM (record session names) = .error (.missing c) :=
      mapM_eq_error_iff.mpr ⟨good, fields, rest, hrows, hgood, record_of_endsBefore hends⟩
    refine ⟨.missing c, ?_, rfl⟩
    rw [parse_of_rows hsheet, hmap]
    rfl
  | overlong hrows hlong =>
    refine ⟨.overlong, ?_, rfl⟩
    cases hsheet : (sheet content).rows with
    | nil => rw [parse_of_no_rows hsheet, closing_of_overlong hlong]
    | cons names rows =>
      obtain ⟨rs, hrs⟩ := exists_mapM_eq_ok_iff.mpr (hrows names rows hsheet)
      rw [parse_of_rows hsheet, hrs]
      exact closing_of_overlong hlong

theorem isUnreported_of_parse {fault : LoadFault} (h : parse session content = .error fault)
    (hfault : fault.isReported = false) : IsUnreported session content := by
  cases hsheet : (sheet content).rows with
  | nil =>
    rw [parse_of_no_rows hsheet] at h
    exact .overlong (by simp [hsheet]) (overlong_of_closing h hfault)
  | cons names rows =>
    rw [parse_of_rows hsheet, bind_eq_error_iff] at h
    obtain hrow | ⟨rs, hrs, hclosing⟩ := h
    · obtain ⟨good, fields, rest, hrows, hgood, hfields⟩ := mapM_eq_error_iff.mp hrow
      obtain hreported | ⟨c, -, hends⟩ := record_eq_error hfields
      · rw [hfault] at hreported
        cases hreported
      · exact .cut hsheet hrows hgood hends
    · refine .overlong ?_ (overlong_of_closing hclosing hfault)
      intro names' rows' hsheet'
      rw [hsheet] at hsheet'
      cases hsheet'
      exact exists_mapM_eq_ok_iff.mp ⟨rs, hrs⟩

end

/-- **Loading reports every fault, unless a row ends early or a field is too long.** -/
theorem load_reports_iff (d : Disk) (directory session : String) :
    ((∃ rs, load d directory session = .ok rs) ∨
      ∃ fault, load d directory session = .error fault ∧ fault.isReported) ↔
    ∀ content, d.read (Path.join directory session) = .ok content →
      ¬ IsUnreported session content := by
  cases hread : d.read (Path.join directory session) with
  | error fault =>
    have hload : load d directory session = .error (.unloadable session (.disk fault)) := by
      simp only [load, hread, mapError_error]
      rfl
    simp [hload, LoadFault.isReported]
  | ok content =>
    rw [load_of_read hread]
    constructor
    · rintro hreports content' ⟨⟩ hbad
      obtain ⟨fault, hfault, hunreported⟩ := parse_of_isUnreported hbad
      simp [hfault, hunreported] at hreports
    · intro hgood
      cases hparse : parse session content with
      | ok rs => exact .inl ⟨rs, rfl⟩
      | error fault =>
        refine .inr ⟨fault, rfl, ?_⟩
        by_contra hunreported
        exact hgood content rfl (isUnreported_of_parse hparse (by simpa using hunreported))

/-! ## A last row that was not written to its end -/

/-- The row of a record up to a column. -/
def openRow (r : RollRecord) (c : Column) : List Char :=
  ",".toList.intercalate (((row r).take c.before.length).map Csv.writeField)

theorem openRow_prefix (r : RollRecord) (c : Column) : openRow r c <+: Csv.writeRow (row r) := by
  cases c <;> simp [openRow, Column.before, row, Csv.writeRow, List.intercalate]

theorem column?_header (c : Column) : column? header c = some c.before.length := by
  cases c <;> decide

theorem before_lt {c c' : Column} (h : c' ∈ c.before) :
    c'.before.length < c.before.length ∧ c' ≠ .time := by
  revert h
  cases c <;> cases c' <;> decide

theorem endsBefore_row (session : String) {r : RollRecord} (h : IsWritable r) (c : Column) :
    EndsBefore session header ((row r).take c.before.length) c := by
  refine ⟨⟨c.before.length, column?_header c, List.length_take_le _ _⟩, fun c' hc' => ?_⟩
  obtain ⟨hplace, htime⟩ := before_lt hc'
  obtain ⟨n, hn, hchars⟩ : ∃ n, Integer.IsWritable n ∧
      (row r)[c'.before.length]? = some (signedDecimal n) := by
    cases c' with
    | user => exact ⟨_, h.roller, rfl⟩
    | result => exact ⟨_, h.result, rfl⟩
    | sides => exact ⟨_, h.sides, rfl⟩
    | time => exact absurd rfl htime
  have hfield : ((row r).take c.before.length)[c'.before.length]? = some (signedDecimal n) := by
    rw [List.getElem?_take_of_lt hplace, hchars]
  refine ⟨n, ?_⟩
  simp only [integerField, field, column?_header, hfield, bind, Except.bind,
    Integer.read_signedDecimal hn, mapError_ok]

/-- **A file cut off in its last row, before a field, is not reported.** -/
theorem load_openRow {d : Disk} {directory session : String} {rs : List RollRecord}
    (h : ∀ r ∈ rs, IsWritable r) {r : RollRecord} (hr : IsWritable r) {c : Column}
    (hc : c ≠ .user) (hread : d.read (Path.join directory session) =
      .ok (rowBytes (header :: rs.map row) ++ Utf8.write (openRow r c))) :
    load d directory session = .error (.missing c) := by
  let fields := (row r).take c.before.length
  have hplain := isPlainRow_of_written fun r hr => (h r hr).legible
  have hfields : Csv.IsPlainRow fields := by
    refine ⟨?_, fun f hf => (isPlainRow_row hr.legible).fields f (List.mem_of_mem_take hf)⟩
    cases c with
    | user => exact absurd rfl hc
    | result => exact List.cons_ne_nil _ _
    | sides => exact List.cons_ne_nil _ _
    | time => exact List.cons_ne_nil _ _
  have hsheet : (sheet (rowBytes (header :: rs.map row) ++ Utf8.write (openRow r c))).rows =
      header :: (rs.map row ++ [fields]) := by
    rw [sheet, rowBytes, ← Utf8.write_append, Utf8.read_write]
    exact congrArg Csv.Sheet.rows (Csv.read_openRow hplain hfields)
  have hfull : (rs.map row ++ [fields]).filter (· ≠ []) = rs.map row ++ [fields] := by
    refine Csv.filter_of_isPlainRow (List.forall_mem_append.mpr ⟨?_, by simpa using hfields⟩)
    exact fun other hother => hplain other (List.mem_cons_of_mem _ hother)
  have hread' : (rs.map row ++ [fields]).mapM (record session header) = .error (.missing c) := by
    refine mapM_eq_error_iff.mpr ⟨rs.map row, fields, [], rfl, ?_,
      record_of_endsBefore (endsBefore_row session hr c)⟩
    exact List.forall_mem_map.mpr fun r hr => ⟨reread r, record_row session (h r hr).legible⟩
  rw [load_of_read hread, parse_of_rows hsheet, hfull, hread']
  rfl

/-- The start of a file of one record, cut off behind its second field. -/
theorem load_unreported_cut :
    let r : RollRecord := ⟨7, 5, 6, ⟨2024, 5, 1, 12, 0, 0, 0, some 0⟩⟩
    let text := "user_id,result,sides,timestamp\r\n7,5".toList
    let name := "2024-05-01_12-00-00.csv"
    let d := (Disk.blank.put ["home", "rolls"] .directory).put ["home", "rolls", name]
      (.file (Utf8.write text))
    text <+: [header, row r].flatMap Csv.writeRow ∧
      ¬((∃ rs, load d "rolls" name = .ok rs) ∨
        ∃ fault, load d "rolls" name = .error fault ∧ fault.isReported) := by
  intro r text name d
  have hr : IsWritable r := ⟨by decide +kernel, by decide +kernel, by decide +kernel, by decide,
    by decide⟩
  have htext : text = [header].flatMap Csv.writeRow ++ openRow r .sides := by decide +kernel
  have hread : d.read (Path.join "rolls" name) =
      .ok (rowBytes (header :: [].map row) ++ Utf8.write (openRow r .sides)) := by
    rw [List.map_nil, rowBytes, ← Utf8.write_append, ← htext]
    exact Disk.read_eq_ok_iff.mpr ⟨["home", "rolls", name], by decide +kernel, by
      simp [d, Disk.content, Disk.find?_put]⟩
  have hload : load d "rolls" name = .error (.missing .sides) :=
    load_openRow (by simp) hr (by decide) hread
  have hstart : text <+: [header, row r].flatMap Csv.writeRow := by
    rw [htext]
    exact (List.prefix_append_right_inj _).mpr (by simpa using openRow_prefix r .sides)
  refine ⟨hstart, ?_⟩
  simp [hload, LoadFault.isReported]

end DiceLedger.Session
