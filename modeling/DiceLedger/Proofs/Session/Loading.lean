import DiceLedger.Proofs.Session.Flush
import DiceLedger.Proofs.Session.Sheet
import DiceLedger.Proofs.Text.Integers
import DiceLedger.Proofs.Time.Reading

/-!
# Loading what was written

The rows of records need no quotes, their integers and moments are read back, and the columns
are found by the header. So a session file of a header and rows loads as the records written, but
for what their moments lose.
-/
namespace DiceLedger.Session

open DiceLedger.Text DiceLedger.Time

/-- A record whose row can be read: its integers are not too long, and its time is that of a
calendar. -/
structure IsLegible (r : RollRecord) : Prop where
  roller : Integer.IsWritable r.roller
  result : Integer.IsWritable r.result
  sides : Integer.IsWritable r.sides
  time : r.time.IsValid

/-- A record whose row is read back: its integers are not too long, and its time is that of a
calendar, with an offset of at least a second or none. -/
structure IsWritable (r : RollRecord) : Prop where
  roller : Integer.IsWritable r.roller
  result : Integer.IsWritable r.result
  sides : Integer.IsWritable r.sides
  time : r.time.IsValid
  offset : ∀ n, r.time.offset = some n → n = 0 ∨ 1000000 ≤ n.natAbs

theorem IsWritable.legible {r : RollRecord} (h : IsWritable r) : IsLegible r :=
  ⟨h.roller, h.result, h.sides, h.time⟩

/-- A record as it is read back. -/
def reread (r : RollRecord) : RollRecord := { r with time := r.time.reread }

theorem reread_eq_self_iff {r : RollRecord} : reread r = r ↔ r.time.KeepsOffset := by
  obtain ⟨roller, result, sides, time⟩ := r
  simp [reread, Moment.reread_eq_self_iff]

theorem map_reread_eq_self_iff {rs : List RollRecord} :
    rs.map reread = rs ↔ ∀ r ∈ rs, r.time.KeepsOffset := by
  have hpoint : rs.map reread = rs.map id ↔ ∀ r ∈ rs, reread r = id r := List.map_inj_left
  rw [List.map_id] at hpoint
  exact hpoint.trans (forall₂_congr fun r _ => reread_eq_self_iff)

theorem map_reread_of_isWritable {rs : List RollRecord} (h : ∀ r ∈ rs, IsWritable r) :
    rs.map reread = rs := map_reread_eq_self_iff.mpr fun r hr => (h r hr).offset

theorem isPlain_signedDecimal {n : Int} (h : Integer.IsWritable n) :
    Csv.IsPlain (signedDecimal n) := by
  have hclear : ∀ c ∈ '-' :: digits, Csv.isSpecial c = false := forall_of_all (by decide)
  have hplain : ∀ c ∈ signedDecimal n, Csv.isSpecial c = false :=
    fun c hc => hclear c (mem_signedDecimal hc)
  have hlimit : digitLimit + 1 ≤ Csv.fieldLimit := by decide
  cases n with
  | ofNat n =>
    have hlength := length_decimal_le (by decide : 0 < digitLimit) (n := n) h
    exact ⟨decimal_ne_nil n, hplain, by rw [signedDecimal]; omega⟩
  | negSucc n =>
    have hlength := length_decimal_le (by decide : 0 < digitLimit) (n := n + 1) h
    exact ⟨List.cons_ne_nil _ _, hplain, by rw [signedDecimal, List.length_cons]; omega⟩

theorem isPlain_isoText {m : Moment} (h : m.IsValid) : Csv.IsPlain m.isoText := by
  have hclear : ∀ c ∈ IsoReader.momentChars, Csv.isSpecial c = false := forall_of_all (by decide)
  have hlimit : 42 ≤ Csv.fieldLimit := by decide
  exact ⟨by simp [Moment.isoText], fun c hc => hclear c (IsoReader.isoText_subset m hc),
    (IsoReader.length_isoText_le h).trans hlimit⟩

theorem isPlainRow_header : Csv.IsPlainRow header := by
  refine ⟨by decide, fun f hf => ?_⟩
  have hall : ∀ f ∈ header, f ≠ [] ∧ f.all (Csv.isSpecial · = false) ∧
      f.length ≤ Csv.fieldLimit := forall_of_all (by decide)
  obtain ⟨hne, hclear, hlength⟩ := hall f hf
  exact ⟨hne, forall_of_all hclear, hlength⟩

theorem isPlainRow_row {r : RollRecord} (h : IsLegible r) : Csv.IsPlainRow (row r) := by
  refine ⟨by simp [row], fun f hf => ?_⟩
  simp only [row, List.mem_cons, List.not_mem_nil, or_false] at hf
  rcases hf with rfl | rfl | rfl | rfl
  · exact isPlain_signedDecimal h.roller
  · exact isPlain_signedDecimal h.result
  · exact isPlain_signedDecimal h.sides
  · exact isPlain_isoText h.time

/-- The row of a record is read as the record, whatever session it stands in. -/
theorem record_row (session : String) {r : RollRecord} (h : IsLegible r) :
    record session header (row r) = .ok (reread r) := by
  have hfield (c : Column) (place : Nat) (chars : Csv.Field)
      (hplace : column? header c = some place) (hchars : (row r)[place]? = some chars) :
      field session header (row r) c = .ok (String.ofList chars) := by
    simp only [field, hplace, hchars]
  have huser := hfield .user 0 _ (by decide) rfl
  have hresult := hfield .result 1 _ (by decide) rfl
  have hsides := hfield .sides 2 _ (by decide) rfl
  have htime := hfield .time 3 _ (by decide) rfl
  have hmoment : IsoReader.read (String.ofList r.time.isoText) = .ok r.time.reread :=
    IsoReader.read_iso h.time
  simp only [record, integerField, huser, hresult, hsides, htime,
    Integer.read_signedDecimal h.roller, Integer.read_signedDecimal h.result,
    Integer.read_signedDecimal h.sides, hmoment, bind, Except.bind, mapError_ok]
  rfl

theorem mapM_record (session : String) (rs : List RollRecord) (h : ∀ r ∈ rs, IsLegible r) :
    (rs.map row).mapM (record session header) = .ok (rs.map reread) := by
  have hread : ∀ r ∈ rs, (record session header ∘ row) r = .ok (reread r) :=
    fun r hr => record_row session (h r hr)
  rw [List.mapM_map, mapM_of_ok hread]

theorem isPlainRow_of_written {rs : List RollRecord} (h : ∀ r ∈ rs, IsLegible r) :
    ∀ fields ∈ header :: rs.map row, Csv.IsPlainRow fields :=
  List.forall_mem_cons.mpr ⟨isPlainRow_header,
    List.forall_mem_map.mpr fun r hr => isPlainRow_row (h r hr)⟩

theorem parse_rows (session : String) {rs : List RollRecord} (h : ∀ r ∈ rs, IsLegible r) :
    parse session (rowBytes (header :: rs.map row)) = .ok (rs.map reread) := by
  have hplain := isPlainRow_of_written h
  have hfull : (rs.map row).filter (· ≠ []) = rs.map row :=
    Csv.filter_of_isPlainRow fun fields hfields => hplain fields (List.mem_cons_of_mem _ hfields)
  simp only [parse, rowBytes, Utf8.read_write, Utf8.Reading.lines, Option.isSome_none,
    Bool.false_eq_true, if_false, Csv.read_writeRows _ hplain, hfull, mapM_record session rs h]
  rfl

theorem load_of_read {d : Disk} {directory session : String} {content : ByteArray}
    (h : d.read (Path.join directory session) = .ok content) :
    load d directory session = parse session content := by
  simp only [load, h, mapError_ok]
  rfl

/-- **A session file of a header and rows is loaded** as the records, as they are read back. -/
theorem load_reread {d : Disk} {directory session : String} {rs : List RollRecord}
    (hread : d.read (Path.join directory session) = .ok (rowBytes (header :: rs.map row)))
    (h : ∀ r ∈ rs, IsLegible r) : load d directory session = .ok (rs.map reread) :=
  (load_of_read hread).trans (parse_rows session h)

theorem load_rows {d : Disk} {directory session : String} {rs : List RollRecord}
    (hread : d.read (Path.join directory session) = .ok (rowBytes (header :: rs.map row)))
    (h : ∀ r ∈ rs, IsWritable r) : load d directory session = .ok rs := by
  rw [load_reread hread fun r hr => (h r hr).legible, map_reread_of_isWritable h]

end DiceLedger.Session
