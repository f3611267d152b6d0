import DiceLedger.Proofs.Session.Landing
import DiceLedger.Proofs.Session.LoadFaults
import DiceLedger.Proofs.Session.ReadBack

/-!
# Rows behind a header, and rows without one

A flush writes rows and no header. Behind a header and whole rows they are read back. In a file
that was not there, which the flush makes without a word, the first of them is taken for the
header: a single row is then not seen at all, and more of them cannot be loaded.
-/
namespace DiceLedger

namespace Csv

/-! ## Texts that end with a row -/

/-- Is this a place between two rows? -/
def Mode.isBetween : Mode → Bool
  | .row | .lineFeed => true
  | .field | .plain | .quoted | .quote => false

/-- Behind this text the reader stands between two rows. -/
def EndsRow (text : List Char) : Prop := (text.foldl Reader.read {}).mode.isBetween

namespace Reader

/-- Between two rows nothing of a row is at hand. -/
def Rests (r : Reader) : Prop := r.mode.isBetween → r.fields = [] ∧ r.chars = [] ∧ r.size = 0

theorem rests_of_mode {r : Reader} (h : r.mode.isBetween = false) : r.Rests := by
  intro hbetween
  rw [h] at hbetween
  cases hbetween

theorem rests_endRow (r : Reader) (mode mode' : Mode) : ((r.endField mode).endRow mode').Rests :=
  fun _ => ⟨rfl, rfl, rfl⟩

theorem rests_add {r : Reader} {mode : Mode} (hr : r.Rests) (c : Char)
    (h : mode.isBetween = false) : (r.add c mode).Rests := by
  rw [add]
  split
  · exact rests_of_mode h
  · exact hr

theorem rests_start {r : Reader} (hr : r.Rests) (c : Char) : (r.start c).Rests := by
  rw [start]
  split
  · exact rests_endRow r .row _
  split
  · exact rests_of_mode rfl
  split
  · exact rests_of_mode rfl
  · exact rests_add hr c rfl

theorem rests_startRow {r : Reader} (hr : r.Rests) (hmode : r.mode.isBetween) (c : Char) :
    (r.startRow c).Rests := by
  rw [startRow]
  split
  · exact fun _ => ⟨rfl, (hr hmode).2⟩
  · exact rests_start hr c

theorem rests_read {r : Reader} (hr : r.Rests) (c : Char) : (r.read c).Rests := by
  rw [read]
  split
  · exact hr
  cases hmode : r.mode with
  | row => exact rests_startRow hr (by rw [hmode]; rfl) c
  | lineFeed =>
    have hbetween : r.mode.isBetween := by rw [hmode]; rfl
    dsimp only
    split
    · exact fun _ => hr hbetween
    · exact rests_startRow hr hbetween c
  | field => exact rests_start hr c
  | plain =>
    dsimp only
    split
    · exact rests_endRow r .row _
    split
    · exact rests_of_mode rfl
    · exact rests_add hr c rfl
  | quoted =>
    dsimp only
    split
    · exact rests_of_mode rfl
    · exact rests_add hr c rfl
  | quote =>
    dsimp only
    split
    · exact rests_add hr c rfl
    split
    · exact rests_endRow r .row _
    split
    · exact rests_of_mode rfl
    · exact rests_add hr c rfl

theorem rests_foldl (text : List Char) : ∀ {r : Reader}, r.Rests → (text.foldl read r).Rests := by
  induction text with
  | nil => exact fun hr => hr
  | cons c cs ih => exact fun hr => ih (rests_read hr c)

/-- A line feed may follow a carriage return; any other character is read as before a row. -/
theorem read_lineFeed {rows : List Row} {c : Char} (h : c ≠ '\n') :
    read ⟨rows, [], [], 0, .lineFeed, false⟩ c = read ⟨rows, [], [], 0, .row, false⟩ c := by
  simp [read, h, startRow, start, add, endField, endRow, fieldLimit]

end Reader

/-- A plain row begins with a character of its first field. -/
theorem writeRow_eq_cons {row : Row} (h : IsPlainRow row) :
    ∃ c cs, writeRow row = c :: cs ∧ c ≠ '\n' := by
  obtain ⟨hne, hfields⟩ := h
  obtain ⟨f, fs, rfl⟩ := List.exists_cons_of_ne_nil hne
  have hf := hfields f List.mem_cons_self
  obtain ⟨c, cs, rfl⟩ := List.exists_cons_of_ne_nil hf.ne_nil
  have hfeed : c ≠ '\n' := by
    rintro rfl
    cases hf.clear '\n' List.mem_cons_self
  cases fs with
  | nil => exact ⟨c, cs ++ ['\r', '\n'], by simp [writeRow, hf.writeField], hfeed⟩
  | cons g fs => exact ⟨c, _, by simp [writeRow, hf.writeField, List.intercalate]; rfl, hfeed⟩

/-- Rows are read between two rows as they are at the start of a text. -/
theorem foldl_rows_between {rows : List Row} (h : ∀ row ∈ rows, IsPlainRow row) {r : Reader}
    (hr : r.Rests) (hbetween : r.mode.isBetween) (hfits : r.overlong = false) :
    ∃ last, (rows.flatMap writeRow).foldl Reader.read r = last ∧
      last.rows = rows.reverse ++ r.rows ∧ last.mode.isBetween ∧ last.overlong = false := by
  obtain ⟨hfields, hchars, hsize⟩ := hr hbetween
  obtain ⟨done, fields, chars, size, mode, overlong⟩ := r
  dsimp only at hfields hchars hsize hfits hbetween
  subst hfields hchars hsize hfits
  cases rows with
  | nil => exact ⟨_, rfl, rfl, hbetween, rfl⟩
  | cons row rows =>
    obtain ⟨c, cs, hrow, hc⟩ := writeRow_eq_cons (h row List.mem_cons_self)
    have hstart : ((row :: rows).flatMap writeRow).foldl Reader.read
        ⟨done, [], [], 0, mode, false⟩ =
          ((row :: rows).flatMap writeRow).foldl Reader.read ⟨done, [], [], 0, .row, false⟩ := by
      cases mode with
      | row => rfl
      | lineFeed =>
        rw [List.flatMap_cons, hrow, List.cons_append, List.foldl_cons, List.foldl_cons,
          Reader.read_lineFeed hc]
      | _ => cases hbetween
    rw [hstart, foldl_rows (row :: rows) h]
    exact ⟨_, rfl, rfl, rfl, rfl⟩

theorem finish_of_between {r : Reader} (h : r.mode.isBetween) : r.finish = r := by
  rw [Reader.finish]
  split
  · rfl
  · cases hmode : r.mode <;> simp_all [Mode.isBetween]

/-- **Rows behind whole rows are read** as they were written. -/
theorem read_continued {text : List Char} (hends : EndsRow text)
    (hfits : (read false text).overlong = false) {rows : List Row}
    (h : ∀ row ∈ rows, IsPlainRow row) :
    read false (text ++ rows.flatMap writeRow) = ⟨(read false text).rows ++ rows, false⟩ := by
  have hstart : (text.foldl Reader.read {}).Rests := Reader.rests_foldl text fun _ => ⟨rfl, rfl, rfl⟩
  simp only [read, Bool.false_eq_true, if_false, finish_of_between hends] at hfits ⊢
  obtain ⟨last, hlast, hrows, hbetween, hlong⟩ := foldl_rows_between h hstart hends hfits
  rw [List.foldl_append, hlast, finish_of_between hbetween, hrows, hlong]
  simp

end Csv

namespace Session

open DiceLedger.Text

section

variable {session : String} {rs : List RollRecord}

theorem sheet_write (text : List Char) : sheet (Utf8.write text) = Csv.read false text := by
  simp only [sheet, Utf8.read_write, Utf8.Reading.lines, Option.isSome_none, Bool.false_eq_true,
    if_false]

theorem closing_write (text : List Char) {rs : List RollRecord} :
    closing session (Utf8.write text) rs =
      if (Csv.read false text).overlong then .error .overlong else .ok rs := by
  simp only [closing, sheet_write, Utf8.read_write]

/-! ## Rows behind a header -/

/-- A file that begins with the header and ends with a row. Its rows may be any. -/
structure WholeSheet (text : List Char) : Prop where
  header : (Csv.read false text).rows.head? = some header
  ends : Csv.EndsRow text

theorem wholeSheet_written {old : List RollRecord} (h : ∀ r ∈ old, IsWritable r) :
    WholeSheet ((header :: old.map row).flatMap Csv.writeRow) := by
  have hplain := isPlainRow_of_written fun r hr => (h r hr).legible
  constructor
  · rw [Csv.read_writeRows _ hplain]
    rfl
  · rw [Csv.EndsRow]
    exact congrArg (fun r : Csv.Reader => r.mode.isBetween = true) (Csv.foldl_rows _ hplain)
      |>.mpr rfl

/-- **Rows behind a header are read back**, after those that stood there. -/
theorem parse_continued {text : List Char} (htext : WholeSheet text) {old : List RollRecord}
    (hold : parse session (Utf8.write text) = .ok old) (h : ∀ r ∈ rs, IsWritable r) :
    parse session (Utf8.write text ++ rowBytes (rs.map row)) = .ok (old ++ rs) := by
  have hplain : ∀ fields ∈ rs.map row, Csv.IsPlainRow fields :=
    List.forall_mem_map.mpr fun r hr => isPlainRow_row (h r hr).legible
  obtain ⟨rows, hrows⟩ := List.head?_eq_some_iff.mp htext.header
  rw [parse_of_rows (by rw [sheet_write, hrows]), bind_eq_ok_iff] at hold
  obtain ⟨read, hread, hclosing⟩ := hold
  rw [closing_write] at hclosing
  split at hclosing
  · cases hclosing
  next hfits =>
  obtain rfl := Except.ok.inj hclosing
  let more := (rs.map row).flatMap Csv.writeRow
  have hsheet : Csv.read false (text ++ more) = ⟨header :: (rows ++ rs.map row), false⟩ := by
    rw [Csv.read_continued htext.ends (by simpa using hfits) hplain, hrows, List.cons_append]
  have hrows' : (sheet (Utf8.write (text ++ more))).rows = header :: (rows ++ rs.map row) := by
    rw [sheet_write, hsheet]
  have hmap : ((rows ++ rs.map row).filter (· ≠ [])).mapM (record session header) =
      .ok (read ++ rs) := by
    rw [List.filter_append, Csv.filter_of_isPlainRow hplain, List.mapM_append, hread,
      mapM_record session rs fun r hr => (h r hr).legible, map_reread_of_isWritable h]
    rfl
  have hclosed : closing session (Utf8.write (text ++ more)) (read ++ rs) = .ok (read ++ rs) := by
    rw [closing_write, hsheet]
    rfl
  rw [rowBytes, ← Utf8.write_append, parse_of_rows hrows', hmap]
  exact hclosed

/-! ## Rows without a header -/

/-- A field without a letter of the column's name is not that name. -/
theorem ne_name_of_not_mem {c : Char} {column : Column} (hc : c ∈ column.name.toList)
    {f : Csv.Field} (h : c ∉ f) : f ≠ column.name.toList := by
  rintro rfl
  exact h hc

theorem not_mem_signedDecimal (n : Int) : 'u' ∉ signedDecimal n :=
  fun h => absurd (mem_signedDecimal h) (by decide)

theorem not_mem_isoText (m : Time.Moment) : 'u' ∉ m.isoText :=
  fun h => absurd (Time.IsoReader.isoText_subset m h) (by decide)

/-- The row of a record names no column for who rolled. -/
theorem column?_row (r : RollRecord) : column? (row r) .user = none := by
  have hu : 'u' ∈ Column.user.name.toList := by decide
  have hinteger (n : Int) : signedDecimal n ≠ Column.user.name.toList :=
    ne_name_of_not_mem hu (not_mem_signedDecimal n)
  have htime : r.time.isoText ≠ Column.user.name.toList :=
    ne_name_of_not_mem hu (not_mem_isoText r.time)
  simp [column?, row, hinteger, htime]

theorem record_unheaded (r : RollRecord) (fields : Csv.Row) :
    record session (row r) fields = .error (.unloadable session (.noColumn .user)) := by
  have hfield : field session (row r) fields .user =
      .error (.unloadable session (.noColumn .user)) := by
    simp only [field, column?_row]
  simp only [record, integerField, hfield, bind, Except.bind]

/-- **Rows without a header are not read back.** The first is taken for the header, and has no
column for who rolled. -/
theorem parse_unheaded (hne : rs ≠ []) (h : ∀ r ∈ rs, IsWritable r) :
    parse session (rowBytes (rs.map row)) =
      if rs.length = 1 then .ok [] else .error (.unloadable session (.noColumn .user)) := by
  have hplain : ∀ fields ∈ rs.map row, Csv.IsPlainRow fields :=
    List.forall_mem_map.mpr fun r hr => isPlainRow_row (h r hr).legible
  obtain ⟨r, rest, rfl⟩ := List.exists_cons_of_ne_nil hne
  have hsheet := Csv.read_writeRows _ hplain
  have hrows : (sheet (rowBytes ((r :: rest).map row))).rows = row r :: rest.map row := by
    rw [rowBytes, sheet_write, hsheet, List.map_cons]
  have hfull : (rest.map row).filter (· ≠ []) = rest.map row :=
    Csv.filter_of_isPlainRow fun fields hfields => hplain fields (List.mem_cons_of_mem _ hfields)
  rw [parse_of_rows hrows, hfull]
  cases rest with
  | nil =>
    rw [List.map_nil, List.mapM_nil, pure_bind, rowBytes, closing_write, hsheet]
    rfl
  | cons next rest =>
    have hmap : ((next :: rest).map row).mapM (record session (row r)) =
        .error (.unloadable session (.noColumn .user)) :=
      mapM_eq_error_iff.mpr ⟨[], row next, rest.map row, rfl, List.forall_mem_nil _, record_unheaded r _⟩
    rw [hmap, if_neg (by simp)]
    rfl

end

/-! ## Loading after a flush -/

section

variable {a b : Archive} {f : String}

theorem outgoing_ne_nil (h : pendingOf f a.log.pending ≠ []) : a.outgoing f ≠ [] := by
  obtain ⟨r, hr⟩ := List.exists_mem_of_ne_nil _ h
  rw [← rowsOf_groups] at hr
  obtain ⟨g, hg, hr⟩ := List.mem_flatMap.mp hr
  obtain ⟨hg, hsession⟩ := List.mem_filter.mp hg
  have htarget : a.target g.1 = a.target f := by rw [of_decide_eq_true hsession]
  refine List.ne_nil_of_mem (a := r) (List.mem_flatMap.mpr ⟨g, ?_, hr⟩)
  exact List.mem_filter.mpr ⟨hg, decide_eq_true htarget⟩

theorem load_headed (hflush : flush a = .ok false b) (hf : pendingOf f a.log.pending ≠ [])
    (hw : ∀ r ∈ a.outgoing f, IsWritable r) {text : List Char} {old : List RollRecord}
    (hread : a.disk.read (a.log.path f) = .ok (Utf8.write text)) (htext : WholeSheet text)
    (hold : load a.disk a.log.directory f = .ok old) :
    load b.disk b.log.directory f = .ok (old ++ a.outgoing f) := by
  have hbytes : a.bytes f = Utf8.write text := Disk.bytes_of_read hread
  rw [load_of_read hread] at hold
  rw [load_of_read (flush_lands hflush hf), hbytes]
  exact parse_continued htext hold hw

theorem load_unheaded (hflush : flush a = .ok false b) (hf : pendingOf f a.log.pending ≠ [])
    (hw : ∀ r ∈ a.outgoing f, IsWritable r) (hnone : a.bytes f = .empty) :
    load b.disk b.log.directory f =
      if (a.outgoing f).length = 1 then .ok [] else .error (.unloadable f (.noColumn .user)) := by
  rw [load_of_read (flush_lands hflush hf), hnone, ByteArray.empty_append]
  exact parse_unheaded (outgoing_ne_nil hf) hw

end

theorem pendingOf_receive (f : String) (log : Log) (rs : List RollRecord) :
    pendingOf f (log.receive rs).pending =
      pendingOf f log.pending ++ if log.current = some f then rs else [] := by
  rw [receive_eq, pendingOf_append, Log.tag]
  cases log.current with
  | none => rfl
  | some session => simp only [pendingOf_marked, Option.some.injEq, eq_comm]

/-- **Which sessions can be read after a flush.** Let records come in, and let a flush then report
no trouble, on any disk. For every session for which records waited, they are now in its file.
If the file could be loaded, with its header first and its last row ended, it is loaded as what it
held before and then these records. If there was no file, or an empty one, nobody has written a
header to it: one record is not seen at all, and more of them make the file unloadable. -/
theorem flush_readable (a : Archive) (came : List RollRecord) (f : String) {b : Archive}
    (hflush : flush (run a (came.map .record)) = .ok false b) :
    let now := run a (came.map .record)
    let waiting := pendingOf f a.log.pending ++ if a.log.current = some f then came else []
    let written := now.outgoing f
    ((∀ p ∈ now.log.pending, p.session ≠ f → a.target p.session ≠ a.target f) →
      written = waiting) ∧
    (waiting ≠ [] → (∀ r ∈ written, IsWritable r) →
      (∀ text old, a.disk.read (a.log.path f) = .ok (Utf8.write text) → WholeSheet text →
        load a.disk a.log.directory f = .ok old →
        load b.disk b.log.directory f = .ok (old ++ written)) ∧
      (a.bytes f = .empty → load b.disk b.log.directory f =
        if written.length = 1 then .ok [] else .error (.unloadable f (.noColumn .user)))) := by
  intro now waiting written
  have hnow : now = { a with log := a.log.receive came } := run_record came a
  have hwaiting : pendingOf f now.log.pending = waiting := by
    rw [hnow]
    exact pendingOf_receive f a.log came
  have hlog : now.log.directory = a.log.directory := by rw [hnow, receive_eq]
  have hdisk : now.disk = a.disk := by rw [hnow]
  have htarget (s : String) : now.target s = a.target s := by
    rw [Archive.target, Archive.target, Log.path, Log.path, hlog, hdisk]
  refine ⟨fun halone => ?_, fun hsome hw => ⟨fun text old hread htext hold => ?_, fun hnone => ?_⟩⟩
  · rw [← hwaiting]
    refine outgoing_eq fun p hp hne => ?_
    rw [htarget, htarget]
    exact halone p hp hne
  · rw [← hwaiting] at hsome
    have hread' : now.disk.read (now.log.path f) = .ok (Utf8.write text) := by
      rw [Log.path, hlog, hdisk]
      exact hread
    have hold' : load now.disk now.log.directory f = .ok old := by
      rw [hlog, hdisk]
      exact hold
    exact load_headed hflush hsome hw hread' htext hold'
  · rw [← hwaiting] at hsome
    refine load_unheaded hflush hsome hw ?_
    rw [Archive.bytes, htarget, hdisk]
    exact hnone

/-- Records are written and read back if their integers and their times are. -/
theorem forall_isWritable {rs : List RollRecord}
    (hintegers : ∀ r ∈ rs, Integer.IsWritable r.roller ∧ Integer.IsWritable r.result ∧
      Integer.IsWritable r.sides)
    (htimes : ∀ r ∈ rs, r.time.IsValid ∧ r.time.offset = some 0) : ∀ r ∈ rs, IsWritable r := by
  intro r hr
  obtain ⟨hroller, hresult, hsides⟩ := hintegers r hr
  obtain ⟨hvalid, hoffset⟩ := htimes r hr
  refine ⟨hroller, hresult, hsides, hvalid, fun n hn => .inl ?_⟩
  rw [hoffset, Option.some.injEq] at hn
  exact hn.symm

/-- Two records behind one that was written before. -/
theorem flush_readable_resumed :
    let now : Time.Moment := ⟨2024, 5, 1, 12, 0, 0, 0, some 0⟩
    let old : RollRecord := ⟨7, 3, 6, now⟩
    let came : List RollRecord := [⟨7, 5, 6, now⟩, ⟨8, 2, 20, now⟩]
    let d := (Disk.blank.put ["home", "rolls"] .directory).put ["home", "rolls", "old.csv"]
      (.file (rowBytes (header :: [old].map row)))
    let a : Archive := ⟨⟨"rolls", some "old.csv", []⟩, d, []⟩
    let flushed := flush (run a (came.map .record))
    flushed = .ok false (final flushed) ∧ WholeSheet ((header :: [old].map row).flatMap Csv.writeRow) ∧
      load a.disk "rolls" "old.csv" = .ok [old] ∧
      load (final flushed).disk (final flushed).log.directory "old.csv" = .ok (old :: came) := by
  intro now old came d a flushed
  have hall : ∀ r ∈ old :: came, IsWritable r := forall_isWritable (by decide +kernel) (by decide)
  obtain ⟨hfirst, hcame⟩ := List.forall_mem_cons.mp hall
  have hold : ∀ r ∈ [old], IsWritable r := List.forall_mem_singleton.mpr hfirst
  have hflushed : flushed = .ok false (final flushed) := eq_ok_of_answer? (by decide +kernel)
  have hread : a.disk.read (a.log.path "old.csv") = .ok (rowBytes (header :: [old].map row)) :=
    Disk.read_eq_ok_iff.mpr ⟨["home", "rolls", "old.csv"], by decide +kernel, by
      simp [a, d, Disk.content, Disk.find?_put]⟩
  have hload : load a.disk "rolls" "old.csv" = .ok [old] := load_rows hread hold
  have hwhole := wholeSheet_written hold
  obtain ⟨halone, hafter⟩ := flush_readable a came "old.csv" hflushed
  have hwritten : (run a (came.map .record)).outgoing "old.csv" = came :=
    halone fun p hp hne => absurd (by revert p; decide) hne
  rw [hwritten] at hafter
  exact ⟨hflushed, hwhole, hload, (hafter (by decide) hcame).1 _ _ hread hwhole hload⟩

/-- The file of the last session is gone when the log is set up again. What is recorded then is
flushed without trouble and cannot be loaded. -/
theorem resumed_unreadable :
    let now : Time.Moment := ⟨2024, 5, 1, 12, 0, 0, 0, some 0⟩
    let d := (Disk.blank.put ["home", "rolls"] .directory).put ["home", "rolls", "sessions.txt"]
      (.file (Utf8.write "old.csv\n".toList))
    let opened := init now ⟨⟨"rolls", none, []⟩, d, []⟩
    let came : List RollRecord := [⟨7, 5, 6, now⟩, ⟨8, 2, 20, now⟩]
    let flushed := flush (run (final opened) (came.map .record))
    opened = .ok "old.csv" (final opened) ∧ flushed = .ok false (final flushed) ∧
      load (final flushed).disk (final flushed).log.directory "old.csv" =
        .error (.unloadable "old.csv" (.noColumn .user)) := by
  intro now d opened came flushed
  have hopened : opened = .ok "old.csv" (final opened) := eq_ok_of_answer? (by decide +kernel)
  have hflushed : flushed = .ok false (final flushed) := eq_ok_of_answer? (by decide +kernel)
  let a := run (final opened) (came.map .record)
  have hpending : a.log.pending = came.map (⟨"old.csv", ·⟩) := by decide +kernel
  have hwaiting : pendingOf "old.csv" a.log.pending = came := by
    rw [hpending, pendingOf_marked, if_pos rfl]
  have hwritten : a.outgoing "old.csv" = came := by
    refine (outgoing_eq fun p hp hne => ?_).trans hwaiting
    rw [hpending] at hp
    obtain ⟨r, -, rfl⟩ := List.mem_map.mp hp
    exact absurd rfl hne
  have hnone : a.bytes "old.csv" = .empty := by decide +kernel
  have hsome : pendingOf "old.csv" a.log.pending ≠ [] := by
    rw [hwaiting]
    exact List.cons_ne_nil _ _
  have hw : ∀ r ∈ a.outgoing "old.csv", IsWritable r := by
    rw [hwritten]
    exact forall_isWritable (by decide +kernel) (by decide)
  have hload := load_unheaded hflushed hsome hw hnone
  rw [hwritten] at hload
  exact ⟨hopened, hflushed, hload.trans (if_neg (by decide))⟩

end Session

end DiceLedger
