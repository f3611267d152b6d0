import DiceLedger.Proofs.Session.Growth
import Mathlib.Data.List.TakeWhile

/-!
# Listing a session in any index

A session is listed by its name and a line feed at the end of the index, whatever stands there. If
the index was edited by hand and its last line is left open, the name becomes part of that line,
and what is listed and resumed later is neither of the two. The waiting records of a session whose
name leads to the index itself are written there, too, before the name.
-/
namespace DiceLedger.Session

open DiceLedger.Text DiceLedger.Time

/-! ## Lines and the names on them -/

/-- What stands behind the last line end of a text. -/
def lastLine (cs : List Char) : List Char := (cs.reverse.takeWhile (!isLineEnd ·)).reverse

/-- There is nothing but blanks behind the last line end. -/
def EndsBlank (cs : List Char) : Prop := ∀ c ∈ lastLine cs, isBlank c

instance (cs : List Char) : Decidable (EndsBlank cs) :=
  decidable_of_iff ((lastLine cs).all isBlank = true) List.all_eq_true

theorem lastLine_append_lineEnd {c : Char} (h : isLineEnd c) (cs : List Char) :
    lastLine (cs ++ [c]) = [] := by
  rw [lastLine, List.reverse_append, List.reverse_singleton, List.singleton_append,
    List.takeWhile_cons_of_neg (by simpa using h), List.reverse_nil]

/-- What is added to a text without a line end is added to its last line. -/
theorem exists_lines (cs : List Char) :
    ∃ front lines, cs = front ++ lastLine cs ∧
      ∀ t, (∀ c ∈ t, ¬isLineEnd c) → stretches (front ++ t) = lines ++ [t] := by
  have hsplit : cs = (cs.reverse.dropWhile (!isLineEnd ·)).reverse ++ lastLine cs := by
    rw [lastLine, ← List.reverse_append, List.takeWhile_append_dropWhile, List.reverse_reverse]
  cases hrest : cs.reverse.dropWhile (!isLineEnd ·) with
  | nil =>
    rw [hrest] at hsplit
    exact ⟨[], [], hsplit, fun t ht => stretches_eq_singleton ht⟩
  | cons c rest =>
    rw [hrest] at hsplit
    have hend : isLineEnd c := by
      have hhead := List.head?_dropWhile_not (!isLineEnd ·) cs.reverse
      rw [hrest] at hhead
      simpa using hhead
    refine ⟨(c :: rest).reverse, stretches rest.reverse, hsplit, fun t ht => ?_⟩
    rw [List.reverse_cons, List.append_assoc, List.singleton_append,
      stretches_append_lineEnd hend, stretches_eq_singleton ht]

theorem not_isLineEnd_of_lastLine {cs : List Char} : ∀ c ∈ lastLine cs, ¬isLineEnd c := by
  intro c hc
  rw [lastLine, List.mem_reverse] at hc
  simpa using List.mem_takeWhile_imp hc

/-- The names on lines: what stands on each between its blanks, if anything. -/
def namesOn (lines : List (List Char)) : List String :=
  (lines.map trim).filter (!·.isEmpty) |>.map String.ofList

theorem namesOn_append (lines more : List (List Char)) :
    namesOn (lines ++ more) = namesOn lines ++ namesOn more := by
  simp [namesOn]

theorem namesOn_blank {cs : List Char} (h : ∀ c ∈ cs, isBlank c) : namesOn [cs] = [] := by
  have htrim : trim cs = [] := by
    have hdrop : cs.dropWhile isBlank = [] := List.dropWhile_eq_nil_iff.mpr h
    rw [trim, hdrop]
    rfl
  simp [namesOn, htrim]

theorem trim_append {cs ns : List Char} (hne : ns ≠ []) (h : ∀ c ∈ ns, ¬isBlank c) :
    trim (cs ++ ns) = cs.dropWhile isBlank ++ ns := by
  obtain ⟨first, rest, hfirst⟩ := List.exists_cons_of_ne_nil hne
  have hdrop : (cs ++ ns).dropWhile isBlank = cs.dropWhile isBlank ++ ns := by
    have hns : ns.dropWhile isBlank = ns := by
      rw [hfirst, List.dropWhile_cons_of_neg (h first (hfirst ▸ List.mem_cons_self))]
    rw [List.dropWhile_append]
    split
    · next hblank => rw [hns, List.isEmpty_iff.mp hblank, List.nil_append]
    · rfl
  obtain ⟨last, front, hlast⟩ := List.exists_cons_of_ne_nil (List.reverse_ne_nil_iff.mpr hne)
  have hend : ¬isBlank last :=
    h last (List.mem_reverse.mp (hlast ▸ List.mem_cons_self))
  rw [trim, hdrop, List.reverse_append, hlast, List.cons_append,
    List.dropWhile_cons_of_neg hend, ← List.cons_append, ← hlast, ← List.reverse_append,
    List.reverse_reverse]

section

variable {text : List Char} {name : String}

theorem names_append_lineFeed (text : List Char) : names (text ++ ['\n']) = names text := by
  have hnone : namesOn [[]] = [] := rfl
  have hnames : names text = namesOn (stretches text) := rfl
  show namesOn (stretches (text ++ '\n' :: [])) = names text
  rw [stretches_append_lineEnd (by decide), namesOn_append, hnames]
  exact List.append_nil _

/-- A name that is written at the end of an index becomes part of its last line. -/
theorem names_listed (h : IsSessionName name) (text : List Char) :
    ∃ earlier, names text = earlier ++ namesOn [lastLine text] ∧
      names (text ++ (name.toList ++ ['\n'])) =
        earlier ++ [String.ofList ((lastLine text).dropWhile isBlank ++ name.toList)] := by
  have hblank : ∀ c ∈ nameChars, ¬isBlank c := forall_of_all (by decide)
  have hend : ∀ c ∈ nameChars, ¬isLineEnd c := forall_of_all (by decide)
  have hfull : name.toList ≠ [] := by simpa using h.isName.ordinary.1
  obtain ⟨front, lines, htext, hlines⟩ := exists_lines text
  refine ⟨namesOn lines, ?_, ?_⟩
  · have hstretches := hlines (lastLine text) not_isLineEnd_of_lastLine
    rw [← htext] at hstretches
    show namesOn (stretches text) = _
    rw [hstretches, namesOn_append]
  · have hline : ∀ c ∈ lastLine text ++ name.toList, ¬isLineEnd c := by
      intro c hc
      rcases List.mem_append.mp hc with hc | hc
      · exact not_isLineEnd_of_lastLine c hc
      · exact hend c (h.mem hc)
    have hstretches := hlines _ hline
    rw [← List.append_assoc, ← htext] at hstretches
    rw [← List.append_assoc, names_append_lineFeed]
    show namesOn (stretches (text ++ name.toList)) = _
    have htrim : trim (lastLine text ++ name.toList) =
        (lastLine text).dropWhile isBlank ++ name.toList :=
      trim_append hfull fun c hc => hblank c (h.mem hc)
    rw [hstretches, namesOn_append]
    simp [namesOn, htrim, hfull]

theorem dropWhile_lastLine_eq_nil_iff :
    (lastLine text).dropWhile isBlank = [] ↔ EndsBlank text := by
  rw [List.dropWhile_eq_nil_iff, EndsBlank]

/-- The name is listed behind those before exactly if no line was left open. -/
theorem names_listed_iff (h : IsSessionName name) :
    names (text ++ (name.toList ++ ['\n'])) = names text ++ [name] ↔ EndsBlank text := by
  obtain ⟨earlier, hbefore, hafter⟩ := names_listed h text
  rw [hbefore, hafter]
  constructor
  · intro heq
    rw [List.append_assoc, List.append_cancel_left_eq] at heq
    have hlast := congrArg List.getLast? heq
    rw [List.getLast?_singleton, List.getLast?_append, List.getLast?_singleton, Option.some_or,
      Option.some.injEq] at hlast
    have hchars := congrArg String.toList hlast
    rw [String.toList_ofList, List.append_left_eq_self] at hchars
    exact dropWhile_lastLine_eq_nil_iff.mp hchars
  · intro hblank
    rw [dropWhile_lastLine_eq_nil_iff.mpr hblank, namesOn_blank hblank, List.append_nil,
      List.nil_append, String.ofList_toList]

/-- And exactly then it is what the index lists last. -/
theorem getLast?_names_listed (h : IsSessionName name) (text : List Char) :
    ∃ last, (names (text ++ (name.toList ++ ['\n']))).getLast? = some last ∧
      (last = name ↔ EndsBlank text) := by
  obtain ⟨earlier, -, hafter⟩ := names_listed h text
  refine ⟨_, by rw [hafter, List.getLast?_concat], ?_⟩
  rw [← dropWhile_lastLine_eq_nil_iff, ← String.toList_inj, String.toList_ofList]
  exact List.append_left_eq_self

end

/-! ## Commas -/

/-- How many commas the names of a list have in all. -/
def commas (ns : List String) : Nat := (ns.flatMap (·.toList)).count ','

theorem count_trim (cs : List Char) : (trim cs).count ',' = cs.count ',' := by
  have hdrop (ds : List Char) : (ds.dropWhile isBlank).count ',' = ds.count ',' := by
    induction ds with
    | nil => rfl
    | cons d ds ih =>
      rw [List.dropWhile_cons]
      split
      · next hblank =>
        have hd : d ≠ ',' := by
          rintro rfl
          revert hblank
          decide
        rw [ih, List.count_cons_of_ne hd]
      · rfl
  rw [trim, List.count_reverse, hdrop, List.count_reverse, hdrop]

theorem count_stretches (cs : List Char) : (stretches cs).flatten.count ',' = cs.count ',' := by
  induction cs with
  | nil => rfl
  | cons c cs ih =>
    rw [stretches, List.foldr_cons, ← stretches]
    split
    · next hend =>
      have hc : c ≠ ',' := by
        rintro rfl
        revert hend
        decide
      rw [List.flatten_cons, List.nil_append, ih, List.count_cons_of_ne hc]
    · cases hs : stretches cs with
      | nil => exact absurd (stretches_eq_splitOnP cs ▸ hs) (List.splitOnP_ne_nil _ cs)
      | cons first rest =>
        rw [hs, List.flatten_cons, List.count_append] at ih
        rw [List.flatten_cons, List.count_append, List.count_cons, List.count_cons, ← ih]
        omega

/-- No comma of an index is lost in its names. -/
theorem commas_names (cs : List Char) : commas (names cs) = cs.count ',' := by
  have htrim (lines : List (List Char)) :
      (lines.map trim).flatten.count ',' = lines.flatten.count ',' := by
    induction lines with
    | nil => rfl
    | cons line lines ih =>
      rw [List.map_cons, List.flatten_cons, List.flatten_cons, List.count_append,
        List.count_append, count_trim, ih]
  have hnames : (names cs).flatMap (·.toList) =
      (((stretches cs).map trim).filter (!·.isEmpty)).flatten := by
    simp [names, List.flatMap_map]
  rw [commas, hnames, List.flatten_filter_not_isEmpty, htrim, count_stretches]

theorem commas_append (ns ms : List String) : commas (ns ++ ms) = commas ns + commas ms := by
  rw [commas, List.flatMap_append, List.count_append, commas, commas]

/-- The rows of records, as text. -/
def rowsText (rs : List RollRecord) : List Char := (rs.map row).flatMap Csv.writeRow

theorem comma_mem_row (r : RollRecord) : ',' ∈ Csv.writeRow (row r) := by
  simp [Csv.writeRow, row, List.intercalate]

section

variable {text : List Char} {rs : List RollRecord} {name : String}

/-- Rows end their last line. -/
theorem endsBlank_rows_iff : EndsBlank (text ++ rowsText rs) ↔ rs ≠ [] ∨ EndsBlank text := by
  rcases List.eq_nil_or_concat rs with rfl | ⟨front, r, rfl⟩
  · rw [rowsText, List.map_nil, List.flatMap_nil, List.append_nil]
    exact ⟨.inr, fun h => h.resolve_left fun hne => hne rfl⟩
  · have hlast : text ++ rowsText (front.concat r) = text ++ rowsText front ++
        ",".toList.intercalate ((row r).map Csv.writeField) ++ ['\r'] ++ ['\n'] := by
      simp [rowsText, Csv.writeRow]
    have hnone : lastLine (text ++ rowsText (front.concat r)) = [] := by
      rw [hlast]
      exact lastLine_append_lineEnd (by decide) _
    have hblank : EndsBlank (text ++ rowsText (front.concat r)) := by
      rw [EndsBlank, hnone]
      exact nofun
    exact ⟨fun _ => .inl (by simp), fun _ => hblank⟩

/-- Where rows were written before it, the name is not listed behind just those before. -/
theorem names_rows_listed_iff (h : IsSessionName name) :
    names (text ++ rowsText rs ++ (name.toList ++ ['\n'])) = names text ++ [name] ↔
      rs = [] ∧ EndsBlank text := by
  constructor
  · intro heq
    have hcomma : ',' ∉ name.toList ++ ['\n'] := by
      intro hmem
      rcases List.mem_append.mp hmem with hmem | hmem
      · exact absurd (h.mem hmem) (by decide)
      · exact absurd hmem (by decide)
    have hname : commas [name] = 0 := by
      rw [commas, List.flatMap_singleton]
      exact List.count_eq_zero.mpr fun hmem => hcomma (List.mem_append_left _ hmem)
    -- the commas of the rows would have to be those of names that were listed before
    have hcount := congrArg commas heq
    rw [commas_names, commas_append, commas_names, hname, List.count_append, List.count_append,
      List.count_eq_zero.mpr hcomma] at hcount
    have hrows : (rowsText rs).count ',' = 0 := by omega
    have hnone : rs = [] := by
      cases rs with
      | nil => rfl
      | cons r rs =>
        have hmem : ',' ∈ rowsText (r :: rs) :=
          List.mem_append_left _ (comma_mem_row r)
        exact absurd hmem (List.count_eq_zero.mp hrows)
    subst hnone
    rw [rowsText, List.map_nil, List.flatMap_nil, List.append_nil] at heq
    exact ⟨rfl, (names_listed_iff h).mp heq⟩
  · rintro ⟨rfl, hblank⟩
    rw [rowsText, List.map_nil, List.flatMap_nil, List.append_nil]
    exact (names_listed_iff h).mpr hblank

end

/-! ## What is written to the index -/

section

variable {a b : Archive}

theorem perform_eq_ok {path : String} {change : Disk.Change}
    (h : perform path change a = .ok () b) : change a.disk = .ok () b.disk := by
  rcases hattempt : attempt path change a with ⟨out, mid⟩
  cases out with
  | error fault =>
    rw [perform_of_error hattempt] at h
    cases h
  | ok _ =>
    rw [perform_of_ok hattempt] at h
    obtain rfl := (EStateM.Result.ok.inj h).2
    exact attempt_ok hattempt

theorem target_eq_place {name : String} (hname : Path.IsName name) :
    a.target name = a.place name := by
  unfold Archive.target Log.path
  rw [Disk.target_join _ _ hname]
  rfl

/-- Some of the records were written at the end of a file, in their order. -/
def SomeWritten (before after : ByteArray) (rs : List RollRecord) : Prop :=
  ∃ written : List RollRecord, written.Sublist rs ∧ after = before ++ rowBytes (written.map row)

theorem SomeWritten.none {before after : ByteArray} (h : after = before) (rs : List RollRecord) :
    SomeWritten before after rs := by
  refine ⟨[], List.nil_sublist rs, ?_⟩
  rw [h]
  exact ByteArray.append_empty.symm

theorem SomeWritten.append {x y z : ByteArray} {rs rs' : List RollRecord}
    (h : SomeWritten x y rs) (h' : SomeWritten y z rs') : SomeWritten x z (rs ++ rs') := by
  obtain ⟨first, hfirst, rfl⟩ := h
  obtain ⟨rest, hrest, rfl⟩ := h'
  refine ⟨first ++ rest, hfirst.append hrest, ?_⟩
  rw [List.map_append, rowBytes_append, ByteArray.append_assoc]

/-- A group adds its rows to the file where its name leads, or nothing to any file. -/
theorem attempt_bytes {s : String} {rs : List RollRecord} {out : Except DiskFault Unit}
    (h : attempt (a.log.path s) (a.log.appendRows s rs) a = (out, b)) (place : Place) :
    SomeWritten (a.disk.bytes place) (b.disk.bytes place)
      (if place = a.target s then rs else []) := by
  rcases attempt_cases h with ⟨-, -, -, -, -, hdisk⟩ | ⟨-, hok⟩ | ⟨fault, -, herror⟩
  · exact .none (by rw [hdisk]) _
  · obtain ⟨-, -, hbytes⟩ := Disk.append_lands (step_eq_ok_iff.mp hok)
    refine ⟨_, List.Sublist.refl _, ?_⟩
    rw [hbytes place, Archive.target]
    split
    · rfl
    · rw [List.map_nil, rowBytes_nil]
  · exact .none (by rw [(step_eq_error_iff.mp herror).2]) _

/-- Groups add to a file nothing but rows of theirs whose names lead there. -/
theorem writeGroups_bytes (place : Place) (gs : List (String × List RollRecord)) :
    ∀ a : Archive, SomeWritten (a.disk.bytes place) ((final (writeGroups gs a)).disk.bytes place)
      (bound a place gs) := by
  induction gs with
  | nil => exact fun a => .none rfl _
  | cons g gs ih =>
    intro a
    obtain ⟨s, rs⟩ := g
    rcases hattempt : attempt (a.log.path s) (a.log.appendRows s rs) a with ⟨out, mid⟩
    have hfirst := attempt_bytes hattempt place
    obtain ⟨came, hwaits⟩ := attempt_waits hattempt (extends_append _ _ a.disk)
    rw [bound_cons, ← hwaits.bound]
    rcases final_writeGroups hattempt gs with hfinal | hfinal
    · rw [hfinal]
      exact hfirst.append (.none rfl _)
    · rw [hfinal]
      exact hfirst.append (ih mid)

theorem flush_bytes (place : Place) (a : Archive) :
    SomeWritten (a.disk.bytes place) ((final (flush a)).disk.bytes place)
      (bound a place (groups a.log.pending)) := by
  obtain ⟨waiting, hfinal⟩ := final_flush a
  rw [hfinal]
  exact writeGroups_bytes place (groups a.log.pending)
    { a with log := { a.log with pending := [] } }

theorem bytes_of_rewrites {d d' : Disk} {directory name : String} {c : ByteArray}
    (h : d.Rewrites d' directory name c) {place : Place}
    (hne : place ≠ d.target directory ++ [name]) : d'.bytes place = d.bytes place := by
  unfold Disk.bytes Disk.content
  rw [h.frame place hne]

/-- Making the file of a session adds nothing to other files. -/
theorem makeSheet_bytes {name : String} (hname : Path.IsName name)
    (hthere : a.disk.isThere (a.log.path name) = false)
    (h : a.log.makeSheet name a = .ok () b) {place : Place} (hne : place ≠ a.place name) :
    b.disk.bytes place = a.disk.bytes place := by
  unfold Log.makeSheet at h
  obtain ⟨_, mid, hcreate, happend⟩ := run_eq_ok_iff.mp h
  have hmade := (Disk.create_spec hname hthere (step_eq_ok_iff.mp (perform_eq_ok hcreate))).2
  obtain ⟨-, -, hbytes⟩ := Disk.append_lands (step_eq_ok_iff.mp (perform_eq_ok happend))
  have htarget : mid.disk.target (a.log.path name) = a.place name := by
    rw [hmade.grows.target]
    exact target_eq_place hname
  rw [hbytes place, htarget, if_neg hne, ByteArray.append_empty]
  exact bytes_of_rewrites hmade hne

/-- A session that is begun is listed at the end of the index. -/
theorem enlist_bytes {now : Moment} {name : String} (h : enlist now a = .ok name b) :
    IsSessionName name ∧ b.disk.bytes (a.target Log.indexName) =
      a.disk.bytes (a.target Log.indexName) ++ Utf8.write (name.toList ++ ['\n']) := by
  have hname := enlist_name h
  obtain ⟨hsession, hfree⟩ := freshName_spec now.toUniversal a
  rw [enlist_eq] at h
  rw [← hname] at h hsession hfree
  obtain ⟨_, mid, hsheet, h⟩ := run_eq_ok_iff.mp h
  obtain ⟨_, last, hlist, h⟩ := run_eq_ok_iff.mp h
  cases h
  have hthere := (isFree_iff.mp hfree).2
  have hne : a.target Log.indexName ≠ a.place name := by
    rw [target_eq_place isName_index]
    intro heq
    exact hsession.ne_index (place_inj heq).symm
  have hmid : Passed a mid := by
    have hpassed := makeSheet_passed hsession.isName hthere
    rwa [hsheet] at hpassed
  obtain ⟨-, -, hbytes⟩ := Disk.append_lands (step_eq_ok_iff.mp (perform_eq_ok hlist))
  have htarget : mid.disk.target a.log.indexPath = a.target Log.indexName :=
    hmid.grows.target _
  refine ⟨hsession, ?_⟩
  rw [hbytes, htarget, if_pos rfl, makeSheet_bytes hsession.isName hthere hsheet hne]

theorem makeDirectories_bytes {path : String} {d d' : Disk}
    (h : Disk.makeDirectories path d = .ok () d') (place : Place) :
    d'.bytes place = d.bytes place := by
  have hfurnishes := Disk.makeDirectories_furnishes path d
  rw [h] at hfurnishes
  unfold Disk.bytes
  rw [← hfurnishes.content place]
  rfl

/-- Beginning a session adds to the index the rows that are written there, and the name. -/
theorem newSession_bytes {now : Moment} {name : String} (h : newSession now a = .ok name b) :
    IsSessionName name ∧ Grows a b ∧ b.log.directory = a.log.directory ∧
      (Disk.IsPath a.log.directory → b.disk.Settled b.log.directory) ∧
      ∃ written : List RollRecord, written.Sublist (a.outgoing Log.indexName) ∧
        b.bytes Log.indexName = a.bytes Log.indexName ++ rowBytes (written.map row) ++
          Utf8.write (name.toList ++ ['\n']) := by
  obtain ⟨trouble, m₁, m₂, m₃, hflush, hmake, henlist, rfl⟩ := newSession_eq_ok h
  have hfirst := flush_passed a
  have hsecond := makeDirectories_passed m₁.log.directory m₁
  have hthird := enlist_passed now m₂
  have hrows := flush_bytes (a.target Log.indexName) a
  rw [hflush, final] at hfirst hrows
  rw [hmake, final] at hsecond
  rw [henlist, final] at hthird
  have hmade := perform_eq_ok hmake
  obtain ⟨hsession, hlisted⟩ := enlist_bytes henlist
  have hbefore : Passed a m₂ := hfirst.trans hsecond
  have hall : Passed a m₃ := hbefore.trans hthird
  obtain ⟨written, hwritten, hbytes⟩ := hrows
  refine ⟨hsession, hall.grows, hall.directory, fun hpath => ?_, written, hwritten, ?_⟩
  · rw [← hfirst.directory] at hpath
    have hsettled := hthird.grows.settled (Disk.settled_of_makeDirectories hpath hmade)
    rw [← (hsecond.trans hthird).directory] at hsettled
    exact hsettled
  · show m₃.disk.bytes (m₃.target Log.indexName) = _
    rw [hbefore.target, makeDirectories_bytes hmade] at hlisted
    rw [hall.target, hlisted]
    exact congrArg (· ++ _) hbytes

/-! ## Setting up a log again -/

theorem sessions_of_read {text : List Char}
    (h : a.disk.read a.log.indexPath = .ok (Utf8.write text)) : sessions a = .ok (names text) := by
  simp only [sessions, h, Utf8.read_write]

/-- A log is set up in a directory that is there, and nothing troubles it: the last session of
the index is resumed, whatever it is. -/
theorem init_last {ns : List String} {last : String} (hsettled : a.disk.Settled a.log.directory)
    (hfine : Untroubled a) (hns : sessions a = .ok ns) (hlast : ns.getLast? = some last)
    (now : Moment) : ∃ c, init now a = .ok last c ∧ c.log.current = some last := by
  rcases hmake : attempt a.log.directory (Disk.makeDirectories a.log.directory) a with ⟨out, m₁⟩
  obtain ⟨rs, hw, -⟩ := attempt_makeDirectories hmake
  obtain ⟨hdisk, hok⟩ := attempt_settled hmake hsettled
  rw [hok hfine] at hmake
  rcases hlook : attempt m₁.log.indexPath (pure ()) m₁ with ⟨out', m₂⟩
  obtain ⟨rs', hw'⟩ := attempt_waits hlook (.refl m₁.disk)
  have hsessions (hsame : m₂.disk = m₁.disk) : sessions m₂ = .ok ns := by
    have hpath : m₂.log.indexPath = a.log.indexPath := by
      rw [Log.indexPath, hw'.path, hw.path, Log.indexPath]
    rw [sessions, hpath, hsame, hdisk, ← sessions]
    exact hns
  rw [init, run_of_ok (run_get a), run_of_ok (perform_of_ok hmake)]
  rcases attempt_cases hlook with ⟨turn, hturn, t, ht, -⟩ | ⟨rfl, hpure⟩ | ⟨fault, -, herror⟩
  · exact absurd (hw.untroubled hfine) (not_untroubled hturn ht)
  · have hsame : m₂.disk = m₁.disk := (EStateM.Result.ok.inj hpure).2.symm
    have hconsult : consult m₁ = .ok ns m₂ := by
      rw [consult, run_of_ok (run_get m₁), run_of_ok (perform_of_ok hlook), run_of_ok (run_get m₂),
        hsessions hsame]
      rfl
    rw [run_of_ok hconsult, hlast]
    exact ⟨m₂.resume last, rfl, rfl⟩
  · cases herror

end

/-- **What becomes of an index of any content when a session is begun.** The rows that a flush
writes to the index itself, and then the name, are added to it, and what is listed is read off
the whole. That is what was listed before and the name, exactly if no such rows were written and
no line was left open. A log that is then set up again in the directory resumes what is listed
last; that is the name, unless it was added to an open line. -/
theorem newSession_listed_iff {a b : Archive} {text : List Char} {now : Moment} {name : String}
    (hindex : a.disk.read a.log.indexPath = .ok (Utf8.write text))
    (h : newSession now a = .ok name b) :
    ∃ written : List RollRecord, written.Sublist (a.outgoing Log.indexName) ∧
      let added := text ++ rowsText written ++ (name.toList ++ ['\n'])
      b.disk.read b.log.indexPath = .ok (Utf8.write added) ∧
      sessions a = .ok (names text) ∧ sessions b = .ok (names added) ∧
      (sessions b = .ok (names text ++ [name]) ↔ written = [] ∧ EndsBlank text) ∧
      ∀ turns later, Untroubled (b.restart turns) →
        ∃ last c, init later (b.restart turns) = .ok last c ∧ c.log.current = some last ∧
          (names added).getLast? = some last ∧ (last = name ↔ written ≠ [] ∨ EndsBlank text) := by
  obtain ⟨hsession, hgrows, hdirectory, hsettled, written, hwritten, hbytes⟩ := newSession_bytes h
  refine ⟨written, hwritten, ?_⟩
  intro added
  have hpath : b.log.indexPath = a.log.indexPath := by
    unfold Log.indexPath Log.path
    rw [hdirectory]
  have hread : b.disk.read b.log.indexPath = .ok (Utf8.write added) := by
    obtain ⟨more, hmore⟩ := Disk.Extends.read hgrows hindex
    rw [← hpath] at hmore
    have hnew : b.bytes Log.indexName = Utf8.write text ++ more := Disk.bytes_of_read hmore
    have hold : a.bytes Log.indexName = Utf8.write text := Disk.bytes_of_read hindex
    have hadded : Utf8.write added = Utf8.write text ++ more := by
      rw [← hnew, hbytes, hold, rowBytes, ← Utf8.write_append, ← Utf8.write_append]
      rfl
    rw [hmore, hadded]
  have hsessions := sessions_of_read hread
  refine ⟨hread, sessions_of_read hindex, hsessions, ?_, fun turns later hfine => ?_⟩
  · rw [hsessions, Except.ok.injEq]
    exact names_rows_listed_iff hsession
  · obtain ⟨last, hlast, hiff⟩ := getLast?_names_listed hsession (text ++ rowsText written)
    have hthere : (b.restart turns).disk.Settled (b.restart turns).log.directory :=
      hsettled (Kept.isPath isName_index ⟨_, hindex⟩)
    have hsame : sessions (b.restart turns) = .ok (names added) := hsessions
    obtain ⟨c, hinit, hcurrent⟩ := init_last hthere hfine hsame hlast later
    exact ⟨last, c, hinit, hcurrent, hlast, hiff.trans endsBlank_rows_iff⟩

/-- An index edited by hand, with blanks and an empty line, but with no line left open. -/
theorem newSession_listed_iff_edited :
    let now : Moment := ⟨2024, 5, 1, 12, 0, 0, 0, some 0⟩
    let text := "  old.csv\r\n\n\t".toList
    let d := (Disk.blank.put ["home", "rolls"] .directory).put ["home", "rolls", "sessions.txt"]
      (.file (Utf8.write text))
    let a : Archive := ⟨⟨"rolls", some "old.csv", [⟨"old.csv", ⟨7, 5, 6, now⟩⟩]⟩, d, []⟩
    let name := "2024-05-01_12-00-00.csv"
    let b := final (newSession now a)
    a.disk.read a.log.indexPath = .ok (Utf8.write text) ∧ newSession now a = .ok name b ∧
      sessions a = .ok ["old.csv"] ∧ sessions b = .ok ["old.csv", name] ∧
      ∃ c, init now (b.restart []) = .ok name c ∧ c.log.current = some name := by
  intro now text d a name b
  have hread : a.disk.read a.log.indexPath = .ok (Utf8.write text) :=
    Disk.read_eq_ok_iff.mpr ⟨["home", "rolls", "sessions.txt"], by decide +kernel, by
      simp [a, d, Disk.content, Disk.find?_put]⟩
  have hrun : newSession now a = .ok name b := eq_ok_of_answer? (by decide +kernel)
  have hnames : names text = ["old.csv"] := by decide +kernel
  have hblank : EndsBlank text := by decide +kernel
  have hnone : a.outgoing Log.indexName = [] := by decide +kernel
  obtain ⟨written, hwritten, -, hbefore, -, hafter, hinit⟩ := newSession_listed_iff hread hrun
  rw [hnone, List.sublist_nil] at hwritten
  rw [hnames] at hbefore hafter
  obtain ⟨last, c, hresumed, hcurrent, -, hlast⟩ := hinit [] now nofun
  obtain rfl : last = name := hlast.mpr (.inr hblank)
  exact ⟨hread, hrun, hbefore, hafter.mpr ⟨hwritten, hblank⟩, c, hresumed, hcurrent⟩

/-- The last line of the index has no end. The name of the new session is added to it, and what is
listed and resumed is a name that no session was given. -/
theorem listed_on_open_line :
    let now : Moment := ⟨2024, 5, 1, 12, 0, 0, 0, some 0⟩
    let d := (Disk.blank.put ["home", "rolls"] .directory).put ["home", "rolls", "sessions.txt"]
      (.file (Utf8.write "old.csv".toList))
    let a : Archive := ⟨⟨"rolls", some "old.csv", []⟩, d, []⟩
    let b := final (newSession now a)
    newSession now a = .ok "2024-05-01_12-00-00.csv" b ∧ sessions a = .ok ["old.csv"] ∧
      sessions b = .ok ["old.csv2024-05-01_12-00-00.csv"] ∧
      ∃ c, init now (b.restart []) = .ok "old.csv2024-05-01_12-00-00.csv" c := by
  intro now d a b
  have hread : a.disk.read a.log.indexPath = .ok (Utf8.write "old.csv".toList) :=
    Disk.read_eq_ok_iff.mpr ⟨["home", "rolls", "sessions.txt"], by decide +kernel, by
      simp [a, d, Disk.content, Disk.find?_put]⟩
  refine ⟨eq_ok_of_answer? (by decide +kernel), ?_, ?_, _, eq_ok_of_answer? (by decide +kernel)⟩
  · exact sessions_of_read hread
  · decide +kernel

end DiceLedger.Session
