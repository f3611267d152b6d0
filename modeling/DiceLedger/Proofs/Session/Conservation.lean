import DiceLedger.Proofs.Session.Account

/-!
# Conservation of records

A log is set up in a directory that is empty or was left by earlier runs, whatever they did and
wherever they failed. From then on every record can be found: what was written to a session's
file, followed by what waits for it, is what was recorded while it was the current session.
-/
namespace DiceLedger.Session

open DiceLedger.Text DiceLedger.Time

/-- A new log for the same directory, with turns of its own to come. -/
def Archive.restart (a : Archive) (turns : List Turn) : Archive :=
  { a with log := { directory := a.log.directory }, turns }

/-- What may have been done in a directory before. -/
inductive Deed
  | op (o : Op)
  | init (now : Moment)
  | restart (turns : List Turn)

def Deed.step (a : Archive) : Deed → Archive
  | .op o => o.step a
  | .init now => final (Session.init now a)
  | .restart turns => a.restart turns

/-- There is no file in a directory. -/
def Vacant (d : Disk) (directory : String) : Prop :=
  ∀ name, d.content (d.target directory ++ [name]) = none

theorem Sound.of_vacant {d : Disk} {directory : String} (h : Vacant d directory)
    (turns : List Turn) : Sound ⟨{ directory }, d, turns⟩ [] :=
  ⟨.inl ⟨rfl, h _⟩, nofun, .nil, nofun, nofun⟩

theorem Sound.restart {a : Archive} {ns : List String} (h : Sound a ns) (turns : List Turn) :
    Sound (a.restart turns) ns :=
  ⟨h.index, h.isOpen, h.nodup, nofun, nofun⟩

theorem Deed.sound {a : Archive} {ns : List String} (h : Sound a ns) (deed : Deed) :
    ∃ ns', Sound (deed.step a) ns' := by
  cases deed with
  | op o =>
    obtain ⟨ns', hstep⟩ := o.advances h
    exact ⟨ns', hstep.sound⟩
  | init now =>
    obtain ⟨b, came, -, ⟨fault, hfault, hstep⟩ | ⟨name, ns', hok, hstep⟩⟩ := init_spec h now
    · exact ⟨ns, by rw [Deed.step, hfault]; exact hstep.sound⟩
    · exact ⟨ns', by rw [Deed.step, hok]; exact hstep.sound⟩
  | restart turns => exact ⟨ns, h.restart turns⟩

theorem sound_foldl (deeds : List Deed) :
    ∀ {a : Archive} {ns : List String}, Sound a ns → ∃ ns', Sound (deeds.foldl Deed.step a) ns' := by
  induction deeds with
  | nil => exact fun h => ⟨_, h⟩
  | cons deed deeds ih =>
    intro a ns h
    obtain ⟨ns', h'⟩ := deed.sound h
    exact ih h'

/-- Where nothing waits and nothing comes in, nothing waits afterwards. -/
theorem Advances.pending_nil {a b : Archive} {ns ns' : List String} (h : Advances a b ns ns' [])
    (ha : a.log.pending = []) : b.log.pending = [] := by
  rw [List.eq_nil_iff_forall_not_mem]
  intro p hp
  have hsession := (h.sound.isOpen _ (h.sound.pending p hp)).1
  obtain ⟨rs, hwait, -⟩ := h.moves p.session hsession.ne_index
  rw [ha] at hwait
  have hnone : pendingOf p.session b.log.pending = [] := (List.append_eq_nil_iff.mp hwait).2
  have hmem : p.record ∈ pendingOf p.session b.log.pending := mem_pendingOf.mpr hp
  rw [hnone] at hmem
  cases hmem

/-- Setting up a new log: there is a current session, and nothing waits. -/
theorem init_new {a b : Archive} {ns : List String} {now : Moment} {name : String}
    (h : Sound a ns) (hcurrent : a.log.current = none) (hpending : a.log.pending = [])
    (hinit : init now a = .ok name b) :
    ∃ ns', Advances a b ns ns' [] ∧ b.log.current = some name ∧ b.log.pending = [] ∧
      ∃ n, b.turns = a.turns.drop n := by
  obtain ⟨c, came, hp, ⟨fault, hfault, -⟩ | ⟨name', ns', hok, hstep⟩⟩ := init_spec h now
  · rw [hfault] at hinit
    cases hinit
  · rw [hok] at hinit
    cases hinit
    have htag : a.log.tag came = [] := by rw [Log.tag, hcurrent]
    rw [htag] at hstep
    obtain ⟨n, hn, -⟩ := hp.turns
    exact ⟨ns', hstep, rfl, hstep.pending_nil hpending, n, hn⟩

/-! ## Files as they are read -/

/-- What can be read of a file in the log's directory. -/
def Archive.stored (a : Archive) (name : String) : Option ByteArray :=
  (a.disk.read (a.log.path name)).toOption

/-- Rows were written at the end of a file. A file that was not there has a header before them,
or no rows and perhaps no header either. -/
def Gained (before after : Option ByteArray) (rs : List RollRecord) : Prop :=
  match before with
  | some c => after = some (c ++ rowBytes (rs.map row))
  | none => after = some (rowBytes (header :: rs.map row)) ∨
      (rs = [] ∧ (after = none ∨ after = some .empty))

theorem stored_of_fits {a : Archive} {f : String} (hreach : a.disk.Reaches a.log.directory)
    (hf : Path.IsName f) (hfits : Disk.Fits a.log.directory f) : a.stored f = a.held f := by
  cases hheld : a.held f with
  | some c =>
    have hread : a.disk.read (a.log.path f) = .ok c := (Disk.read_join hreach hf).mpr ⟨hfits, hheld⟩
    rw [Archive.stored, hread]
    rfl
  | none =>
    cases hread : a.disk.read (a.log.path f) with
    | error fault =>
      rw [Archive.stored, hread]
      rfl
    | ok c =>
      have hc : a.held f = some c := ((Disk.read_join hreach hf).mp hread).2
      rw [hheld] at hc
      cases hc

theorem stored_of_not_fits {a : Archive} {f : String} (hreach : a.disk.Reaches a.log.directory)
    (hf : Path.IsName f) (hfits : ¬Disk.Fits a.log.directory f) : a.stored f = none := by
  cases hread : a.disk.read (a.log.path f) with
  | error fault =>
    rw [Archive.stored, hread]
    rfl
  | ok c => exact absurd ((Disk.read_join hreach hf).mp hread).1 hfits

theorem Sound.reaches_of_mem {a : Archive} {ns : List String} (h : Sound a ns) {name : String}
    (hname : name ∈ ns) : a.disk.Reaches a.log.directory := by
  have hopen := h.isOpen name hname
  obtain ⟨c, hplace, -⟩ := (kept_iff hopen.1.isName).mp hopen.2
  exact ⟨name, _, hopen.1.isName, hplace⟩

theorem Sound.reaches_of_ne_nil {a : Archive} {ns : List String} (h : Sound a ns) (hns : ns ≠ []) :
    a.disk.Reaches a.log.directory := by
  obtain ⟨name, hname⟩ := List.exists_mem_of_ne_nil ns hns
  exact h.reaches_of_mem hname

theorem Sound.reaches {a : Archive} {ns : List String} (h : Sound a ns) {name : String}
    (hcurrent : a.log.current = some name) : a.disk.Reaches a.log.directory :=
  h.reaches_of_mem (List.mem_of_getLast? (h.current name hcurrent))

/-- What the account says of a file holds of the file as it is read. -/
theorem Account.gained {base a : Archive} {ns : List String} {came : List Pending}
    (h : Account base a ns came) (hreach : base.disk.Reaches base.log.directory) {f : String}
    (hf : Path.IsName f) (hindex : f ≠ Log.indexName) :
    ∃ rs, Gained (base.stored f) (a.stored f) rs ∧
      rs ++ pendingOf f a.log.pending = pendingOf f came := by
  obtain ⟨rs, hwait, hrows⟩ := h.filed hindex
  have hreach' : a.disk.Reaches a.log.directory := by
    rw [h.directory]
    exact h.grows.reaches hreach
  refine ⟨rs, ?_, hwait⟩
  by_cases hfits : Disk.Fits base.log.directory f
  · rw [stored_of_fits hreach hf hfits, stored_of_fits hreach' hf (h.directory ▸ hfits)]
    rcases hrows with ⟨hafter, hnone⟩ | ⟨hbase, hheader | ⟨-, rfl, hempty⟩⟩
    · cases hbase : base.held f with
      | some c =>
        rw [hbase] at hafter
        exact hafter
      | none =>
        rw [hbase] at hafter
        exact .inr ⟨hnone hbase, .inl hafter⟩
    · rw [hbase, hheader]
      exact .inl rfl
    · rw [hbase, hempty]
      exact .inr ⟨rfl, .inr rfl⟩
  · rw [stored_of_not_fits hreach hf hfits, stored_of_not_fits hreach' hf (h.directory ▸ hfits)]
    -- a file that cannot be read is that of no session
    have hout : f ∉ ns := by
      intro hmem
      obtain ⟨c, hc⟩ := (h.sound.isOpen f hmem).2
      exact hfits (h.directory ▸ ((Disk.read_join hreach' hf).mp hc).1)
    have hquiet : pendingOf f came = [] :=
      pendingOf_eq_nil fun p hp he => hout (he ▸ h.came_mem p hp)
    rw [hquiet, List.append_eq_nil_iff] at hwait
    exact .inr ⟨hwait.1, .inl rfl⟩

/-- **No record is lost, doubled, brought out of order or moved to another session.** Let a log be
set up in a directory that was empty at first, after any earlier runs there. After any run of
records, flushes and new sessions, with any of their file operations failing and any records
coming in between these, the rows that a file has gained and then the records that wait for it
are those recorded while it was the current session, in their order. -/
theorem records_conserved {disk : Disk} {directory : String} (hvacant : Vacant disk directory)
    (first turns : List Turn) (earlier : List Deed) {now : Moment} {name : String} {a : Archive}
    (hinit : init now ((earlier.foldl Deed.step ⟨{ directory }, disk, first⟩).restart turns) =
      .ok name a) (ops : List Op) {f : String} (hf : Path.IsName f) (hindex : f ≠ Log.indexName) :
    ∃ rs, Gained (a.stored f) ((run a ops).stored f) rs ∧
      rs ++ pendingOf f (run a ops).log.pending = pendingOf f (history a ops) := by
  obtain ⟨ns, hsound⟩ := sound_foldl earlier (Sound.of_vacant hvacant first)
  obtain ⟨ns', hstep, hcurrent, hpending, -⟩ := init_new (hsound.restart turns) rfl rfl hinit
  have hreach := hstep.sound.reaches hcurrent
  obtain ⟨ns'', haccount⟩ := Account.run ops (.refl hstep.sound hpending)
  exact haccount.gained hreach hf hindex

theorem vacant_blank (name : String) (h : Path.IsName name) : Vacant Disk.blank name := by
  intro other
  have htarget : Disk.blank.target name = ["home", name] := by
    have hstart : Disk.blank.start name = ["home"] := if_neg h.head?_ne
    rw [Disk.target, hstart, h.components, Place.walk, List.foldl_cons, h.move]
    rfl
  rw [htarget]
  rfl

/-- A log is set up anew where one was in use before. Its first flush fails, while another
record comes in, and then a session is begun. -/
theorem records_conserved_twice :
    let early : Moment := ⟨2024, 5, 1, 12, 0, 0, 0, some 0⟩
    let late : Moment := ⟨2024, 5, 2, 9, 30, 0, 0, some 0⟩
    let earlier : List Deed := [.init early, .op (.record ⟨7, 3, 6, early⟩), .op .flush]
    let turns : List Turn := [{}, {}, ⟨[⟨8, 1, 20, late⟩], some .noSpace⟩]
    let ops : List Op := [.record ⟨7, 5, 6, late⟩, .flush, .newSession late]
    let f := "2024-05-01_12-00-00.csv"
    Vacant Disk.blank "rolls" ∧ Path.IsName f ∧ f ≠ Log.indexName ∧
    ∃ name a, init late ((earlier.foldl Deed.step ⟨⟨"rolls", none, []⟩, Disk.blank, []⟩).restart
        turns) = .ok name a ∧
      ∃ rs, Gained (a.stored f) ((run a ops).stored f) rs ∧
        rs ++ pendingOf f (run a ops).log.pending = pendingOf f (history a ops) := by
  intro early late earlier turns ops f
  have hvacant : Vacant Disk.blank "rolls" := vacant_blank "rolls" ⟨by decide, by decide⟩
  have hf : Path.IsName f := ⟨by decide, by decide⟩
  have hindex : f ≠ Log.indexName := by decide
  have hinit : succeeds (init late
      ((earlier.foldl Deed.step ⟨⟨"rolls", none, []⟩, Disk.blank, []⟩).restart turns)) := by
    decide +kernel
  obtain ⟨name, ha⟩ := exists_of_succeeds hinit
  exact ⟨hvacant, hf, hindex, name, _, ha,
    records_conserved hvacant [] turns earlier ha ops hf hindex⟩

end DiceLedger.Session
