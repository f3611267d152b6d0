import DiceLedger.Proofs.Session.Growth
import DiceLedger.Proofs.Session.ReadBack

/-!
# What a session gives back

A log that begins no other session writes all its records to one file, in as many flushes as it
likes. Once a flush reports no trouble, the session is loaded as these records with their times,
except that an offset below a second is lost.
-/
namespace DiceLedger.Session

open DiceLedger.Text DiceLedger.Time

section

variable {a b : Archive} {name : String}

/-- An operation that begins no session leaves the current one. -/
theorem Op.step_passed {o : Op} (h : ∀ later, o ≠ .newSession later) (a : Archive) :
    Passed a (o.step a) := by
  cases o with
  | record r =>
    rw [step_record, receive_eq]
    exact ⟨[], rfl, rfl, .refl _, 0, rfl, rfl⟩
  | flush => exact flush_passed a
  | newSession now => exact absurd rfl (h now)

theorem ne_newSession_of_cons {o : Op} {ops : List Op}
    (h : ∀ later, Op.newSession later ∉ o :: ops) :
    (∀ later, o ≠ .newSession later) ∧ ∀ later, Op.newSession later ∉ ops :=
  ⟨fun later he => h later (he ▸ List.mem_cons_self),
    fun later hmem => h later (List.mem_cons_of_mem o hmem)⟩

theorem run_passed (ops : List Op) :
    ∀ a : Archive, (∀ later, Op.newSession later ∉ ops) → Passed a (run a ops) := by
  induction ops with
  | nil => exact fun a _ => .refl a
  | cons o ops ih =>
    intro a h
    obtain ⟨ho, hops⟩ := ne_newSession_of_cons h
    exact (o.step_passed ho a).trans (ih _ hops)

/-- All that is recorded belongs to the one session. -/
theorem session_of_mem_history (ops : List Op) :
    ∀ {a : Archive}, (∀ later, Op.newSession later ∉ ops) → a.log.current = some name →
      ∀ p ∈ history a ops, p.session = name := by
  induction ops with
  | nil => exact nofun
  | cons o ops ih =>
    intro a h hcurrent p hp
    obtain ⟨ho, hops⟩ := ne_newSession_of_cons h
    rcases List.mem_append.mp hp with hp | hp
    · have hsession := current_of_mem_tag hp
      rw [hcurrent, Option.some.injEq] at hsession
      exact hsession.symm
    · exact ih hops ((o.step_passed ho a).current.trans hcurrent) p hp

theorem arrivals_of_alone (h : ∀ turn ∈ a.turns, turn.arrivals = []) (b : Archive) :
    arrivals a b = [] := by
  rw [arrivals, List.flatMap_eq_nil_iff]
  exact fun turn hturn => h turn (List.mem_of_mem_take hturn)

/-- If nobody else records anything, what is recorded is what the operations bring. -/
theorem history_alone (ops : List Op) :
    ∀ {a : Archive}, (∀ later, Op.newSession later ∉ ops) → a.log.current = some name →
      (∀ turn ∈ a.turns, turn.arrivals = []) →
      (history a ops).map (·.record) = ops.flatMap Op.own := by
  induction ops with
  | nil => exact fun _ _ _ => rfl
  | cons o ops ih =>
    intro a h hcurrent halone
    obtain ⟨ho, hops⟩ := ne_newSession_of_cons h
    obtain ⟨rs, hp⟩ := o.step_passed ho a
    obtain ⟨n, hturns, -⟩ := hp.turns
    have hrest : ∀ turn ∈ (o.step a).turns, turn.arrivals = [] := by
      rw [hturns]
      exact fun turn hturn => halone turn (List.mem_of_mem_drop hturn)
    have hown : (o.recorded a).map (·.record) = o.own := by
      rw [Op.recorded, arrivals_of_alone halone, List.append_nil, Log.tag, hcurrent, List.map_map]
      exact List.map_id _
    rw [history, List.map_append, hown, ih hops (hp.current.trans hcurrent) hrest,
      List.flatMap_cons]

/-- What was recorded before a flush that reports no trouble is in the file of its session. -/
theorem Account.load_flushed {base : Archive} {ns : List String} {came : List Pending}
    (h : Account base a ns came) (hbase : ∀ f, base.held f = none) (hname : name ∈ ns)
    (hlegible : ∀ r ∈ pendingOf name came, IsLegible r) (hflush : Session.flush a = .ok false b) :
    Session.load b.disk base.log.directory name = .ok ((pendingOf name came).map reread) := by
  obtain ⟨arrived, hp, hc, hpending⟩ :=
    flush_written (fun p hp => h.sound.isOpen _ (h.sound.pending p hp)) hflush
  have hb := h.advance (.of_sound (h.sound.conserves hp hc) hp hc)
  obtain ⟨written, hwait, hload⟩ := hb.load_written hbase hname
  rw [hpending, pendingOf_append, List.append_cancel_right_eq] at hwait
  rw [hb.directory, hwait] at hload
  exact hload hlegible

end

/-- **Records survive the way to their file and back, but for offsets below a second.** Let a log
be set up in an empty directory. Let records come in and be flushed in any number of portions,
some of which may fail at first, until a flush reports no trouble. Then the current session is
loaded as all that was recorded, in order: every integer, and every moment with its wall clock
and its offset, if it has one, where of an offset below a second nothing is left. So exactly if
there is no such offset, the records themselves are loaded. -/
theorem flushed_read_back {d : Disk} {directory name : String} {turns : List Turn} {now : Moment}
    {a b : Archive} (hvacant : Vacant d directory)
    (hinit : init now ⟨{ directory }, d, turns⟩ = .ok name a) (ops : List Op)
    (hstays : ∀ later, Op.newSession later ∉ ops)
    (hlegible : ∀ p ∈ history a ops, IsLegible p.record)
    (hflush : flush (run a ops) = .ok false b) :
    let recorded := (history a ops).map (·.record)
    ((∀ turn ∈ turns, turn.arrivals = []) → recorded = ops.flatMap Op.own) ∧
      b.log.current = some name ∧
      load b.disk directory name = .ok (recorded.map reread) ∧
      (load b.disk directory name = .ok recorded ↔ ∀ r ∈ recorded, r.time.KeepsOffset) := by
  intro recorded
  obtain ⟨ns, hfirst, hcurrent, n, hturns⟩ := init_opened hvacant hinit
  obtain ⟨ns', hrun⟩ := Account.run ops hfirst
  rw [List.nil_append] at hrun
  have hbase (f : String) : Archive.held ⟨{ directory }, d, turns⟩ f = none := hvacant f
  have hlast : (run a ops).log.current = some name :=
    (run_passed ops a hstays).current.trans hcurrent
  have hname : name ∈ ns' := List.mem_of_getLast? (hrun.sound.current name hlast)
  have hall : pendingOf name (history a ops) = recorded :=
    pendingOf_eq_map (session_of_mem_history ops hstays hcurrent)
  have hload : load b.disk directory name = .ok (recorded.map reread) := by
    rw [← hall]
    refine hrun.load_flushed hbase hname (fun r hr => ?_) hflush
    exact hlegible _ (mem_pendingOf.mp hr)
  refine ⟨fun halone => ?_, ?_, hload, ?_⟩
  · refine history_alone ops hstays hcurrent ?_
    rw [hturns]
    exact fun turn hturn => halone turn (List.mem_of_mem_drop hturn)
  · have hpassed := flush_passed (run a ops)
    rw [hflush] at hpassed
    exact hpassed.current.trans hlast
  · rw [hload, Except.ok.injEq]
    exact map_reread_eq_self_iff

/-- Three moments, at the ends of the calendar and with all kinds of offsets. The second flush
fails, and what it could not write is flushed with the third record. -/
theorem flushed_read_back_retried :
    let now : Moment := ⟨2024, 5, 1, 12, 0, 0, 0, some 0⟩
    let name := "2024-05-01_12-00-00.csv"
    let naive : RollRecord := ⟨7, -5, 6, ⟨1, 1, 1, 0, 0, 0, 1, none⟩⟩
    let west : RollRecord := ⟨8, 2, 20, ⟨9999, 12, 31, 23, 59, 59, 999999, some (-19815000000)⟩⟩
    let east : RollRecord := ⟨0, 3, -4, ⟨2024, 2, 29, 6, 7, 8, 0, some 86399999999⟩⟩
    let turns : List Turn := [{}, {}, {}, {}, {}, {}, {}, ⟨[], some .noSpace⟩]
    let ops : List Op := [.record naive, .flush, .record west, .flush, .record east]
    let opened := init now ⟨{ directory := "rolls" }, Disk.blank, turns⟩
    let flushed := flush (run (final opened) ops)
    Vacant Disk.blank "rolls" ∧ opened = .ok name (final opened) ∧
      (∀ later, Op.newSession later ∉ ops) ∧
      (∀ p ∈ history (final opened) ops, IsLegible p.record) ∧
      flushed = .ok false (final flushed) ∧
      load (final flushed).disk "rolls" name = .ok [naive, west, east] := by
  intro now name naive west east turns ops opened flushed
  have hvacant : Vacant Disk.blank "rolls" := vacant_blank "rolls" ⟨by decide, by decide⟩
  have hopened : opened = .ok name (final opened) := eq_ok_of_answer? (by decide +kernel)
  have hstays : ∀ later, Op.newSession later ∉ ops := by simp [ops]
  have hhistory : history (final opened) ops = [naive, west, east].map (⟨name, ·⟩) := by
    decide +kernel
  have hlegible : ∀ p ∈ history (final opened) ops, IsLegible p.record := by
    have hintegers : ∀ r ∈ [naive, west, east], Integer.IsWritable r.roller ∧
        Integer.IsWritable r.result ∧ Integer.IsWritable r.sides ∧ r.time.IsValid := by
      decide +kernel
    rw [hhistory]
    intro p hp
    obtain ⟨r, hr, rfl⟩ := List.mem_map.mp hp
    obtain ⟨hroller, hresult, hsides, htime⟩ := hintegers r hr
    exact ⟨hroller, hresult, hsides, htime⟩
  have hflushed : flushed = .ok false (final flushed) := eq_ok_of_answer? (by decide +kernel)
  obtain ⟨-, -, -, hexact⟩ :=
    flushed_read_back hvacant hopened ops hstays hlegible hflushed
  rw [hhistory] at hexact
  exact ⟨hvacant, hopened, hstays, hlegible, hflushed, hexact.mpr (by decide)⟩

/-- A record whose time is half a second off is loaded as one that is not off at all. -/
theorem half_second_lost :
    let now : Moment := ⟨2024, 5, 1, 12, 0, 0, 0, some 0⟩
    let name := "2024-05-01_12-00-00.csv"
    let time : Moment := ⟨2024, 5, 1, 12, 0, 0, 0, some 500000⟩
    let opened := init now ⟨{ directory := "rolls" }, Disk.blank, []⟩
    let flushed := flush (run (final opened) [.record ⟨7, 5, 6, time⟩])
    opened = .ok name (final opened) ∧ time.IsValid ∧ flushed = .ok false (final flushed) ∧
      (final flushed).log.current = some name ∧
      load (final flushed).disk "rolls" name = .ok [⟨7, 5, 6, { time with offset := some 0 }⟩] ∧
      load (final flushed).disk "rolls" name ≠ .ok [⟨7, 5, 6, time⟩] := by
  intro now name time opened flushed
  have hread : (final flushed).disk.read (Path.join "rolls" name) =
      .ok (rowBytes (header :: [⟨7, 5, 6, time⟩].map row)) := by
    decide +kernel
  have hlegible : IsLegible ⟨7, 5, 6, time⟩ :=
    ⟨by decide +kernel, by decide +kernel, by decide +kernel, by decide⟩
  have hload := load_reread hread (List.forall_mem_singleton.mpr hlegible)
  refine ⟨eq_ok_of_answer? (by decide +kernel), by decide,
    eq_ok_of_answer? (by decide +kernel), by decide +kernel, hload, ?_⟩
  rw [hload]
  decide

end DiceLedger.Session
