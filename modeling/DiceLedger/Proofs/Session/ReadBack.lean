import DiceLedger.Proofs.Session.Conservation
import DiceLedger.Proofs.Session.Loading

/-!
# Records are read back

A log that is left alone with its directory writes everything at its next flush. Then its
sessions, loaded one after the other, are the records of its history.
-/
namespace DiceLedger.Session

open DiceLedger.Time

/-- A log is at work, and no turns are to come: nobody else uses it, and nothing troubles it. -/
structure Undisturbed (a : Archive) : Prop where
  turns : a.turns = []
  current : a.log.current ≠ none

theorem Passes.undisturbed {a b : Archive} {rs : List RollRecord} (h : Passes a b rs)
    (hu : Undisturbed a) : Undisturbed b := by
  obtain ⟨n, hn, -⟩ := h.turns
  refine ⟨?_, h.current ▸ hu.current⟩
  rw [hn, hu.turns, List.drop_nil]

theorem Undisturbed.resume {a : Archive} (h : Undisturbed a) (name : String) :
    Undisturbed (a.resume name) := ⟨h.turns, nofun⟩

theorem Op.undisturbed {a : Archive} {ns : List String} (h : Sound a ns) (hu : Undisturbed a)
    (o : Op) : Undisturbed (o.step a) := by
  cases o with
  | record r =>
    rw [Op.step_record, receive_eq]
    exact ⟨hu.turns, hu.current⟩
  | flush =>
    obtain ⟨trouble, b, came, hflush, hp, -⟩ := flush_spec fun p hp => h.isOpen _ (h.pending p hp)
    rw [Op.step, hflush]
    exact hp.undisturbed hu
  | newSession now =>
    obtain ⟨b, came, hp, ⟨fault, hfault, -⟩ | ⟨name, hok, -⟩⟩ := newSession_spec h now
    · rw [Op.step, hfault]
      exact hp.undisturbed hu
    · rw [Op.step, hok]
      exact (hp.undisturbed hu).resume name

theorem run_undisturbed (ops : List Op) :
    ∀ {a : Archive} {ns : List String}, Sound a ns → Undisturbed a →
      ∃ ns', Sound (run a ops) ns' ∧ Undisturbed (run a ops) := by
  induction ops with
  | nil => exact fun h hu => ⟨_, h, hu⟩
  | cons o ops ih =>
    intro a ns h hu
    obtain ⟨ns', hstep⟩ := o.advances h
    exact ih hstep.sound (o.undisturbed h hu)

/-- Only the operation itself brings a record. -/
theorem Op.recorded_own {a : Archive} (h : Undisturbed a) (o : Op) :
    o.recorded a = a.log.tag o.own := by
  have hnone : arrivals a (o.step a) = [] := by rw [arrivals, h.turns, List.take_nil]; rfl
  rw [Op.recorded, hnone, List.append_nil]

theorem run_append (a : Archive) (ops ops' : List Op) :
    run a (ops ++ ops') = run (run a ops) ops' := List.foldl_append

theorem history_append (ops ops' : List Op) :
    ∀ a, history a (ops ++ ops') = history a ops ++ history (run a ops) ops' := by
  induction ops with
  | nil => exact fun a => rfl
  | cons o ops ih =>
    intro a
    rw [List.cons_append, history, ih, history, List.append_assoc]
    rfl

theorem run_record (rs : List RollRecord) :
    ∀ a : Archive, run a (rs.map .record) = { a with log := a.log.receive rs } := by
  induction rs with
  | nil =>
    intro a
    rw [receive_nil]
    rfl
  | cons r rs ih =>
    intro a
    rw [List.map_cons, run, List.foldl_cons, Op.step_record]
    exact (ih _).trans (by rw [receive_append, List.singleton_append])

theorem history_record (rs : List RollRecord) :
    ∀ a : Archive, history a (rs.map .record) = a.log.tag rs := by
  induction rs with
  | nil =>
    intro a
    rw [tag_nil]
    rfl
  | cons r rs ih =>
    intro a
    rw [List.map_cons, history, Op.recorded_record, Op.step_record, ih, tag_receive, ← tag_append,
      List.singleton_append]

/-- Of the records of a listed session of a directory that was empty, its file is loaded as those
that do not wait. -/
theorem Account.load_written {base a : Archive} {ns : List String} {came : List Pending}
    (h : Account base a ns came) (hbase : ∀ f, base.held f = none) {name : String}
    (hname : name ∈ ns) :
    ∃ written, written ++ pendingOf name a.log.pending = pendingOf name came ∧
      ((∀ r ∈ written, IsLegible r) →
        Session.load a.disk a.log.directory name = .ok (written.map reread)) := by
  obtain ⟨hsession, hkept⟩ := h.sound.isOpen name hname
  obtain ⟨c, hread, hheld⟩ := hkept.read hsession.isName
  obtain ⟨rs, hwait, hrows⟩ := h.filed hsession.ne_index
  refine ⟨rs, hwait, fun hw => ?_⟩
  rcases hrows with ⟨hgain, -⟩ | ⟨-, hheader | ⟨hout, -⟩⟩
  · rw [hbase name, hheld] at hgain
    cases hgain
  · rw [hheld, Option.some.injEq] at hheader
    rw [hheader] at hread
    exact load_reread hread hw
  · exact absurd hname hout

/-- Where nothing waits for a listed session of a directory that was empty, its file is loaded as
the records of the session. -/
theorem Account.load {base a : Archive} {ns : List String} {came : List Pending}
    (h : Account base a ns came) (hbase : ∀ f, base.held f = none) (hnone : a.log.pending = [])
    (hw : ∀ p ∈ came, IsWritable p.record) {name : String} (hname : name ∈ ns) :
    Session.load a.disk a.log.directory name = .ok (pendingOf name came) := by
  obtain ⟨rs, hwait, hload⟩ := h.load_written hbase hname
  rw [hnone, pendingOf, List.filter_nil, List.map_nil, List.append_nil] at hwait
  subst hwait
  have hall : ∀ r ∈ pendingOf name came, IsWritable r := fun r hr => hw _ (mem_pendingOf.mp hr)
  rw [hload fun r hr => (hall r hr).legible, map_reread_of_isWritable hall]

theorem Account.flush {base a : Archive} {ns : List String} {came : List Pending}
    (h : Account base a ns came) (hu : Undisturbed a) :
    ∃ b, Session.flush a = .ok false b ∧ Account base b ns came ∧ b.log.pending = [] ∧
      Session.sessions b = .ok ns := by
  obtain ⟨trouble, b, arrived, hflush, hp, hc, hfine⟩ :=
    flush_spec fun p hp => h.sound.isOpen _ (h.sound.pending p hp)
  have harrived : arrived = [] := by
    obtain ⟨n, -, hn⟩ := hp.turns
    rw [hn, hu.turns, List.take_nil]
    rfl
  have huntroubled : Untroubled a := by rw [Untroubled, hu.turns]; exact nofun
  obtain ⟨rfl, hpending⟩ := hfine huntroubled
  have hb := h.advance (.of_sound (h.sound.conserves hp hc) hp hc)
  rw [harrived, tag_nil] at hpending hb
  rw [List.append_nil] at hb
  refine ⟨b, hflush, hb, hpending, ?_⟩
  rcases hb.sound.sessions with ⟨rfl, -⟩ | hsessions
  · obtain ⟨name, hname⟩ := Option.ne_none_iff_exists'.mp (hp.undisturbed hu).current
    cases hb.sound.current name hname
  · exact hsessions

theorem init_opened {d : Disk} {directory name : String} {turns : List Turn} {now : Moment}
    {a : Archive} (hvacant : Vacant d directory)
    (hinit : init now ⟨{ directory }, d, turns⟩ = .ok name a) :
    ∃ ns, Account ⟨{ directory }, d, turns⟩ a ns [] ∧ a.log.current = some name ∧
      ∃ n, a.turns = turns.drop n := by
  have hstart := Sound.of_vacant hvacant turns
  obtain ⟨ns, hstep, hcurrent, -, hturns⟩ := init_new hstart rfl rfl hinit
  exact ⟨ns, (Account.refl hstart rfl).advance hstep, hcurrent, hturns⟩

theorem init_account {d : Disk} {directory name : String} {now : Moment} {a : Archive}
    (hvacant : Vacant d directory) (hinit : init now ⟨{ directory }, d, []⟩ = .ok name a) :
    ∃ ns, Account ⟨{ directory }, d, []⟩ a ns [] ∧ Undisturbed a := by
  obtain ⟨ns, haccount, hcurrent, n, hturns⟩ := init_opened hvacant hinit
  exact ⟨ns, haccount, by rw [hturns, List.drop_nil], by simp [hcurrent]⟩

/-- **What is recorded is read back.** Let a log be set up in an empty directory and be left alone.
After any run and one more flush, the sessions that are listed, loaded one after the other, are
the records of the run in order; and each session has those for which it was the current one. -/
theorem history_read_back {d : Disk} {directory name : String} {now : Moment} {a : Archive}
    (hvacant : Vacant d directory) (hinit : init now ⟨{ directory }, d, []⟩ = .ok name a)
    (ops : List Op) (hw : ∀ p ∈ history a ops, IsWritable p.record) :
    ∃ b ns, flush (run a ops) = .ok false b ∧ sessions b = .ok ns ∧
      (∀ f ∈ ns, load b.disk directory f = .ok (pendingOf f (history a ops))) ∧
      (history a ops).map (·.record) = ns.flatMap (pendingOf · (history a ops)) := by
  obtain ⟨ns, hfirst, hundisturbed⟩ := init_account hvacant hinit
  obtain ⟨ns', hrun⟩ := Account.run ops hfirst
  obtain ⟨-, -, hlast⟩ := run_undisturbed ops hfirst.sound hundisturbed
  obtain ⟨b, hflush, hb, hnone, hsessions⟩ := hrun.flush hlast
  rw [List.nil_append] at hb
  have hdirectory : b.log.directory = directory := hb.directory
  have hbase (f : String) : Archive.held ⟨{ directory }, d, []⟩ f = none := hvacant f
  refine ⟨b, ns', hflush, hsessions, fun f hf => ?_, hb.ordered⟩
  rw [← hdirectory]
  exact hb.load hbase hnone hw hf

end DiceLedger.Session
