import DiceLedger.Proofs.Session.Begin

/-!
# The account of a run

A run is any sequence of records, flushes and new sessions, each of which may fail. Its history
is what was recorded, each record with the session that was current when it came. The account
says for every file where the records of its history are now.
-/
namespace DiceLedger.Session

open DiceLedger.Text DiceLedger.Time

/-- What a log is asked for once it is set up. -/
inductive Op
  | record (r : RollRecord)
  | flush
  | newSession (now : Moment)

/-- The state after an operation, whether it succeeds or not. -/
def Op.step (a : Archive) : Op → Archive
  | .record r => final (recordRoll r a)
  | .flush => final (Session.flush a)
  | .newSession now => final (Session.newSession now a)

/-- The record that an operation itself brings. -/
def Op.own : Op → List RollRecord
  | .record r => [r]
  | .flush | .newSession _ => []

/-- What is recorded in the course of an operation. A session that it begins is current only
after the last of these records. -/
def Op.recorded (a : Archive) (o : Op) : List Pending :=
  a.log.tag (o.own ++ arrivals a (o.step a))

def run (a : Archive) (ops : List Op) : Archive := ops.foldl Op.step a

def history : Archive → List Op → List Pending
  | _, [] => []
  | a, o :: ops => o.recorded a ++ history (o.step a) ops

theorem Op.step_record (r : RollRecord) (a : Archive) :
    (Op.record r).step a = { a with log := a.log.receive [r] } := by
  obtain ⟨⟨directory, current, pending⟩, disk, turns⟩ := a
  cases current <;> rfl

theorem Op.recorded_record (r : RollRecord) (a : Archive) :
    (Op.record r).recorded a = a.log.tag [r] := by
  have hnone : arrivals a ((Op.record r).step a) = [] := by
    rw [arrivals, step_record, Nat.sub_self]
    rfl
  rw [recorded, hnone, List.append_nil]
  rfl

theorem Op.record_advances {a : Archive} {ns : List String} (h : Sound a ns) (r : RollRecord) :
    Advances a ((Op.record r).step a) ns ns (a.log.tag [r]) := by
  rw [step_record, receive_eq]
  refine ⟨⟨h.index, h.isOpen, h.nodup, h.current, fun p hp => ?_⟩, rfl, .refl _,
    fun f _ => ⟨[], rfl, .inl (.refl _)⟩, fun _ => current_of_mem_tag, .inl rfl⟩
  rcases List.mem_append.mp hp with hp | hp
  · exact h.pending p hp
  · exact h.tag_mem hp

theorem Op.flush_advances {a : Archive} {ns : List String} (h : Sound a ns) :
    Advances a (Op.flush.step a) ns ns (Op.flush.recorded a) := by
  obtain ⟨trouble, b, came, hflush, hp, hc, -⟩ :=
    flush_spec fun p hp => h.isOpen _ (h.pending p hp)
  have hstep : Op.flush.step a = b := by rw [Op.step, hflush, final]
  rw [Op.recorded, hstep, hp.arrivals]
  exact .of_sound (h.conserves hp hc) hp hc

/-- **Every operation** takes the log one step on, and accounts for what is recorded in its
course. -/
theorem Op.advances {a : Archive} {ns : List String} (h : Sound a ns) (o : Op) :
    ∃ ns', Advances a (o.step a) ns ns' (o.recorded a) := by
  cases o with
  | record r =>
    rw [Op.recorded_record]
    exact ⟨ns, Op.record_advances h r⟩
  | flush => exact ⟨ns, Op.flush_advances h⟩
  | newSession now =>
    obtain ⟨b, came, hp, ⟨fault, hfault, hadvances⟩ | ⟨name, hok, hadvances⟩⟩ :=
      newSession_spec h now
    · have hstep : (Op.newSession now).step a = b := by rw [Op.step, hfault, final]
      rw [Op.recorded, hstep, hp.arrivals]
      exact ⟨ns, hadvances⟩
    · have hstep : (Op.newSession now).step a = b.resume name := by rw [Op.step, hok, final]
      have harrivals : arrivals a (b.resume name) = came := hp.arrivals
      rw [Op.recorded, hstep, harrivals]
      exact ⟨_, hadvances⟩

/-- The records of a session were recorded before those of the sessions listed after it. -/
def Ordered (ns : List String) (ps : List Pending) : Prop :=
  ps.map (·.record) = ns.flatMap (pendingOf · ps)

theorem pendingOf_eq_nil {f : String} {ps : List Pending} (h : ∀ p ∈ ps, p.session ≠ f) :
    pendingOf f ps = [] := by
  rw [List.eq_nil_iff_forall_not_mem]
  intro r hr
  exact h _ (mem_pendingOf.mp hr) rfl

theorem pendingOf_eq_map {f : String} {ps : List Pending} (h : ∀ p ∈ ps, p.session = f) :
    pendingOf f ps = ps.map (·.record) := by
  have hall : ps.filter (·.session = f) = ps := by
    rw [List.filter_eq_self]
    exact fun p hp => decide_eq_true (h p hp)
  rw [pendingOf, hall]

theorem not_mem_of_nodup_concat {ns : List String} {name : String} (h : (ns ++ [name]).Nodup) :
    name ∉ ns := by
  rw [List.nodup_append] at h
  exact fun hmem => h.2.2 name hmem name List.mem_cons_self rfl

theorem Ordered.append {ns : List String} {ps qs : List Pending} (h : Ordered ns ps)
    (hnodup : ns.Nodup) (hlast : ∀ q ∈ qs, ns.getLast? = some q.session) :
    Ordered ns (ps ++ qs) := by
  rcases List.eq_nil_or_concat ns with rfl | ⟨front, last, rfl⟩
  · have hnone : qs = [] := List.eq_nil_iff_forall_not_mem.mpr fun q hq => by simpa using hlast q hq
    rw [hnone, List.append_nil]
    exact h
  rw [List.concat_eq_append] at h hnodup hlast ⊢
  have hsession (q : Pending) (hq : q ∈ qs) : q.session = last := by
    simpa [eq_comm] using hlast q hq
  -- what is new belongs to the last session
  have hold (f : String) (hf : f ∈ front) : pendingOf f (ps ++ qs) = pendingOf f ps := by
    have hne : last ≠ f := fun he => not_mem_of_nodup_concat hnodup (he ▸ hf)
    have hnone : pendingOf f qs = [] := pendingOf_eq_nil fun q hq => hsession q hq ▸ hne
    rw [pendingOf_append, hnone, List.append_nil]
  have hfront : front.flatMap (pendingOf · (ps ++ qs)) = front.flatMap (pendingOf · ps) := by
    rw [List.flatMap_def, List.map_congr_left hold, List.flatMap_def]
  rw [Ordered, List.flatMap_append, List.flatMap_singleton] at h ⊢
  rw [List.map_append, h, hfront, pendingOf_append, pendingOf_eq_map hsession, List.append_assoc]

theorem Ordered.extend {ns : List String} {ps : List Pending} (h : Ordered ns ps) {name : String}
    (hnew : name ∉ ns) (hmem : ∀ p ∈ ps, p.session ∈ ns) : Ordered (ns ++ [name]) ps := by
  have hnone : pendingOf name ps = [] := pendingOf_eq_nil fun p hp he => hnew (he ▸ hmem p hp)
  rw [Ordered, List.flatMap_append, List.flatMap_singleton, hnone, List.append_nil]
  exact h

/-- Since `base`, where nothing waited, with `came` recorded: each file has got its records in
order, as far as they do not wait. -/
structure Account (base a : Archive) (ns : List String) (came : List Pending) : Prop where
  start : base.log.pending = []
  sound : Sound a ns
  directory : a.log.directory = base.log.directory
  grows : base.disk.Extends a.disk
  came_mem : ∀ p ∈ came, p.session ∈ ns
  ordered : Ordered ns came
  moves : Moves base a ns came

theorem Account.refl {a : Archive} {ns : List String} (h : Sound a ns)
    (hnone : a.log.pending = []) : Account a a ns [] where
  start := hnone
  sound := h
  directory := rfl
  grows := .refl _
  came_mem := nofun
  ordered := by simp [Ordered, pendingOf]
  moves := fun _ _ => ⟨[], by rw [List.append_nil]; rfl, .inl (.refl _)⟩

/-- What has become of one file. -/
theorem Account.filed {base a : Archive} {ns : List String} {came : List Pending}
    (h : Account base a ns came) {f : String} (hf : f ≠ Log.indexName) :
    ∃ rs, rs ++ pendingOf f a.log.pending = pendingOf f came ∧
      Filed (base.held f) (a.held f) (f ∈ ns) rs := by
  obtain ⟨rs, hwait, hfiled⟩ := h.moves f hf
  rw [h.start, List.nil_append] at hwait
  exact ⟨rs, hwait, hfiled⟩

/-- What is listed after a step was listed before, or its file was not there. -/
theorem Advances.mem {a b : Archive} {ns ns' : List String} {came : List Pending}
    (h : Advances a b ns ns' came) {name : String} (hname : name ∈ ns') :
    name ∈ ns ∨ a.held name = none := by
  rcases h.names with rfl | ⟨other, rfl, hnone⟩
  · exact .inl hname
  · rcases List.mem_append.mp hname with hold | hlast
    · exact .inl hold
    · rw [List.mem_singleton.mp hlast]
      exact .inr hnone

theorem Advances.not_mem {a b : Archive} {ns ns' : List String} {came : List Pending}
    (h : Advances a b ns ns' came) {f : String} (hf : f ∉ ns) (hheld : a.held f ≠ none) :
    f ∉ ns' :=
  fun hmem => (h.mem hmem).elim hf hheld

theorem Account.advance {base a b : Archive} {ns ns' : List String} {came came' : List Pending}
    (h : Account base a ns came) (hstep : Advances a b ns ns' came') :
    Account base b ns' (came ++ came') := by
  have hnew : ∀ p ∈ came', ns.getLast? = some p.session :=
    fun p hp => h.sound.current _ (hstep.came_current p hp)
  have hcame : ∀ p ∈ came ++ came', p.session ∈ ns := by
    intro p hp
    rcases List.mem_append.mp hp with hp | hp
    · exact h.came_mem p hp
    · exact List.mem_of_getLast? (hnew p hp)
  have hordered : Ordered ns (came ++ came') := h.ordered.append h.sound.nodup hnew
  have hsound := hstep.sound
  refine ⟨h.start, hsound, hstep.directory.trans h.directory, h.grows.trans hstep.grows,
    ?_, ?_, ?_⟩
  · rcases hstep.names with rfl | ⟨name, rfl, -⟩
    · exact hcame
    · exact fun p hp => List.mem_append_left _ (hcame p hp)
  · rcases hstep.names with rfl | ⟨name, rfl, -⟩
    · exact hordered
    · exact hordered.extend (not_mem_of_nodup_concat hsound.nodup) hcame
  · intro f hf
    obtain ⟨rs, hwait, hfiled⟩ := h.moves f hf
    obtain ⟨rs', hwait', hfiled'⟩ := hstep.moves f hf
    refine ⟨rs ++ rs', ?_, hfiled.trans hfiled' fun hout hheld => ⟨?_, hstep.not_mem hout hheld⟩⟩
    · rw [List.append_assoc, hwait', pendingOf_append, ← List.append_assoc, hwait,
        ← pendingOf_append, List.append_assoc]
    · -- a file that is not listed has no records
      have hquiet : pendingOf f (a.log.pending ++ came') = [] := by
        refine pendingOf_eq_nil fun p hp he => hout (he ▸ ?_)
        rcases List.mem_append.mp hp with hp | hp
        · exact h.sound.pending p hp
        · exact hcame p (List.mem_append_right _ hp)
      rw [hquiet] at hwait'
      exact (List.append_eq_nil_iff.mp hwait').1

/-- **The account is kept along every run.** -/
theorem Account.run {base : Archive} (ops : List Op) :
    ∀ {a : Archive} {ns : List String} {came : List Pending}, Account base a ns came →
      ∃ ns', Account base (run a ops) ns' (came ++ history a ops) := by
  induction ops with
  | nil =>
    intro a ns came h
    exact ⟨ns, by rw [history, List.append_nil]; exact h⟩
  | cons o ops ih =>
    intro a ns came h
    obtain ⟨ns', hstep⟩ := o.advances h.sound
    obtain ⟨ns'', hrest⟩ := ih (h.advance hstep)
    exact ⟨ns'', by rw [history, ← List.append_assoc]; exact hrest⟩

end DiceLedger.Session
