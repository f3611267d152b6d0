import DiceLedger.Proofs.Session.Naming

/-!
# One operation after the other

An operation on files uses up one turn. Whatever becomes of it, the records that came in with
the turn wait behind those that waited already, and the disk is as it was or as the operation
left it.
-/
namespace DiceLedger.Session

/-- Records with the session that is current. -/
def Log.tag (log : Log) (rs : List RollRecord) : List Pending :=
  match log.current with
  | none => []
  | some session => rs.map (⟨session, ·⟩)

theorem receive_eq (log : Log) (rs : List RollRecord) :
    log.receive rs = { log with pending := log.pending ++ log.tag rs } := by
  obtain ⟨directory, current, pending⟩ := log
  cases current <;> simp [Log.receive, Log.tag]

theorem tag_append (log : Log) (rs rs' : List RollRecord) :
    log.tag (rs ++ rs') = log.tag rs ++ log.tag rs' := by
  rw [Log.tag, Log.tag, Log.tag]
  split
  · rfl
  · rw [List.map_append]

theorem tag_congr {log log' : Log} (h : log'.current = log.current) (rs : List RollRecord) :
    log'.tag rs = log.tag rs := by
  rw [Log.tag, Log.tag, h]

@[simp] theorem tag_nil (log : Log) : log.tag [] = [] := by
  rw [Log.tag]
  split <;> rfl

theorem receive_nil (log : Log) : log.receive [] = log := by
  rw [receive_eq, tag_nil, List.append_nil]

theorem tag_receive (log : Log) (rs rs' : List RollRecord) :
    (log.receive rs).tag rs' = log.tag rs' := tag_congr (by rw [receive_eq]) rs'

theorem receive_append (log : Log) (rs rs' : List RollRecord) :
    (log.receive rs).receive rs' = log.receive (rs ++ rs') := by
  rw [receive_eq (log.receive rs), tag_receive, receive_eq, receive_eq, tag_append,
    List.append_assoc]

theorem current_of_mem_tag {log : Log} {rs : List RollRecord} {p : Pending}
    (hp : p ∈ log.tag rs) : log.current = some p.session := by
  rw [Log.tag] at hp
  split at hp
  · cases hp
  · next name hcurrent =>
    obtain ⟨r, -, rfl⟩ := List.mem_map.mp hp
    exact hcurrent

/-- From `a` to `b` some turns were used up, which brought the records `rs`; the disk has only
grown, and the log is that of the same directory and session. -/
structure Passes (a b : Archive) (rs : List RollRecord) : Prop where
  directory : b.log.directory = a.log.directory
  current : b.log.current = a.log.current
  grows : a.disk.Extends b.disk
  turns : ∃ n, b.turns = a.turns.drop n ∧ rs = (a.turns.take n).flatMap (·.arrivals)

theorem Passes.refl (a : Archive) : Passes a a [] :=
  ⟨rfl, rfl, .refl _, 0, by simp, by simp⟩

theorem Passes.trans {a b c : Archive} {rs rs' : List RollRecord} (h : Passes a b rs)
    (h' : Passes b c rs') : Passes a c (rs ++ rs') := by
  obtain ⟨n, hn, hrs⟩ := h.turns
  obtain ⟨m, hm, hrs'⟩ := h'.turns
  refine ⟨h'.directory.trans h.directory, h'.current.trans h.current, h.grows.trans h'.grows,
    n + m, ?_, ?_⟩
  · rw [hm, hn, List.drop_drop]
  · rw [hrs, hrs', hn, List.take_add, List.flatMap_append]

def arrivals (a b : Archive) : List RollRecord :=
  (a.turns.take (a.turns.length - b.turns.length)).flatMap (·.arrivals)

theorem Passes.arrivals {a b : Archive} {rs : List RollRecord} (h : Passes a b rs) :
    arrivals a b = rs := by
  obtain ⟨n, hn, rfl⟩ := h.turns
  have htake : a.turns.take (a.turns.length - (a.turns.length - n)) = a.turns.take n := by
    by_cases hle : n ≤ a.turns.length
    · rw [Nat.sub_sub_self hle]
    · rw [List.take_of_length_le (by omega), List.take_of_length_le (by omega)]
  rw [Session.arrivals, hn, List.length_drop, htake]

theorem Passes.tag {a b : Archive} {rs : List RollRecord} (h : Passes a b rs)
    (rs' : List RollRecord) : b.log.tag rs' = a.log.tag rs' := tag_congr h.current rs'

/-! ## Files -/

def Archive.place (a : Archive) (name : String) : Place :=
  a.disk.target a.log.directory ++ [name]

def Archive.held (a : Archive) (name : String) : Option ByteArray :=
  a.disk.content (a.place name)

/-- A file in the log's directory can be read. -/
def Kept (a : Archive) (name : String) : Prop := ∃ c, a.disk.read (a.log.path name) = .ok c

theorem Passes.place {a b : Archive} {rs : List RollRecord} (h : Passes a b rs) (name : String) :
    b.place name = a.place name := by
  rw [Archive.place, Archive.place, h.directory, h.grows.target]

theorem Passes.path {a b : Archive} {rs : List RollRecord} (h : Passes a b rs) (name : String) :
    b.log.path name = a.log.path name := by
  rw [Log.path, Log.path, h.directory]

theorem place_inj {a : Archive} {x y : String} (h : a.place x = a.place y) : x = y := by
  simpa [Archive.place] using h

theorem kept_iff {a : Archive} {name : String} (hname : Path.IsName name) :
    Kept a name ↔ ∃ c, a.disk.place? (a.log.path name) = .ok (a.place name) ∧
      a.held name = some c := by
  refine exists_congr fun c => ?_
  rw [Disk.read_eq_ok_iff]
  constructor
  · rintro ⟨place, hplace, hc⟩
    have htarget := Disk.target_of_place? hplace
    rw [Log.path, Disk.target_join _ _ hname] at htarget
    subst htarget
    exact ⟨hplace, hc⟩
  · rintro ⟨hplace, hc⟩
    exact ⟨_, hplace, hc⟩

theorem Kept.read {a : Archive} {name : String} (hname : Path.IsName name) (h : Kept a name) :
    ∃ c, a.disk.read (a.log.path name) = .ok c ∧ a.held name = some c := by
  obtain ⟨c, hplace, hc⟩ := (kept_iff hname).mp h
  exact ⟨c, Disk.read_eq_ok_iff.mpr ⟨_, hplace, hc⟩, hc⟩

theorem Passes.kept {a b : Archive} {rs : List RollRecord} (h : Passes a b rs) {name : String}
    (hk : Kept a name) : Kept b name := by
  obtain ⟨c, hc⟩ := hk
  obtain ⟨place, hplace, hcontent⟩ := Disk.read_eq_ok_iff.mp hc
  obtain ⟨more, hmore⟩ := h.grows.file place c hcontent
  refine ⟨c ++ more, Disk.read_eq_ok_iff.mpr ⟨place, ?_, hmore⟩⟩
  rw [Log.path, h.directory]
  exact h.grows.place? hplace

/-! ## Attempts -/

theorem step_eq_ok_iff {f : Disk → Except DiskFault Disk} {d d' : Disk} :
    Disk.step f d = .ok () d' ↔ f d = .ok d' := by
  rw [Disk.step]
  cases f d <;> simp

theorem step_eq_error_iff {f : Disk → Except DiskFault Disk} {d d' : Disk} {fault : DiskFault} :
    Disk.step f d = .error fault d' ↔ f d = .error fault ∧ d = d' := by
  rw [Disk.step]
  cases f d <;> simp

/-- The three ways in which an attempt can end: by the trouble that the turn brings, or as the
change itself does. -/
theorem attempt_cases {path : String} {change : Disk.Change} {a b : Archive}
    {out : Except DiskFault Unit} (h : attempt path change a = (out, b)) :
    (∃ turn ∈ a.turns, ∃ t, turn.failure = some t ∧
        out = .error (.system (.trouble t) path) ∧ b.disk = a.disk) ∨
      (out = .ok () ∧ change a.disk = .ok () b.disk) ∨
      ∃ fault, out = .error fault ∧ change a.disk = .error fault b.disk := by
  simp only [attempt] at h
  split at h
  · next t hfailure =>
    cases h
    cases hturns : a.turns with
    | nil => simp [hturns] at hfailure
    | cons turn rest =>
      refine .inl ⟨turn, List.mem_cons_self, t, ?_, rfl, rfl⟩
      simpa [hturns] using hfailure
  · split at h
    · next hok =>
      cases h
      exact .inr (.inl ⟨rfl, hok⟩)
    · next fault _ herror =>
      cases h
      exact .inr (.inr ⟨fault, rfl, herror⟩)

/-- Between two states nothing befell the log but that records came in, which now wait. -/
structure Waits (a b : Archive) (rs : List RollRecord) : Prop extends Passes a b rs where
  pending : b.log.pending = a.log.pending ++ a.log.tag rs

theorem Waits.trans {a b c : Archive} {rs rs' : List RollRecord} (h : Waits a b rs)
    (h' : Waits b c rs') : Waits a c (rs ++ rs') := by
  refine ⟨h.toPasses.trans h'.toPasses, ?_⟩
  rw [h'.pending, h.pending, h.toPasses.tag, tag_append, List.append_assoc]

theorem Waits.held_eq {a b : Archive} {rs : List RollRecord} (h : Waits a b rs)
    (hdisk : b.disk = a.disk) (f : String) : b.held f = a.held f := by
  rw [Archive.held, h.place, hdisk, Archive.held]

/-- An attempt uses up the next turn, whatever becomes of it. -/
theorem attempt_turn {path : String} {change : Disk.Change} {a b : Archive}
    {out : Except DiskFault Unit} (h : attempt path change a = (out, b)) :
    b.log = a.log.receive (a.turns.head?.getD {}).arrivals ∧ b.turns = a.turns.tail := by
  simp only [attempt] at h
  split at h
  · cases h
    exact ⟨rfl, rfl⟩
  · split at h <;> cases h <;> exact ⟨rfl, rfl⟩

/-- What an attempt does to the log, and to the disk if its change only adds. -/
theorem attempt_waits {path : String} {change : Disk.Change} {a b : Archive}
    {out : Except DiskFault Unit} (h : attempt path change a = (out, b))
    (hgrows : a.disk.Extends (final (change a.disk))) : ∃ rs, Waits a b rs := by
  obtain ⟨hlog, hturns⟩ := attempt_turn h
  rw [receive_eq] at hlog
  refine ⟨(a.turns.head?.getD {}).arrivals,
    ⟨⟨by rw [hlog], by rw [hlog], ?_, 1, by rw [hturns, List.drop_one], ?_⟩, by rw [hlog]⟩⟩
  · rcases attempt_cases h with ⟨-, -, -, -, -, hdisk⟩ | ⟨-, hok⟩ | ⟨fault, -, herror⟩
    · rw [hdisk]
      exact .refl _
    · rw [hok] at hgrows
      exact hgrows
    · rw [herror] at hgrows
      exact hgrows
  · cases a.turns <;> simp

theorem extends_step {d : Disk} {f : Disk → Except DiskFault Disk}
    (h : ∀ d', f d = .ok d' → d.Extends d') : d.Extends (final (Disk.step f d)) := by
  rw [Disk.step]
  split
  · next d' hd => exact h d' hd
  · exact .refl d

/-- An attempt to rewrite one file of the directory. It is not done at all, because the turn
brought trouble or the change itself failed; or it is done as a whole. -/
theorem attempt_rewrite {f : Disk → Except DiskFault Disk} {a b : Archive} {name : String}
    {c : ByteArray} {out : Except DiskFault Unit} (hname : Path.IsName name)
    (hspec : ∀ d', f a.disk = .ok d' → a.disk.Rewrites d' a.log.directory name c)
    (h : attempt (a.log.path name) (Disk.step f) a = (out, b)) :
    ∃ rs, Waits a b rs ∧ (∀ other, other ≠ name → b.held other = a.held other) ∧
      ((∃ fault, out = .error fault ∧ b.held name = a.held name ∧
          ((∃ turn ∈ a.turns, turn.failure ≠ none ∧ ∃ error path, fault = .system error path) ∨
            f a.disk = .error fault)) ∨
        (out = .ok () ∧ f a.disk = .ok b.disk ∧ b.held name = some c ∧ Kept b name)) := by
  obtain ⟨rs, hwaits⟩ := attempt_waits h (extends_step fun d' hd => (hspec d' hd).grows)
  have hplace (other : String) : b.place other = a.place other := hwaits.place other
  refine ⟨rs, hwaits, ?_⟩
  have hsame (hdisk : b.disk = a.disk) (other : String) : b.held other = a.held other := by
    rw [Archive.held, hplace, hdisk, Archive.held]
  rcases attempt_cases h with ⟨turn, hturn, t, ht, hout, hdisk⟩ | ⟨hout, hok⟩ | ⟨fault, hout, herror⟩
  · exact ⟨fun other _ => hsame hdisk other, .inl ⟨_, hout, hsame hdisk name,
      .inl ⟨turn, hturn, by simp [ht], _, _, rfl⟩⟩⟩
  · obtain ⟨hreached, hgrows, hcontent, hframe⟩ := hspec b.disk (step_eq_ok_iff.mp hok)
    have hheld : b.held name = some c := by
      rw [Archive.held, hplace]
      exact hcontent
    refine ⟨fun other hne => ?_, .inr ⟨hout, step_eq_ok_iff.mp hok, hheld, (kept_iff hname).mpr ⟨c, ?_, hheld⟩⟩⟩
    · rw [Archive.held, hplace, Disk.content, hframe _ fun he => hne (place_inj he)]
      rfl
    · rw [Log.path, hwaits.directory, hplace]
      exact hgrows.place? hreached
  · obtain ⟨herror, hdisk⟩ := step_eq_error_iff.mp herror
    exact ⟨fun other _ => hsame hdisk.symm other,
      .inl ⟨fault, hout, hsame hdisk.symm name, .inr herror⟩⟩

end DiceLedger.Session
