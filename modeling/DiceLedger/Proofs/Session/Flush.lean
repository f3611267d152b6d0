import DiceLedger.Proofs.Session.Turns

/-!
# What a flush does to the records that wait

A flush takes every record that waits to the end of its session's file, or leaves it waiting
ahead of what comes in meanwhile. The account is kept file by file: what was written to a file,
followed by what waits for it, is what waited for it before and what came in.
-/
namespace DiceLedger.Session

open DiceLedger.Text

/-- The records that wait for a file. -/
def pendingOf (f : String) (ps : List Pending) : List RollRecord :=
  (ps.filter (·.session = f)).map (·.record)

theorem pendingOf_append (f : String) (ps qs : List Pending) :
    pendingOf f (ps ++ qs) = pendingOf f ps ++ pendingOf f qs := by
  simp [pendingOf]

theorem mem_pendingOf {f : String} {r : RollRecord} {ps : List Pending} :
    r ∈ pendingOf f ps ↔ ⟨f, r⟩ ∈ ps := by
  simp only [pendingOf, List.mem_map, List.mem_filter, decide_eq_true_eq]
  constructor
  · rintro ⟨⟨session, record⟩, ⟨hp, rfl⟩, rfl⟩
    exact hp
  · intro h
    exact ⟨_, ⟨h, rfl⟩, rfl⟩

theorem pendingOf_marked (f s : String) (rs : List RollRecord) :
    pendingOf f (rs.map (⟨s, ·⟩)) = if f = s then rs else [] := by
  by_cases h : f = s
  · subst h
    simp [pendingOf, List.filter_map, Function.comp_def]
  · simp [pendingOf, List.filter_map, Function.comp_def, h, Ne.symm h]

/-! ## Rows at the end of a file -/

theorem rowBytes_append (xs ys : List Csv.Row) :
    rowBytes (xs ++ ys) = rowBytes xs ++ rowBytes ys := by
  rw [rowBytes, List.flatMap_append, Utf8.write_append, rowBytes, rowBytes]

theorem rowBytes_nil : rowBytes [] = .empty := rfl

/-- Between two states of a file, the rows of records were written at its end. A file that is
not there gets none. -/
def Appended (before after : Option ByteArray) (rs : List RollRecord) : Prop :=
  after = before.map (· ++ rowBytes (rs.map row)) ∧ (before = none → rs = [])

theorem Appended.refl (content : Option ByteArray) : Appended content content [] := by
  refine ⟨?_, fun _ => rfl⟩
  cases content <;> simp [rowBytes_nil]

theorem Appended.trans {x y z : Option ByteArray} {rs rs' : List RollRecord}
    (h : Appended x y rs) (h' : Appended y z rs') : Appended x z (rs ++ rs') := by
  obtain ⟨rfl, hrs⟩ := h
  obtain ⟨rfl, hrs'⟩ := h'
  cases x with
  | none =>
    rw [hrs rfl, hrs' rfl]
    exact .refl none
  | some c =>
    refine ⟨?_, nofun⟩
    simp [rowBytes_append, ByteArray.append_assoc]

theorem Appended.eq_of_nil {x y : Option ByteArray} (h : Appended x y []) : y = x := by
  rw [h.1]
  cases x <;> simp [rowBytes_nil]

/-- From `a` to `b`, with `came` put behind what waited, no record was lost, doubled, brought
out of order or moved to another file. -/
def Conserves (a b : Archive) (came : List Pending) : Prop :=
  ∀ f, ∃ rs, Appended (a.held f) (b.held f) rs ∧
    rs ++ pendingOf f b.log.pending = pendingOf f (a.log.pending ++ came)

theorem Conserves.trans {a b c : Archive} {came came' : List Pending} (h : Conserves a b came)
    (h' : Conserves b c came') : Conserves a c (came ++ came') := by
  intro f
  obtain ⟨rs, hrs, hwait⟩ := h f
  obtain ⟨rs', hrs', hwait'⟩ := h' f
  refine ⟨rs ++ rs', hrs.trans hrs', ?_⟩
  calc rs ++ rs' ++ pendingOf f c.log.pending
      = rs ++ pendingOf f b.log.pending ++ pendingOf f came' := by
        rw [List.append_assoc, hwait', pendingOf_append, List.append_assoc]
    _ = pendingOf f (a.log.pending ++ (came ++ came')) := by
        rw [hwait]
        simp only [pendingOf_append, List.append_assoc]

/-- Files that nothing waits for and nothing comes in for are left alone. -/
theorem Conserves.held_eq {a b : Archive} {came : List Pending} (h : Conserves a b came)
    {f : String} (hf : ∀ p ∈ a.log.pending ++ came, p.session ≠ f) :
    b.held f = a.held f ∧ pendingOf f b.log.pending = [] := by
  obtain ⟨rs, hrs, hwait⟩ := h f
  have hnone : pendingOf f (a.log.pending ++ came) = [] := by
    rw [List.eq_nil_iff_forall_not_mem]
    intro r hr
    exact hf _ (mem_pendingOf.mp hr) rfl
  rw [hnone, List.append_eq_nil_iff] at hwait
  obtain ⟨rfl, hpending⟩ := hwait
  exact ⟨hrs.eq_of_nil, hpending⟩

/-- What waits at the end waited before or came in. -/
theorem Conserves.session_mem {a b : Archive} {came : List Pending} (h : Conserves a b came)
    {p : Pending} (hp : p ∈ b.log.pending) : p ∈ a.log.pending ++ came := by
  obtain ⟨rs, -, hwait⟩ := h p.session
  have hmem : p.record ∈ rs ++ pendingOf p.session b.log.pending :=
    List.mem_append_right rs (mem_pendingOf.mpr hp)
  rw [hwait] at hmem
  exact mem_pendingOf.mp hmem

/-! ## Groups -/

def rowsOf (f : String) (gs : List (String × List RollRecord)) : List RollRecord :=
  (gs.filter (·.1 = f)).flatMap (·.2)

theorem rowsOf_cons (f s : String) (rs : List RollRecord) (gs : List (String × List RollRecord)) :
    rowsOf f ((s, rs) :: gs) = (if f = s then rs else []) ++ rowsOf f gs := by
  by_cases h : f = s
  · subst h
    simp [rowsOf]
  · simp [rowsOf, h, Ne.symm h]

theorem rowsOf_eq_nil {f : String} {gs : List (String × List RollRecord)}
    (h : f ∉ gs.map (·.1)) : rowsOf f gs = [] := by
  have hnone : gs.filter (·.1 = f) = [] := by
    rw [List.filter_eq_nil_iff]
    intro g hg
    simp only [decide_eq_true_eq]
    rintro rfl
    exact h (List.mem_map_of_mem hg)
  rw [rowsOf, hnone, List.flatMap_nil]

theorem nodup_eraseDups (xs : List String) : xs.eraseDups.Nodup := by
  induction h : xs.length using Nat.strongRecOn generalizing xs with
  | _ n ih =>
    cases xs with
    | nil => simp
    | cons x xs =>
      subst h
      rw [List.eraseDups_cons, List.nodup_cons]
      refine ⟨by simp [List.mem_eraseDups], ih _ ?_ _ rfl⟩
      exact Nat.lt_succ_of_le (List.length_filter_le _ xs)

theorem map_fst_groups (batch : List Pending) :
    (groups batch).map (·.1) = (batch.map (·.session)).eraseDups := by
  simp [groups, Function.comp_def]

theorem nodup_groups (batch : List Pending) : ((groups batch).map (·.1)).Nodup := by
  rw [map_fst_groups]
  exact nodup_eraseDups _

theorem mem_groups {batch : List Pending} {f : String} :
    f ∈ (groups batch).map (·.1) ↔ ∃ p ∈ batch, p.session = f := by
  rw [map_fst_groups, List.mem_eraseDups, List.mem_map]

theorem rowsOf_of_mem {f : String} {rs : List RollRecord} {gs : List (String × List RollRecord)}
    (hnodup : (gs.map (·.1)).Nodup) (h : (f, rs) ∈ gs) : rowsOf f gs = rs := by
  induction gs with
  | nil => cases h
  | cons g gs ih =>
    obtain ⟨s, rs'⟩ := g
    rw [List.map_cons, List.nodup_cons] at hnodup
    rw [rowsOf_cons]
    rcases List.mem_cons.mp h with heq | hmem
    · cases heq
      rw [if_pos rfl, rowsOf_eq_nil hnodup.1, List.append_nil]
    · have hne : f ≠ s := by
        rintro rfl
        exact hnodup.1 (List.mem_map.mpr ⟨(f, rs), hmem, rfl⟩)
      rw [if_neg hne, List.nil_append, ih hnodup.2 hmem]

/-- The groups have each file's records, in their order. -/
theorem rowsOf_groups (f : String) (batch : List Pending) :
    rowsOf f (groups batch) = pendingOf f batch := by
  by_cases h : ∃ p ∈ batch, p.session = f
  · have hmem : (f, pendingOf f batch) ∈ groups batch :=
      List.mem_map.mpr ⟨f, by simpa [List.mem_eraseDups] using h, rfl⟩
    exact rowsOf_of_mem (nodup_groups batch) hmem
  · rw [rowsOf_eq_nil (fun hf => h (mem_groups.mp hf)), eq_comm, List.eq_nil_iff_forall_not_mem]
    intro r hr
    exact h ⟨_, mem_pendingOf.mp hr, rfl⟩

/-! ## Writing -/

/-- Writing records of a session whose file is there: they are written, or the trouble of a
turn keeps them from it and the file stays as it was. -/
theorem attempt_append {a b : Archive} {s : String} (hname : Path.IsName s) (hkept : Kept a s)
    {rs : List RollRecord} {out : Except DiskFault Unit}
    (h : attempt (a.log.path s) (a.log.appendRows s rs) a = (out, b)) :
    ∃ came, Waits a b came ∧ (∀ f, f ≠ s → b.held f = a.held f) ∧
      ((out = .ok () ∧ Appended (a.held s) (b.held s) rs) ∨
        (∃ error path, out = .error (.system error path)) ∧ b.held s = a.held s ∧
          ∃ turn ∈ a.turns, turn.failure ≠ none) := by
  obtain ⟨came, hwaits, hframe, hout⟩ :=
    attempt_rewrite hname (fun d' hd => Disk.append_spec hname hd) h
  refine ⟨came, hwaits, hframe, ?_⟩
  obtain ⟨c, hc⟩ := hkept
  rcases hout with ⟨fault, rfl, hheld, htrouble | herror⟩ | ⟨rfl, -, hheld, -⟩
  · obtain ⟨turn, hturn, hfailure, error, path, rfl⟩ := htrouble
    exact .inr ⟨⟨error, path, rfl⟩, hheld, turn, hturn, hfailure⟩
  · -- the file is there, so only the turn can keep it from being written
    obtain ⟨d', hd'⟩ := Disk.append_of_read hc (rowBytes (rs.map row))
    rw [hd'] at herror
    cases herror
  · obtain ⟨c, -, hc⟩ := (kept_iff hname).mp ⟨c, hc⟩
    refine .inl ⟨rfl, ?_, by simp [hc]⟩
    rw [hheld, hc]
    rw [Archive.held, Archive.place] at hc
    rw [hc]
    rfl

/-- No turn brings trouble. -/
def Untroubled (a : Archive) : Prop := ∀ turn ∈ a.turns, turn.failure = none

theorem not_untroubled {a : Archive} {turn : Turn} (hturn : turn ∈ a.turns) {t : Trouble}
    (ht : turn.failure = some t) : ¬Untroubled a := by
  intro ha
  rw [ha turn hturn] at ht
  cases ht

theorem Passes.untroubled {a b : Archive} {rs : List RollRecord} (h : Passes a b rs)
    (ha : Untroubled a) : Untroubled b := by
  obtain ⟨n, hn, -⟩ := h.turns
  intro turn hturn
  rw [hn] at hturn
  exact ha turn (List.mem_of_mem_drop hturn)

/-- A name that a session can be given, with its file in the log's directory. -/
def IsOpen (a : Archive) (name : String) : Prop := IsSessionName name ∧ Kept a name

theorem Passes.isOpen {a b : Archive} {rs : List RollRecord} (h : Passes a b rs) {name : String}
    (ho : IsOpen a name) : IsOpen b name := ⟨ho.1, h.kept ho.2⟩

/-- Behind the first group the others are written, unless the work ends there. -/
theorem final_writeGroups {a mid : Archive} {s : String} {rs : List RollRecord}
    {out : Except DiskFault Unit}
    (h : attempt (a.log.path s) (a.log.appendRows s rs) a = (out, mid))
    (gs : List (String × List RollRecord)) :
    final (writeGroups ((s, rs) :: gs) a) = mid ∨
      final (writeGroups ((s, rs) :: gs) a) = final (writeGroups gs mid) := by
  simp only [writeGroups, h]
  cases out with
  | ok _ => exact .inr rfl
  | error fault =>
    cases fault with
    | nullInPath => exact .inl rfl
    | system error path =>
      right
      dsimp only
      cases writeGroups gs mid <;> rfl

/-- Writing groups leads only where attempt after attempt can lead. -/
theorem writeGroups_leads {R : Archive → Archive → Prop} (hrefl : ∀ a, R a a)
    (htrans : ∀ {a b c}, R a b → R b c → R a c)
    (hstep : ∀ {a mid s rs out},
      attempt (a.log.path s) (a.log.appendRows s rs) a = (out, mid) → R a mid)
    (gs : List (String × List RollRecord)) : ∀ a, R a (final (writeGroups gs a)) := by
  induction gs with
  | nil => exact hrefl
  | cons g gs ih =>
    intro a
    obtain ⟨s, rs⟩ := g
    rcases hattempt : attempt (a.log.path s) (a.log.appendRows s rs) a with ⟨out, mid⟩
    rcases final_writeGroups hattempt gs with hfinal | hfinal
    · rw [hfinal]
      exact hstep hattempt
    · rw [hfinal]
      exact htrans (hstep hattempt) (ih mid)

/-- A flush writes the groups of what waits, and then only puts together what waits on. -/
theorem final_flush (a : Archive) :
    let written := final (writeGroups (groups a.log.pending)
      { a with log := { a.log with pending := [] } })
    ∃ waiting, final (flush a) =
      { written with log := { written.log with pending := waiting } } := by
  intro written
  rw [flush, run_of_ok (run_get a), run_of_ok (run_modify _ a)]
  cases hwrite : writeGroups (groups a.log.pending)
      { a with log := { a.log with pending := [] } } with
  | error fault b =>
    have hwritten : written = b := congrArg final hwrite
    rw [run_of_error hwrite, hwritten]
    exact ⟨b.log.pending, rfl⟩
  | ok failed b =>
    have hwritten : written = b := congrArg final hwrite
    rw [run_of_ok hwrite, hwritten]
    exact ⟨failed ++ b.log.pending, rfl⟩

/-- Groups of different sessions, one written after the other. What could not be written is
returned in order; a group is written as a whole or not at all. -/
theorem writeGroups_spec (gs : List (String × List RollRecord)) :
    ∀ {a : Archive}, (gs.map (·.1)).Nodup → (∀ g ∈ gs, IsOpen a g.1) →
      ∃ failed b came, writeGroups gs a = .ok failed b ∧ Waits a b came ∧
        (∀ f, ∃ rs, Appended (a.held f) (b.held f) rs ∧
          rs ++ pendingOf f failed = rowsOf f gs) ∧
        (Untroubled a → failed = []) := by
  induction gs with
  | nil =>
    intro a _ _
    exact ⟨[], a, [], rfl, ⟨.refl a, by simp⟩, fun f => ⟨[], .refl _, rfl⟩, fun _ => rfl⟩
  | cons g gs ih =>
    intro a hnodup hopen
    obtain ⟨s, rs⟩ := g
    rw [List.map_cons, List.nodup_cons] at hnodup
    obtain ⟨hs, hrest⟩ := List.forall_mem_cons.mp hopen
    rcases hattempt : attempt (a.log.path s) (a.log.appendRows s rs) a with ⟨out, mid⟩
    obtain ⟨came, hwaits, hframe, hout⟩ := attempt_append hs.1.isName hs.2 hattempt
    obtain ⟨failed, b, came', hrun, hwaits', hrows, hfine⟩ :=
      ih hnodup.2 fun g hg => hwaits.isOpen (hrest g hg)
    rcases hout with ⟨rfl, hwritten⟩ | ⟨⟨error, path, rfl⟩, hsame, turn, hturn, htrouble⟩
    · refine ⟨failed, b, came ++ came', ?_, hwaits.trans hwaits', fun f => ?_,
        fun ha => hfine (hwaits.untroubled ha)⟩
      · simp only [writeGroups, hattempt, hrun]
      · obtain ⟨rs', hrs', hsplit⟩ := hrows f
        by_cases hf : f = s
        · subst hf
          exact ⟨rs ++ rs', hwritten.trans hrs', by
            rw [List.append_assoc, hsplit, rowsOf_cons, if_pos rfl]⟩
        · exact ⟨rs', hframe f hf ▸ hrs', by rw [hsplit, rowsOf_cons, if_neg hf, List.nil_append]⟩
    · refine ⟨rs.map (⟨s, ·⟩) ++ failed, b, came ++ came', ?_, hwaits.trans hwaits',
        fun f => ?_, fun ha => absurd (ha turn hturn) htrouble⟩
      · simp only [writeGroups, hattempt, hrun]
      · obtain ⟨rs', hrs', hsplit⟩ := hrows f
        rw [pendingOf_append, pendingOf_marked]
        by_cases hf : f = s
        · subst hf
          -- the other groups hold nothing for this file, so it stays as it is
          rw [rowsOf_eq_nil hnodup.1, List.append_eq_nil_iff] at hsplit
          obtain ⟨rfl, hnone⟩ := hsplit
          refine ⟨[], hsame ▸ hrs', ?_⟩
          rw [rowsOf_cons, if_pos rfl, hnone, rowsOf_eq_nil hnodup.1]
          rfl
        · rw [if_neg hf, List.nil_append, rowsOf_cons, if_neg hf, List.nil_append]
          exact ⟨rs', hframe f hf ▸ hrs', hsplit⟩

/-- **A flush conserves the records that wait.** Where the files of all sessions are there it
always ends, and what it could not write waits ahead of what came in meanwhile. -/
theorem flush_failed {a : Archive} (hopen : ∀ p ∈ a.log.pending, IsOpen a p.session) :
    ∃ failed b came, flush a = .ok (!failed.isEmpty) b ∧ Passes a b came ∧
      Conserves a b (a.log.tag came) ∧ b.log.pending = failed ++ a.log.tag came ∧
      (Untroubled a → failed = []) := by
  let start : Archive := { a with log := { a.log with pending := [] } }
  have hgroups : ∀ g ∈ groups a.log.pending, IsOpen start g.1 := by
    intro g hg
    obtain ⟨p, hp, hsession⟩ := mem_groups.mp (List.mem_map_of_mem hg)
    exact hsession ▸ hopen p hp
  obtain ⟨failed, b, came, hrun, hwaits, hrows, hfine⟩ :=
    writeGroups_spec (groups a.log.pending) (a := start) (nodup_groups _) hgroups
  have hcame : b.log.pending = a.log.tag came := hwaits.pending
  refine ⟨failed, { b with log := { b.log with pending := failed ++ b.log.pending } },
    came, ?_, ⟨hwaits.directory, hwaits.current, hwaits.grows, hwaits.turns⟩, fun f => ?_,
    by rw [hcame], hfine⟩
  · rw [flush, run_of_ok (run_get a), run_of_ok (run_modify _ a), run_of_ok hrun]
    rfl
  · obtain ⟨rs, hrs, hsplit⟩ := hrows f
    refine ⟨rs, hrs, ?_⟩
    dsimp only
    rw [pendingOf_append, ← List.append_assoc, hsplit, rowsOf_groups, hcame, ← pendingOf_append]

/-- Without trouble a flush leaves only what came in meanwhile. -/
theorem flush_spec {a : Archive} (hopen : ∀ p ∈ a.log.pending, IsOpen a p.session) :
    ∃ trouble b came, flush a = .ok trouble b ∧ Passes a b came ∧
      Conserves a b (a.log.tag came) ∧
      (Untroubled a → trouble = false ∧ b.log.pending = a.log.tag came) := by
  obtain ⟨failed, b, came, hflush, hp, hc, hpending, hfine⟩ := flush_failed hopen
  refine ⟨!failed.isEmpty, b, came, hflush, hp, hc, fun ha => ?_⟩
  have hnone := hfine ha
  subst hnone
  exact ⟨rfl, hpending⟩

/-- And so does one that reports none. -/
theorem flush_written {a b : Archive} (hopen : ∀ p ∈ a.log.pending, IsOpen a p.session)
    (hflush : flush a = .ok false b) :
    ∃ came, Passes a b came ∧ Conserves a b (a.log.tag came) ∧ b.log.pending = a.log.tag came := by
  obtain ⟨failed, b', came, hflush', hp, hc, hpending, -⟩ := flush_failed hopen
  rw [hflush] at hflush'
  obtain ⟨hempty, rfl⟩ := EStateM.Result.ok.inj hflush'
  have hnone : failed = [] := by simpa using hempty
  rw [hnone, List.nil_append] at hpending
  exact ⟨came, hp, hc, hpending⟩

end DiceLedger.Session
