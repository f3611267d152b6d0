import DiceLedger.Proofs.Session.Conservation

/-!
# The queue of records that wait

A flush puts back what it could not write file by file, not in the order in which it came. That
this is the same order holds only of the queues that come about: there the records of a session
stand together, and sessions follow each other as in the index.
-/
namespace DiceLedger.Session

open DiceLedger.Time

/-- The records of a session stand together, in the order of the sessions. -/
def InOrder (ns : List String) (ps : List Pending) : Prop :=
  ns.flatMap (fun s => ps.filter (·.session = s)) = ps

theorem inOrder_nil (ns : List String) : InOrder ns [] := by simp [InOrder]

theorem filter_eq_nil {s : String} {ps : List Pending} (h : ∀ p ∈ ps, p.session ≠ s) :
    ps.filter (·.session = s) = [] := by
  rw [List.filter_eq_nil_iff]
  exact fun p hp => by simpa using h p hp

theorem filter_eq_self {s : String} {ps : List Pending} (h : ∀ p ∈ ps, p.session = s) :
    ps.filter (·.session = s) = ps := by
  rw [List.filter_eq_self]
  exact fun p hp => by simpa using h p hp

theorem session_mem {ns : List String} {ps : List Pending} {p : Pending}
    (hp : p ∈ ns.flatMap fun s => ps.filter (·.session = s)) : p.session ∈ ns := by
  obtain ⟨s, hs, hp⟩ := List.mem_flatMap.mp hp
  obtain rfl : p.session = s := by simpa using (List.mem_filter.mp hp).2
  exact hs

theorem InOrder.mem {ns : List String} {ps : List Pending} (h : InOrder ns ps) {p : Pending}
    (hp : p ∈ ps) : p.session ∈ ns := by
  rw [← h] at hp
  exact session_mem hp

theorem InOrder.filter {ns : List String} {ps : List Pending} (h : InOrder ns ps)
    (keep : Pending → Bool) : InOrder ns (ps.filter keep) := by
  have hswap (s : String) :
      (ps.filter keep).filter (·.session = s) = (ps.filter (·.session = s)).filter keep := by
    rw [List.filter_filter, List.filter_filter]
    simp only [Bool.and_comm]
  simp only [InOrder, hswap]
  rw [← List.filter_flatMap, h]

theorem InOrder.append {ns : List String} {ps qs : List Pending} (h : InOrder ns ps)
    (hnodup : ns.Nodup) (hlast : ∀ q ∈ qs, ns.getLast? = some q.session) :
    InOrder ns (ps ++ qs) := by
  rcases List.eq_nil_or_concat ns with rfl | ⟨front, last, rfl⟩
  · have hnone : qs = [] := List.eq_nil_iff_forall_not_mem.mpr fun q hq => by simpa using hlast q hq
    rwa [hnone, List.append_nil]
  rw [List.concat_eq_append] at h hnodup hlast ⊢
  have hsession (q : Pending) (hq : q ∈ qs) : q.session = last := by
    simpa [eq_comm] using hlast q hq
  -- what is new belongs to the last session
  have hold (s : String) (hs : s ∈ front) :
      (ps ++ qs).filter (·.session = s) = ps.filter (·.session = s) := by
    have hne : last ≠ s := fun he => not_mem_of_nodup_concat hnodup (he ▸ hs)
    have hnone : qs.filter (·.session = s) = [] := filter_eq_nil fun q hq => hsession q hq ▸ hne
    rw [List.filter_append, hnone, List.append_nil]
  have hfront : front.flatMap (fun s => (ps ++ qs).filter (·.session = s)) =
      front.flatMap (fun s => ps.filter (·.session = s)) := by
    rw [List.flatMap_def, List.map_congr_left hold, List.flatMap_def]
  rw [InOrder, List.flatMap_append, List.flatMap_singleton] at h ⊢
  rw [hfront, List.filter_append, filter_eq_self hsession, ← List.append_assoc, h]

theorem InOrder.extend {ns : List String} {ps : List Pending} (h : InOrder ns ps) {name : String}
    (hnew : name ∉ ns) (hmem : ∀ p ∈ ps, p.session ∈ ns) : InOrder (ns ++ [name]) ps := by
  have hnone : ps.filter (·.session = name) = [] :=
    filter_eq_nil fun p hp he => hnew (he ▸ hmem p hp)
  rw [InOrder, List.flatMap_append, List.flatMap_singleton, hnone, List.append_nil]
  exact h

/-! ## Groups and their order -/

/-- The records of a group, with the session that they wait for. -/
def marked (g : String × List RollRecord) : List Pending := g.2.map (⟨g.1, ·⟩)

theorem marked_group (s : String) (ps : List Pending) :
    marked (s, (ps.filter (·.session = s)).map (·.record)) = ps.filter (·.session = s) := by
  rw [marked, List.map_map]
  refine (List.map_congr_left fun p hp => ?_).trans (List.map_id _)
  obtain rfl : p.session = s := by simpa using (List.mem_filter.mp hp).2
  rfl

theorem groups_cons (p : Pending) (ps : List Pending) :
    groups (p :: ps) =
      (p.session, ((p :: ps).filter (·.session = p.session)).map (·.record)) ::
        groups (ps.filter (·.session ≠ p.session)) := by
  have hrest : (ps.map (·.session)).filter (fun s => !s == p.session) =
      (ps.filter (·.session ≠ p.session)).map (·.session) := by
    rw [List.filter_map]
    refine congrArg _ (List.filter_congr fun q _ => ?_)
    by_cases hq : q.session = p.session <;> simp [hq]
  rw [groups, List.map_cons, List.eraseDups_cons, hrest, List.map_cons, groups]
  congr 1
  refine List.map_congr_left fun s hs => ?_
  obtain ⟨q, hq, rfl⟩ := List.mem_map.mp (List.mem_eraseDups.mp hs)
  have hne : q.session ≠ p.session := by simpa using (List.mem_filter.mp hq).2
  rw [List.filter_cons_of_neg (by simpa using hne.symm), List.filter_filter]
  congr 2
  refine List.filter_congr fun r _ => ?_
  by_cases hr : r.session = q.session
  · simp [hr, hne]
  · simp [hr]

/-- The records of the first session stand before all others, which are in order themselves. -/
theorem InOrder.split {n : String} {ns : List String} {ps : List Pending}
    (h : InOrder (n :: ns) ps) (hn : n ∉ ns) :
    ps.filter (·.session = n) ++ ps.filter (·.session ≠ n) = ps ∧
      InOrder ns (ps.filter (·.session ≠ n)) := by
  have hothers : ps.filter (·.session ≠ n) =
      ns.flatMap fun s => ps.filter (·.session = s) := by
    have hnone : (ps.filter (·.session = n)).filter (·.session ≠ n) = [] := by
      refine List.filter_eq_nil_iff.mpr fun p hp => ?_
      simpa using (List.mem_filter.mp hp).2
    have hall : (ns.flatMap fun s => ps.filter (·.session = s)).filter (·.session ≠ n) =
        ns.flatMap fun s => ps.filter (·.session = s) := by
      rw [List.filter_eq_self]
      intro p hp
      simpa using fun he : p.session = n => hn (he ▸ session_mem hp)
    have hfront : ps.filter (·.session = n) ++
        ns.flatMap (fun s => ps.filter (·.session = s)) = ps := h
    calc ps.filter (·.session ≠ n)
        = (ps.filter (·.session = n) ++
            ns.flatMap fun s => ps.filter (·.session = s)).filter (·.session ≠ n) := by rw [hfront]
      _ = ns.flatMap fun s => ps.filter (·.session = s) := by
          rw [List.filter_append, hnone, List.nil_append, hall]
  refine ⟨?_, ?_⟩
  · rw [hothers]
    exact h
  · have hfilter := h.filter (·.session ≠ n)
    have hnone : (ps.filter (·.session ≠ n)).filter (·.session = n) = [] :=
      filter_eq_nil fun p hp => by simpa using (List.mem_filter.mp hp).2
    rwa [InOrder, List.flatMap_cons, hnone, List.nil_append] at hfilter

/-- Group after group, a queue in order is taken up from its front to its end. -/
theorem InOrder.flatMap_groups {ns : List String} :
    ∀ {ps : List Pending}, ns.Nodup → InOrder ns ps → (groups ps).flatMap marked = ps := by
  induction ns with
  | nil =>
    intro ps _ h
    obtain rfl : [] = ps := h
    rfl
  | cons n ns ih =>
    intro ps hnodup h
    obtain ⟨hn, hnodup⟩ := List.nodup_cons.mp hnodup
    obtain ⟨hsplit, hrest⟩ := h.split hn
    have hgroups := ih hnodup hrest
    cases ps with
    | nil => rfl
    | cons p ps =>
      by_cases hp : p.session = n
      · subst hp
        have hothers : (p :: ps).filter (·.session ≠ p.session) =
            ps.filter (·.session ≠ p.session) := List.filter_cons_of_neg (by simp)
        rw [hothers] at hsplit hgroups
        rw [groups_cons, List.flatMap_cons, marked_group, hgroups, hsplit]
      · -- nothing waits for the first session
        have hnone : (p :: ps).filter (·.session = n) = [] := by
          cases hfilter : (p :: ps).filter (·.session = n) with
          | nil => rfl
          | cons q qs =>
            rw [hfilter] at hsplit
            obtain rfl : q = p := (List.cons.inj hsplit).1
            have hq : q ∈ (q :: ps).filter (·.session = n) := hfilter ▸ List.mem_cons_self
            exact absurd (by simpa using (List.mem_filter.mp hq).2) hp
        rw [hnone, List.nil_append] at hsplit
        rwa [hsplit] at hgroups

theorem flatMap_marked_filter (S : String → Prop) [DecidablePred S]
    (gs : List (String × List RollRecord)) :
    (gs.filter (S ·.1)).flatMap marked = (gs.flatMap marked).filter (S ·.session) := by
  induction gs with
  | nil => rfl
  | cons g gs ih =>
    have hsame : ∀ p ∈ marked g, p.session = g.1 := by
      intro p hp
      obtain ⟨r, -, rfl⟩ := List.mem_map.mp hp
      rfl
    rw [List.flatMap_cons, List.filter_append, ← ih]
    by_cases hg : S g.1
    · have hall : (marked g).filter (S ·.session) = marked g :=
        List.filter_eq_self.mpr fun p hp => by simpa [hsame p hp] using hg
      rw [List.filter_cons_of_pos (by simpa using hg), List.flatMap_cons, hall]
    · have hnone : (marked g).filter (S ·.session) = [] :=
        List.filter_eq_nil_iff.mpr fun p hp => by simpa [hsame p hp] using hg
      rw [List.filter_cons_of_neg (by simpa using hg), hnone, List.nil_append]

/-! ## Files that cannot be written -/

/-- The sessions whose write fails, when group after group is written at its turn. -/
def refused (gs : List (String × List RollRecord)) (turns : List Turn) : List String :=
  ((gs.zip turns).filter (·.2.failure.isSome)).map (·.1.1)

theorem refused_cons (g : String × List RollRecord) (gs : List (String × List RollRecord))
    (turns : List Turn) :
    refused (g :: gs) turns =
      (if (turns.head?.getD {}).failure.isSome then [g.1] else []) ++ refused gs turns.tail := by
  cases turns with
  | nil => simp [refused]
  | cons turn turns => by_cases h : turn.failure.isSome <;> simp [refused, h]

theorem refused_subset (gs : List (String × List RollRecord)) (turns : List Turn) :
    ∀ f ∈ refused gs turns, f ∈ gs.map (·.1) := by
  intro f hf
  obtain ⟨x, hx, rfl⟩ := List.mem_map.mp hf
  exact List.mem_map_of_mem (List.of_mem_zip (List.mem_filter.mp hx).1).1

/-- Writing records of a session whose file is there: only the next turn can keep it from that. -/
theorem attempt_append_iff {a b : Archive} {s : String} (hkept : Kept a s) {rs : List RollRecord}
    {out : Except DiskFault Unit}
    (h : attempt (a.log.path s) (a.log.appendRows s rs) a = (out, b)) :
    ((a.turns.head?.getD {}).failure = none ∧ out = .ok ()) ∨
      ((a.turns.head?.getD {}).failure.isSome ∧ b.disk = a.disk ∧
        ∃ error path, out = .error (.system error path)) := by
  obtain ⟨c, hc⟩ := hkept
  obtain ⟨d, hd⟩ := Disk.append_of_read hc (rowBytes (rs.map row))
  have hstep : a.log.appendRows s rs a.disk = .ok () d := step_eq_ok_iff.mpr hd
  cases hfailure : (a.turns.head?.getD {}).failure with
  | none =>
    simp only [attempt, hfailure, hstep] at h
    cases h
    exact .inl ⟨rfl, rfl⟩
  | some t =>
    simp only [attempt, hfailure] at h
    cases h
    exact .inr ⟨rfl, rfl, _, _, rfl⟩

/-- What could not be written is what the turns kept from being written, group by group. -/
theorem writeGroups_refused (S : String → Prop) [DecidablePred S]
    (gs : List (String × List RollRecord)) :
    ∀ {a : Archive}, (gs.map (·.1)).Nodup → (∀ g ∈ gs, IsOpen a g.1) →
      (∀ g ∈ gs, (S g.1 ↔ g.1 ∈ refused gs a.turns)) →
      ∃ b, writeGroups gs a = .ok ((gs.filter (S ·.1)).flatMap marked) b ∧
        b.log = a.log.receive ((a.turns.take gs.length).flatMap (·.arrivals)) ∧
        b.turns = a.turns.drop gs.length ∧ ((∀ g ∈ gs, S g.1) → b.disk = a.disk) := by
  induction gs with
  | nil =>
    intro a _ _ _
    exact ⟨a, rfl, (receive_nil _).symm, rfl, fun _ => rfl⟩
  | cons g gs ih =>
    intro a hnodup hopen hS
    obtain ⟨s, rs⟩ := g
    rw [List.map_cons, List.nodup_cons] at hnodup
    obtain ⟨hs, hrest⟩ := List.forall_mem_cons.mp hopen
    rcases hattempt : attempt (a.log.path s) (a.log.appendRows s rs) a with ⟨out, mid⟩
    obtain ⟨hlog, hturns⟩ := attempt_turn hattempt
    obtain ⟨came, hwaits, -⟩ := attempt_append hs.1.isName hs.2 hattempt
    have hfirst : S s ↔ (a.turns.head?.getD {}).failure.isSome := by
      have hout : s ∉ refused gs a.turns.tail := fun hmem => hnodup.1 (refused_subset _ _ s hmem)
      rw [hS (s, rs) List.mem_cons_self, refused_cons]
      by_cases h : (a.turns.head?.getD {}).failure.isSome <;> simp [h, hout]
    have htail : ∀ g ∈ gs, (S g.1 ↔ g.1 ∈ refused gs mid.turns) := by
      intro g hg
      have hne : g.1 ≠ s := fun he => hnodup.1 (he ▸ List.mem_map.mpr ⟨g, hg, rfl⟩)
      rw [hS g (List.mem_cons_of_mem _ hg), refused_cons, hturns]
      split <;> simp [hne]
    obtain ⟨b, hrun, hlog', hturns', hsame⟩ :=
      ih hnodup.2 (fun g hg => hwaits.isOpen (hrest g hg)) htail
    have harrivals : (a.turns.head?.getD {}).arrivals ++
        (a.turns.tail.take gs.length).flatMap (·.arrivals) =
          (a.turns.take (gs.length + 1)).flatMap (·.arrivals) := by
      cases a.turns <;> simp
    refine ⟨b, ?_, ?_, ?_, ?_⟩
    · rcases attempt_append_iff hs.2 hattempt with
        ⟨hfine, rfl⟩ | ⟨htrouble, -, error, path, rfl⟩
      · have hout : ¬S s := by simp [hfirst, hfine]
        simp only [writeGroups, hattempt, hrun]
        rw [List.filter_cons_of_neg (by simpa using hout)]
      · simp only [writeGroups, hattempt, hrun]
        rw [List.filter_cons_of_pos (by simpa using hfirst.mpr htrouble), List.flatMap_cons, marked]
    · rw [hlog', hlog, receive_append, hturns, harrivals, List.length_cons]
    · rw [hturns', hturns, List.length_cons, List.drop_tail]
    · intro hall
      obtain ⟨hhead, hothers⟩ := List.forall_mem_cons.mp hall
      rw [hsame hothers]
      rcases attempt_append_iff hs.2 hattempt with ⟨hfine, -⟩ | ⟨-, hdisk, -⟩
      · rw [hfirst, hfine] at hhead
        cases hhead
      · exact hdisk

/-- The sessions whose write fails in a flush that is made now. -/
def Archive.refused (a : Archive) : List String :=
  Session.refused (groups a.log.pending) a.turns

/-- What is recorded in the course of a flush that is made now: it uses up a turn for each
session that something waits for. -/
def Archive.meanwhile (a : Archive) : List RollRecord :=
  (a.turns.take (groups a.log.pending).length).flatMap (·.arrivals)

theorem refused_of_untroubled {a : Archive} (h : Untroubled a) : a.refused = [] := by
  have hnone : ((groups a.log.pending).zip a.turns).filter (·.2.failure.isSome) = [] := by
    rw [List.filter_eq_nil_iff]
    intro x hx
    simp [h x.2 (List.of_mem_zip hx).2]
  rw [Archive.refused, refused, hnone, List.map_nil]

theorem forall_groups {batch : List Pending} {P : String → Prop} :
    (∀ g ∈ groups batch, P g.1) ↔ ∀ p ∈ batch, P p.session := by
  rw [← List.forall_mem_map, map_fst_groups]
  simp [List.mem_eraseDups]

theorem pendingOf_filter (S : String → Prop) [DecidablePred S] (f : String) (ps : List Pending) :
    pendingOf f (ps.filter (S ·.session)) = if S f then pendingOf f ps else [] := by
  have hswap : (ps.filter (S ·.session)).filter (·.session = f) =
      (ps.filter (·.session = f)).filter fun _ => S f := by
    rw [List.filter_filter, List.filter_filter]
    refine List.filter_congr fun p _ => ?_
    by_cases hp : p.session = f <;> simp [hp]
  rw [pendingOf, hswap]
  split <;> simp [pendingOf, *]

section

variable {a : Archive} {ns : List String} (S : String → Prop) [DecidablePred S]

/-- **A flush keeps the order of what it cannot write**, ahead of what comes in meanwhile. -/
theorem flush_refused (h : Sound a ns) (horder : InOrder ns a.log.pending)
    (hS : ∀ p ∈ a.log.pending, (S p.session ↔ p.session ∈ a.refused)) :
    ∃ trouble b, flush a = .ok trouble b ∧
      Passes a b a.meanwhile ∧
      (∀ f, Appended (a.held f) (b.held f) (if S f then [] else pendingOf f a.log.pending)) ∧
      b.log.pending = a.log.pending.filter (S ·.session) ++ a.log.tag a.meanwhile ∧
      (trouble = true ↔ ∃ p ∈ a.log.pending, S p.session) ∧
      ((∀ p ∈ a.log.pending, S p.session) → b.disk = a.disk) := by
  let start : Archive := { a with log := { a.log with pending := [] } }
  have hopen : ∀ g ∈ groups a.log.pending, IsOpen start g.1 :=
    forall_groups.mpr fun p hp => h.isOpen _ (h.pending p hp)
  have hgroups : ∀ g ∈ groups a.log.pending,
      (S g.1 ↔ g.1 ∈ Session.refused (groups a.log.pending) start.turns) :=
    forall_groups (P := fun s => S s ↔ s ∈ a.refused) |>.mpr hS
  obtain ⟨mid, hwrite, hlog, hturns, hsame⟩ :=
    writeGroups_refused S (groups a.log.pending) (nodup_groups _) hopen hgroups
  rw [flatMap_marked_filter, horder.flatMap_groups h.nodup] at hwrite
  obtain ⟨trouble, b, came, hflush, hp, hc, -⟩ := flush_spec fun p hp => h.isOpen _ (h.pending p hp)
  have hrun := hflush
  rw [flush, run_of_ok (run_get a), run_of_ok (run_modify _ a), run_of_ok hwrite,
    run_of_ok (run_modify _ mid)] at hrun
  obtain ⟨rfl, rfl⟩ := EStateM.Result.ok.inj hrun
  have hmeanwhile : Passes a _ a.meanwhile :=
    ⟨hp.directory, hp.current, hp.grows, (groups a.log.pending).length, hturns, rfl⟩
  have hpending : mid.log.pending = a.log.tag a.meanwhile := by
    rw [hlog, receive_eq]
    rfl
  refine ⟨_, _, hflush, hmeanwhile, fun f => ?_, by rw [hpending], ?_, fun hall => ?_⟩
  · obtain ⟨rs, hrs, hwait⟩ := hc f
    rw [hp.arrivals.symm.trans hmeanwhile.arrivals] at hwait
    dsimp only at hwait
    rw [hpending, pendingOf_append, pendingOf_append, ← List.append_assoc,
      pendingOf_filter] at hwait
    have hrows := List.append_cancel_right hwait
    split at hrows
    · next hf =>
      rw [if_pos hf, ← List.append_cancel_right (hrows.trans (List.nil_append _).symm)]
      exact hrs
    · next hf =>
      rw [if_neg hf, ← hrows, List.append_nil]
      exact hrs
  · simp
  · exact hsame (forall_groups.mpr hall)

end

/-! ## Queues that come about -/

/-- A sound log whose records wait in the order of its sessions. -/
structure Queued (a : Archive) (ns : List String) : Prop extends Sound a ns where
  inOrder : InOrder ns a.log.pending

section

variable {a b : Archive} {ns : List String}

theorem Queued.waits {rs : List RollRecord} (h : Queued a ns) (hw : Waits a b rs) :
    InOrder ns b.log.pending := by
  rw [hw.pending]
  exact h.inOrder.append h.nodup fun p hp => h.current _ (current_of_mem_tag hp)

theorem Queued.flush {trouble : Bool} (h : Queued a ns) (hflush : flush a = .ok trouble b) :
    Queued b ns := by
  obtain ⟨_, _, came, hflush', hp, hc, -⟩ := flush_spec fun p hp => h.isOpen _ (h.pending p hp)
  obtain ⟨-, rfl⟩ := EStateM.Result.ok.inj (hflush.symm.trans hflush')
  obtain ⟨_, _, hflush', -, -, hpending, -⟩ :=
    flush_refused (· ∈ a.refused) h.toSound h.inOrder fun _ _ => Iff.rfl
  obtain ⟨-, rfl⟩ := EStateM.Result.ok.inj (hflush.symm.trans hflush')
  refine ⟨h.toSound.conserves hp hc, ?_⟩
  rw [hpending]
  exact (h.inOrder.filter _).append h.nodup fun p hp => h.current _ (current_of_mem_tag hp)

theorem Queued.newSession (h : Queued a ns) (now : Moment) :
    ∃ ns', Queued (final (newSession now a)) ns' := by
  obtain ⟨b₁, rs₁, b₂, rs₂, ⟨trouble, hflush⟩, -, -, hw₂, -, hs₂, hout⟩ :=
    newSession_cases h.toSound now
  have h₂ : Queued b₂ ns := ⟨hs₂, (h.flush hflush).waits hw₂⟩
  rcases hout with ⟨fault, hfault, -⟩ | ⟨-, hrun⟩
  · exact ⟨ns, by rw [hfault]; exact h₂⟩
  obtain ⟨b₃, rs₃, hw₃, ⟨fault, henlist, hindex, -⟩ | ⟨name, henlist, hsound, -⟩⟩ :=
    enlist_spec hs₂ now
  · refine ⟨ns, ?_⟩
    rw [hrun, run_of_error henlist]
    exact ⟨hs₂.waits hw₃ hindex, h₂.waits hw₃⟩
  · refine ⟨ns ++ [name], ?_⟩
    rw [hrun, run_of_ok henlist, run_of_ok (run_modify _ b₃)]
    have horder := h₂.waits hw₃
    exact ⟨hsound, horder.extend (not_mem_of_nodup_concat hsound.nodup) fun _ => horder.mem⟩

theorem Op.queued (h : Queued a ns) (o : Op) : ∃ ns', Queued (o.step a) ns' := by
  cases o with
  | record r =>
    have hsound := (Op.record_advances h.toSound r).sound
    refine ⟨ns, hsound, ?_⟩
    rw [Op.step_record, receive_eq]
    exact h.inOrder.append h.nodup fun p hp => h.current _ (current_of_mem_tag hp)
  | flush =>
    obtain ⟨trouble, b, -, hflush, -⟩ := flush_spec fun p hp => h.isOpen _ (h.pending p hp)
    exact ⟨ns, by rw [Op.step, hflush]; exact h.flush hflush⟩
  | newSession now => exact h.newSession now

theorem Queued.restart (h : Queued a ns) (turns : List Turn) : Queued (a.restart turns) ns :=
  ⟨h.toSound.restart turns, inOrder_nil ns⟩

theorem Deed.queued (h : Queued a ns) (deed : Deed) : ∃ ns', Queued (deed.step a) ns' := by
  cases deed with
  | op o => exact o.queued h
  | restart turns => exact ⟨ns, h.restart turns⟩
  | init now =>
    obtain ⟨b, rs, hw, hsame, -, hout⟩ := init_cases h.toSound now
    have hb : Queued b ns := ⟨h.toSound.waits hw (hsame _), h.waits hw⟩
    rcases hout with ⟨fault, hfault, -⟩ | ⟨-, hrun⟩ | ⟨name, hlast, hrun⟩
    · exact ⟨ns, by rw [Deed.step, hfault]; exact hb⟩
    · obtain ⟨ns', hnew⟩ := hb.newSession now
      exact ⟨ns', by rw [Deed.step, hrun]; exact hnew⟩
    · exact ⟨ns, by rw [Deed.step, hrun]; exact ⟨hb.toSound.resume_last hlast, hb.inOrder⟩⟩

theorem Deed.directory (h : Sound a ns) (deed : Deed) :
    (deed.step a).log.directory = a.log.directory := by
  cases deed with
  | op o =>
    obtain ⟨ns', hstep⟩ := o.advances h
    exact hstep.directory
  | restart turns => rfl
  | init now =>
    obtain ⟨b, came, -, ⟨fault, hfault, hstep⟩ | ⟨name, ns', hok, hstep⟩⟩ := init_spec h now
    · rw [Deed.step, hfault]
      exact hstep.directory
    · rw [Deed.step, hok]
      exact hstep.directory

theorem queued_foldl (deeds : List Deed) :
    ∀ {a : Archive} {ns : List String}, Queued a ns →
      ∃ ns', Queued (deeds.foldl Deed.step a) ns' ∧
        (deeds.foldl Deed.step a).log.directory = a.log.directory := by
  induction deeds with
  | nil => exact fun h => ⟨_, h, rfl⟩
  | cons deed deeds ih =>
    intro a ns h
    obtain ⟨ns', h'⟩ := deed.queued h
    obtain ⟨ns'', hlast, hdirectory⟩ := ih h'
    exact ⟨ns'', hlast, hdirectory.trans (deed.directory h.toSound)⟩

theorem Queued.run (h : Queued a ns) (ops : List Op) : ∃ ns', Queued (run a ops) ns' := by
  obtain ⟨ns', hlast, -⟩ := queued_foldl (ops.map .op) h
  rw [List.foldl_map] at hlast
  exact ⟨ns', hlast⟩

theorem Queued.of_vacant {d : Disk} {directory : String} (h : Vacant d directory)
    (turns : List Turn) : Queued ⟨{ directory }, d, turns⟩ [] :=
  ⟨.of_vacant h turns, inOrder_nil []⟩

/-! ## One flush -/

/-- What a flush does in which the writes to the files of `S` fail, and no others. -/
structure Settles (a b : Archive) (S : String → Prop) [DecidablePred S] : Prop where
  written : ∀ f, Path.IsName f → ¬S f →
    Appended (a.stored f) (b.stored f) (pendingOf f a.log.pending)
  kept : ∀ f, Path.IsName f → S f → b.stored f = a.stored f
  log : b.log =
    { a.log with pending := a.log.pending.filter (S ·.session) ++ a.log.tag a.meanwhile }

theorem Sound.mem_of_pendingOf (h : Sound a ns) {f : String}
    (hne : pendingOf f a.log.pending ≠ []) : f ∈ ns := by
  obtain ⟨r, hr⟩ := List.exists_mem_of_ne_nil _ hne
  exact h.pending _ (mem_pendingOf.mp hr)

/-- What was appended to files is so as they are read. -/
theorem Sound.appended {rs : List RollRecord} (h : Sound a ns) (hp : Passes a b rs)
    {f : String} (hf : Path.IsName f) {rows : List RollRecord}
    (hrows : Appended (a.held f) (b.held f) rows) (hmem : rows ≠ [] → f ∈ ns)
    (hnone : ns = [] → b.disk = a.disk) : Appended (a.stored f) (b.stored f) rows := by
  cases ns with
  | nil =>
    have hempty : rows = [] := Decidable.byContradiction fun hne => nomatch hmem hne
    rw [hempty, Archive.stored, Archive.stored, hp.path, hnone rfl]
    exact .refl _
  | cons n ns =>
    have hreach := h.reaches_of_mem List.mem_cons_self
    have hreach' : b.disk.Reaches b.log.directory := by
      rw [hp.directory]
      exact hp.grows.reaches hreach
    by_cases hfits : Disk.Fits a.log.directory f
    · rwa [stored_of_fits hreach hf hfits, stored_of_fits hreach' hf (hp.directory ▸ hfits)]
    · -- a file that cannot be read is that of no session
      have hempty : rows = [] := by
        refine Decidable.byContradiction fun hne => hfits ?_
        obtain ⟨c, hc⟩ := (h.isOpen f (hmem hne)).2
        exact ((Disk.read_join hreach hf).mp hc).1
      rw [stored_of_not_fits hreach hf hfits, stored_of_not_fits hreach' hf (hp.directory ▸ hfits),
        hempty]
      exact .refl _

theorem Queued.settles (h : Queued a ns) (S : String → Prop) [DecidablePred S]
    (hS : ∀ p ∈ a.log.pending, (S p.session ↔ p.session ∈ a.refused)) :
    ∃ trouble b, Session.flush a = .ok trouble b ∧ Settles a b S ∧
      (trouble = true ↔ ∃ p ∈ a.log.pending, S p.session) ∧
      ((∀ p ∈ a.log.pending, S p.session) → b.disk = a.disk) := by
  obtain ⟨trouble, b, hflush, hp, hfiles, hpending, htrouble, hsame⟩ :=
    flush_refused S h.toSound h.inOrder hS
  have hnone (hns : ns = []) : b.disk = a.disk := by
    refine hsame fun p hp => ?_
    have hmem := h.pending p hp
    rw [hns] at hmem
    cases hmem
  refine ⟨trouble, b, hflush, ⟨fun f hf hout => ?_, fun f hf hin => ?_, ?_⟩, htrouble, hsame⟩
  · have hrows := hfiles f
    rw [if_neg hout] at hrows
    exact h.appended hp hf hrows h.mem_of_pendingOf hnone
  · have hrows := hfiles f
    rw [if_pos hin] at hrows
    exact (h.appended hp hf hrows (absurd rfl) hnone).eq_of_nil
  · obtain ⟨⟨directory, current, pending⟩, disk, turns⟩ := b
    cases hp.directory
    cases hp.current
    cases hpending
    rfl

end

/-- **One flush.** Let logs be set up in a directory that was empty at first, and be used in any
way, with any failures. In a flush of such a log let the writes to the files of `S` fail and no
others. It ends, each other file has got the records that waited for it, and those of `S` are as
they were. What waited for these waits on, in its order and ahead of what came in meanwhile, and
the flush reports trouble exactly if there is any. -/
theorem flush_settles {disk : Disk} {directory : String} (hvacant : Vacant disk directory)
    (first : List Turn) (deeds : List Deed) (S : String → Prop) [DecidablePred S] :
    let a := deeds.foldl Deed.step ⟨{ directory }, disk, first⟩
    (∀ p ∈ a.log.pending, (S p.session ↔ p.session ∈ a.refused)) →
      ∃ trouble b, flush a = .ok trouble b ∧ Settles a b S ∧
        (trouble = true ↔ ∃ p ∈ a.log.pending, S p.session) ∧
        ((∀ p ∈ a.log.pending, S p.session) →
          b.disk = a.disk ∧ b.log = a.log.receive a.meanwhile) ∧
        (trouble = false → b.log.pending = a.log.tag a.meanwhile ∧
          ∀ f, Path.IsName f →
            Appended (a.stored f) (b.stored f) (pendingOf f a.log.pending)) := by
  intro a hS
  obtain ⟨ns, hqueued, -⟩ := queued_foldl deeds (.of_vacant hvacant first)
  obtain ⟨trouble, b, hflush, hsettles, htrouble, hsame⟩ := hqueued.settles S hS
  refine ⟨trouble, b, hflush, hsettles, htrouble, fun hall => ⟨hsame hall, ?_⟩, fun hfine => ?_⟩
  · have hkept : a.log.pending.filter (S ·.session) = a.log.pending :=
      List.filter_eq_self.mpr fun p hp => by simpa using hall p hp
    rw [hsettles.log, hkept, receive_eq]
  · have hout (p : Pending) (hp : p ∈ a.log.pending) : ¬S p.session := by
      intro hin
      rw [htrouble.mpr ⟨p, hp, hin⟩] at hfine
      cases hfine
    have hnone : a.log.pending.filter (S ·.session) = [] :=
      List.filter_eq_nil_iff.mpr fun p hp => by simpa using hout p hp
    refine ⟨by rw [hsettles.log, hnone, List.nil_append], fun f hf => ?_⟩
    by_cases hin : S f
    · have hquiet : pendingOf f a.log.pending = [] :=
        pendingOf_eq_nil fun p hp he => hout p hp (he ▸ hin)
      rw [hquiet, hsettles.kept f hf hin]
      exact .refl _
    · exact hsettles.written f hf hin

/-- A log whose first session could not be written when the second was begun, and cannot be in the
flush to come. A record comes in before each write. -/
def strained : Archive :=
  let noon : Moment := ⟨2024, 5, 1, 12, 0, 0, 0, some 0⟩
  let full : Turn := ⟨[⟨8, 1, 20, noon⟩], some .noSpace⟩
  [.init noon, .op (.record ⟨7, 3, 6, noon⟩), .op (.newSession noon),
    .op (.record ⟨7, 4, 6, noon⟩)].foldl Deed.step ⟨⟨"rolls", none, []⟩, Disk.blank,
      List.replicate 6 ⟨[], none⟩ ++ [full] ++ List.replicate 4 ⟨[], none⟩ ++
        [full, ⟨[⟨9, 2, 20, noon⟩], none⟩]⟩

theorem flush_settles_two_sessions :
    let noon : Moment := ⟨2024, 5, 1, 12, 0, 0, 0, some 0⟩
    let early := "2024-05-01_12-00-00.csv"
    let late := "2024-05-01_12-00-00_2.csv"
    Vacant Disk.blank "rolls" ∧
      (∀ p ∈ strained.log.pending, (p.session = early ↔ p.session ∈ strained.refused)) ∧
      ∃ b, flush strained = .ok true b ∧ Settles strained b (· = early) ∧ b.log.pending =
        [⟨early, ⟨7, 3, 6, noon⟩⟩, ⟨early, ⟨8, 1, 20, noon⟩⟩, ⟨late, ⟨8, 1, 20, noon⟩⟩,
          ⟨late, ⟨9, 2, 20, noon⟩⟩] := by
  intro noon early late
  have hvacant : Vacant Disk.blank "rolls" := vacant_blank "rolls" ⟨by decide, by decide⟩
  have hfacts : (∀ p ∈ strained.log.pending, (p.session = early ↔ p.session ∈ strained.refused)) ∧
      (∃ p ∈ strained.log.pending, p.session = early) ∧
      strained.log.pending.filter (·.session = early) ++ strained.log.tag strained.meanwhile =
        [⟨early, ⟨7, 3, 6, noon⟩⟩, ⟨early, ⟨8, 1, 20, noon⟩⟩, ⟨late, ⟨8, 1, 20, noon⟩⟩,
          ⟨late, ⟨9, 2, 20, noon⟩⟩] := by decide +kernel
  obtain ⟨hearly, htroubled, hwaiting⟩ := hfacts
  obtain ⟨first, deeds, hstrained⟩ : ∃ (first : List Turn) (deeds : List Deed), strained =
      deeds.foldl Deed.step ⟨{ directory := "rolls" }, Disk.blank, first⟩ := ⟨_, _, rfl⟩
  have hspec := flush_settles hvacant first deeds (· = early)
  rw [← hstrained] at hspec
  obtain ⟨trouble, b, hflush, hsettles, htrouble, -⟩ := hspec hearly
  obtain rfl : trouble = true := htrouble.mpr htroubled
  exact ⟨hvacant, hearly, b, hflush, hsettles, by rw [hsettles.log]; exact hwaiting⟩

end DiceLedger.Session
