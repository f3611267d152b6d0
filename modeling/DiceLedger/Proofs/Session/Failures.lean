import DiceLedger.Proofs.Session.Queue
import DiceLedger.Proofs.Session.ReadBack
import DiceLedger.Proofs.Session.Untroubled

/-!
# Sessions that cannot be begun

An attempt to begin a session that fails leaves the log as a flush would, but perhaps for a file
of no session. The old session stays open, and the next attempt takes a name that no file has.
-/
namespace DiceLedger.Session

open DiceLedger.Time

/-- From `a` to `b` the attempt was made to begin a session, and failed: the old one is open, and
the sessions are those that there were. Of each file that can be written the records were written
that waited for it, and where no file was there may be one that is empty or has just a header. The
other records wait on, ahead of what came in meanwhile for the old session. -/
structure Withdrawn (a b : Archive) : Prop where
  current : b.log.current = a.log.current
  directory : b.log.directory = a.log.directory
  sessions : Session.sessions b = Session.sessions a
  files : ∀ f, Path.IsName f →
    Appended (a.stored f) (b.stored f) (if f ∈ a.refused then [] else pendingOf f a.log.pending) ∨
      (a.stored f = none ∧ pendingOf f a.log.pending = [] ∧
        (b.stored f = some .empty ∨ b.stored f = some (rowBytes [header])))
  pending : b.log.pending =
    a.log.pending.filter (·.session ∈ a.refused) ++ a.log.tag (arrivals a b)

section

variable {a b m : Archive} {ns : List String} {now : Moment} {fault : Fault}

/-- What a failed attempt does after its flush. -/
theorem newSession_fails (h : Sound a ns) (hrun : newSession now a = .error fault b) :
    ∃ m trouble rs, flush a = .ok trouble m ∧ Sound m ns ∧ Waits m b rs ∧
      b.held Log.indexName = m.held Log.indexName ∧ Adds m b ns := by
  obtain ⟨m, rs, b₂, rs₂, ⟨trouble, hflush⟩, hp, hc, hw₂, hsame₂, hs₂, hout⟩ :=
    newSession_cases h now
  refine ⟨m, trouble, ?_⟩
  have hm := h.conserves hp hc
  rcases hout with ⟨fault', hfault, -⟩ | ⟨-, hrest⟩
  · rw [hfault] at hrun
    cases hrun
    exact ⟨rs₂, hflush, hm, hw₂, hsame₂ _, fun f _ => .inl (hsame₂ f ▸ .refl _)⟩
  obtain ⟨b₃, rs₃, hw₃, ⟨fault', henlist, hindex, hadds⟩ | ⟨name, henlist, -⟩⟩ :=
    enlist_spec hs₂ now
  · rw [hrest, run_of_error henlist] at hrun
    cases hrun
    exact ⟨_, hflush, hm, hw₂.trans hw₃, by rw [hindex, hsame₂], fun f hf => hsame₂ f ▸ hadds f hf⟩
  · rw [hrest, run_of_ok henlist, run_of_ok (run_modify _ b₃)] at hrun
    cases hrun

/-- A file that was there is as it was. -/
theorem Adds.held (h : Adds m b ns) (hindex : b.held Log.indexName = m.held Log.indexName)
    (f : String) : b.held f = m.held f ∨ (m.held f = none ∧
      (b.held f = some .empty ∨ b.held f = some (rowBytes [header]))) := by
  by_cases hf : f = Log.indexName
  · exact .inl (hf ▸ hindex)
  rcases h f hf with hsame | ⟨hnone, hheader | ⟨-, -, hempty⟩⟩
  · exact .inl hsame.eq_of_nil
  · exact .inr ⟨hnone, .inr hheader⟩
  · exact .inr ⟨hnone, .inl hempty⟩

/-- Records wait only for files that can be read. -/
theorem Sound.pendingOf_eq_nil (h : Sound a ns) {f : String} (hnone : a.stored f = none) :
    pendingOf f a.log.pending = [] := by
  by_contra hne
  obtain ⟨c, hc⟩ := (h.isOpen f (h.mem_of_pendingOf hne)).2
  rw [Archive.stored, hc] at hnone
  cases hnone

theorem Queued.withdrawn (h : Queued a ns) (hns : ns ≠ [])
    (hrun : Session.newSession now a = .error fault b) : Withdrawn a b := by
  obtain ⟨m, trouble, rs, hflush, hm, hw, hindex, hadds⟩ := newSession_fails h.toSound hrun
  obtain ⟨_, _, hflush', hp, hrows, hpending, -⟩ :=
    flush_refused (· ∈ a.refused) h.toSound h.inOrder fun _ _ => Iff.rfl
  obtain ⟨-, rfl⟩ := EStateM.Result.ok.inj (hflush.symm.trans hflush')
  have hpasses : Passes a b (a.meanwhile ++ rs) := hp.trans hw.toPasses
  have hb : Sound b ns := hm.waits hw hindex
  refine ⟨hpasses.current, hpasses.directory, ?_, fun f hf => ?_, ?_⟩
  · rw [h.sessions_of_ne_nil hns, hb.sessions_of_ne_nil hns]
  · have hwritten := hrows f
    rcases hadds.held hindex f with hsame | ⟨hnone, hmade⟩
    · rw [← hsame] at hwritten
      refine .inl (h.appended hpasses hf hwritten (fun hne => ?_) fun hnil => absurd hnil hns)
      split at hne
      · exact absurd rfl hne
      · exact h.mem_of_pendingOf hne
    · -- the file was made, though it may have a name that leads nowhere
      have habsent : a.held f = none := (hnone ▸ hwritten).of_none.1
      have hreach : a.disk.Reaches a.log.directory := h.reaches_of_ne_nil hns
      have hreach' : b.disk.Reaches b.log.directory := hb.reaches_of_ne_nil hns
      by_cases hfits : Disk.Fits a.log.directory f
      · have hstored : a.stored f = none := (stored_of_fits hreach hf hfits).trans habsent
        rw [stored_of_fits hreach' hf (hpasses.directory ▸ hfits)]
        exact .inr ⟨hstored, h.pendingOf_eq_nil hstored, hmade⟩
      · have hstored : a.stored f = none := stored_of_not_fits hreach hf hfits
        rw [hstored, h.pendingOf_eq_nil hstored, ite_self,
          stored_of_not_fits hreach' hf (hpasses.directory ▸ hfits)]
        exact .inl (.refl _)
  · rw [hw.pending, hpending, hp.tag, List.append_assoc, ← tag_append, hpasses.arrivals]

/-- What is recorded while a session is open goes to its file at the next flush without trouble. -/
theorem Queued.record_flush (h : Queued a ns) {old : String} (hold : a.log.current = some old)
    (rs : List RollRecord) :
    let c := Session.run a (rs.map .record)
    c.log.pending = a.log.pending ++ rs.map (⟨old, ·⟩) ∧
      (Untroubled c → ∃ d, Session.flush c = .ok false d ∧
        Appended (c.stored old) (d.stored old) (pendingOf old a.log.pending ++ rs)) := by
  intro c
  have hc : c = { a with log := a.log.receive rs } := run_record rs a
  have hpending : c.log.pending = a.log.pending ++ rs.map (⟨old, ·⟩) := by
    rw [hc, receive_eq, Log.tag, hold]
  refine ⟨hpending, fun hfine => ?_⟩
  obtain ⟨ns', hqueued⟩ : ∃ ns', Queued c ns' := h.run (rs.map .record)
  have hname : Path.IsName old :=
    (h.isOpen old (List.mem_of_getLast? (h.current old hold))).1.isName
  have hnone (p : Pending) : False ↔ p.session ∈ c.refused := by
    simp [refused_of_untroubled hfine]
  obtain ⟨trouble, d, hflush, hsettles, htrouble, -⟩ :=
    hqueued.settles (fun _ => False) fun p _ => hnone p
  have hquiet : trouble = false := by simpa using htrouble
  rw [hquiet] at hflush
  refine ⟨d, hflush, ?_⟩
  have hrows := hsettles.written old hname id
  rwa [hpending, pendingOf_append, pendingOf_marked, if_pos rfl] at hrows

end

/-- **A session that cannot be begun loses nothing.** Let logs be set up in a directory that was
empty at first, and be used in any way, with any failures, until a session is open. Let the
attempt to begin another fail at any of its operations. The old session stays open, what could not
be written waits on, and what is recorded from then on goes to the old session. At any later time
without trouble a session can be begun, unless its name is too long for the directory; and that
name is one that no file has. -/
theorem failed_session_withdrawn {disk : Disk} {directory : String}
    (hvacant : Vacant disk directory) (first : List Turn) (deeds : List Deed) :
    let a := deeds.foldl Deed.step ⟨{ directory }, disk, first⟩
    ∀ old, a.log.current = some old → ∀ now fault b, newSession now a = .error fault b →
      Withdrawn a b ∧
      (∀ rs : List RollRecord,
        let c := run b (rs.map .record)
        c.log.pending = b.log.pending ++ rs.map (⟨old, ·⟩) ∧
        (Untroubled c → ∃ d, flush c = .ok false d ∧
          Appended (c.stored old) (d.stored old) (pendingOf old b.log.pending ++ rs))) ∧
      ∀ later : List Deed,
        let c := later.foldl Deed.step b
        Untroubled c → ∀ moment,
          let name := freshName moment.toUniversal c
          (succeeds (newSession moment c) = true ↔ Disk.Fits directory name) ∧
          c.disk.isThere (Path.join directory name) = false ∧
          ∀ other d, newSession moment c = .ok other d →
            other = name ∧ d.log.current = some name ∧ d.listed = c.listed ++ [name] := by
  intro a old hold now fault b hrun
  have hstart : Ready ⟨{ directory }, disk, first⟩ [] :=
    ⟨.of_vacant hvacant first, nofun, fun hne => absurd rfl hne⟩
  obtain ⟨ns, hready⟩ : ∃ ns, Ready a ns := ready_foldl deeds hstart
  obtain ⟨ns', hqueued, hsame⟩ := queued_foldl deeds (.of_vacant hvacant first)
  obtain rfl : ns' = ns := hqueued.toSound.listed.symm.trans hready.sound.listed
  have hns : ns' ≠ [] := by
    rintro rfl
    cases hready.sound.current old hold
  have hwithdrawn := hqueued.withdrawn hns hrun
  have hstep : Deed.step a (.op (.newSession now)) = b := by
    rw [Deed.step, Op.step, hrun, final]
  refine ⟨hwithdrawn, fun rs => ?_, fun later => ?_⟩
  · obtain ⟨_, hb⟩ := Deed.queued hqueued (.op (.newSession now))
    rw [hstep] at hb
    exact hb.record_flush (hwithdrawn.current.trans hold) rs
  intro c hfine moment name
  have hc : (.op (.newSession now) :: later).foldl Deed.step a = c := by
    rw [List.foldl_cons, hstep]
  obtain ⟨ns, hlast, hfront⟩ := listed_foldl (.op (.newSession now) :: later) hready
  obtain ⟨_, -, hdirectory⟩ := queued_foldl (.op (.newSession now) :: later) hqueued
  rw [hc] at hlast hdirectory
  have hne : ns ≠ [] := by
    rintro rfl
    exact hns (List.prefix_nil.mp hfront)
  have hpath : c.log.directory = directory := hdirectory.trans hsame
  have hfree : isFree c name = true := (freshName_spec moment.toUniversal c).2
  rw [← hpath]
  refine ⟨newSession_untroubled hlast hne hfine moment, (hlast.sound.not_mem_of_isFree hfree).2,
    fun other d hbegun => ?_⟩
  obtain ⟨rfl, -⟩ := newSession_name hlast hne hbegun
  exact ⟨rfl, newSession_listed hlast.sound hbegun⟩

/-- A log whose second session will have a file with a header, and then cannot be listed. -/
def unlistable : Archive :=
  let noon : Moment := ⟨2024, 5, 1, 12, 0, 0, 0, some 0⟩
  [.init noon, .op (.record ⟨7, 3, 6, noon⟩)].foldl Deed.step ⟨⟨"rolls", none, []⟩, Disk.blank,
    List.replicate 10 ⟨[], none⟩ ++ [⟨[⟨8, 1, 20, noon⟩], some .noSpace⟩]⟩

/-- Within the same second the name of that file is not taken again. -/
theorem failed_session_withdrawn_unlistable :
    let noon : Moment := ⟨2024, 5, 1, 12, 0, 0, 0, some 0⟩
    let old := "2024-05-01_12-00-00.csv"
    Vacant Disk.blank "rolls" ∧ unlistable.log.current = some old ∧
      ∃ fault b, newSession noon unlistable = .error fault b ∧ Withdrawn unlistable b ∧
        b.log.pending = [⟨old, ⟨8, 1, 20, noon⟩⟩] ∧
        b.stored "2024-05-01_12-00-00_2.csv" = some (rowBytes [header]) ∧ Untroubled b ∧
        ∃ d, newSession noon b = .ok "2024-05-01_12-00-00_3.csv" d ∧
          d.listed = [old, "2024-05-01_12-00-00_3.csv"] := by
  intro noon old
  have hvacant : Vacant Disk.blank "rolls" := vacant_blank "rolls" ⟨by decide, by decide⟩
  obtain ⟨first, deeds, hunlistable⟩ : ∃ (first : List Turn) (deeds : List Deed), unlistable =
      deeds.foldl Deed.step ⟨{ directory := "rolls" }, Disk.blank, first⟩ := ⟨_, _, rfl⟩
  have hspec := failed_session_withdrawn hvacant first deeds
  rw [← hunlistable] at hspec
  have hfacts : unlistable.log.current = some old ∧
      succeeds (newSession noon unlistable) = false ∧
      let b := final (newSession noon unlistable)
      b.log.pending = [⟨old, ⟨8, 1, 20, noon⟩⟩] ∧
        b.stored "2024-05-01_12-00-00_2.csv" = some (rowBytes [header]) ∧ b.turns = [] ∧
        b.listed = [old] ∧ freshName noon.toUniversal b = "2024-05-01_12-00-00_3.csv" := by
    decide +kernel
  obtain ⟨hcurrent, hfails, hfacts⟩ := hfacts
  obtain ⟨fault, hrun⟩ := exists_of_fails hfails
  obtain ⟨b, hb⟩ : ∃ b, final (newSession noon unlistable) = b := ⟨_, rfl⟩
  rw [hb] at hrun hfacts
  obtain ⟨hpending, horphan, hturns, hlisted, hname⟩ := hfacts
  have hfine : Untroubled b := by simp [Untroubled, hturns]
  obtain ⟨hwithdrawn, -, hlater⟩ := hspec old hcurrent noon fault b hrun
  obtain ⟨hsucceeds, -, hbegun⟩ := hlater [] hfine noon
  rw [List.foldl_nil, hname] at hsucceeds hbegun
  have hfits : Disk.Fits "rolls" "2024-05-01_12-00-00_3.csv" :=
    ⟨by decide, by decide, by decide⟩
  obtain ⟨name, hnext⟩ := exists_of_succeeds (hsucceeds.mpr hfits)
  obtain ⟨rfl, -, hlast⟩ := hbegun name _ hnext
  rw [hlisted] at hlast
  exact ⟨hvacant, hcurrent, fault, b, hrun, hwithdrawn, hpending, horphan, hfine, _, hnext, hlast⟩

end DiceLedger.Session
