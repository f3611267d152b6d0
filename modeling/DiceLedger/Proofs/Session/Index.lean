import DiceLedger.Proofs.Disk.Settled
import DiceLedger.Proofs.Session.Conservation

/-!
# The index, the files and the current session

What is current is what the index lists last, and every session that is listed has a file that
begins with the header. The list only grows, by the session that was begun. So a log that is
set up again in the same directory goes on where the one before it left off.
-/
namespace DiceLedger.Session

open DiceLedger.Text DiceLedger.Time

/-- The sessions that are found in the index, none where it cannot be read. -/
def Archive.listed (a : Archive) : List String := (sessions a).toOption.getD []

theorem Sound.listed {a : Archive} {ns : List String} (h : Sound a ns) : a.listed = ns := by
  rw [Archive.listed]
  rcases h.sessions with ⟨rfl, -, fault, hfault⟩ | hns
  · rw [hfault]
    rfl
  · rw [hns]
    rfl

theorem Sound.sessions_of_ne_nil {a : Archive} {ns : List String} (h : Sound a ns) (hns : ns ≠ []) :
    Session.sessions a = .ok ns :=
  h.sessions.resolve_left fun hnone => hns hnone.1

/-! ## Files with a header -/

/-- A file of the log that holds the header and then rows of records. -/
def Headed (a : Archive) (name : String) : Prop :=
  ∃ rs : List RollRecord, a.disk.read (a.log.path name) = .ok (rowBytes (header :: rs.map row))

theorem headed_iff {a : Archive} {ns : List String} (h : Sound a ns) {name : String}
    (hname : name ∈ ns) :
    Headed a name ↔ ∃ rs : List RollRecord, a.held name = some (rowBytes (header :: rs.map row)) := by
  obtain ⟨hsession, hkept⟩ := h.isOpen name hname
  obtain ⟨c, hread, hc⟩ := hkept.read hsession.isName
  rw [Headed, hread, hc]
  simp

/-- A step of the log's life writes rows behind what is there, and makes files with a header. -/
theorem Advances.headed {a b : Archive} {ns ns' : List String} {came : List Pending}
    (h : Advances a b ns ns' came) (ha : Sound a ns) (hheaded : ∀ name ∈ ns, Headed a name) :
    ∀ name ∈ ns', Headed b name := by
  intro name hname
  obtain ⟨hsession, hkept⟩ := h.sound.isOpen name hname
  obtain ⟨c, -, hc⟩ := hkept.read hsession.isName
  obtain ⟨rs, -, hfiled⟩ := h.moves name hsession.ne_index
  rw [headed_iff h.sound hname]
  rcases hfiled with ⟨hafter, -⟩ | ⟨-, hmade | ⟨hout, -⟩⟩
  · rcases h.mem hname with hold | hnone
    · obtain ⟨rs', hbefore⟩ := (headed_iff ha hold).mp (hheaded name hold)
      refine ⟨rs' ++ rs, ?_⟩
      rw [hafter, hbefore, Option.map_some, ← rowBytes_append, List.cons_append, List.map_append]
    · rw [hafter, hnone] at hc
      cases hc
  · exact ⟨rs, hmade⟩
  · exact absurd hname hout

/-! ## The directory -/

theorem Kept.isPath {a : Archive} {name : String} (hname : Path.IsName name) (h : Kept a name) :
    Disk.IsPath a.log.directory := by
  obtain ⟨c, hplace, -⟩ := (kept_iff hname).mp h
  exact (Disk.isPath_of_place? hplace).of_starts (Path.starts_join _ hname)

/-- Where a session has begun, the directory is there. -/
theorem newSession_settled {a b : Archive} {ns : List String} (h : Sound a ns) {now : Moment}
    {name : String} (hrun : newSession now a = .ok name b) : b.disk.Settled b.log.directory := by
  obtain ⟨b₁, rs₁, b₂, rs₂, -, -, -, hw₂, -, hs₂, ⟨fault, hfault, -⟩ | ⟨hmake, hrest⟩⟩ :=
    newSession_cases h now
  · rw [hfault] at hrun
    cases hrun
  obtain ⟨b₃, rs₃, hw₃, ⟨fault, hfault, -⟩ | ⟨other, henlist, hs₃, -⟩⟩ := enlist_spec hs₂ now
  · rw [hrest, run_of_error hfault] at hrun
    cases hrun
  rw [hrest, run_of_ok henlist, run_of_ok (run_modify _ b₃)] at hrun
  cases hrun
  have hdirectory : b₃.log.directory = b₁.log.directory := hw₃.directory.trans hw₂.directory
  have hopen := hs₃.isOpen name (List.mem_append_right _ List.mem_cons_self)
  have hpath : Disk.IsPath b₃.log.directory := Kept.isPath hopen.1.isName hopen.2
  rw [hdirectory] at hpath
  change b₃.disk.Settled b₃.log.directory
  rw [hdirectory]
  exact hw₃.grows.settled (Disk.settled_of_makeDirectories hpath hmake)

/-- The sessions are `ns`. Their files have headers, and once there is one so has the directory
been made. -/
structure Ready (a : Archive) (ns : List String) : Prop where
  sound : Sound a ns
  headed : ∀ name ∈ ns, Headed a name
  settled : ns ≠ [] → a.disk.Settled a.log.directory

section

variable {a b : Archive} {ns ns' : List String}

theorem Ready.advance {came : List Pending} (h : Ready a ns) (hstep : Advances a b ns ns' came)
    (hfirst : ns = [] → ns' ≠ [] → b.disk.Settled b.log.directory) : Ready b ns' := by
  refine ⟨hstep.sound, hstep.headed h.sound h.headed, fun hns' => ?_⟩
  by_cases hns : ns = []
  · exact hfirst hns hns'
  · rw [hstep.directory]
    exact hstep.grows.settled (h.settled hns)

theorem Ready.restart (h : Ready a ns) (turns : List Turn) : Ready (a.restart turns) ns :=
  ⟨h.sound.restart turns, h.headed, h.settled⟩

theorem init_settled (h : Ready a ns) {now : Moment} {name : String}
    (hrun : init now a = .ok name b) : b.disk.Settled b.log.directory := by
  obtain ⟨c, rs, hw, hsame, -, ⟨fault, hfault, -⟩ | ⟨-, hnew⟩ | ⟨last, hlast, hresume⟩⟩ :=
    init_cases h.sound now
  · rw [hfault] at hrun
    cases hrun
  · exact newSession_settled (h.sound.waits hw (hsame _)) (hnew.symm.trans hrun)
  · rw [hresume] at hrun
    cases hrun
    have hns : ns ≠ [] := by
      rintro rfl
      cases hlast
    change c.disk.Settled c.log.directory
    rw [hw.directory]
    exact hw.grows.settled (h.settled hns)

/-- **Every step** keeps the log ready, and what was listed stays in front. -/
theorem Deed.ready (h : Ready a ns) (deed : Deed) :
    ∃ ns', Ready (deed.step a) ns' ∧ ns <+: ns' := by
  cases deed with
  | op o =>
    cases o with
    | record r =>
      exact ⟨ns, h.advance (Op.record_advances h.sound r) fun hns => absurd hns, List.prefix_rfl⟩
    | flush => exact ⟨ns, h.advance (Op.flush_advances h.sound) fun hns => absurd hns, List.prefix_rfl⟩
    | newSession now =>
      obtain ⟨b, came, -, ⟨fault, hfault, hstep⟩ | ⟨name, hok, hstep⟩⟩ :=
        newSession_spec h.sound now
      · rw [Deed.step, Op.step, hfault]
        exact ⟨ns, h.advance hstep fun hns => absurd hns, List.prefix_rfl⟩
      · rw [Deed.step, Op.step, hok]
        exact ⟨_, h.advance hstep fun _ _ => newSession_settled h.sound hok, List.prefix_append _ _⟩
  | init now =>
    obtain ⟨b, came, -, ⟨fault, hfault, hstep⟩ | ⟨name, ns', hok, hstep⟩⟩ := init_spec h.sound now
    · rw [Deed.step, hfault]
      exact ⟨ns, h.advance hstep fun hns => absurd hns, List.prefix_rfl⟩
    · rw [Deed.step, hok]
      refine ⟨ns', h.advance hstep fun _ _ => init_settled h hok, ?_⟩
      rcases hstep.names with rfl | ⟨other, rfl, -⟩
      · exact List.prefix_rfl
      · exact List.prefix_append _ _
  | restart turns => exact ⟨ns, h.restart turns, List.prefix_rfl⟩

theorem listed_foldl (deeds : List Deed) :
    ∀ {a : Archive} {ns : List String}, Ready a ns →
      ∃ ns', Ready (deeds.foldl Deed.step a) ns' ∧ ns <+: ns' := by
  induction deeds with
  | nil => exact fun h => ⟨_, h, List.prefix_rfl⟩
  | cons deed deeds ih =>
    intro a ns h
    obtain ⟨ns', h', hfront⟩ := deed.ready h
    obtain ⟨ns'', hlast, hrest⟩ := ih h'
    exact ⟨ns'', hlast, hfront.trans hrest⟩

theorem ready_foldl (deeds : List Deed) {a : Archive} {ns : List String} (h : Ready a ns) :
    ∃ ns', Ready (deeds.foldl Deed.step a) ns' :=
  (listed_foldl deeds h).imp fun _ => And.left

/-- Finding the last session again: no file is touched, and only a turn that brings trouble keeps
the session from being resumed. -/
theorem init_resumes (h : Ready a ns) {name : String} (hlast : ns.getLast? = some name)
    (now : Moment) :
    ∃ b rs, Waits a b rs ∧ b.disk = a.disk ∧
      ((∃ fault, init now a = .error fault b ∧ ¬Untroubled a) ∨
        init now a = .ok name (b.resume name)) := by
  have hns : ns ≠ [] := by
    rintro rfl
    cases hlast
  have hsettled := h.settled hns
  obtain ⟨b, rs, hw, -, hstill, ⟨fault, hfault, hfine⟩ | ⟨hnone, -⟩ | ⟨last, hlast', hrun⟩⟩ :=
    init_cases h.sound now
  · exact ⟨b, rs, hw, hstill hsettled, .inl ⟨fault, hfault, fun ha => hns (hfine hsettled ha)⟩⟩
  · exact absurd hnone hns
  · rw [hlast, Option.some.injEq] at hlast'
    subst hlast'
    exact ⟨b, rs, hw, hstill hsettled, .inr hrun⟩

theorem resumed_listed (h : Sound a ns) {rs : List RollRecord} (hw : Waits a b rs)
    (hdisk : b.disk = a.disk) {name : String} (hlast : ns.getLast? = some name) :
    (b.resume name).listed = ns :=
  ((h.waits hw (hw.held_eq hdisk _)).resume_last hlast).listed

/-- A log that is set up again in the same directory goes on with the last session. -/
theorem restart_resumes (h : Ready a ns) {name : String} (hlast : ns.getLast? = some name)
    (turns : List Turn) (now : Moment) :
    (∀ other b, init now (a.restart turns) = .ok other b →
      other = name ∧ b.log.current = some name ∧ b.listed = ns) ∧
    (Untroubled (a.restart turns) → succeeds (init now (a.restart turns)) = true) := by
  obtain ⟨b, rs, hw, hdisk, ⟨fault, hfault, htrouble⟩ | hok⟩ :=
    init_resumes (h.restart turns) hlast now
  · rw [hfault]
    exact ⟨nofun, fun hfine => absurd hfine htrouble⟩
  · rw [hok]
    refine ⟨?_, fun _ => rfl⟩
    rintro other c ⟨⟩
    exact ⟨rfl, rfl, resumed_listed (h.restart turns).sound hw hdisk hlast⟩

/-- Setting up a log that is open changes nothing but what comes in meanwhile. -/
theorem init_again (h : Ready a ns) {name : String} (hcurrent : a.log.current = some name)
    (now : Moment) :
    (final (init now a)).disk = a.disk ∧
    (final (init now a)).log = a.log.receive (arrivals a (final (init now a))) ∧
    (∀ other b, init now a = .ok other b → other = name) ∧
    (Untroubled a → succeeds (init now a) = true) := by
  obtain ⟨b, rs, hw, hdisk, hout⟩ := init_resumes h (h.sound.current name hcurrent) now
  have hlog : b.log = a.log.receive rs := by
    rw [receive_eq, ← hw.pending, ← hw.current, ← hw.directory]
  have hresume : (b.resume name).log = b.log := by
    rw [Archive.resume, ← hcurrent, ← hw.current]
  rcases hout with ⟨fault, hfault, htrouble⟩ | hok
  · rw [hfault, final, hw.arrivals]
    refine ⟨hdisk, hlog, ?_, fun hfine => absurd hfine htrouble⟩
    rintro other c ⟨⟩
  · have harrivals : arrivals a (b.resume name) = rs := hw.arrivals
    rw [hok, final, harrivals, hresume]
    refine ⟨hdisk, hlog, ?_, fun _ => rfl⟩
    rintro other c ⟨⟩
    rfl

/-- What holds at any time. Only while there is no index can it not be read. -/
structure Coherent (a : Archive) : Prop where
  found : sessions a = .ok a.listed ∨ a.held Log.indexName = none
  nodup : a.listed.Nodup
  headed : ∀ name ∈ a.listed, Headed a name
  current : ∀ name, a.log.current = some name →
    sessions a = .ok a.listed ∧ a.listed.getLast? = some name

theorem Ready.coherent (h : Ready a ns) : Coherent a := by
  rw [← h.sound.listed] at h
  refine ⟨?_, h.sound.nodup, h.headed, fun name hcurrent => ?_⟩
  · exact h.sound.sessions.symm.imp_right fun hnone => hnone.2.1
  · have hlast := h.sound.current name hcurrent
    refine ⟨h.sound.sessions_of_ne_nil ?_, hlast⟩
    intro hnone
    rw [hnone] at hlast
    cases hlast

end

/-- **The index, the files and the current session stay consistent.** Let logs be set up in a
directory that was empty at first, and set up again, with records, flushes and new sessions, any
of whose file operations may fail. At any time no session is listed twice, each has a file with a
header, and an open session is listed last. Nothing that is done takes a session from the list,
and beginning one adds it. A log that is set up again resumes the last session, and one that is
open stays as it is. -/
theorem index_consistent {disk : Disk} {directory : String} (hvacant : Vacant disk directory)
    (first : List Turn) (deeds : List Deed) :
    let a := deeds.foldl Deed.step ⟨{ directory }, disk, first⟩
    Coherent a ∧
    (∀ deed : Deed, a.listed <+: (deed.step a).listed) ∧
    (∀ now name b, newSession now a = .ok name b → b.listed = a.listed ++ [name]) ∧
    (∀ now fault b, newSession now a = .error fault b → b.listed = a.listed) ∧
    (∀ name, a.listed.getLast? = some name → ∀ turns now,
      (∀ other b, init now (a.restart turns) = .ok other b →
        other = name ∧ b.log.current = some name ∧ b.listed = a.listed) ∧
      (Untroubled (a.restart turns) → succeeds (init now (a.restart turns)) = true)) ∧
    (∀ name, a.log.current = some name → ∀ now,
      (final (init now a)).disk = a.disk ∧
      (final (init now a)).log = a.log.receive (arrivals a (final (init now a))) ∧
      (∀ other b, init now a = .ok other b → other = name) ∧
      (Untroubled a → succeeds (init now a) = true)) := by
  intro a
  have hstart : Ready ⟨{ directory }, disk, first⟩ [] :=
    ⟨.of_vacant hvacant first, nofun, fun hne => absurd rfl hne⟩
  obtain ⟨ns, hready⟩ : ∃ ns, Ready a ns := ready_foldl deeds hstart
  have hns : a.listed = ns := hready.sound.listed
  rw [hns]
  refine ⟨hready.coherent, fun deed => ?_, fun now name b hrun => ?_, fun now fault b hrun => ?_,
    fun name hlast turns now => restart_resumes hready hlast turns now,
    fun name hcurrent now => init_again hready hcurrent now⟩
  · obtain ⟨ns', hready', hprefix⟩ := deed.ready hready
    rwa [hready'.sound.listed]
  · obtain ⟨c, came, -, ⟨fault, hfault, -⟩ | ⟨other, hok, hstep⟩⟩ :=
      newSession_spec hready.sound now
    · rw [hfault] at hrun
      cases hrun
    · rw [hok] at hrun
      cases hrun
      exact hstep.sound.listed
  · obtain ⟨c, came, -, ⟨fault', hfault, hstep⟩ | ⟨other, hok, -⟩⟩ :=
      newSession_spec hready.sound now
    · rw [hfault] at hrun
      cases hrun
      exact hstep.sound.listed
    · rw [hok] at hrun
      cases hrun

/-- Two sessions begun within the same second. A log that is set up again fails at its first
attempt, and then resumes the second of them. -/
theorem index_consistent_same_second :
    let early : Moment := ⟨2024, 5, 1, 12, 0, 0, 0, some 0⟩
    let earlier : Moment := ⟨2024, 4, 30, 18, 0, 0, 0, some 0⟩
    let deeds : List Deed := [.init early, .op (.record ⟨7, 3, 6, early⟩), .op (.newSession early),
      .restart [⟨[], some .noSpace⟩], .init earlier]
    let a := deeds.foldl Deed.step ⟨⟨"rolls", none, []⟩, Disk.blank, []⟩
    Vacant Disk.blank "rolls" ∧ Coherent a ∧ a.log.current = none ∧
      a.listed = ["2024-05-01_12-00-00.csv", "2024-05-01_12-00-00_2.csv"] ∧
      ∃ b, init earlier (a.restart []) = .ok "2024-05-01_12-00-00_2.csv" b ∧
        b.listed = a.listed := by
  intro early earlier deeds a
  have hvacant : Vacant Disk.blank "rolls" := vacant_blank "rolls" ⟨by decide, by decide⟩
  obtain ⟨hcoherent, -, -, -, hrestart, -⟩ := index_consistent hvacant [] deeds
  have hlisted : a.listed = ["2024-05-01_12-00-00.csv", "2024-05-01_12-00-00_2.csv"] := by
    decide +kernel
  have hlast : a.listed.getLast? = some "2024-05-01_12-00-00_2.csv" := by rw [hlisted]; rfl
  obtain ⟨hfound, hsucceeds⟩ := hrestart _ hlast [] earlier
  obtain ⟨name, hname⟩ := exists_of_succeeds (hsucceeds nofun)
  obtain ⟨rfl, -, hsame⟩ := hfound name _ hname
  exact ⟨hvacant, hcoherent, by decide +kernel, hlisted, _, hname, hsame⟩

end DiceLedger.Session
