import DiceLedger.Proofs.Session.Index

/-!
# Beginning a session without trouble

Once a session was begun, the name of the next is settled before anything is done: what a flush
writes takes no name and makes none free. Where nothing troubles the log that name is given to a
file and listed, unless it is too long for the directory.
-/
namespace DiceLedger.Session

open DiceLedger.Text DiceLedger.Time

/-! ## Names that a flush leaves free -/

theorem attempt_append_directory {a b : Archive} {s : String} {rs : List RollRecord}
    {out : Except DiskFault Unit}
    (h : attempt (a.log.path s) (a.log.appendRows s rs) a = (out, b)) {place : Place}
    (hb : b.disk.find? place = some .directory) : a.disk.find? place = some .directory := by
  rcases attempt_cases h with ⟨-, -, -, -, -, hdisk⟩ | ⟨-, hok⟩ | ⟨fault, -, herror⟩
  · rwa [hdisk] at hb
  · obtain ⟨other, -, hfile, hput⟩ := Disk.append_eq_ok_iff.mp (step_eq_ok_iff.mp hok)
    have hroot : other ≠ [] := by
      intro he
      exact hfile (he ▸ Disk.find?_root _)
    rw [hput, Disk.find?_put _ hroot] at hb
    split at hb
    · cases hb
    · exact hb
  · rwa [← (step_eq_error_iff.mp herror).2] at hb

/-- What is a directory now was one before. -/
def MakesNone (place : Place) (a b : Archive) : Prop :=
  b.disk.find? place = some .directory → a.disk.find? place = some .directory

/-- Writing groups makes no directories. -/
theorem writeGroups_directory (gs : List (String × List RollRecord)) (place : Place) :
    ∀ a : Archive, MakesNone place a (final (writeGroups gs a)) := by
  apply writeGroups_leads (R := MakesNone place)
  · exact fun _ hb => hb
  · intro a b c h h' hc
    exact h (h' hc)
  · intro a mid s rs out hattempt hb
    exact attempt_append_directory hattempt hb

theorem flush_directory {a b : Archive} {trouble : Bool} (h : flush a = .ok trouble b)
    {place : Place} (hb : b.disk.find? place = some .directory) :
    a.disk.find? place = some .directory := by
  obtain ⟨waiting, hfinal⟩ := final_flush a
  rw [h, final] at hfinal
  rw [hfinal] at hb
  exact writeGroups_directory (groups a.log.pending) place
    { a with log := { a.log with pending := [] } } hb

section

variable {a b m : Archive} {ns : List String} {now : Moment} {name : String}

theorem flush_isThere (h : Sound a ns) (hns : ns ≠ []) {trouble : Bool}
    (hflush : flush a = .ok trouble b) (hname : Path.IsName name) :
    b.disk.isThere (b.log.path name) = a.disk.isThere (a.log.path name) := by
  obtain ⟨_, _, came, hflush', hp, hc, -⟩ := flush_spec fun p hp => h.isOpen _ (h.pending p hp)
  obtain ⟨-, rfl⟩ := EStateM.Result.ok.inj (hflush.symm.trans hflush')
  have hreach := h.reaches_of_ne_nil hns
  rw [hp.path, Bool.eq_iff_iff]
  refine ⟨fun hthere => ?_, hp.grows.isThere⟩
  obtain ⟨place, hplace, hfind⟩ := Disk.isThere_iff.mp hthere
  obtain ⟨hfits, htarget⟩ := (Disk.place?_join_iff (hp.grows.reaches hreach) hname).mp hplace
  rw [hp.grows.target] at htarget
  refine Disk.isThere_iff.mpr ⟨place, (Disk.place?_join_iff hreach hname).mpr ⟨hfits, htarget⟩, ?_⟩
  obtain ⟨e, he⟩ := Option.ne_none_iff_exists'.mp hfind
  cases e with
  | directory => simp [flush_directory hflush he]
  | file c =>
    have hheld : b.held name = some c := by
      rw [Archive.held, hp.place, Archive.place, ← htarget]
      exact Disk.content_eq_some_iff.mpr he
    obtain ⟨rs, hrs, -⟩ := hc name
    intro hnone
    have hbefore : a.held name = none := by
      rw [Archive.held, Archive.place, ← htarget, Disk.content, hnone]
    rw [hbefore, hheld] at hrs
    cases hrs.1

/-! ## Steps that succeed -/

theorem perform_untroubled {path : String} {f : Disk → Except DiskFault Disk} {d : Disk}
    (h : Untroubled a) (hd : f a.disk = .ok d) :
    ∃ b, perform path (Disk.step f) a = .ok () b := by
  rcases hattempt : attempt path (Disk.step f) a with ⟨out, b⟩
  rcases attempt_cases hattempt with ⟨turn, hturn, t, ht, -⟩ | ⟨rfl, -⟩ | ⟨fault, -, herror⟩
  · exact absurd h (not_untroubled hturn ht)
  · exact ⟨b, perform_of_ok hattempt⟩
  · rw [(step_eq_error_iff.mp herror).1] at hd
    cases hd

/-- A file that can be read is written to. -/
theorem Kept.perform_append (h : Kept a name) (hfine : Untroubled a) (bytes : ByteArray) :
    ∃ b, perform (a.log.path name) (Disk.step (·.append (a.log.path name) bytes)) a = .ok () b := by
  obtain ⟨c, hc⟩ := h
  obtain ⟨d, hd⟩ := Disk.append_of_read hc bytes
  exact perform_untroubled hfine hd

/-- The file of a free name is made, if the name fits. -/
theorem makeSheet_untroubled (hreach : m.disk.Reaches m.log.directory) (hname : Path.IsName name)
    (hthere : m.disk.isThere (m.log.path name) = false) (hfine : Untroubled m)
    (hfits : Disk.Fits m.log.directory name) : ∃ b, m.log.makeSheet name m = .ok () b := by
  have hplace : m.disk.place? (m.log.path name) = .ok (m.place name) :=
    (Disk.place?_join_iff hreach hname).mpr ⟨hfits, rfl⟩
  have hnone : m.disk.find? (m.place name) = none := by
    rw [Disk.isThere, hplace] at hthere
    simpa using hthere
  have hcreate : m.disk.create (m.log.path name) = .ok (m.disk.put (m.place name) (.file .empty)) :=
    Disk.create_eq_ok_iff.mpr ⟨_, hplace, by simp [hnone], rfl⟩
  rcases perform_rewrite (f := (·.create (m.log.path name))) hname
      (fun d' hd => (Disk.create_spec hname hthere hd).2) with
    ⟨fault, _, _, hfail, -⟩ | ⟨mid, rs, hmade, hw, -, hkept, -⟩
  · obtain ⟨b, hb⟩ : ∃ b, perform (m.log.path name) (Disk.step (·.create (m.log.path name))) m =
        .ok () b := perform_untroubled hfine hcreate
    rw [hb] at hfail
    cases hfail
  · rw [Log.makeSheet, run_of_ok hmade, ← hw.path]
    exact hkept.perform_append (hw.untroubled hfine) _

theorem enlist_name (h : enlist now m = .ok name b) : name = freshName now.toUniversal m := by
  rw [enlist_eq] at h
  obtain ⟨_, _, -, h⟩ := run_eq_ok_iff.mp h
  obtain ⟨_, _, -, h⟩ := run_eq_ok_iff.mp h
  cases h
  rfl

theorem enlist_untroubled (h : Sound m ns) (hns : ns ≠ []) (hfine : Untroubled m)
    (hfits : Disk.Fits m.log.directory (freshName now.toUniversal m)) :
    ∃ name b, enlist now m = .ok name b := by
  obtain ⟨hsession, hfree⟩ := freshName_spec now.toUniversal m
  rw [enlist_eq]
  generalize freshName now.toUniversal m = name at hsession hfree hfits
  obtain ⟨mid, hmade⟩ := makeSheet_untroubled (h.reaches_of_ne_nil hns) hsession.isName
    (h.not_mem_of_isFree hfree).2 hfine hfits
  obtain ⟨mid', rs, hw, -, ⟨fault, hfault, -⟩ | ⟨hmade', -⟩⟩ := makeSheet_spec h hsession hfree
  · rw [hmade] at hfault
    cases hfault
  obtain ⟨-, rfl⟩ := EStateM.Result.ok.inj (hmade.symm.trans hmade')
  have hindex : Kept m Log.indexName := (h.index.resolve_left fun hnone => hns hnone.1).1
  obtain ⟨b, hlist⟩ := (hw.kept hindex).perform_append (hw.untroubled hfine)
    (Utf8.write (name.toList ++ ['\n']))
  rw [run_of_ok hmade, Log.indexPath, ← hw.path, run_of_ok hlist]
  exact ⟨name, b, rfl⟩

/-- Where a session was begun before, only trouble keeps a log from coming to where the next is
listed, and its name is still the one that was free at first. -/
theorem Ready.begins (h : Ready a ns) (hns : ns ≠ []) (now : Moment) :
    ((∃ fault b, newSession now a = .error fault b) ∧ ¬Untroubled a) ∨
      ∃ b rs, Passes a b rs ∧ Sound b ns ∧
        freshName now.toUniversal b = freshName now.toUniversal a ∧
        newSession now a = (do
          let name ← enlist now
          modify (·.resume name)
          return name : Work String) b := by
  have hsettled := h.settled hns
  obtain ⟨b₁, rs₁, b₂, rs₂, ⟨trouble, hflush⟩, hp₁, -, hw₂, -, hs₂,
    ⟨fault, hfault, htroubled⟩ | ⟨hmake, hrun⟩⟩ := newSession_cases h.sound now
  · exact .inl ⟨⟨fault, b₂, hfault⟩, htroubled hsettled⟩
  refine .inr ⟨b₂, _, hp₁.trans hw₂.toPasses, hs₂, ?_, hrun⟩
  -- the directory is made again, which changes nothing
  have hagain : b₁.disk.Settled b₁.log.directory := hp₁.directory ▸ hp₁.grows.settled hsettled
  rw [Disk.makeDirectories_settled hagain] at hmake
  have hdisk : b₂.disk = b₁.disk := (EStateM.Result.ok.inj hmake).2.symm
  apply freshName_congr
  intro name hname
  unfold isFree
  rw [hw₂.current, hp₁.current, hdisk, hw₂.path, flush_isThere h.sound hns hflush hname.isName]

/-- The name of a session that is begun was the first that was free, and it fits. -/
theorem newSession_name (h : Ready a ns) (hns : ns ≠ []) (hrun : newSession now a = .ok name b) :
    name = freshName now.toUniversal a ∧ Disk.Fits a.log.directory name := by
  rcases h.begins hns now with ⟨⟨fault, _, hfault⟩, -⟩ | ⟨mid, rs, hp, hs, hsame, hrest⟩
  · rw [hfault] at hrun
    cases hrun
  rw [hrest] at hrun
  obtain ⟨other, last, henlist, hresume⟩ := run_eq_ok_iff.mp hrun
  cases hresume
  refine ⟨by rw [enlist_name henlist, hsame], ?_⟩
  obtain ⟨last', rs', hw, ⟨fault, hfault, -⟩ | ⟨name', henlist', hsound, -⟩⟩ := enlist_spec hs now
  · rw [henlist] at hfault
    cases hfault
  obtain ⟨rfl, rfl⟩ := EStateM.Result.ok.inj (henlist.symm.trans henlist')
  have hmem : name ∈ ns ++ [name] := List.mem_append_right _ List.mem_cons_self
  obtain ⟨hsession, c, hc⟩ := hsound.isOpen name hmem
  have hfits := ((Disk.read_join (hsound.reaches_of_mem hmem) hsession.isName).mp hc).1
  have hdirectory : (last.resume name).log.directory = a.log.directory :=
    hw.directory.trans hp.directory
  rwa [hdirectory] at hfits

theorem newSession_listed (h : Sound a ns) (hrun : newSession now a = .ok name b) :
    b.log.current = some name ∧ b.listed = a.listed ++ [name] := by
  obtain ⟨mid, came, -, ⟨fault, hfault, -⟩ | ⟨other, hok, hstep⟩⟩ := newSession_spec h now
  · rw [hfault] at hrun
    cases hrun
  · rw [hok] at hrun
    cases hrun
    exact ⟨rfl, by rw [hstep.sound.listed, h.listed]⟩

/-- **Without trouble the next session is begun** exactly if the name that it gets fits. -/
theorem newSession_untroubled (h : Ready a ns) (hns : ns ≠ []) (hfine : Untroubled a)
    (now : Moment) : succeeds (newSession now a) = true ↔
      Disk.Fits a.log.directory (freshName now.toUniversal a) := by
  constructor
  · intro hsucceeds
    obtain ⟨name, hname⟩ := exists_of_succeeds hsucceeds
    obtain ⟨rfl, hfits⟩ := newSession_name h hns hname
    exact hfits
  · intro hfits
    rcases h.begins hns now with ⟨-, htroubled⟩ | ⟨mid, rs, hp, hs, hsame, hrun⟩
    · exact absurd hfine htroubled
    rw [← hsame, ← hp.directory] at hfits
    obtain ⟨name, b, henlist⟩ := enlist_untroubled hs hns (hp.untroubled hfine) hfits
    rw [hrun, run_of_ok henlist]
    rfl

end

end DiceLedger.Session
