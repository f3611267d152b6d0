import DiceLedger.Proofs.Disk.Settled
import DiceLedger.Proofs.Session.Flush

/-!
# Beginning a session

The invariant of a log is that its index lists the sessions, that the file of each is there,
and that what is current or waited for is listed. An attempt to begin a session may end at any
of its operations. It leaves the old sessions as a flush does, and of the new one at most an
empty file, or the header, or, when all went well, an entry in the index.
-/
namespace DiceLedger.Session

open DiceLedger.Text DiceLedger.Time

/-- The sessions of a log are `ns`, in the order of the index. -/
structure Sound (a : Archive) (ns : List String) : Prop where
  index : (ns = [] ∧ a.held Log.indexName = none) ∨
    (Kept a Log.indexName ∧ a.held Log.indexName = some (Utf8.write (listing ns)))
  isOpen : ∀ name ∈ ns, IsOpen a name
  nodup : ns.Nodup
  current : ∀ name, a.log.current = some name → ns.getLast? = some name
  pending : ∀ p ∈ a.log.pending, p.session ∈ ns

theorem isName_index : Path.IsName Log.indexName := ⟨by decide, by decide⟩

theorem Sound.tag_mem {a : Archive} {ns : List String} (h : Sound a ns) {rs : List RollRecord}
    {p : Pending} (hp : p ∈ a.log.tag rs) : p.session ∈ ns :=
  List.mem_of_getLast? (h.current _ (current_of_mem_tag hp))

/-- What leaves the index alone and lets nothing wait for other files keeps a log sound. -/
theorem Sound.passes {a b : Archive} {ns : List String} {rs : List RollRecord} (h : Sound a ns)
    (hp : Passes a b rs) (hindex : b.held Log.indexName = a.held Log.indexName)
    (hpending : ∀ p ∈ b.log.pending, p.session ∈ ns) : Sound b ns := by
  refine ⟨?_, fun name hname => hp.isOpen (h.isOpen name hname), h.nodup, ?_, hpending⟩
  · rw [hindex]
    exact h.index.imp id fun ⟨hkept, hheld⟩ => ⟨hp.kept hkept, hheld⟩
  · rw [hp.current]
    exact h.current

theorem Sound.waits {a b : Archive} {ns : List String} {rs : List RollRecord} (h : Sound a ns)
    (hw : Waits a b rs) (hindex : b.held Log.indexName = a.held Log.indexName) : Sound b ns := by
  refine h.passes hw.toPasses hindex fun p hp => ?_
  rw [hw.pending] at hp
  rcases List.mem_append.mp hp with hp | hp
  · exact h.pending p hp
  · exact h.tag_mem hp

theorem Sound.conserves {a b : Archive} {ns : List String} {rs : List RollRecord}
    (h : Sound a ns) (hp : Passes a b rs) (hc : Conserves a b (a.log.tag rs)) : Sound b ns := by
  have hsession : ∀ p ∈ a.log.pending ++ a.log.tag rs, p.session ∈ ns := by
    intro p hp
    rcases List.mem_append.mp hp with hp | hp
    · exact h.pending p hp
    · exact h.tag_mem hp
  refine h.passes hp (hc.held_eq fun p hp he => ?_).1 fun p hp => hsession p (hc.session_mem hp)
  exact (h.isOpen _ (hsession p hp)).1.ne_index he

theorem Appended.of_none {x : Option ByteArray} {rs : List RollRecord} (h : Appended x none rs) :
    x = none ∧ rs = [] := by
  obtain ⟨hx, hrs⟩ := h
  have hnone : x = none := by simpa using hx.symm
  exact ⟨hnone, hrs hnone⟩

/-- Between two states of a file, the rows of records were written at its end, or it was made with
a header before them. A file that is not listed may have been made and left empty. -/
def Filed (before after : Option ByteArray) (listed : Prop) (rs : List RollRecord) : Prop :=
  Appended before after rs ∨ (before = none ∧
    (after = some (rowBytes (header :: rs.map row)) ∨ (¬listed ∧ rs = [] ∧ after = some .empty)))

theorem Filed.trans {x y z : Option ByteArray} {listed listed' : Prop} {rs rs' : List RollRecord}
    (h : Filed x y listed rs) (h' : Filed y z listed' rs')
    (hquiet : ¬listed → y ≠ none → rs' = [] ∧ ¬listed') : Filed x z listed' (rs ++ rs') := by
  rcases h with hgain | ⟨hx, hheader | ⟨hout, rfl, hempty⟩⟩
  · rcases h' with hgain' | ⟨hnone, hmade⟩
    · exact .inl (hgain.trans hgain')
    · -- the file is made between the last two states
      obtain ⟨hx, rfl⟩ := (hnone ▸ hgain).of_none
      exact .inr ⟨hx, hmade⟩
  · rcases h' with ⟨hafter, -⟩ | ⟨hnone, -⟩
    · refine .inr ⟨hx, .inl ?_⟩
      rw [hafter, hheader, Option.map_some, ← rowBytes_append, List.cons_append, List.map_append]
    · rw [hheader] at hnone
      cases hnone
  · have hmade : y ≠ none := by simp [hempty]
    obtain ⟨rfl, hout'⟩ := hquiet hout hmade
    rcases h' with hgain' | ⟨hnone, -⟩
    · exact .inr ⟨hx, .inr ⟨hout', rfl, hgain'.eq_of_nil.trans hempty⟩⟩
    · exact absurd hnone hmade

/-- From `a` to `b`, with `came` recorded meanwhile, the records are conserved and the files got
their rows. -/
def Moves (a b : Archive) (ns : List String) (came : List Pending) : Prop :=
  ∀ f, f ≠ Log.indexName → ∃ rs,
    rs ++ pendingOf f b.log.pending = pendingOf f (a.log.pending ++ came) ∧
    Filed (a.held f) (b.held f) (f ∈ ns) rs

theorem Conserves.moves {a b : Archive} {came : List Pending} (h : Conserves a b came)
    (ns : List String) : Moves a b ns came := by
  intro f _
  obtain ⟨rs, hrs, hwait⟩ := h f
  exact ⟨rs, hwait, .inl hrs⟩

/-- Between two states no rows were written, and no file was touched that was there, but for the
index. -/
def Adds (m b : Archive) (ns : List String) : Prop :=
  ∀ f, f ≠ Log.indexName → Filed (m.held f) (b.held f) (f ∈ ns) []

theorem Conserves.moves_then {a m b : Archive} {ns : List String} {came came' : List Pending}
    (h : Conserves a m came) (hpending : b.log.pending = m.log.pending ++ came')
    (hfiles : Adds m b ns) :
    Moves a b ns (came ++ came') := by
  intro f hf
  obtain ⟨rs, hrs, hwait⟩ := h f
  have hfirst : Filed (a.held f) (m.held f) True rs := .inl hrs
  have hfiled := hfirst.trans (hfiles f hf) (absurd trivial)
  rw [List.append_nil] at hfiled
  refine ⟨rs, ?_, hfiled⟩
  rw [hpending, pendingOf_append, ← List.append_assoc, hwait, ← pendingOf_append,
    List.append_assoc]

theorem perform_of_ok {path : String} {change : Disk.Change} {a b : Archive}
    (h : attempt path change a = (.ok (), b)) : perform path change a = .ok () b := by
  simp only [perform, h]

theorem perform_of_error {path : String} {change : Disk.Change} {a b : Archive}
    {fault : DiskFault} (h : attempt path change a = (.error fault, b)) :
    perform path change a = .error (.disk fault) b := by
  simp only [perform, h]

/-- An attempt that succeeds has made its change. -/
theorem attempt_ok {path : String} {change : Disk.Change} {a b : Archive}
    (h : attempt path change a = (.ok (), b)) : change a.disk = .ok () b.disk := by
  rcases attempt_cases h with ⟨_, -, _, -, hout, -⟩ | ⟨-, hok⟩ | ⟨fault, hout, -⟩
  · cases hout
  · exact hok
  · cases hout

theorem attempt_makeDirectories {path directory : String} {a b : Archive}
    {out : Except DiskFault Unit}
    (h : attempt path (Disk.makeDirectories directory) a = (out, b)) :
    ∃ rs, Waits a b rs ∧ ∀ f, b.held f = a.held f := by
  have hfurnishes := Disk.makeDirectories_furnishes directory a.disk
  obtain ⟨rs, hwaits⟩ := attempt_waits h hfurnishes.extends
  refine ⟨rs, hwaits, fun f => ?_⟩
  rw [Archive.held, hwaits.place]
  rcases attempt_cases h with ⟨-, -, -, -, -, hdisk⟩ | ⟨-, hok⟩ | ⟨fault, -, herror⟩
  · rw [hdisk]
    rfl
  · rw [hok] at hfurnishes
    exact hfurnishes.content _
  · rw [herror] at hfurnishes
    exact hfurnishes.content _

/-- Where the directory is there, only the trouble of a turn keeps it from being made again. -/
theorem attempt_settled {path directory : String} {a b : Archive} {out : Except DiskFault Unit}
    (h : attempt path (Disk.makeDirectories directory) a = (out, b))
    (hsettled : a.disk.Settled directory) :
    b.disk = a.disk ∧ (Untroubled a → out = .ok ()) := by
  have hmake := Disk.makeDirectories_settled hsettled
  rcases attempt_cases h with ⟨turn, hturn, t, ht, -, hdisk⟩ | ⟨hout, hok⟩ | ⟨fault, -, herror⟩
  · exact ⟨hdisk, fun hfine => absurd hfine (not_untroubled hturn ht)⟩
  · rw [hmake] at hok
    exact ⟨(EStateM.Result.ok.inj hok).2.symm, fun _ => hout⟩
  · rw [hmake] at herror
    cases herror

/-- A name that is free is that of no session. -/
theorem Sound.not_mem_of_isFree {m : Archive} {ns : List String} (h : Sound m ns) {name : String}
    (hfree : isFree m name = true) : name ∉ ns ∧ m.disk.isThere (m.log.path name) = false := by
  simp only [isFree, Bool.and_eq_true, Bool.not_eq_eq_eq_not, Bool.not_true] at hfree
  refine ⟨fun hmem => ?_, hfree.2⟩
  obtain ⟨c, hc⟩ := (h.isOpen name hmem).2
  obtain ⟨place, hplace, hcontent⟩ := Disk.read_eq_ok_iff.mp hc
  have hthere := hfree.2
  rw [Disk.isThere, hplace] at hthere
  simp [Disk.content_eq_some_iff.mp hcontent] at hthere

theorem perform_rewrite {f : Disk → Except DiskFault Disk} {a : Archive} {name : String}
    {c : ByteArray} (hname : Path.IsName name)
    (hspec : ∀ d', f a.disk = .ok d' → a.disk.Rewrites d' a.log.directory name c) :
    (∃ fault b rs, perform (a.log.path name) (Disk.step f) a = .error fault b ∧ Waits a b rs ∧
        ∀ other, b.held other = a.held other) ∨
      ∃ b rs, perform (a.log.path name) (Disk.step f) a = .ok () b ∧ Waits a b rs ∧
        f a.disk = .ok b.disk ∧ Kept b name ∧ b.held name = some c ∧
        ∀ other, other ≠ name → b.held other = a.held other := by
  rcases hattempt : attempt (a.log.path name) (Disk.step f) a with ⟨out, b⟩
  obtain ⟨rs, hwaits, hframe, hout⟩ := attempt_rewrite hname hspec hattempt
  rcases hout with ⟨fault, rfl, hsame, -⟩ | ⟨rfl, hdone, hheld, hkept⟩
  · refine .inl ⟨_, b, rs, perform_of_error hattempt, hwaits, fun other => ?_⟩
    by_cases hother : other = name
    · rw [hother, hsame]
    · exact hframe other hother
  · exact .inr ⟨b, rs, perform_of_ok hattempt, hwaits, hdone, hkept, hheld, hframe⟩

theorem Sound.resume {m b : Archive} {ns : List String} {rs : List RollRecord} {name : String}
    (h : Sound m ns) (hw : Waits m b rs) (hnew : name ∉ ns) (hopen : IsOpen b name)
    (hkept : Kept b Log.indexName)
    (hindex : b.held Log.indexName = some (Utf8.write (listing (ns ++ [name])))) :
    Sound (b.resume name) (ns ++ [name]) := by
  refine ⟨.inr ⟨hkept, hindex⟩, fun other hother => ?_, ?_, fun other hother => ?_, fun p hp => ?_⟩
  · rcases List.mem_append.mp hother with hold | hlast
    · exact hw.isOpen (h.isOpen other hold)
    · rw [List.mem_singleton.mp hlast]
      exact hopen
  · rw [List.nodup_append]
    exact ⟨h.nodup, by simp, by simpa using fun x hx => (fun he : x = name => hnew (he ▸ hx))⟩
  · cases hother
    simp
  · have hp' : p ∈ b.log.pending := hp
    rw [hw.pending] at hp'
    rcases List.mem_append.mp hp' with hp' | hp'
    · exact List.mem_append_left _ (h.pending p hp')
    · exact List.mem_append_left _ (h.tag_mem hp')

theorem makeSheet_spec {m : Archive} {ns : List String} (h : Sound m ns) {name : String}
    (hsession : IsSessionName name) (hfree : isFree m name = true) :
    ∃ b rs, Waits m b rs ∧ (∀ f, f ≠ name → b.held f = m.held f) ∧
      ((∃ fault, m.log.makeSheet name m = .error fault b ∧ Adds m b ns) ∨
        (m.log.makeSheet name m = .ok () b ∧ Kept b name ∧ m.held name = none ∧
          b.held name = some (rowBytes [header]))) := by
  obtain ⟨hnew, hthere⟩ := h.not_mem_of_isFree hfree
  have hname := hsession.isName
  -- the file is made
  rcases perform_rewrite (f := (·.create (m.log.path name))) hname
      (fun d' hd => (Disk.create_spec hname hthere hd).2) with
    ⟨fault, b₁, rs₁, hfail, hw₁, hsame⟩ | ⟨b₁, rs₁, hcreate, hw₁, hmade, -, hempty, hframe₁⟩
  · exact ⟨b₁, _, hw₁, fun f _ => hsame f, .inl ⟨fault, by rw [Log.makeSheet, run_of_error hfail],
      fun f _ => .inl (hsame f ▸ .refl _)⟩⟩
  have hnone : m.held name = none := (Disk.create_spec hname hthere hmade).1
  rw [Log.makeSheet, run_of_ok hcreate, ← hw₁.path]
  -- its header is written
  rcases perform_rewrite (f := (·.append (b₁.log.path name) (rowBytes [header]))) hname
      (fun d' hd => Disk.append_spec hname hd) with
    ⟨fault, b₂, rs₂, hfail, hw₂, hsame⟩ | ⟨b₂, rs₂, hhead, hw₂, -, hkept, hheld, hframe₂⟩
  · have hother (f : String) (hf : f ≠ name) : b₂.held f = m.held f := by rw [hsame, hframe₁ f hf]
    refine ⟨b₂, _, hw₁.trans hw₂, hother, .inl ⟨fault, hfail, fun f _ => ?_⟩⟩
    by_cases hf : f = name
    · subst hf
      exact .inr ⟨hnone, .inr ⟨hnew, rfl, by rw [hsame, hempty]⟩⟩
    · exact .inl (hother f hf ▸ .refl _)
  have hheader : b₂.held name = some (rowBytes [header]) := by
    rw [Archive.held, Archive.place] at hempty
    rw [hheld, hempty, Option.getD_some, ByteArray.empty_append]
  exact ⟨b₂, _, hw₁.trans hw₂, fun f hf => by rw [hframe₂ f hf, hframe₁ f hf],
    .inr ⟨hhead, hkept, hnone, hheader⟩⟩

theorem enlist_eq (now : Moment) (m : Archive) :
    enlist now m = (do
      m.log.makeSheet (freshName now.toUniversal m)
      perform m.log.indexPath (Disk.step (·.append m.log.indexPath
        (Utf8.write ((freshName now.toUniversal m).toList ++ ['\n']))))
      return freshName now.toUniversal m : Work String) m := by
  rw [enlist, run_of_ok (run_get m), run_of_ok (run_get m)]

theorem enlist_spec {m : Archive} {ns : List String} (h : Sound m ns) (now : Moment) :
    ∃ b rs, Waits m b rs ∧
      ((∃ fault, enlist now m = .error fault b ∧ b.held Log.indexName = m.held Log.indexName ∧
          Adds m b ns) ∨
        ∃ name, enlist now m = .ok name b ∧ Sound (b.resume name) (ns ++ [name]) ∧
          m.held name = none ∧ Adds m b (ns ++ [name])) := by
  obtain ⟨hsession, hfree⟩ := freshName_spec now.toUniversal m
  have hrun := enlist_eq now m
  generalize freshName now.toUniversal m = name at hsession hfree hrun
  have hne := hsession.ne_index.symm
  obtain ⟨b, rs, hw, hother, ⟨fault, hfault, hadds⟩ | ⟨hmade, hkept, hnone, hheader⟩⟩ :=
    makeSheet_spec h hsession hfree
  · exact ⟨b, rs, hw, .inl ⟨fault, by rw [hrun, run_of_error hfault], hother _ hne, hadds⟩⟩
  have hindexPath : m.log.indexPath = b.log.path Log.indexName := (hw.path _).symm
  rw [run_of_ok hmade, hindexPath] at hrun
  have hadds {b' : Archive} (ns' : List String)
      (hframe : ∀ f, f ≠ Log.indexName → b'.held f = b.held f) : Adds m b' ns' := by
    intro f hf
    rw [hframe f hf]
    by_cases hfn : f = name
    · subst hfn
      exact .inr ⟨hnone, .inl hheader⟩
    · exact .inl (hother f hfn ▸ .refl _)
  -- the file is there, and is listed
  rcases perform_rewrite (f := (·.append (b.log.path Log.indexName)
      (Utf8.write (name.toList ++ ['\n'])))) isName_index
      (fun d' hd => Disk.append_spec isName_index hd) with
    ⟨fault, b', rs', hfail, hw', hsame⟩ | ⟨b', rs', hlist, hw', -, hkeptIndex, hheld, hframe⟩
  · exact ⟨b', _, hw.trans hw', .inl ⟨fault, by rw [hrun, run_of_error hfail],
      by rw [hsame, hother _ hne], hadds ns fun f _ => hsame f⟩⟩
  have hindex : b'.held Log.indexName = some (Utf8.write (listing (ns ++ [name]))) := by
    have hold : b.disk.content (b.disk.target b.log.directory ++ [Log.indexName]) =
        m.held Log.indexName := hother _ hne
    rw [hheld, hold, listing_append]
    rcases h.index with ⟨rfl, hnoIndex⟩ | ⟨-, hsome⟩
    · rw [hnoIndex, Option.getD_none, ByteArray.empty_append]
      rfl
    · rw [hsome, Option.getD_some, ← Utf8.write_append]
  exact ⟨b', _, hw.trans hw', .inr ⟨name, by rw [hrun, run_of_ok hlist]; rfl,
    h.resume (hw.trans hw') (h.not_mem_of_isFree hfree).1 ⟨hsession, hw'.kept hkept⟩ hkeptIndex
      hindex, hnone, hadds _ hframe⟩⟩

/-- One step of the log's life: the sessions were `ns` and are now `ns'`, at most one more than
before, and the records `came` that were recorded for them meanwhile are accounted for. -/
structure Advances (a b : Archive) (ns ns' : List String) (came : List Pending) : Prop where
  sound : Sound b ns'
  directory : b.log.directory = a.log.directory
  grows : a.disk.Extends b.disk
  moves : Moves a b ns' came
  came_current : ∀ p ∈ came, a.log.current = some p.session
  names : ns' = ns ∨ ∃ name, ns' = ns ++ [name] ∧ a.held name = none

/-- The ways in which beginning a session can go: what waits is flushed and the directory is
made, and unless that fails, the new session is listed. Only trouble keeps a directory that is
there from being made again. -/
theorem newSession_cases {a : Archive} {ns : List String} (h : Sound a ns) (now : Moment) :
    ∃ b₁ rs₁ b₂ rs₂, (∃ trouble, flush a = .ok trouble b₁) ∧ Passes a b₁ rs₁ ∧
      Conserves a b₁ (a.log.tag rs₁) ∧ Waits b₁ b₂ rs₂ ∧
      (∀ f, b₂.held f = b₁.held f) ∧ Sound b₂ ns ∧
      ((∃ fault, newSession now a = .error fault b₂ ∧
          (a.disk.Settled a.log.directory → ¬Untroubled a)) ∨
        (Disk.makeDirectories b₁.log.directory b₁.disk = .ok () b₂.disk ∧
          newSession now a = (do
            let name ← enlist now
            modify (·.resume name)
            return name : Work String) b₂)) := by
  obtain ⟨trouble, b₁, rs₁, hflush, hp₁, hc₁, -⟩ :=
    flush_spec fun p hp => h.isOpen _ (h.pending p hp)
  have hrun : newSession now a = (do
      perform b₁.log.directory (Disk.makeDirectories b₁.log.directory)
      let name ← enlist now
      modify (·.resume name)
      return name : Work String) b₁ := by
    rw [newSession, run_of_ok hflush, run_of_ok (run_get b₁)]
  rcases hmake : attempt b₁.log.directory (Disk.makeDirectories b₁.log.directory) b₁ with ⟨out, b₂⟩
  obtain ⟨rs₂, hw₂, hsame₂⟩ := attempt_makeDirectories hmake
  refine ⟨b₁, rs₁, b₂, rs₂, ⟨trouble, hflush⟩, hp₁, hc₁, hw₂, hsame₂,
    (h.conserves hp₁ hc₁).waits hw₂ (hsame₂ _), ?_⟩
  cases out with
  | error fault =>
    refine .inl ⟨_, by rw [hrun, run_of_error (perform_of_error hmake)], fun hsettled hfine => ?_⟩
    have hsettled₁ : b₁.disk.Settled b₁.log.directory := hp₁.directory ▸ hp₁.grows.settled hsettled
    cases (attempt_settled hmake hsettled₁).2 (hp₁.untroubled hfine)
  | ok _ => exact .inr ⟨attempt_ok hmake, by rw [hrun, run_of_ok (perform_of_ok hmake)]⟩

/-- **Beginning a session** conserves the records that wait, wherever it ends, and keeps the log
sound. Until all is done the old session stays current, and what comes in is for it. -/
theorem newSession_spec {a : Archive} {ns : List String} (h : Sound a ns) (now : Moment) :
    ∃ b came, Passes a b came ∧
      ((∃ fault, newSession now a = .error fault b ∧
          Advances a b ns ns (a.log.tag came)) ∨
        ∃ name, newSession now a = .ok name (b.resume name) ∧
          Advances a (b.resume name) ns (ns ++ [name]) (a.log.tag came)) := by
  obtain ⟨b₁, rs₁, b₂, rs₂, -, hp₁, hc₁, hw₂, hsame₂, hs₂, hout⟩ := newSession_cases h now
  have hmoves {b : Archive} {rs : List RollRecord} {ns' : List String} (hw : Waits b₁ b rs)
      (hadds : Adds b₁ b ns') : Moves a b ns' (a.log.tag (rs₁ ++ rs)) := by
    rw [tag_append]
    exact hc₁.moves_then (by rw [hw.pending, hp₁.tag]) hadds
  rcases hout with ⟨fault, hfault, -⟩ | ⟨-, hrun⟩
  · have hp := hp₁.trans hw₂.toPasses
    exact ⟨b₂, _, hp, .inl ⟨fault, hfault, hs₂, hp.directory, hp.grows,
      hmoves hw₂ fun f _ => .inl (hsame₂ f ▸ .refl _), fun _ => current_of_mem_tag, .inl rfl⟩⟩
  obtain ⟨b₃, rs₃, hw₃, hout⟩ := enlist_spec hs₂ now
  have hw := hw₂.trans hw₃
  have hp := hp₁.trans hw.toPasses
  have hadds {ns' : List String} (hadds₃ : Adds b₂ b₃ ns') : Adds b₁ b₃ ns' := by
    intro f hf
    rw [← hsame₂]
    exact hadds₃ f hf
  refine ⟨b₃, _, hp, ?_⟩
  rcases hout with ⟨fault, henlist, hindex, hadds₃⟩ | ⟨name, henlist, hsound, hnone, hadds₃⟩
  · exact .inl ⟨fault, by rw [hrun, run_of_error henlist], hs₂.waits hw₃ hindex, hp.directory,
      hp.grows, hmoves hw (hadds hadds₃), fun _ => current_of_mem_tag, .inl rfl⟩
  · obtain ⟨rs, hrs, -⟩ := hc₁ name
    rw [← hsame₂, hnone] at hrs
    have hresumed : Moves a b₃ (ns ++ [name]) _ := hmoves hw (hadds hadds₃)
    exact .inr ⟨name, by rw [hrun, run_of_ok henlist, run_of_ok (run_modify _ b₃)]; rfl, hsound,
      hp.directory, hp.grows, hresumed, fun _ => current_of_mem_tag,
      .inr ⟨name, rfl, hrs.of_none.1⟩⟩

/-! ## Finding the sessions again -/

/-- The sessions that are found are those of the log. Only a missing index may fail to be read. -/
theorem Sound.sessions {a : Archive} {ns : List String} (h : Sound a ns) :
    (ns = [] ∧ a.held Log.indexName = none ∧ ∃ fault, Session.sessions a = .error fault) ∨
      Session.sessions a = .ok ns := by
  rcases h.index with ⟨rfl, hnone⟩ | ⟨hkept, hheld⟩
  · cases hread : a.disk.read a.log.indexPath with
    | ok c =>
      obtain ⟨c', -, hc'⟩ := (kept_iff isName_index).mp ⟨c, hread⟩
      rw [hnone] at hc'
      cases hc'
    | error fault =>
      rw [Session.sessions, hread]
      split
      · exact .inr rfl
      · exact .inl ⟨rfl, hnone, _, rfl⟩
      · next hok => cases hok
  · right
    obtain ⟨c, hread, hc⟩ := hkept.read isName_index
    have hsame : c = Utf8.write (listing ns) := Option.some.inj (hc.symm.trans hheld)
    rw [hsame, ← Log.indexPath] at hread
    simp only [Session.sessions, hread, Utf8.read_write,
      names_listing fun name hname => (h.isOpen name hname).1]

/-- Looking into the index. It fails where a turn brings trouble, or where there is no index. -/
theorem consult_spec {a : Archive} {ns : List String} (h : Sound a ns) :
    ∃ b rs, Waits a b rs ∧ b.disk = a.disk ∧
      ((∃ fault, consult a = .error fault b ∧ (Untroubled a → ns = [])) ∨
        consult a = .ok ns b) := by
  rcases hlook : attempt a.log.indexPath (pure ()) a with ⟨out, b⟩
  obtain ⟨rs, hw⟩ := attempt_waits hlook (.refl a.disk)
  rcases attempt_cases hlook with ⟨turn, hturn, t, ht, rfl, hdisk⟩ | ⟨rfl, hok⟩ | ⟨fault, -, herror⟩
  · rw [consult, run_of_ok (run_get a), run_of_error (perform_of_error hlook)]
    exact ⟨b, rs, hw, hdisk, .inl ⟨_, rfl, fun hfine => absurd hfine (not_untroubled hturn ht)⟩⟩
  · have hdisk : b.disk = a.disk := (EStateM.Result.ok.inj hok).2.symm
    refine ⟨b, rs, hw, hdisk, ?_⟩
    rw [consult, run_of_ok (run_get a), run_of_ok (perform_of_ok hlook), run_of_ok (run_get b)]
    rcases (h.waits hw (hw.held_eq hdisk _)).sessions with ⟨hnone, -, fault, hfault⟩ | hns
    · rw [hfault]
      exact .inl ⟨fault, rfl, fun _ => hnone⟩
    · rw [hns]
      exact .inr rfl
  · cases herror

theorem Sound.resume_last {a : Archive} {ns : List String} {name : String} (h : Sound a ns)
    (hlast : ns.getLast? = some name) : Sound (a.resume name) ns := by
  refine ⟨h.index, h.isOpen, h.nodup, fun other hother => ?_, h.pending⟩
  cases hother
  exact hlast

/-- Steps that leave the files alone, and then a step of the log's life. -/
theorem Advances.after_waits {a m b : Archive} {ns ns' : List String} {rs rs' : List RollRecord}
    (hw : Waits a m rs) (hsame : ∀ f, m.held f = a.held f)
    (h : Advances m b ns ns' (m.log.tag rs')) :
    Advances a b ns ns' (a.log.tag (rs ++ rs')) := by
  refine ⟨h.sound, h.directory.trans hw.directory, hw.grows.trans h.grows, fun f hf => ?_,
    fun _ => current_of_mem_tag, ?_⟩
  · obtain ⟨rows, hwait, hrows⟩ := h.moves f hf
    rw [hw.pending, hw.toPasses.tag, List.append_assoc, ← tag_append] at hwait
    rw [hsame] at hrows
    exact ⟨rows, hwait, hrows⟩
  · exact h.names.imp id fun ⟨name, hname, hnone⟩ => ⟨name, hname, hsame name ▸ hnone⟩

theorem Advances.of_sound {a b : Archive} {ns : List String} {came : List RollRecord}
    (hb : Sound b ns) (hp : Passes a b came)
    (hc : Conserves a b (a.log.tag came)) : Advances a b ns ns (a.log.tag came) :=
  ⟨hb, hp.directory, hp.grows, hc.moves ns, fun _ => current_of_mem_tag, .inl rfl⟩

/-- The ways in which setting up a log can go, after the directory was made and the index looked
into. Where the directory was there before, nothing was changed so far, and only trouble can have
kept a session from being found. -/
theorem init_cases {a : Archive} {ns : List String} (h : Sound a ns) (now : Moment) :
    ∃ b rs, Waits a b rs ∧ (∀ f, b.held f = a.held f) ∧
      (a.disk.Settled a.log.directory → b.disk = a.disk) ∧
      ((∃ fault, init now a = .error fault b ∧
          (a.disk.Settled a.log.directory → Untroubled a → ns = [])) ∨
        (ns = [] ∧ init now a = newSession now b) ∨
        ∃ name, ns.getLast? = some name ∧ init now a = .ok name (b.resume name)) := by
  rcases hmake : attempt a.log.directory (Disk.makeDirectories a.log.directory) a with ⟨out, b₁⟩
  obtain ⟨rs₁, hw₁, hsame₁⟩ := attempt_makeDirectories hmake
  have hstill := attempt_settled hmake
  cases out with
  | error fault =>
    rw [init, run_of_ok (run_get a), run_of_error (perform_of_error hmake)]
    refine ⟨b₁, rs₁, hw₁, hsame₁, fun hs => (hstill hs).1, .inl ⟨_, rfl, fun hs hfine => ?_⟩⟩
    cases (hstill hs).2 hfine
  | ok _ =>
    obtain ⟨b₂, rs₂, hw₂, hdisk₂, hout⟩ := consult_spec (h.waits hw₁ (hsame₁ _))
    refine ⟨b₂, _, hw₁.trans hw₂, fun f => by rw [hw₂.held_eq hdisk₂, hsame₁],
      fun hs => hdisk₂.trans (hstill hs).1, ?_⟩
    rw [init, run_of_ok (run_get a), run_of_ok (perform_of_ok hmake)]
    rcases hout with ⟨fault, hfault, hfine⟩ | hns
    · rw [run_of_error hfault]
      exact .inl ⟨fault, rfl, fun _ ha => hfine (hw₁.untroubled ha)⟩
    rw [run_of_ok hns]
    cases hlast : ns.getLast? with
    | some name => exact .inr (.inr ⟨name, rfl, rfl⟩)
    | none => exact .inr (.inl ⟨List.getLast?_eq_none_iff.mp hlast, rfl⟩)

/-- Finding the last session again, or beginning the first. -/
theorem init_spec {a : Archive} {ns : List String} (h : Sound a ns) (now : Moment) :
    ∃ b came, Passes a b came ∧
      ((∃ fault, init now a = .error fault b ∧ Advances a b ns ns (a.log.tag came)) ∨
        ∃ name ns', init now a = .ok name (b.resume name) ∧
          Advances a (b.resume name) ns ns' (a.log.tag came)) := by
  obtain ⟨b, rs, hw, hsame, -, hout⟩ := init_cases h now
  have hs := h.waits hw (hsame _)
  have hquiet : Conserves a b (a.log.tag rs) := by
    intro f
    exact ⟨[], hsame f ▸ .refl _, by rw [hw.pending]; rfl⟩
  rcases hout with ⟨fault, hfault, -⟩ | ⟨-, hrun⟩ | ⟨name, hlast, hrun⟩
  · exact ⟨b, _, hw.toPasses, .inl ⟨fault, hfault, .of_sound hs hw.toPasses hquiet⟩⟩
  · obtain ⟨c, came, hp, ⟨fault, hfault, hstep⟩ | ⟨name, hok, hstep⟩⟩ := newSession_spec hs now
    · exact ⟨c, _, hw.toPasses.trans hp, .inl ⟨fault, hrun.trans hfault, .after_waits hw hsame hstep⟩⟩
    · exact ⟨c, _, hw.toPasses.trans hp,
        .inr ⟨name, _, hrun.trans hok, .after_waits hw hsame hstep⟩⟩
  · exact ⟨b, _, hw.toPasses, .inr ⟨name, ns, hrun, hs.resume_last hlast, hw.directory, hw.grows,
      hquiet.moves ns, fun _ => current_of_mem_tag, .inl rfl⟩⟩

end DiceLedger.Session
