import DiceLedger.Proofs.Session.Landing
import DiceLedger.Proofs.Session.Untroubled

/-!
# Fresh names, and files that only grow

Nothing is assumed here of the directory of a log: its index may list anything, files may be
missing, and names may lead to directories or nowhere. The search for the name of a session ends
all the same, at the first name that is free. The file of that name is opened so as to be
emptied, and all else is written at the end of files; so no file loses what it holds.
-/
namespace DiceLedger.Session

open DiceLedger.Text DiceLedger.Time

/-! ## The search for a name -/

/-- The name of the first session that begins at a moment. -/
def firstName (begun : Moment) : String := String.ofList (begun.stem ++ ".csv".toList)

/-- The names of further sessions that begin at the moment. -/
def numberedName (begun : Moment) (n : Nat) : String :=
  String.ofList (begun.stem ++ '_' :: decimal n ++ ".csv".toList)

/-- The current session has another name, and there is no such file. -/
def Free (a : Archive) (name : String) : Prop :=
  a.log.current ≠ some name ∧ a.disk.isThere (a.log.path name) = false

/-- The search as a loop without a bound, with the last number and the name at hand: as long as
the name is not free, the next number is tried. -/
inductive Search (a : Archive) (begun : Moment) : (n : Nat) → (name found : String) → Prop
  | stop {n : Nat} {name : String} (h : Free a name) : Search a begun n name name
  | next {n : Nat} {name found : String} (h : ¬Free a name)
      (rest : Search a begun (n + 1) (numberedName begun (n + 1)) found) :
      Search a begun n name found

section

variable {a : Archive} {begun : Moment}

theorem isFree_iff {name : String} : isFree a name = true ↔ Free a name := by
  simp [isFree, Free]

theorem isFree_eq_false_iff {name : String} : isFree a name = false ↔ ¬Free a name := by
  rw [← isFree_iff, Bool.not_eq_true]

theorem candidate_zero (begun : Moment) : candidate begun 0 = firstName begun := by
  rw [candidate, if_pos rfl, List.append_nil, firstName]

theorem candidate_succ (begun : Moment) (n : Nat) :
    candidate begun (n + 1) = numberedName begun (n + 2) := by
  rw [candidate, if_neg (Nat.succ_ne_zero n), numberedName]

theorem Search.unique {n : Nat} {name x y : String} (hx : Search a begun n name x)
    (hy : Search a begun n name y) : x = y := by
  induction hx with
  | stop hfree =>
    cases hy with
    | stop => rfl
    | next htaken => exact absurd hfree htaken
  | next htaken _ ih =>
    cases hy with
    | stop hfree => exact absurd hfree htaken
    | next _ rest => exact ih rest

/-- From any name before it, the search comes to the first one that is free. -/
theorem search_candidate {m : Nat} (hfree : Free a (candidate begun m))
    (hbefore : ∀ k < m, ¬Free a (candidate begun k)) (distance : Nat) :
    ∀ k, k + distance = m → Search a begun (k + 1) (candidate begun k) (candidate begun m) := by
  induction distance with
  | zero =>
    intro k hk
    obtain rfl : k = m := hk
    exact .stop hfree
  | succ distance ih =>
    intro k hk
    apply Search.next (hbefore k (by omega))
    rw [← candidate_succ]
    exact ih (k + 1) (by omega)

/-- **The search ends**, and finds the name that is chosen. -/
theorem search_iff (begun : Moment) {found : String} :
    Search a begun 1 (firstName begun) found ↔ found = freshName begun a := by
  obtain ⟨m, hname, hfree, hbefore⟩ := freshName_first begun a
  have hsearch : Search a begun 1 (firstName begun) (freshName begun a) := by
    rw [hname, ← candidate_zero]
    apply search_candidate (isFree_iff.mp hfree) _ m 0 (Nat.zero_add m)
    intro k hk
    exact isFree_eq_false_iff.mp (hbefore k hk)
  constructor
  · intro h
    exact h.unique hsearch
  · rintro rfl
    exact hsearch

/-- The name without a number is taken if it is free, and otherwise that of the least number. -/
theorem freshName_least (begun : Moment) :
    (Free a (firstName begun) ∧ freshName begun a = firstName begun) ∨
      ∃ n, 2 ≤ n ∧ ¬Free a (firstName begun) ∧ freshName begun a = numberedName begun n ∧
        Free a (numberedName begun n) ∧
        ∀ m, 2 ≤ m → m < n → ¬Free a (numberedName begun m) := by
  obtain ⟨k, hname, hfree, hbefore⟩ := freshName_first begun a
  rw [isFree_iff] at hfree
  simp only [isFree_eq_false_iff] at hbefore
  cases k with
  | zero =>
    rw [candidate_zero] at hname hfree
    exact .inl ⟨hfree, hname⟩
  | succ k =>
    rw [candidate_succ] at hname hfree
    refine .inr ⟨k + 2, by omega, ?_, hname, hfree, fun m hm hlt => ?_⟩
    · rw [← candidate_zero]
      exact hbefore 0 (Nat.succ_pos k)
    · obtain ⟨j, rfl⟩ : ∃ j, m = j + 2 := ⟨m - 2, by omega⟩
      rw [← candidate_succ]
      exact hbefore (j + 1) (by omega)

end

/-! ## Operations that only add -/

/-- Turns were used up, and whatever was done only added to the disk. -/
def Passed (a b : Archive) : Prop := ∃ rs, Passes a b rs

theorem Passed.refl (a : Archive) : Passed a a := ⟨[], .refl a⟩

theorem Passed.trans {a b c : Archive} (h : Passed a b) (h' : Passed b c) : Passed a c := by
  obtain ⟨rs, hp⟩ := h
  obtain ⟨rs', hp'⟩ := h'
  exact ⟨rs ++ rs', hp.trans hp'⟩

theorem Passed.grows {a b : Archive} (h : Passed a b) : a.disk.Extends b.disk := by
  obtain ⟨rs, hp⟩ := h
  exact hp.grows

theorem Passed.directory {a b : Archive} (h : Passed a b) : b.log.directory = a.log.directory := by
  obtain ⟨rs, hp⟩ := h
  exact hp.directory

theorem Passed.current {a b : Archive} (h : Passed a b) : b.log.current = a.log.current := by
  obtain ⟨rs, hp⟩ := h
  exact hp.current

theorem Passed.target {a b : Archive} (h : Passed a b) (f : String) : b.target f = a.target f := by
  obtain ⟨rs, hp⟩ := h
  exact hp.target f

section

variable {a : Archive}

theorem perform_passed (path : String) {change : Disk.Change}
    (h : a.disk.Extends (final (change a.disk))) : Passed a (final (perform path change a)) := by
  rcases hattempt : attempt path change a with ⟨out, b⟩
  obtain ⟨rs, hwaits⟩ := attempt_waits hattempt h
  cases out with
  | ok _ =>
    rw [perform_of_ok hattempt]
    exact ⟨rs, hwaits.toPasses⟩
  | error fault =>
    rw [perform_of_error hattempt]
    exact ⟨rs, hwaits.toPasses⟩

theorem extends_append (path : String) (bytes : ByteArray) (d : Disk) :
    d.Extends (final (Disk.step (·.append path bytes) d)) :=
  extends_step fun _ hd => (Disk.append_lands hd).1

theorem append_passed (path : String) (bytes : ByteArray) (a : Archive) :
    Passed a (final (perform path (Disk.step (·.append path bytes)) a)) :=
  perform_passed path (extends_append path bytes a.disk)

theorem makeDirectories_passed (path : String) (a : Archive) :
    Passed a (final (perform path (Disk.makeDirectories path) a)) :=
  perform_passed path (Disk.makeDirectories_furnishes path a.disk).extends

/-- Opening the file of a free name empties nothing, for there is nothing of that name. -/
theorem makeSheet_passed {name : String} (hname : Path.IsName name)
    (hthere : a.disk.isThere (a.log.path name) = false) :
    Passed a (final (a.log.makeSheet name a)) := by
  unfold Log.makeSheet
  apply final_bind (R := Passed) Passed.trans
  · apply perform_passed
    exact extends_step fun _ hd => (Disk.create_spec hname hthere hd).2.grows
  · intro _ mid _
    exact append_passed (a.log.path name) (rowBytes [header]) mid

theorem enlist_passed (now : Moment) (a : Archive) : Passed a (final (enlist now a)) := by
  obtain ⟨hsession, hfree⟩ := freshName_spec now.toUniversal a
  rw [enlist_eq]
  apply final_bind (R := Passed) Passed.trans
  · exact makeSheet_passed hsession.isName (isFree_iff.mp hfree).2
  · intro _ mid _
    rw [final_bind_of_still fun _ _ => rfl]
    exact append_passed _ _ mid

/-- Groups are written at the ends of files, as far as one gets. -/
theorem writeGroups_passed (gs : List (String × List RollRecord)) :
    ∀ a : Archive, Passed a (final (writeGroups gs a)) := by
  apply writeGroups_leads (R := Passed) Passed.refl Passed.trans
  intro a mid s rs out hattempt
  obtain ⟨came, hwaits⟩ := attempt_waits hattempt (extends_append _ _ a.disk)
  exact ⟨came, hwaits.toPasses⟩

theorem flush_passed (a : Archive) : Passed a (final (flush a)) := by
  obtain ⟨waiting, hfinal⟩ := final_flush a
  obtain ⟨rs, hp⟩ := writeGroups_passed (groups a.log.pending)
    { a with log := { a.log with pending := [] } }
  rw [hfinal]
  exact ⟨rs, hp.directory, hp.current, hp.grows, hp.turns⟩

theorem consult_passed (a : Archive) : Passed a (final (consult a)) := by
  rw [consult, run_of_ok (run_get a)]
  apply final_bind (R := Passed) Passed.trans
  · exact perform_passed _ (.refl a.disk)
  · intro _ mid _
    rw [run_of_ok (run_get mid)]
    cases sessions mid <;> exact .refl mid

end

/-! ## Sessions that are begun -/

section

variable {a b : Archive} {now : Moment} {name : String}

/-- A session that was begun went through all of its steps. -/
theorem newSession_eq_ok (h : newSession now a = .ok name b) :
    ∃ trouble m₁ m₂ m₃, flush a = .ok trouble m₁ ∧
      perform m₁.log.directory (Disk.makeDirectories m₁.log.directory) m₁ = .ok () m₂ ∧
      enlist now m₂ = .ok name m₃ ∧ b = m₃.resume name := by
  unfold newSession at h
  obtain ⟨trouble, m₁, hflush, h⟩ := run_eq_ok_iff.mp h
  rw [run_of_ok (run_get m₁)] at h
  obtain ⟨_, m₂, hmake, h⟩ := run_eq_ok_iff.mp h
  obtain ⟨found, m₃, henlist, h⟩ := run_eq_ok_iff.mp h
  rw [run_of_ok (run_modify _ m₃)] at h
  obtain ⟨rfl, rfl⟩ := EStateM.Result.ok.inj h
  exact ⟨trouble, m₁, m₂, m₃, hflush, hmake, henlist, rfl⟩

/-- A name that is free after operations that only add was free before them. -/
theorem Passed.free (h : Passed a b) (hfree : Free b name) : Free a name := by
  obtain ⟨rs, hp⟩ := h
  obtain ⟨hcurrent, hthere⟩ := hfree
  rw [hp.current] at hcurrent
  rw [hp.path] at hthere
  refine ⟨hcurrent, Bool.eq_false_iff.mpr fun hold => ?_⟩
  rw [hp.grows.isThere hold] at hthere
  cases hthere

/-- A session that was begun has a name that was free. -/
theorem newSession_free (h : newSession now a = .ok name b) : Free a name := by
  obtain ⟨trouble, m₁, m₂, m₃, hflush, hmake, henlist, -⟩ := newSession_eq_ok h
  have hfirst := flush_passed a
  have hsecond := makeDirectories_passed m₁.log.directory m₁
  rw [hflush] at hfirst
  rw [hmake] at hsecond
  apply (hfirst.trans hsecond).free
  rw [enlist_name henlist]
  exact isFree_iff.mp (freshName_spec now.toUniversal m₂).2

end

/-! ## Runs -/

/-- What is on the disk stays there, and files grow at their ends only. -/
def Grows (a b : Archive) : Prop := a.disk.Extends b.disk

theorem Grows.trans {a b c : Archive} (h : Grows a b) (h' : Grows b c) : Grows a c :=
  Disk.Extends.trans h h'

theorem newSession_grows (now : Moment) (a : Archive) : Grows a (final (newSession now a)) := by
  unfold newSession
  apply final_bind (R := Grows) Grows.trans (flush_passed a).grows
  intro _ b _
  rw [run_of_ok (run_get b)]
  apply final_bind (R := Grows) Grows.trans (makeDirectories_passed _ b).grows
  intro _ c _
  apply final_bind (R := Grows) Grows.trans (enlist_passed now c).grows
  intro name d _
  exact Disk.Extends.refl d.disk

theorem init_grows (now : Moment) (a : Archive) : Grows a (final (init now a)) := by
  unfold init
  rw [run_of_ok (run_get a)]
  apply final_bind (R := Grows) Grows.trans (makeDirectories_passed _ a).grows
  intro _ b _
  apply final_bind (R := Grows) Grows.trans (consult_passed b).grows
  intro listed c _
  cases listed.getLast? with
  | none => exact newSession_grows now c
  | some name => exact Disk.Extends.refl c.disk

/-- **No deed takes anything away**, whether it succeeds or fails. -/
theorem Deed.grows (deed : Deed) (a : Archive) : Grows a (deed.step a) := by
  cases deed with
  | op o =>
    cases o with
    | record r =>
      show Grows a ((Op.record r).step a)
      rw [Op.step_record]
      exact Disk.Extends.refl a.disk
    | flush => exact (flush_passed a).grows
    | newSession now => exact newSession_grows now a
  | init now => exact init_grows now a
  | restart turns => exact Disk.Extends.refl a.disk

theorem grows_foldl (deeds : List Deed) :
    ∀ a : Archive, Grows a (deeds.foldl Deed.step a) := by
  induction deeds with
  | nil => exact fun a => Disk.Extends.refl a.disk
  | cons deed deeds ih =>
    intro a
    exact (deed.grows a).trans (ih (deed.step a))

/-- **Names are fresh, and nothing is overwritten.** Whatever is in the directory and whatever
session is current, the search for the name of a session that begins at a moment ends with one
result: the name of the moment if it is free, or else that with the least number from two on that
is free; and a session that is begun has a name that was free. Whatever is done, by this log and
others on the directory, and wherever it fails, every file begins with what it held before. -/
theorem names_fresh_files_kept (a : Archive) :
    (∀ begun, ∃ name, (∀ found, Search a begun 1 (firstName begun) found ↔ found = name) ∧
      freshName begun a = name ∧
      ((Free a (firstName begun) ∧ name = firstName begun) ∨
        ∃ n, 2 ≤ n ∧ ¬Free a (firstName begun) ∧ name = numberedName begun n ∧
          Free a (numberedName begun n) ∧
          ∀ m, 2 ≤ m → m < n → ¬Free a (numberedName begun m))) ∧
    (∀ now name b, newSession now a = .ok name b → Free a name) ∧
    ∀ deeds : List Deed, let b := deeds.foldl Deed.step a
      (∀ place c, a.disk.content place = some c → ∃ more, b.disk.content place = some (c ++ more)) ∧
      ∀ path c, a.disk.read path = .ok c → ∃ more, b.disk.read path = .ok (c ++ more) := by
  refine ⟨fun begun => ?_, fun _ _ _ => newSession_free, ?_⟩
  · exact ⟨freshName begun a, fun _ => search_iff begun, rfl, freshName_least begun⟩
  · intro deeds b
    have hgrows : a.disk.Extends b.disk := grows_foldl deeds a
    exact ⟨hgrows.file, fun path c hc => hgrows.read hc⟩

end DiceLedger.Session
