import DiceLedger.Proofs.Disk.Growth
import DiceLedger.Proofs.Disk.Padding

/-!
# Directories that are there

A directory that could be made once is there from then on, as long as the disk only grows, and
making it again changes nothing.
-/
namespace DiceLedger.Disk

theorem isDirectory_iff {d : Disk} {path : String} :
    d.isDirectory path = true ↔
      ∃ place, d.place? path = .ok place ∧ d.find? place = some .directory := by
  rw [isDirectory]
  split
  · next place hplace =>
    split
    · next hfind => simp [hplace, hfind]
    · next hfind =>
      simp only [Bool.false_eq_true, false_iff, not_exists, not_and]
      rintro other hother hdir
      rw [hplace] at hother
      cases hother
      exact hfind hdir
  · next fault hfault => simp [hfault]

theorem isThere_iff {d : Disk} {path : String} :
    d.isThere path = true ↔ ∃ place, d.place? path = .ok place ∧ d.find? place ≠ none := by
  rw [isThere]
  split
  · next place hplace => simp [hplace, Option.isSome_iff_ne_none]
  · next fault hfault => simp [hfault]

theorem isThere_of_isDirectory {d : Disk} {path : String} (h : d.isDirectory path = true) :
    d.isThere path = true := by
  obtain ⟨place, hplace, hdir⟩ := isDirectory_iff.mp h
  exact isThere_iff.mpr ⟨place, hplace, by simp [hdir]⟩

theorem Extends.isDirectory {d d' : Disk} (h : d.Extends d') {path : String}
    (hd : d.isDirectory path = true) : d'.isDirectory path = true := by
  obtain ⟨place, hplace, hdir⟩ := isDirectory_iff.mp hd
  exact isDirectory_iff.mpr ⟨place, h.place? hplace, h.directory place hdir⟩

theorem Extends.isThere {d d' : Disk} (h : d.Extends d') {path : String}
    (hd : d.isThere path = true) : d'.isThere path = true := by
  obtain ⟨place, hplace, hfind⟩ := isThere_iff.mp hd
  refine isThere_iff.mpr ⟨place, h.place? hplace, ?_⟩
  obtain ⟨e, he⟩ := Option.ne_none_iff_exists'.mp hfind
  cases e with
  | directory => simp [h.directory place he]
  | file c =>
    obtain ⟨more, hmore⟩ := h.file place c (content_eq_some_iff.mpr he)
    simp [content_eq_some_iff.mp hmore]

theorem isDirectory_pads {d : Disk} {s path : String} (h : Path.Pads s path) (hpath : IsPath path)
    (hd : d.isDirectory s = true) : d.isDirectory path = true := by
  obtain ⟨place, hplace, hdir⟩ := isDirectory_iff.mp hd
  obtain ⟨-, -, -, hfollow⟩ := place?_eq_ok_iff.mp hplace
  obtain ⟨more, hmore, hcomponents⟩ := h.components
  have hempty : path ≠ "" := by
    rintro rfl
    exact h.ne_empty (by simpa using h.starts)
  refine isDirectory_iff.mpr ⟨place, place?_eq_ok_iff.mpr ⟨hpath.no_null, hempty, hpath.le, ?_⟩, hdir⟩
  rw [start_pads h, hcomponents]
  exact follow_append_stays hmore hdir hfollow

/-- The root goes by any number of slashes. -/
theorem isThere_slashes {d : Disk} {path : String} (hpath : IsPath path) (hempty : path ≠ "")
    (h : Path.IsSlashes path.toList) : d.isThere path = true := by
  have hstays : Path.Stays path.toList := by simpa using Path.stays_nil.slashes h
  have hne : path.toList ≠ [] := by simpa using hempty
  obtain ⟨c, cs, hcs⟩ := List.exists_cons_of_ne_nil hne
  have hstart : d.start path = [] := by
    rw [start, if_pos]
    rw [hcs, List.head?_cons, h c (by simp [hcs])]
  refine isThere_iff.mpr ⟨[], place?_eq_ok_iff.mpr ⟨hpath.no_null, hempty, hpath.le, ?_⟩,
    by simp [find?_root]⟩
  rw [hstart]
  exact follow_stays hstays.isStay

/-! ## Making a directory once and again -/

/-- A path without the slashes at its end, unless it has nothing else. -/
def bare (path : String) : String :=
  let cs := (path.toList.reverse.dropWhile (· = '/')).reverse
  if cs.isEmpty then path else String.ofList cs

theorem bare_spec {path : String} (hempty : path ≠ "") :
    (bare path = path ∧ Path.IsSlashes path.toList) ∨ Path.Pads (bare path) path := by
  obtain ⟨slashes, hslashes, hpath⟩ := Path.exists_trailing_slashes path.toList
  rw [bare]
  generalize (path.toList.reverse.dropWhile (· = '/')).reverse = cs at hpath
  cases cs with
  | nil =>
    rw [List.nil_append] at hpath
    exact .inl ⟨rfl, hpath ▸ hslashes⟩
  | cons c cs =>
    right
    rw [if_neg (by simp)]
    have hne : String.ofList (c :: cs) ≠ "" := by simp
    by_cases hnone : slashes = []
    · have hsame : path = String.ofList (c :: cs) := by
        rw [← String.toList_inj, hpath, hnone]
        simp
      rw [← hsame]
      exact .refl hempty
    · exact Path.pads_of_stays hne hslashes hnone Path.stays_nil (by simp [hpath])

theorem target_bare {d : Disk} {path : String} (h : path ≠ "") :
    d.target (bare path) = d.target path := by
  rcases bare_spec h with ⟨hsame, -⟩ | hpads
  · rw [hsame]
  · exact (target_pads hpads).symm

theorem makeDirectory_eq (d : Disk) (path : String) : d.makeDirectory path = (do
    let place ← (d.place? (bare path)).mapError fun
      | .system error _ => .system error path
      | .nullInPath => .nullInPath
    match d.find? place with
    | some _ => .error (.system .taken path)
    | none => .ok (d.put place .directory)) := rfl

theorem isDirectory_of_makeDirectory {d d' : Disk} {path : String} (hpath : IsPath path)
    (h : d.makeDirectory path = .ok d') : d'.isDirectory path = true := by
  have hgrows := (makeDirectory_furnishes h).extends
  simp only [makeDirectory_eq, bind_eq_ok_iff, mapError_eq_ok_iff] at h
  obtain ⟨place, hplace, h⟩ := h
  split at h
  · cases h
  next hnone =>
  cases h
  have hroot : place ≠ [] := by
    intro he
    rw [he, find?_root] at hnone
    cases hnone
  have hdir : (d.put place .directory).isDirectory (bare path) = true :=
    isDirectory_iff.mpr ⟨place, hgrows.place? hplace, by rw [find?_put d hroot, if_pos rfl]⟩
  have hempty : path ≠ "" := by
    rintro rfl
    exact (place?_eq_ok_iff.mp hplace).2.1 rfl
  rcases bare_spec hempty with ⟨hsame, -⟩ | hpads
  · rwa [hsame] at hdir
  · exact isDirectory_pads hpads hpath hdir

theorem makeDirectory_error {d : Disk} {path other : String} {error : Errno}
    (h : d.makeDirectory path = .error (.system error other)) : other = path := by
  rw [makeDirectory_eq, bind_eq_error_iff] at h
  rcases h with h | ⟨place, -, h⟩
  · cases hplace : d.place? (bare path) with
    | ok place => rw [hplace] at h; cases h
    | error fault =>
      rw [hplace] at h
      cases fault <;> cases h
      rfl
  · split at h <;> cases h
    rfl

theorem place?_error {d : Disk} {path : String} {fault : DiskFault}
    (h : d.place? path = .error fault) (hnull : '\x00' ∉ path.toList) :
    ∃ error, fault = .system error path := by
  rw [place?, if_neg (by simpa using hnull)] at h
  split at h
  · cases h
    exact ⟨_, rfl⟩
  · split at h
    · cases h
      exact ⟨_, rfl⟩
    · dsimp only at h
      split at h
      all_goals
        cases hfollow : d.follow _ (Path.components path) with
        | ok place => rw [hfollow] at h; cases h
        | error e => rw [hfollow] at h; cases h; exact ⟨_, rfl⟩

theorem ensureDirectory_of_isDirectory {d : Disk} {path : String}
    (h : d.isDirectory path = true) : ensureDirectory path d = .ok () d := by
  obtain ⟨place, hplace, hdir⟩ := isDirectory_iff.mp h
  obtain ⟨hnull, hempty, -, -⟩ := place?_eq_ok_iff.mp hplace
  -- something stands in the way of a new directory
  obtain ⟨error, herror⟩ : ∃ error, d.makeDirectory path = .error (.system error path) := by
    rw [makeDirectory_eq]
    cases hbare : d.place? (bare path) with
    | ok other =>
      have hsame : other = place := by
        rw [target_of_place? hbare, target_of_place? hplace, target_bare hempty]
      subst hsame
      exact ⟨.taken, bind_eq_error_iff.mpr (.inr ⟨other, rfl, by rw [hdir]⟩)⟩
    | error fault =>
      have hclean : '\x00' ∉ (bare path).toList := by
        rcases bare_spec hempty with ⟨hsame, -⟩ | hpads
        · rwa [hsame]
        · exact fun hc => hnull (hpads.starts.subset hc)
      obtain ⟨error, rfl⟩ := place?_error hbare hclean
      exact ⟨error, rfl⟩
  unfold ensureDirectory
  rw [herror]
  exact if_pos h

theorem isDirectory_of_ensureDirectory {d d' : Disk} {path : String} (hpath : IsPath path)
    (h : ensureDirectory path d = .ok () d') : d'.isDirectory path = true := by
  unfold ensureDirectory at h
  split at h
  · next hmake =>
    cases h
    exact isDirectory_of_makeDirectory hpath hmake
  · next error other hmake =>
    rw [makeDirectory_error hmake] at h
    split at h
    · next hdir =>
      cases h
      exact hdir
    · cases h
  · cases h

/-- A directory that is there, in one that is there if it was made on the way. -/
structure Settled (d : Disk) (path : String) : Prop where
  isDirectory : d.isDirectory path = true
  above : (Path.parent path).1 = "" ∨ (Path.parent path).2 = "" ∨
    d.isThere (Path.parent path).1 = true

theorem Extends.settled {d d' : Disk} (h : d.Extends d') {path : String} (hs : d.Settled path) :
    d'.Settled path :=
  ⟨h.isDirectory hs.isDirectory, hs.above.imp_right (·.imp_right h.isThere)⟩

theorem makeLevels_settled {d : Disk} {path : String} (h : d.Settled path) (levels : Nat) :
    makeLevels levels path d = .ok () d := by
  have hensure := ensureDirectory_of_isDirectory h.isDirectory
  cases levels with
  | zero => exact hensure
  | succ levels =>
    have habove := h.above
    rw [makeLevels]
    generalize Path.parent path = parent at habove ⊢
    obtain ⟨head, tail⟩ := parent
    dsimp only at habove ⊢
    rw [run_of_ok (run_get d), if_neg]
    · exact hensure
    · rcases habove with hhead | htail | hthere
      · simp [hhead]
      · simp [htail]
      · simp [hthere]

theorem isPath_parent {path : String} (h : IsPath path) : IsPath (Path.parent path).1 := by
  obtain ⟨between, behind, -, -, hpath, -⟩ := Path.parent_spec path
  exact h.of_starts ⟨between ++ (Path.parent path).2.toList ++ behind, by simp [hpath]⟩

/-- A dot behind a directory leads to it, too. -/
theorem pads_parent {path : String} (hdot : (Path.parent path).2 = ".")
    (hhead : ¬Path.IsSlashes (Path.parent path).1.toList) :
    Path.Pads (Path.parent path).1 path := by
  obtain ⟨between, behind, hbetween, hbehind, hpath, hslashes⟩ := Path.parent_spec path
  have hne : (Path.parent path).1 ≠ "" := by
    intro he
    rw [he] at hhead
    exact hhead nofun
  refine Path.pads_of_stays hne hbetween (hslashes.resolve_left hhead) (Path.stays_dot hbehind) ?_
  rw [hpath, hdot]
  simp

/-- What was made is there, and so is the directory that it is in. -/
theorem made_of_makeLevels (levels : Nat) :
    ∀ {path : String} {d d' : Disk}, IsPath path → makeLevels levels path d = .ok () d' →
      d'.isDirectory path = true ∧ (levels ≠ 0 → (Path.parent path).1 = "" ∨
        (Path.parent path).2 = "" ∨ d'.isThere (Path.parent path).1 = true) := by
  induction levels with
  | zero => exact fun hpath h => ⟨isDirectory_of_ensureDirectory hpath h, absurd rfl⟩
  | succ levels ih =>
    intro path d d' hpath h
    have hhead := isPath_parent hpath
    have hpads := @pads_parent path
    have hfurnishes := makeLevels_furnishes (levels + 1) path d
    rw [h] at hfurnishes
    rw [makeLevels] at h
    generalize Path.parent path = parent at h hhead hpads ⊢
    obtain ⟨head, tail⟩ := parent
    dsimp only at h hhead hpads ⊢
    rw [run_of_ok (run_get d)] at h
    split at h
    · next hmissing =>
      simp only [Bool.and_eq_true, Bool.not_eq_eq_eq_not, Bool.not_true] at hmissing
      obtain ⟨⟨hempty, -⟩, hthere⟩ := hmissing
      obtain ⟨_, mid, hmade, hlast⟩ := run_eq_ok_iff.mp h
      have hmid := (ih hhead hmade).1
      split at hlast
      · next hdot =>
        cases hlast
        have hslashes : ¬Path.IsSlashes head.toList := by
          intro hs
          rw [isThere_slashes hhead (by simpa using hempty) hs] at hthere
          cases hthere
        exact ⟨isDirectory_pads (hpads hdot hslashes) hpath hmid,
          fun _ => .inr (.inr (isThere_of_isDirectory hmid))⟩
      · have hgrows := (ensureDirectory_furnishes path mid).extends
        rw [hlast] at hgrows
        exact ⟨isDirectory_of_ensureDirectory hpath hlast,
          fun _ => .inr (.inr (hgrows.isThere (isThere_of_isDirectory hmid)))⟩
    · next hthere =>
      have habove : head = "" ∨ tail = "" ∨ d.isThere head = true := by
        simpa [Decidable.imp_iff_not_or, or_assoc] using hthere
      exact ⟨isDirectory_of_ensureDirectory hpath h,
        fun _ => habove.imp_right (·.imp_right hfurnishes.extends.isThere)⟩

theorem settled_of_makeDirectories {d d' : Disk} {path : String} (hpath : IsPath path)
    (h : makeDirectories path d = .ok () d') : d'.Settled path := by
  obtain ⟨hdir, habove⟩ := made_of_makeLevels path.length hpath h
  refine ⟨hdir, habove fun hlength => ?_⟩
  obtain ⟨place, hplace, -⟩ := isDirectory_iff.mp hdir
  exact (place?_eq_ok_iff.mp hplace).2.1 (by simpa using hlength)

/-- **A directory that is there can be made again**, and nothing changes. -/
theorem makeDirectories_settled {d : Disk} {path : String} (h : d.Settled path) :
    makeDirectories path d = .ok () d :=
  makeLevels_settled h path.length

end DiceLedger.Disk
