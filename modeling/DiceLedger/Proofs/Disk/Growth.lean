import DiceLedger.Proofs.Disk.Resolution

/-!
# Disks that only grow

Making directories and writing at the end of files takes nothing away: what could be read can
still be read, and begins as it did. Of a file in a directory only its own operations are seen.
-/
namespace DiceLedger.Disk

/-- The content of the file at a place, if there is a file. -/
def content (d : Disk) (place : Place) : Option ByteArray :=
  match d.find? place with
  | some (.file c) => some c
  | _ => none

theorem content_eq_some_iff {d : Disk} {place : Place} {c : ByteArray} :
    d.content place = some c ↔ d.find? place = some (.file c) := by
  rw [content]
  split <;> simp_all

/-- `d'` has all that `d` has, and files may have grown. -/
structure Extends (d d' : Disk) : Prop where
  home : d'.home = d.home
  directory : ∀ place, d.find? place = some .directory → d'.find? place = some .directory
  file : ∀ place c, d.content place = some c → ∃ more, d'.content place = some (c ++ more)

theorem Extends.refl (d : Disk) : d.Extends d :=
  ⟨rfl, fun _ h => h, fun _ c h => ⟨.empty, by rw [h, ByteArray.append_empty]⟩⟩

theorem Extends.trans {d d' d'' : Disk} (h : d.Extends d') (h' : d'.Extends d'') :
    d.Extends d'' := by
  refine ⟨h'.home.trans h.home, fun p hp => h'.directory p (h.directory p hp), fun p c hc => ?_⟩
  obtain ⟨more, hmore⟩ := h.file p c hc
  obtain ⟨more', hmore'⟩ := h'.file p _ hmore
  exact ⟨more ++ more', by rw [hmore', ByteArray.append_assoc]⟩

theorem Extends.follow {d d' : Disk} (h : d.Extends d') {names : List String} :
    ∀ {here place : Place}, d.follow here names = .ok place → d'.follow here names = .ok place := by
  induction names with
  | nil => exact fun h => h
  | cons name rest ih =>
    intro here place hd
    rw [follow_cons_iff] at hd ⊢
    rcases hd with ⟨hstay, hd⟩ | ⟨hup, hd⟩ | ⟨hordinary, hlong, hlast | ⟨hmore, hdir, hd⟩⟩
    · exact .inl ⟨hstay, ih hd⟩
    · exact .inr (.inl ⟨hup, ih hd⟩)
    · exact .inr (.inr ⟨hordinary, hlong, .inl hlast⟩)
    · exact .inr (.inr ⟨hordinary, hlong, .inr ⟨hmore, h.directory _ hdir, ih hd⟩⟩)

theorem Extends.start {d d' : Disk} (h : d.Extends d') (path : String) :
    d'.start path = d.start path := by
  rw [Disk.start, Disk.start, h.home]

theorem Extends.target {d d' : Disk} (h : d.Extends d') (path : String) :
    d'.target path = d.target path := by
  rw [Disk.target, Disk.target, h.start]

theorem Extends.place? {d d' : Disk} (h : d.Extends d') {path : String} {place : Place}
    (hp : d.place? path = .ok place) : d'.place? path = .ok place := by
  obtain ⟨hnull, hempty, hlong, hfollow⟩ := place?_eq_ok_iff.mp hp
  exact place?_eq_ok_iff.mpr ⟨hnull, hempty, hlong, by rw [h.start]; exact h.follow hfollow⟩

theorem Extends.reaches {d d' : Disk} (h : d.Extends d') {directory : String}
    (hr : d.Reaches directory) : d'.Reaches directory := by
  obtain ⟨name, place, hname, hplace⟩ := hr
  exact ⟨name, place, hname, h.place? hplace⟩

/-! ## Reading and writing -/

theorem read_eq_ok_iff {d : Disk} {path : String} {c : ByteArray} :
    d.read path = .ok c ↔ ∃ place, d.place? path = .ok place ∧ d.content place = some c := by
  rw [read, bind_eq_ok_iff]
  constructor
  · rintro ⟨place, hplace, h⟩
    refine ⟨place, hplace, ?_⟩
    split at h <;> cases h
    next hfind => exact content_eq_some_iff.mpr hfind
  · rintro ⟨place, hplace, h⟩
    exact ⟨place, hplace, by rw [content_eq_some_iff.mp h]⟩

theorem append_eq_ok_iff {d d' : Disk} {path : String} {bytes : ByteArray} :
    d.append path bytes = .ok d' ↔ ∃ place, d.place? path = .ok place ∧
      d.find? place ≠ some .directory ∧
      d' = d.put place (.file ((d.content place).getD .empty ++ bytes)) := by
  rw [append, bind_eq_ok_iff]
  refine exists_congr fun place => and_congr_right fun _ => ?_
  cases hfind : d.find? place with
  | none => simp [content, hfind, eq_comm]
  | some e => cases e <;> simp [content, hfind, eq_comm]

theorem create_eq_ok_iff {d d' : Disk} {path : String} :
    d.create path = .ok d' ↔ ∃ place, d.place? path = .ok place ∧
      d.find? place ≠ some .directory ∧ d' = d.put place (.file .empty) := by
  rw [create, bind_eq_ok_iff]
  refine exists_congr fun place => and_congr_right fun _ => ?_
  cases hfind : d.find? place with
  | none => simp [eq_comm]
  | some e => cases e <;> simp [eq_comm]

/-- A file that can be read can be written to. -/
theorem append_of_read {d : Disk} {path : String} {c : ByteArray} (h : d.read path = .ok c)
    (bytes : ByteArray) : ∃ d', d.append path bytes = .ok d' := by
  obtain ⟨place, hplace, hc⟩ := read_eq_ok_iff.mp h
  have hfile : d.find? place ≠ some .directory := by
    rw [content_eq_some_iff.mp hc]
    simp
  exact ⟨_, append_eq_ok_iff.mpr ⟨place, hplace, hfile, rfl⟩⟩

theorem content_put {d : Disk} {place : Place} (h : place ≠ []) (c : ByteArray) (other : Place) :
    (d.put place (.file c)).content other =
      if other = place then some c else d.content other := by
  rw [content, find?_put d h]
  by_cases ho : other = place
  · simp [ho]
  · simp [ho, content]

/-- Writing a file anew that was not there, or with what it held and more, only adds. -/
theorem extends_put {d : Disk} {place : Place} (hroot : place ≠ [])
    (hfile : d.find? place ≠ some .directory) {c : ByteArray}
    (hc : ∀ old, d.content place = some old → ∃ more, c = old ++ more) :
    d.Extends (d.put place (.file c)) := by
  refine ⟨rfl, fun p hp => ?_, fun p old hp => ?_⟩
  · rw [find?_put d hroot, if_neg (fun he : p = place => hfile (he ▸ hp)), hp]
  · rw [content_put hroot]
    split
    · next he =>
      obtain ⟨more, hmore⟩ := hc old (he ▸ hp)
      exact ⟨more, by rw [hmore]⟩
    · exact ⟨.empty, by rw [hp, ByteArray.append_empty]⟩

/-- `d'` is `d` with the file of a name in a directory holding `c`. -/
structure Rewrites (d d' : Disk) (directory name : String) (c : ByteArray) : Prop where
  reached : d.place? (Path.join directory name) = .ok (d.target directory ++ [name])
  grows : d.Extends d'
  content : d'.content (d.target directory ++ [name]) = some c
  frame : ∀ other, other ≠ d.target directory ++ [name] → d'.find? other = d.find? other

theorem rewrites_put {d : Disk} {directory name : String} {place : Place}
    (hname : Path.IsName name) (hplace : d.place? (Path.join directory name) = .ok place)
    (hfile : d.find? place ≠ some .directory) {c : ByteArray}
    (hc : ∀ old, d.content place = some old → ∃ more, c = old ++ more) :
    place = d.target directory ++ [name] ∧
      d.Rewrites (d.put place (.file c)) directory name c := by
  have htarget := target_of_place? hplace
  rw [target_join d directory hname] at htarget
  subst htarget
  have hroot : d.target directory ++ [name] ≠ [] := by simp
  refine ⟨rfl, hplace, extends_put hroot hfile hc, ?_, fun p hp => ?_⟩
  · rw [content_put hroot, if_pos rfl]
  · rw [find?_put d hroot, if_neg hp]

theorem append_spec {d d' : Disk} {directory name : String} (hname : Path.IsName name)
    {bytes : ByteArray} (h : d.append (Path.join directory name) bytes = .ok d') :
    d.Rewrites d' directory name
      ((d.content (d.target directory ++ [name])).getD .empty ++ bytes) := by
  obtain ⟨place, hplace, hfile, rfl⟩ := append_eq_ok_iff.mp h
  obtain ⟨rfl, hrewrites⟩ := rewrites_put hname hplace hfile
    (c := (d.content place).getD .empty ++ bytes) fun old hold => ⟨bytes, by rw [hold]; rfl⟩
  exact hrewrites

/-- Making a file where nothing is. -/
theorem create_spec {d d' : Disk} {directory name : String} (hname : Path.IsName name)
    (hfree : d.isThere (Path.join directory name) = false)
    (h : d.create (Path.join directory name) = .ok d') :
    d.content (d.target directory ++ [name]) = none ∧
      d.Rewrites d' directory name .empty := by
  obtain ⟨place, hplace, hfile, rfl⟩ := create_eq_ok_iff.mp h
  rw [isThere, hplace] at hfree
  have hnone : d.content place = none := by
    rw [content, Option.isSome_eq_false_iff.mp hfree |> Option.isNone_iff_eq_none.mp]
  obtain ⟨rfl, hrewrites⟩ := rewrites_put hname hplace hfile (c := .empty) fun old hold => by
    rw [hnone] at hold
    cases hold
  exact ⟨hnone, hrewrites⟩

/-- What is read in a directory that can be reached. -/
theorem read_join {d : Disk} {directory name : String} (hreach : d.Reaches directory)
    (hname : Path.IsName name) {c : ByteArray} :
    d.read (Path.join directory name) = .ok c ↔
      Fits directory name ∧ d.content (d.target directory ++ [name]) = some c := by
  rw [read_eq_ok_iff]
  constructor
  · rintro ⟨place, hplace, hc⟩
    obtain ⟨hfits, rfl⟩ := (place?_join_iff hreach hname).mp hplace
    exact ⟨hfits, hc⟩
  · rintro ⟨hfits, hc⟩
    exact ⟨_, (place?_join_iff hreach hname).mpr ⟨hfits, rfl⟩, hc⟩

/-! ## Making directories -/

/-- `d'` is `d` with directories where nothing was. -/
structure Furnishes (d d' : Disk) : Prop where
  home : d'.home = d.home
  find : ∀ place, d'.find? place = d.find? place ∨
    (d.find? place = none ∧ d'.find? place = some .directory)

theorem Furnishes.refl (d : Disk) : d.Furnishes d := ⟨rfl, fun _ => .inl rfl⟩

theorem Furnishes.trans {d d' d'' : Disk} (h : d.Furnishes d') (h' : d'.Furnishes d'') :
    d.Furnishes d'' := by
  refine ⟨h'.home.trans h.home, fun p => ?_⟩
  rcases h.find p with hp | ⟨hnone, hp⟩ <;> rcases h'.find p with hp' | ⟨hnone', hp'⟩
  · exact .inl (hp'.trans hp)
  · exact .inr ⟨hp ▸ hnone', hp'⟩
  · exact .inr ⟨hnone, hp'.trans hp⟩
  · rw [hp] at hnone'
    cases hnone'

theorem Furnishes.content {d d' : Disk} (h : d.Furnishes d') (place : Place) :
    d'.content place = d.content place := by
  rcases h.find place with hp | ⟨hnone, hp⟩
  · rw [Disk.content, Disk.content, hp]
  · rw [Disk.content, Disk.content, hp, hnone]

theorem Furnishes.extends {d d' : Disk} (h : d.Furnishes d') : d.Extends d' := by
  refine ⟨h.home, fun p hp => ?_, fun p c hc => ⟨.empty, ?_⟩⟩
  · rcases h.find p with hp' | ⟨hnone, -⟩
    · rw [hp', hp]
    · rw [hnone] at hp
      cases hp
  · rw [h.content, hc, ByteArray.append_empty]

theorem makeDirectory_furnishes {d d' : Disk} {path : String} (h : d.makeDirectory path = .ok d') :
    d.Furnishes d' := by
  simp only [makeDirectory, bind_eq_ok_iff] at h
  obtain ⟨place, -, h⟩ := h
  split at h
  · cases h
  next hnone =>
  cases h
  have hroot : place ≠ [] := by
    intro he
    rw [he, find?_root] at hnone
    cases hnone
  refine ⟨rfl, fun p => ?_⟩
  rw [find?_put d hroot]
  split
  · next he => exact .inr ⟨he ▸ hnone, rfl⟩
  · exact .inl rfl

theorem ensureDirectory_furnishes (path : String) (d : Disk) :
    d.Furnishes (final (ensureDirectory path d)) := by
  unfold ensureDirectory
  split
  · next h => exact makeDirectory_furnishes h
  · split <;> exact .refl d
  · exact .refl d

theorem makeLevels_furnishes (levels : Nat) :
    ∀ (path : String) (d : Disk), d.Furnishes (final (makeLevels levels path d)) := by
  induction levels with
  | zero => exact ensureDirectory_furnishes
  | succ levels ih =>
    intro path d
    rw [makeLevels]
    obtain ⟨head, tail⟩ := Path.parent path
    dsimp only
    rw [run_of_ok (run_get d)]
    split
    · refine final_bind .trans (ih head d) fun _ mid _ => ?_
      split
      · exact Furnishes.refl mid
      · exact ensureDirectory_furnishes path mid
    · exact ensureDirectory_furnishes path d

theorem makeDirectories_furnishes (path : String) (d : Disk) :
    d.Furnishes (final (makeDirectories path d)) :=
  makeLevels_furnishes path.length path d

end DiceLedger.Disk
