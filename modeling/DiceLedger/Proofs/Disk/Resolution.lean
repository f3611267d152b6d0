import DiceLedger.Disk.Basic
import DiceLedger.Proofs.Outcome

/-!
# Where paths lead

A path that leads anywhere leads where its names alone say, whatever is on the disk. So two
names in one directory never lead to the same place, and a file can be followed by its place
while directories come into being around it.
-/
namespace DiceLedger

def Place.move (here : Place) (name : String) : Place :=
  if name = "" || name = "." then here
  else if name = ".." then here.dropLast
  else here ++ [name]

def Place.walk (here : Place) (names : List String) : Place := names.foldl Place.move here

theorem Place.walk_append (here : Place) (xs ys : List String) :
    Place.walk here (xs ++ ys) = Place.walk (Place.walk here xs) ys := List.foldl_append

namespace Path

/-- A name that leads to an entry of a directory. -/
structure IsName (name : String) : Prop where
  ordinary : name ≠ "" ∧ name ≠ "." ∧ name ≠ ".."
  no_slash : '/' ∉ name.toList

theorem IsName.move {name : String} (h : IsName name) (here : Place) :
    here.move name = here ++ [name] := by
  obtain ⟨hempty, hdot, hdots⟩ := h.ordinary
  simp [Place.move, hempty, hdot, hdots]

theorem IsName.components {name : String} (h : IsName name) : components name = [name] := by
  rw [Path.components, stretches_eq_singleton h.no_slash]
  simp

theorem components_slash (s t : String) :
    components (s ++ "/" ++ t) = components s ++ components t := by
  have hslash : (s ++ "/" ++ t).toList = s.toList ++ '/' :: t.toList := by simp
  rw [components, hslash, stretches_append_slash, List.map_append]
  rfl

theorem eq_append_slash {s : String} (h : s.toList.getLast? = some '/') :
    ∃ t, s = t ++ "/" := by
  obtain ⟨cs, hcs⟩ := List.getLast?_eq_some_iff.mp h
  refine ⟨String.ofList cs, ?_⟩
  rw [← String.toList_inj, hcs]
  simp

theorem IsName.head?_ne {name : String} (h : IsName name) : name.toList.head? ≠ some '/' := by
  intro he
  exact h.no_slash (List.mem_of_head? he)

theorem join_front (directory : String) :
    ∃ front : String, ∀ name, IsName name → join directory name = front ++ name := by
  by_cases hbare : directory.isEmpty || directory.toList.getLast? = some '/'
  · refine ⟨directory, fun name h => ?_⟩
    rw [join, if_neg h.head?_ne, if_pos hbare]
  · refine ⟨directory ++ "/", fun name h => ?_⟩
    rw [join, if_neg h.head?_ne, if_neg hbare]

/-- The names of a directory that a name is put behind. -/
theorem components_join (directory : String) :
    ∃ names, (∀ here : Place, here.walk names = here.walk (components directory)) ∧
      ∀ name, IsName name → components (join directory name) = names ++ [name] := by
  by_cases hempty : directory = ""
  · subst hempty
    refine ⟨[], fun here => by simp [components, stretches, Place.walk, Place.move], fun name h => ?_⟩
    rw [join, if_neg h.head?_ne, if_pos (by simp), List.nil_append]
    simpa using h.components
  by_cases hslash : directory.toList.getLast? = some '/'
  · obtain ⟨s, rfl⟩ := eq_append_slash hslash
    refine ⟨components s, fun here => ?_, fun name h => ?_⟩
    · have hs : components (s ++ "/") = components s ++ [""] := by
        simpa [components, stretches] using components_slash s ""
      rw [hs, Place.walk_append]
      simp [Place.walk, Place.move]
    · rw [join, if_neg h.head?_ne, if_pos (by simp), components_slash, h.components]
  · refine ⟨components directory, fun _ => rfl, fun name h => ?_⟩
    rw [join, if_neg h.head?_ne, if_neg (by simp [hempty, hslash]), components_slash, h.components]

end Path

namespace Disk

/-- Where the names of a path are followed from. -/
def start (d : Disk) (path : String) : Place :=
  if path.toList.head? = some '/' then [] else d.home

/-- The place of a path by its names alone. -/
def target (d : Disk) (path : String) : Place :=
  Place.walk (d.start path) (Path.components path)

/-- How the first of some names is followed. -/
theorem follow_cons_iff {d : Disk} {here place : Place} {name : String} {rest : List String} :
    d.follow here (name :: rest) = .ok place ↔
    ((name = "" ∨ name = ".") ∧ d.follow here rest = .ok place) ∨
    (name = ".." ∧ d.follow here.dropLast rest = .ok place) ∨
    ((name ≠ "" ∧ name ≠ "." ∧ name ≠ "..") ∧ name.utf8ByteSize ≤ longestName ∧
      ((rest = [] ∧ place = here ++ [name]) ∨
        (rest ≠ [] ∧ d.find? (here ++ [name]) = some .directory ∧
          d.follow (here ++ [name]) rest = .ok place))) := by
  rw [follow]
  by_cases hstay : name = "" ∨ name = "."
  · rcases hstay with rfl | rfl <;> simp
  obtain ⟨hempty, hdot⟩ := not_or.mp hstay
  by_cases hup : name = ".."
  · subst hup
    simp
  by_cases hlong : longestName < name.utf8ByteSize
  · simp [hempty, hdot, hup, hlong, Nat.not_le_of_lt hlong]
  have hshort := Nat.le_of_not_lt hlong
  cases rest with
  | nil => simp [hempty, hdot, hup, hlong, hshort, eq_comm]
  | cons other rest =>
    cases hfind : d.find? (here ++ [name]) with
    | none => simp [hempty, hdot, hup, hlong]
    | some e => cases e <;> simp [hempty, hdot, hup, hlong, hshort]

theorem walk_of_follow {d : Disk} {names : List String} :
    ∀ {here place : Place}, d.follow here names = .ok place → place = here.walk names := by
  induction names with
  | nil =>
    intro here place h
    cases h
    rfl
  | cons name rest ih =>
    intro here place h
    rw [Place.walk, List.foldl_cons, ← Place.walk, Place.move]
    rcases follow_cons_iff.mp h with ⟨rfl | rfl, h⟩ | ⟨rfl, h⟩ |
      ⟨⟨hempty, hdot, hup⟩, -, ⟨rfl, rfl⟩ | ⟨-, -, h⟩⟩
    · exact ih h
    · exact ih h
    · exact ih h
    · simp [hempty, hdot, hup, Place.walk]
    · simpa [hempty, hdot, hup] using ih h

/-- What a path needs in order to be followed at all. -/
theorem place?_eq_ok_iff {d : Disk} {path : String} {place : Place} :
    d.place? path = .ok place ↔
      '\x00' ∉ path.toList ∧ path ≠ "" ∧ path.utf8ByteSize ≤ longestPath ∧
        d.follow (d.start path) (Path.components path) = .ok place := by
  rw [place?]
  by_cases hnull : '\x00' ∈ path.toList
  · simp [hnull]
  by_cases hempty : path = ""
  · simp [hempty]
  by_cases hlong : longestPath < path.utf8ByteSize
  · simp [hnull, hempty, hlong, Nat.not_le_of_lt hlong]
  · simp [hnull, hempty, hlong, Nat.le_of_not_lt hlong, mapError_eq_ok_iff, start]

theorem target_of_place? {d : Disk} {path : String} {place : Place}
    (h : d.place? path = .ok place) : place = d.target path :=
  walk_of_follow (place?_eq_ok_iff.mp h).2.2.2

theorem start_join (d : Disk) (directory : String) {name : String} (h : Path.IsName name) :
    d.start (Path.join directory name) = d.start directory := by
  rw [Path.join, if_neg h.head?_ne]
  cases hd : directory.toList with
  | nil =>
    have hempty : directory = "" := by rw [← String.toList_inj, hd]; rfl
    subst hempty
    simp [start, h.head?_ne]
  | cons c cs =>
    split <;> simp [start, hd]

/-- A name in a directory leads to its place there. -/
theorem target_join (d : Disk) (directory : String) {name : String} (h : Path.IsName name) :
    d.target (Path.join directory name) = d.target directory ++ [name] := by
  obtain ⟨names, hwalk, hjoin⟩ := Path.components_join directory
  rw [target, start_join d directory h, hjoin name h, Place.walk_append, hwalk, target]
  exact h.move _

/-! ## The names that a directory can hold -/

/-- Some name can be reached in a directory. -/
def Reaches (d : Disk) (directory : String) : Prop :=
  ∃ name place, Path.IsName name ∧ d.place? (Path.join directory name) = .ok place

/-- A name that is not too long for its directory, and holds no null character. -/
structure Fits (directory name : String) : Prop where
  no_null : '\x00' ∉ name.toList
  name_le : name.utf8ByteSize ≤ longestName
  path_le : (Path.join directory name).utf8ByteSize ≤ longestPath

theorem follow_last {d : Disk} {x y : String} (hx : Path.IsName x) (hy : Path.IsName y)
    {names : List String} :
    ∀ {here place : Place}, d.follow here (names ++ [x]) = .ok place →
      x.utf8ByteSize ≤ longestName ∧
        (y.utf8ByteSize ≤ longestName →
          d.follow here (names ++ [y]) = .ok (here.walk names ++ [y])) := by
  induction names with
  | nil =>
    intro here place h
    obtain ⟨hempty, hdot, hdots⟩ := hx.ordinary
    obtain ⟨⟨hx, -⟩ | hx, -⟩ | ⟨hx, -⟩ | ⟨-, hlong, -⟩ := follow_cons_iff.mp h
    · exact absurd rfl hempty
    · exact absurd hx hdot
    · exact absurd hx hdots
    · exact ⟨hlong, fun hshort => follow_cons_iff.mpr
        (.inr (.inr ⟨hy.ordinary, hshort, .inl ⟨rfl, rfl⟩⟩))⟩
  | cons name rest ih =>
    intro here place h
    have hmore (z : String) : rest ++ [z] ≠ [] := by simp
    rw [Place.walk, List.foldl_cons, ← Place.walk]
    rcases follow_cons_iff.mp h with ⟨hstay, h⟩ | ⟨rfl, h⟩ |
      ⟨hordinary, hlong, ⟨hnil, -⟩ | ⟨-, hdir, h⟩⟩
    · obtain ⟨hx, hy⟩ := ih h
      refine ⟨hx, fun hshort => follow_cons_iff.mpr (.inl ⟨hstay, ?_⟩)⟩
      rw [Place.move, if_pos (by simpa using hstay)]
      exact hy hshort
    · obtain ⟨hx, hy⟩ := ih h
      exact ⟨hx, fun hshort => follow_cons_iff.mpr (.inr (.inl ⟨rfl, hy hshort⟩))⟩
    · exact absurd hnil (hmore x)
    · obtain ⟨hx, hy⟩ := ih h
      refine ⟨hx, fun hshort => follow_cons_iff.mpr
        (.inr (.inr ⟨hordinary, hlong, .inr ⟨hmore y, hdir, ?_⟩⟩))⟩
      obtain ⟨hempty, hdot, hup⟩ := hordinary
      rw [Place.move, if_neg (by simp [hempty, hdot]), if_neg hup]
      exact hy hshort

/-- In a directory that can be reached, a name leads to its place exactly when it fits. -/
theorem place?_join_iff {d : Disk} {directory name : String} (hreach : d.Reaches directory)
    (hname : Path.IsName name) {place : Place} :
    d.place? (Path.join directory name) = .ok place ↔
      Fits directory name ∧ place = d.target directory ++ [name] := by
  obtain ⟨other, place', hother, hplace'⟩ := hreach
  obtain ⟨names, hwalk, hjoin⟩ := Path.components_join directory
  obtain ⟨front, hfront⟩ := Path.join_front directory
  have htarget : d.target directory = (d.start directory).walk names := by rw [target, hwalk]
  obtain ⟨hnull', -, -, hfollow'⟩ := place?_eq_ok_iff.mp hplace'
  rw [start_join d directory hother, hjoin other hother] at hfollow'
  rw [hfront other hother] at hnull'
  constructor
  · intro h
    have hplace := target_of_place? h
    rw [target_join d directory hname] at hplace
    obtain ⟨hnull, -, hlong, hfollow⟩ := place?_eq_ok_iff.mp h
    rw [start_join d directory hname, hjoin name hname] at hfollow
    rw [hfront name hname] at hnull
    exact ⟨⟨by simp_all, (follow_last hname hname hfollow).1, hlong⟩, hplace⟩
  · rintro ⟨hfits, rfl⟩
    have hnull : '\x00' ∉ (front ++ name).toList := by
      have := hfits.no_null
      simp_all
    have hempty : front ++ name ≠ "" := by
      have := hname.ordinary.1
      simp_all
    rw [place?_eq_ok_iff, start_join d directory hname, hjoin name hname, htarget]
    exact ⟨hfront name hname ▸ hnull, hfront name hname ▸ hempty, hfits.path_le,
      (follow_last hother hname hfollow').2 hfits.name_le⟩

end Disk

end DiceLedger
