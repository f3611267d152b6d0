import DiceLedger.Proofs.Disk.Resolution

/-!
# Slashes and dots at the end of a path

A path is taken apart into its directory and its last name. Slashes around that name are dropped,
and neither they nor a dot in its place lead anywhere else.
-/
namespace DiceLedger

namespace Path

/-- A text made of slashes. -/
def IsSlashes (cs : List Char) : Prop := ∀ c ∈ cs, c = '/'

/-- What is left of a text ends in a character that is not dropped. -/
theorem not_of_getLast? {p : Char → Bool} {cs : List Char} {c : Char}
    (h : (cs.reverse.dropWhile p).reverse.getLast? = some c) : p c = false := by
  rw [List.getLast?_reverse] at h
  have hhead := List.head?_dropWhile_not p cs.reverse
  rwa [h] at hhead

theorem exists_trailing_slashes (cs : List Char) :
    ∃ slashes, IsSlashes slashes ∧ cs = (cs.reverse.dropWhile (· = '/')).reverse ++ slashes := by
  refine ⟨(cs.reverse.takeWhile (· = '/')).reverse, fun c hc => ?_, ?_⟩
  · simpa using List.all_eq_true.mp List.all_takeWhile c (List.mem_reverse.mp hc)
  · rw [← List.reverse_append, List.takeWhile_append_dropWhile, List.reverse_reverse]

/-- What `split` takes a path apart into. Slashes between the two parts are lost, unless there is
nothing before them. -/
theorem split_spec (path : String) :
    ∃ slashes, IsSlashes slashes ∧
      path.toList = (split path).1.toList ++ slashes ++ (split path).2.toList ∧
      (IsSlashes (split path).1.toList ∨ slashes ≠ []) := by
  let tail := (path.toList.reverse.takeWhile (· ≠ '/')).reverse
  let front := (path.toList.reverse.dropWhile (· ≠ '/')).reverse
  let bare := (front.reverse.dropWhile (· = '/')).reverse
  have hpath : path.toList = front ++ tail := by
    rw [← List.reverse_append, List.takeWhile_append_dropWhile, List.reverse_reverse]
  have htake : path.toList.take (path.toList.length - tail.length) = front := by
    rw [hpath, List.length_append, Nat.add_sub_cancel]
    exact List.take_left' rfl
  have hsplit : split path =
      (String.ofList (if bare.isEmpty then front else bare), String.ofList tail) := by
    rw [split]
    simp only [htake, tail, bare]
  obtain ⟨slashes, hslashes, hfront⟩ := exists_trailing_slashes front
  change front = bare ++ slashes at hfront
  rw [hsplit]
  by_cases hempty : bare = []
  · rw [hempty, List.nil_append] at hfront
    exact ⟨[], nofun, by simp [hempty, hpath], .inl (by simpa [hempty, hfront] using hslashes)⟩
  · refine ⟨slashes, hslashes, by simp [hempty, hpath, hfront], .inr fun hnone => ?_⟩
    -- what stands before the last name would end both in a slash and in something else
    rw [hnone, List.append_nil] at hfront
    obtain ⟨c, hc⟩ := Option.ne_none_iff_exists'.mp (mt List.getLast?_eq_none_iff.mp hempty)
    have hslash : c = '/' := by simpa using not_of_getLast? (hfront ▸ hc : front.getLast? = some c)
    have hother : ¬c = '/' := by simpa using not_of_getLast? hc
    exact hother hslash

/-- A path, taken apart into its directory and last name. -/
theorem parent_spec (path : String) :
    ∃ between behind, IsSlashes between ∧ IsSlashes behind ∧
      path.toList = (parent path).1.toList ++ between ++ (parent path).2.toList ++ behind ∧
      (IsSlashes (parent path).1.toList ∨ between ≠ []) := by
  obtain ⟨slashes, hslashes, hpath, hfront⟩ := split_spec path
  by_cases htail : (split path).2.isEmpty = true
  · have hparent : parent path = split (split path).1 := by
      rw [parent]
      simp only [htail, if_true]
    obtain ⟨between, hbetween, hfirst, hout⟩ := split_spec (split path).1
    rw [hparent]
    refine ⟨between, slashes, hbetween, hslashes, ?_, hout⟩
    rw [hpath, ← hfirst]
    simpa using htail
  · have hparent : parent path = split path := by
      rw [parent]
      simp only [htail]
      rfl
    rw [hparent]
    exact ⟨slashes, [], hslashes, nofun, by rw [List.append_nil, ← hpath], hfront⟩

/-- A name that leads nowhere else. -/
def IsStay (name : String) : Prop := name = "" ∨ name = "."

/-- A path that is another one with slashes and dots behind it. -/
structure Pads (s path : String) : Prop where
  ne_empty : s ≠ ""
  starts : s.toList <+: path.toList
  components : ∃ more, (∀ name ∈ more, IsStay name) ∧ components path = components s ++ more

theorem Pads.refl {s : String} (h : s ≠ "") : Pads s s :=
  ⟨h, List.prefix_rfl, [], nofun, (List.append_nil _).symm⟩

def Stays (cs : List Char) : Prop := ∀ name ∈ stretches cs, name = [] ∨ name = ['.']

theorem Stays.isStay {cs : List Char} (h : Stays cs) :
    ∀ name ∈ (stretches cs).map String.ofList, IsStay name := by
  intro name hname
  obtain ⟨n, hn, rfl⟩ := List.mem_map.mp hname
  rcases h n hn with rfl | rfl
  · exact .inl rfl
  · exact .inr rfl

theorem stays_nil : Stays [] := by simp [Stays, stretches]

theorem Stays.slashes {slashes cs : List Char} (hs : IsSlashes slashes) (h : Stays cs) :
    Stays (slashes ++ cs) := by
  induction slashes with
  | nil => exact h
  | cons c slashes ih =>
    obtain ⟨rfl, hrest⟩ := List.forall_mem_cons.mp hs
    have hsplit : stretches ('/' :: (slashes ++ cs)) = [] :: stretches (slashes ++ cs) :=
      stretches_append_slash [] _
    rw [Stays, List.cons_append, hsplit, List.forall_mem_cons]
    exact ⟨.inl rfl, ih hrest⟩

theorem stays_dot {slashes : List Char} (hs : IsSlashes slashes) : Stays ('.' :: slashes) := by
  cases slashes with
  | nil => simp [Stays, stretches]
  | cons c slashes =>
    obtain ⟨rfl, hrest⟩ := List.forall_mem_cons.mp hs
    have hsplit : stretches ('.' :: '/' :: slashes) = ['.'] :: stretches slashes :=
      stretches_append_slash ['.'] _
    have hstays : Stays slashes := by simpa using stays_nil.slashes hrest
    rw [Stays, hsplit, List.forall_mem_cons]
    exact ⟨.inr rfl, hstays⟩

theorem pads_of_stays {s path : String} (hs : s ≠ "") {between rest : List Char}
    (hbetween : IsSlashes between) (hne : between ≠ []) (hrest : Stays rest)
    (hpath : path.toList = s.toList ++ between ++ rest) : Pads s path := by
  obtain ⟨c, slashes, rfl⟩ := List.exists_cons_of_ne_nil hne
  obtain ⟨rfl, hslashes⟩ := List.forall_mem_cons.mp hbetween
  have hmore : Stays (slashes ++ rest) := hrest.slashes hslashes
  rw [List.append_assoc, List.cons_append] at hpath
  refine ⟨hs, ⟨_, hpath.symm⟩, _, hmore.isStay, ?_⟩
  rw [components, hpath, stretches_append_slash, List.map_append, ← components]

theorem starts_join (directory : String) {name : String} (h : IsName name) :
    directory.toList <+: (join directory name).toList := by
  rw [join, if_neg h.head?_ne]
  split
  · exact ⟨name.toList, by simp⟩
  · exact ⟨'/' :: name.toList, by simp⟩

end Path

namespace Disk

/-- A path that is not too long and holds no null character. -/
structure IsPath (path : String) : Prop where
  no_null : '\x00' ∉ path.toList
  le : path.utf8ByteSize ≤ longestPath

theorem IsPath.of_starts {s path : String} (hs : s.toList <+: path.toList) (h : IsPath path) :
    IsPath s := by
  obtain ⟨more, hmore⟩ := hs
  have hpath : path = s ++ String.ofList more := by
    rw [← String.toList_inj, ← hmore]
    simp
  have hsize : path.utf8ByteSize = s.utf8ByteSize + (String.ofList more).utf8ByteSize := by
    rw [hpath, String.utf8ByteSize_append]
  refine ⟨fun hc => h.no_null ?_, by have := h.le; omega⟩
  rw [← hmore]
  exact List.mem_append_left _ hc

theorem isPath_of_place? {d : Disk} {path : String} {place : Place}
    (h : d.place? path = .ok place) : IsPath path := by
  obtain ⟨hnull, -, hlong, -⟩ := place?_eq_ok_iff.mp h
  exact ⟨hnull, hlong⟩

section

variable {d : Disk} {here place : Place} {names more : List String}

theorem walk_stays (h : ∀ name ∈ more, Path.IsStay name) (here : Place) : here.walk more = here := by
  induction more with
  | nil => rfl
  | cons name more ih =>
    obtain ⟨hname, hmore⟩ := List.forall_mem_cons.mp h
    have hmove : here.move name = here := by
      rcases hname with rfl | rfl <;> simp [Place.move]
    rw [Place.walk, List.foldl_cons, hmove]
    exact ih hmore

theorem follow_stays (h : ∀ name ∈ more, Path.IsStay name) : d.follow here more = .ok here := by
  induction more with
  | nil => rfl
  | cons name more ih =>
    obtain ⟨hname, hmore⟩ := List.forall_mem_cons.mp h
    exact follow_cons_iff.mpr (.inl ⟨hname, ih hmore⟩)

/-- Where a directory is, names that lead nowhere else may stand behind it. -/
theorem follow_append_stays (hmore : ∀ name ∈ more, Path.IsStay name)
    (hdir : d.find? place = some .directory) :
    ∀ {here : Place}, d.follow here names = .ok place →
      d.follow here (names ++ more) = .ok place := by
  induction names with
  | nil =>
    intro here h
    cases h
    exact follow_stays hmore
  | cons name rest ih =>
    intro here h
    rw [List.cons_append]
    rw [follow_cons_iff] at h ⊢
    rcases h with ⟨hstay, h⟩ | ⟨hup, h⟩ | ⟨hordinary, hlong, ⟨rfl, rfl⟩ | ⟨hrest, hfound, h⟩⟩
    · exact .inl ⟨hstay, ih h⟩
    · exact .inr (.inl ⟨hup, ih h⟩)
    · refine .inr (.inr ⟨hordinary, hlong, ?_⟩)
      by_cases hnone : more = []
      · exact .inl ⟨hnone, rfl⟩
      · exact .inr ⟨hnone, hdir, follow_stays hmore⟩
    · exact .inr (.inr ⟨hordinary, hlong, .inr ⟨by simp [hrest], hfound, ih h⟩⟩)

end

theorem start_pads {d : Disk} {s path : String} (h : Path.Pads s path) : d.start path = d.start s := by
  obtain ⟨more, hmore⟩ := h.starts
  have hne : s.toList ≠ [] := by simpa using h.ne_empty
  obtain ⟨c, cs, hcs⟩ := List.exists_cons_of_ne_nil hne
  rw [start, start, ← hmore, hcs]
  rfl

theorem target_pads {d : Disk} {s path : String} (h : Path.Pads s path) :
    d.target path = d.target s := by
  obtain ⟨more, hmore, hcomponents⟩ := h.components
  rw [target, target, hcomponents, Place.walk_append, walk_stays hmore, start_pads h]

end Disk

end DiceLedger
