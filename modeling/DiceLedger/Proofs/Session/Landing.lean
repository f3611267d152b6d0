import DiceLedger.Proofs.Session.Flush

/-!
# Where a flush writes

A flush that reports no trouble has written every record that waited. This is so on any disk:
files may be missing, and the names of two sessions may even lead to the same file, which then
has the records of one behind those of the other. Whether a file can be loaded afterwards is
another matter.
-/
namespace DiceLedger

namespace Disk

/-- The bytes of the file at a place; none if there is no file. -/
def bytes (d : Disk) (place : Place) : ByteArray := (d.content place).getD .empty

theorem bytes_put {d : Disk} {place : Place} (h : place ≠ []) (c : ByteArray) (other : Place) :
    (d.put place (.file c)).bytes other = if other = place then c else d.bytes other := by
  rw [bytes, content_put h]
  split <;> rfl

/-- What is appended lands where the names of the path say, and nowhere else. -/
theorem append_lands {d d' : Disk} {path : String} {added : ByteArray}
    (h : d.append path added = .ok d') :
    d.Extends d' ∧ (∃ c, d'.read path = .ok c) ∧ ∀ place,
      d'.bytes place = d.bytes place ++ if place = d.target path then added else .empty := by
  obtain ⟨place, hplace, hfile, rfl⟩ := append_eq_ok_iff.mp h
  obtain rfl := target_of_place? hplace
  have hroot : d.target path ≠ [] := by
    intro he
    rw [he] at hfile
    exact hfile (find?_root d)
  have hgrows : d.Extends (d.put (d.target path) (.file (d.bytes (d.target path) ++ added))) :=
    extends_put hroot hfile fun old hold => ⟨added, by rw [bytes, hold]; rfl⟩
  have hcontent : (d.put (d.target path) (.file (d.bytes (d.target path) ++ added))).content
      (d.target path) = some (d.bytes (d.target path) ++ added) :=
    (content_put hroot _ _).trans (if_pos rfl)
  refine ⟨hgrows, ⟨_, read_eq_ok_iff.mpr ⟨_, hgrows.place? hplace, hcontent⟩⟩, fun other => ?_⟩
  refine (bytes_put hroot _ other).trans ?_
  split
  · next he => rw [he, bytes]
  · rw [ByteArray.append_empty]

theorem Extends.read {d d' : Disk} (h : d.Extends d') {path : String} {c : ByteArray}
    (hc : d.read path = .ok c) : ∃ more, d'.read path = .ok (c ++ more) := by
  obtain ⟨place, hplace, hcontent⟩ := read_eq_ok_iff.mp hc
  obtain ⟨more, hmore⟩ := h.file place c hcontent
  exact ⟨more, read_eq_ok_iff.mpr ⟨place, h.place? hplace, hmore⟩⟩

/-- What is read of a file is the bytes at its place. -/
theorem bytes_of_read {d : Disk} {path : String} {c : ByteArray} (h : d.read path = .ok c) :
    d.bytes (d.target path) = c := by
  obtain ⟨place, hplace, hcontent⟩ := read_eq_ok_iff.mp h
  obtain rfl := target_of_place? hplace
  rw [bytes, hcontent]
  rfl

end Disk

namespace Session

/-- Where the name of a session leads. -/
def Archive.target (a : Archive) (f : String) : Place := a.disk.target (a.log.path f)

theorem Passes.target {a b : Archive} {rs : List RollRecord} (h : Passes a b rs) (f : String) :
    b.target f = a.target f := by
  rw [Archive.target, Archive.target, h.path, h.grows.target]

/-- The bytes of a session's file; none if it is not there. -/
def Archive.bytes (a : Archive) (f : String) : ByteArray := a.disk.bytes (a.target f)

/-- The records of those groups whose names lead to a place, group by group. -/
def bound (a : Archive) (place : Place) (gs : List (String × List RollRecord)) : List RollRecord :=
  (gs.filter fun g => a.target g.1 = place).flatMap (·.2)

theorem bound_cons (a : Archive) (place : Place) (s : String) (rs : List RollRecord)
    (gs : List (String × List RollRecord)) :
    bound a place ((s, rs) :: gs) = (if place = a.target s then rs else []) ++ bound a place gs := by
  by_cases h : a.target s = place
  · simp [bound, h]
  · simp [bound, h, Ne.symm h]

theorem Passes.bound {a b : Archive} {rs : List RollRecord} (h : Passes a b rs) (place : Place)
    (gs : List (String × List RollRecord)) : bound b place gs = Session.bound a place gs := by
  simp only [Session.bound, h.target]

/-- Groups that are all written: each has its file, and each file has gained the rows of those
groups whose names lead to it. -/
theorem writeGroups_lands (gs : List (String × List RollRecord)) :
    ∀ {a b : Archive}, (∀ g ∈ gs, g.2 ≠ []) → writeGroups gs a = .ok [] b →
      (∃ came, Passes a b came) ∧ (∀ g ∈ gs, ∃ c, b.disk.read (a.log.path g.1) = .ok c) ∧
        ∀ place, b.disk.bytes place =
          a.disk.bytes place ++ rowBytes ((bound a place gs).map row) := by
  induction gs with
  | nil =>
    intro a b _ h
    cases h
    exact ⟨⟨[], .refl a⟩, nofun, fun place => ByteArray.append_empty.symm⟩
  | cons g gs ih =>
    intro a b hsome h
    obtain ⟨s, rs⟩ := g
    obtain ⟨hrs, hrest⟩ := List.forall_mem_cons.mp hsome
    rcases hattempt : attempt (a.log.path s) (a.log.appendRows s rs) a with ⟨out, mid⟩
    simp only [writeGroups, hattempt] at h
    cases out with
    | error fault =>
      -- a group that could not be written would be left over
      cases fault with
      | nullInPath => cases h
      | system error path =>
        dsimp only at h
        split at h
        · next failed last hfailed =>
          obtain ⟨hnone, -⟩ := EStateM.Result.ok.inj h
          obtain ⟨hmarked, -⟩ := List.append_eq_nil_iff.mp hnone
          exact absurd (List.map_eq_nil_iff.mp hmarked) hrs
        · cases h
    | ok =>
      have hok : a.disk.append (a.log.path s) (rowBytes (rs.map row)) = .ok mid.disk := by
        rcases attempt_cases hattempt with ⟨_, _, _, _, hout, -⟩ | ⟨-, hok⟩ | ⟨_, hout, -⟩
        · cases hout
        · exact step_eq_ok_iff.mp hok
        · cases hout
      obtain ⟨-, ⟨c, hc⟩, hbytes⟩ := Disk.append_lands hok
      obtain ⟨came, hwaits⟩ :=
        attempt_waits hattempt (extends_step fun d' hd => (Disk.append_lands hd).1)
      obtain ⟨⟨came', hpasses⟩, hreads, hlands⟩ := ih hrest h
      refine ⟨⟨came ++ came', hwaits.toPasses.trans hpasses⟩, ?_, fun place => ?_⟩
      · refine List.forall_mem_cons.mpr ⟨?_, fun g hg => ?_⟩
        · obtain ⟨more, hmore⟩ := hpasses.grows.read hc
          exact ⟨_, hmore⟩
        · obtain ⟨c', hc'⟩ := hreads g hg
          exact ⟨c', by rw [← hwaits.path, hc']⟩
      · rw [hlands place, hbytes place, hwaits.bound, bound_cons, List.map_append, rowBytes_append,
          ByteArray.append_assoc]
        congr 2
        rw [Archive.target]
        split
        · rfl
        · exact rowBytes_nil.symm

/-- The records that a flush takes to the file of a session. -/
def Archive.outgoing (a : Archive) (f : String) : List RollRecord :=
  bound a (a.target f) (groups a.log.pending)

/-- These are the records that wait for the session, if no other name leads to its file. -/
theorem outgoing_eq {a : Archive} {f : String}
    (h : ∀ p ∈ a.log.pending, p.session ≠ f → a.target p.session ≠ a.target f) :
    a.outgoing f = pendingOf f a.log.pending := by
  rw [← rowsOf_groups, Archive.outgoing, bound, rowsOf]
  congr 1
  refine List.filter_congr fun g hg => ?_
  obtain ⟨p, hp, hsession⟩ := mem_groups.mp (List.mem_map_of_mem hg)
  rw [decide_eq_decide, ← hsession]
  constructor
  · intro htarget
    exact Decidable.byContradiction fun hne => h p hp hne htarget
  · rintro rfl
    rfl

theorem groups_ne_nil {batch : List Pending} : ∀ g ∈ groups batch, g.2 ≠ [] := by
  intro g hg hnone
  obtain ⟨p, hp, hsession⟩ := mem_groups.mp (List.mem_map_of_mem hg)
  have hrows : pendingOf g.1 batch = g.2 := by
    rw [← rowsOf_groups]
    exact rowsOf_of_mem (nodup_groups batch) hg
  have hmem : p.record ∈ pendingOf g.1 batch := by
    rw [← hsession]
    exact mem_pendingOf.mpr hp
  rw [hrows, hnone] at hmem
  cases hmem

/-- **A flush without trouble has written** what waited for a session to the end of its file,
which is there from then on. -/
theorem flush_lands {a b : Archive} {f : String} (h : flush a = .ok false b)
    (hf : pendingOf f a.log.pending ≠ []) :
    b.disk.read (Path.join b.log.directory f) =
      .ok (a.bytes f ++ rowBytes ((a.outgoing f).map row)) := by
  let start : Archive := { a with log := { a.log with pending := [] } }
  rw [flush, run_of_ok (run_get a), run_of_ok (run_modify _ a)] at h
  obtain ⟨failed, mid, hwrite, hrest⟩ := run_eq_ok_iff.mp h
  rw [run_of_ok (run_modify _ mid)] at hrest
  obtain ⟨hfailed, hb⟩ := EStateM.Result.ok.inj hrest
  obtain rfl : failed = [] := by simpa using hfailed
  obtain ⟨⟨came, hpasses⟩, hreads, hlands⟩ :=
    writeGroups_lands (groups a.log.pending) (a := start) groups_ne_nil hwrite
  obtain ⟨r, hr⟩ := List.exists_mem_of_ne_nil _ hf
  obtain ⟨g, hg, rfl⟩ := List.mem_map.mp (mem_groups.mpr ⟨_, mem_pendingOf.mp hr, rfl⟩)
  obtain ⟨c, hc⟩ := hreads g hg
  have hdisk : b.disk = mid.disk := by rw [← hb]
  have hdirectory : b.log.directory = a.log.directory := by
    rw [← hb]
    exact hpasses.directory
  have hbytes : mid.disk.bytes (mid.disk.target (start.log.path g.1)) = c := Disk.bytes_of_read hc
  rw [hpasses.grows.target, hlands] at hbytes
  rw [hdisk, hdirectory]
  exact hc.trans (congrArg _ hbytes.symm)

end Session

end DiceLedger
