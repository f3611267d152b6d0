import DiceLedger.Proofs.Disk.Growth
import DiceLedger.Proofs.Text.Digits
import DiceLedger.Session.Log

/-!
# Names of sessions

The names that sessions are given are plain: digits, dashes and their ending. So each leads to
a file of its own beside the index, and the index reads back as the names that were written.
Among the names for one moment there is always one that is free.
-/
namespace DiceLedger.Session

open DiceLedger.Text DiceLedger.Time

/-- The characters of session names. -/
def nameChars : List Char := digits ++ "-_.csv".toList

/-- A name that a session can be given. -/
def IsSessionName (name : String) : Prop := ∃ begun n, name = candidate begun n

theorem mem_stem {m : Moment} {c : Char} (h : c ∈ m.stem) : c ∈ nameChars := by
  have hdigit : ∀ c ∈ digits, c ∈ nameChars := fun c hc => List.mem_append_left _ hc
  have hmark : ∀ c ∈ ['-', '_'], c ∈ nameChars := forall_of_all (by decide)
  simp only [Moment.stem, List.mem_append, List.mem_cons] at h
  rcases h with ((((h | h | h) | h | h) | h | h) | h | h) | h | h
  all_goals first
    | exact hdigit c (mem_digits_of_decimal h)
    | exact hdigit c (mem_digits_of_padded h)
    | exact hmark c (by simp [h])

/-- A session name ends in the ending of all session names. -/
theorem IsSessionName.ending {name : String} (h : IsSessionName name) :
    ∃ front, name.toList = front ++ ".csv".toList := by
  obtain ⟨begun, n, rfl⟩ := h
  exact ⟨_, String.toList_ofList⟩

theorem IsSessionName.mem {name : String} (h : IsSessionName name) {c : Char}
    (hc : c ∈ name.toList) : c ∈ nameChars := by
  obtain ⟨begun, n, rfl⟩ := h
  rw [candidate, String.toList_ofList, List.mem_append, List.mem_append] at hc
  rcases hc with (hc | hc) | hc
  · exact mem_stem hc
  · split at hc
    · cases hc
    · rcases List.mem_cons.mp hc with rfl | hc
      · decide
      · exact List.mem_append_left _ (mem_digits_of_decimal hc)
  · have hall : ∀ c ∈ ".csv".toList, c ∈ nameChars := forall_of_all (by decide)
    exact hall c hc

theorem IsSessionName.isName {name : String} (h : IsSessionName name) : Path.IsName name := by
  obtain ⟨front, hfront⟩ := h.ending
  have hlength : 4 ≤ name.toList.length := by
    rw [hfront, List.length_append]
    exact Nat.le_add_left 4 _
  have hne {short : String} (hs : short.toList.length < 4) : name ≠ short := by
    rintro rfl
    omega
  have hslash : '/' ∉ nameChars := by decide
  exact ⟨⟨hne (by decide), hne (by decide), hne (by decide)⟩, fun hc => hslash (h.mem hc)⟩

theorem IsSessionName.ne_index {name : String} (h : IsSessionName name) :
    name ≠ Log.indexName := by
  obtain ⟨front, hfront⟩ := h.ending
  intro he
  have hlast := congrArg List.getLast? hfront
  rw [he, List.getLast?_append] at hlast
  revert hlast
  simp [Log.indexName]

theorem candidate_injective (begun : Moment) {m n : Nat}
    (h : candidate begun m = candidate begun n) : m = n := by
  have hnumber : (if m = 0 then [] else '_' :: decimal (m + 1)) =
      if n = 0 then [] else '_' :: decimal (n + 1) := by
    simpa [candidate] using congrArg String.toList h
  split at hnumber <;> split at hnumber
  · next hm hn => rw [hm, hn]
  · cases hnumber
  · cases hnumber
  · have hdecimal := decimal_injective (List.cons.inj hnumber).2
    omega

/-! ## Free names -/

/-- A name that is not free is that of the current session or takes up an entry of the disk. -/
theorem taken_of_not_isFree {a : Archive} {name : String} (hname : Path.IsName name)
    (h : isFree a name = false) :
    name ∈ a.log.current.toList ++ a.disk.entries.filterMap (·.1.getLast?) := by
  simp only [isFree, Bool.and_eq_false_iff, decide_eq_false_iff_not, Decidable.not_not,
    Bool.not_eq_eq_eq_not, Bool.not_false] at h
  rcases h with hcurrent | hthere
  · simp [hcurrent]
  rw [Disk.isThere] at hthere
  split at hthere
  · next place hplace =>
    have htarget := Disk.target_of_place? hplace
    rw [Log.path, Disk.target_join a.disk a.log.directory hname] at htarget
    have hroot : place ≠ [] := by simp [htarget]
    obtain ⟨e, he⟩ := Option.isSome_iff_exists.mp hthere
    rw [Disk.find?, if_neg hroot] at he
    obtain ⟨front, back, hentries, -⟩ := List.lookup_eq_some_iff.mp he
    refine List.mem_append_right _ (List.mem_filterMap.mpr ⟨(place, e), ?_, ?_⟩)
    · simp [hentries]
    · simp [htarget]
  · cases hthere

/-- **There is always a free name**, and the first one is chosen. -/
theorem freshName_first (begun : Moment) (a : Archive) :
    ∃ n, freshName begun a = candidate begun n ∧ isFree a (candidate begun n) = true ∧
      ∀ m < n, isFree a (candidate begun m) = false := by
  cases hfind : ((List.range (a.disk.entries.length + 2)).map (candidate begun)).find?
      (isFree a) with
  | some name =>
    have hfresh : freshName begun a = name := by simp only [freshName, hfind, Option.getD_some]
    obtain ⟨hfree, n, hn, hname, hbefore⟩ := List.find?_eq_some_iff_getElem.mp hfind
    simp only [List.getElem_map, List.getElem_range, Bool.not_eq_true'] at hname hbefore
    subst hname
    exact ⟨n, hfresh, hfree, hbefore⟩
  | none =>
    -- more names than the current one and the entries of the disk could take up
    have hnodup : ((List.range (a.disk.entries.length + 2)).map (candidate begun)).Nodup :=
      List.Pairwise.map _ (fun m n hne he => hne (candidate_injective begun he)) List.nodup_range
    have htaken : ∀ name ∈ (List.range (a.disk.entries.length + 2)).map (candidate begun),
        name ∈ a.log.current.toList ++ a.disk.entries.filterMap (·.1.getLast?) := by
      intro name hname
      obtain ⟨n, -, rfl⟩ := List.mem_map.mp hname
      have hsession : IsSessionName (candidate begun n) := ⟨begun, n, rfl⟩
      exact taken_of_not_isFree hsession.isName
        (by simpa using List.find?_eq_none.mp hfind _ hname)
    have hle := hnodup.length_le_of_subset htaken
    have hfew := List.length_filterMap_le (fun e : Place × Entry => e.1.getLast?) a.disk.entries
    have hone : a.log.current.toList.length ≤ 1 := by cases a.log.current <;> simp
    simp only [List.length_map, List.length_range, List.length_append] at hle
    omega

theorem freshName_spec (begun : Moment) (a : Archive) :
    IsSessionName (freshName begun a) ∧ isFree a (freshName begun a) = true := by
  obtain ⟨n, hname, hfree, -⟩ := freshName_first begun a
  rw [hname]
  exact ⟨⟨begun, n, rfl⟩, hfree⟩

/-- Which name is chosen depends only on what names are free. -/
theorem freshName_congr {a b : Archive}
    (h : ∀ name, IsSessionName name → isFree b name = isFree a name) (begun : Moment) :
    freshName begun b = freshName begun a := by
  obtain ⟨m, hm, hfree, hbefore⟩ := freshName_first begun a
  obtain ⟨n, hn, hfree', hbefore'⟩ := freshName_first begun b
  have hsame (k : Nat) : isFree b (candidate begun k) = isFree a (candidate begun k) :=
    h _ ⟨begun, k, rfl⟩
  have heq : n = m := by
    rcases Nat.lt_trichotomy n m with hlt | heq | hlt
    · rw [hsame, hbefore n hlt] at hfree'
      cases hfree'
    · exact heq
    · rw [← hsame, hbefore' m hlt] at hfree
      cases hfree
  rw [hm, hn, heq]

/-! ## The index -/

def listing (ns : List String) : List Char := ns.flatMap (·.toList ++ ['\n'])

theorem listing_append (ns : List String) (name : String) :
    listing (ns ++ [name]) = listing ns ++ (name.toList ++ ['\n']) := by
  simp [listing]

theorem trim_eq_self {cs : List Char} (h : ∀ c ∈ cs, ¬isBlank c) : trim cs = cs := by
  have hdrop {ds : List Char} (hd : ∀ c ∈ ds, ¬isBlank c) : ds.dropWhile isBlank = ds := by
    cases ds with
    | nil => rfl
    | cons d ds => rw [List.dropWhile_cons_of_neg (hd d List.mem_cons_self)]
  rw [trim, hdrop h, hdrop (fun c hc => h c (List.mem_reverse.mp hc)), List.reverse_reverse]

/-- **An index reads back** as the names that were written. -/
theorem names_listing {ns : List String} (h : ∀ name ∈ ns, IsSessionName name) :
    names (listing ns) = ns := by
  have hblank : ∀ c ∈ nameChars, ¬isBlank c := forall_of_all (by decide)
  have hend : ∀ c ∈ nameChars, ¬isLineEnd c := forall_of_all (by decide)
  induction ns with
  | nil => rfl
  | cons name ns ih =>
    have hname := h name List.mem_cons_self
    have hrest := ih (fun other hother => h other (List.mem_cons_of_mem name hother))
    have hlist : listing (name :: ns) = name.toList ++ '\n' :: listing ns := by simp [listing]
    have hfull : name.toList ≠ [] := by simpa using hname.isName.ordinary.1
    rw [names, hlist, stretches_append_lineEnd (by decide),
      stretches_eq_singleton (fun c hc => hend c (hname.mem hc)), List.singleton_append,
      List.map_cons, trim_eq_self (fun c hc => hblank c (hname.mem hc)),
      List.filter_cons_of_pos (by simpa using hname.isName.ordinary.1), List.map_cons, ← names,
      hrest, String.ofList_toList]

end DiceLedger.Session
