import DiceLedger.Proofs.Roll.Offers

/-!
# Draws and records of a roll

The requests made of the source and the records offered to the log are watched. A log that
fails at some of them has no say in the roll, whose result tells of every failure. With an
honest source a roll asks for all of its dice, each offered to the log, or for none.
-/
namespace DiceLedger

/-! ## Logs that are watched -/

/-- A log with the records offered to it and its answers, the oldest first. -/
structure Noted (σ : Type) where
  log : σ
  offers : List (RollRecord × Option LogFault) := []

def RollLog.noted {σ : Type} (log : RollLog σ) : RollLog (Noted σ) where
  record r n :=
    let (answer, after) := log.record r n.log
    (answer, ⟨after, n.offers ++ [(r, answer)]⟩)

/-- The records that were not refused. -/
def kept (offers : List (RollRecord × Option LogFault)) : List RollRecord :=
  offers.filterMap fun (r, answer) => if answer = none then some r else none

/-- A log keeps, in order, the records that it does not refuse; `rows` are those it has. -/
def RollLog.Keeps {σ : Type} (log : RollLog σ) (rows : σ → List RollRecord) : Prop :=
  ∀ r s, rows (log.record r s).2 = if (log.record r s).1 = none then rows s ++ [r] else rows s

section

variable {σ : Type} {log : RollLog σ}

theorem after_noted (rs : List RollRecord) :
    ∀ n : Noted σ, log.noted.after n rs =
      ⟨log.after n.log rs, n.offers ++ rs.zip (log.answers n.log rs)⟩ := by
  induction rs with
  | nil => intro n; simp [RollLog.after, RollLog.answers]
  | cons r rs ih =>
    intro n
    refine (ih (log.noted.record r n).2).trans ?_
    simp [RollLog.noted, RollLog.after, RollLog.answers]

theorem answers_noted (rs : List RollRecord) :
    ∀ n : Noted σ, log.noted.answers n rs = log.answers n.log rs := by
  induction rs with
  | nil => exact fun n => rfl
  | cons r rs ih => exact fun n => congrArg (_ :: ·) (ih _)

theorem RollLog.IsLenient.noted {n : Noted σ} (h : log.IsLenient n.log) :
    log.noted.IsLenient n := by
  intro rs r fault hfault
  rw [after_noted] at hfault
  exact h rs r fault hfault

theorem rows_after {rows : σ → List RollRecord} (h : log.Keeps rows) (rs : List RollRecord) :
    ∀ s, rows (log.after s rs) = rows s ++ kept (rs.zip (log.answers s rs)) := by
  induction rs with
  | nil => intro s; simp [RollLog.after, kept]
  | cons r rs ih =>
    intro s
    refine (ih (log.record r s).2).trans ?_
    rw [h r s]
    cases hanswer : (log.record r s).1 <;> simp [kept, RollLog.answers, hanswer]

/-- Every offer is kept or complained of. -/
theorem length_kept_add (offers : List (RollRecord × Option LogFault)) :
    (kept offers).length + (complaints (offers.map (·.2))).length = offers.length := by
  induction offers with
  | nil => rfl
  | cons offer offers ih =>
    obtain ⟨r, _ | fault⟩ := offer
    · simp only [kept, complaints, List.map_cons, List.filterMap_cons] at ih ⊢
      simp at ih ⊢
      omega
    · simp only [kept, complaints, List.map_cons, List.filterMap_cons] at ih ⊢
      simp at ih ⊢
      omega

end

namespace MemoryLog

theorem log_keeps : log.Keeps records := records_offer

theorem failures_after (rs : List RollRecord) :
    ∀ m : MemoryLog, (log.after m rs).failures = m.failures := by
  induction rs with
  | nil => exact fun m => rfl
  | cons r rs ih =>
    intro m
    refine (ih _).trans ?_
    simp only [log, offer]
    split <;> rfl

theorem records_after (rs : List RollRecord) :
    ∀ {m : MemoryLog}, (m.failures = fun _ => none) →
      (log.after m rs).records = m.records ++ rs := by
  induction rs with
  | nil => intro m _; simp [RollLog.after]
  | cons r rs ih =>
    intro m h
    have hmid : (log.record r m).2.failures = fun _ => none := (failures_after [r] m).trans h
    refine (ih hmid).trans ?_
    simp [log, offer, h]

/-- A memory log is as lenient as the failures that it is made for. -/
theorem isLenient_log {m : MemoryLog}
    (h : ∀ n fault, m.failures n = some fault → fault.isTolerable) : log.IsLenient m := by
  intro rs r fault hfault
  refine h (log.after m rs).attempts fault ?_
  rw [← failures_after rs m]
  cases hfailure : (log.after m rs).failures (log.after m rs).attempts <;>
    simp_all [log, offer]

end MemoryLog

/-! ## Two logs -/

/-- How a roll ends, but for what it says of the records that were not kept. -/
def outcome {τ : Type} : EStateM.Result RollFault τ Roll → Except RollFault Roll
  | .ok r _ => .ok { r with unrecorded := [] }
  | .error fault _ => .error fault

section

variable {ρ σ : Type} {g : Generator ρ} {log : RollLog σ} {who : Roller}

theorem length_cast {row : List Int} :
    ∀ {s : ρ}, (cast g row s).whole → (cast g row s).values.length = row.length := by
  induction row with
  | nil => exact fun _ => rfl
  | cons faces row ih =>
    intro s h
    rw [cast] at h ⊢
    split at h
    · cases h
    · exact congrArg Nat.succ (ih h)

theorem length_cast_le (row : List Int) : ∀ s : ρ, (cast g row s).values.length ≤ row.length := by
  induction row with
  | nil => exact fun _ => Nat.le_refl 0
  | cons faces row ih =>
    intro s
    rw [cast]
    split
    · exact Nat.zero_le _
    · exact Nat.succ_le_succ (ih _)

theorem ending_eq_ok {e : Expr Throw} {c : Cast ρ} {p : Expr (List Int) × Int}
    (h : ending e c = .ok p) : c.whole ∧ p.1 = e.fill c.values := by
  rw [ending] at h
  split at h
  · next hwhole =>
    split at h
    · cases h
    · cases h
      exact ⟨hwhole, rfl⟩
  · cases h

theorem ending_eq_error {e : Expr Throw} {c : Cast ρ} {fault : RollFault}
    (h : ending e c = .error fault) : fault = .exhausted ∨ ∃ f, fault = .total f := by
  rw [ending] at h
  split at h
  · split at h
    · cases h
      exact .inr ⟨_, rfl⟩
    · cases h
  · cases h
    exact .inl rfl

/-- Dice fall before their total fails. -/
theorem ending_eq_total {e : Expr Throw} {c : Cast ρ} {f : TotalFault}
    (h : ending e c = .error (.total f)) : c.whole ∧ (e.fill c.values).total = .error f := by
  rw [ending] at h
  split at h
  · next hwhole =>
    split at h
    · next htotal =>
      cases h
      exact ⟨hwhole, htotal⟩
    · cases h
  · cases h

/-- What a watched log has heard of a row of dice. -/
theorem thrown_noted (row : List Int) (c : Cast ρ) (source : ρ) (s : σ) :
    let rs := List.zipWith who.recordOf row c.values
    Table.thrown log.noted who row c ⟨source, ⟨s, []⟩, []⟩ =
      ⟨c.source, ⟨log.after s rs, rs.zip (log.answers s rs)⟩, complaints (log.answers s rs)⟩ := by
  simp [Table.thrown, Table.offered, after_noted, answers_noted]

/-- **A failing log has no say in a roll.** It ends as with a log that never fails, and asks the
source for the same numbers. What the log did not refuse it has, and the result tells of the
rest. -/
theorem roll_unmoved (g : Generator ρ) {rows : σ → List RollRecord} (hrows : log.Keeps rows)
    {s : σ} (hs : log.IsLenient s) (who : Roller) (allowed : Option Int) (formula : String)
    (source : ρ) :
    let failing := roll g.traced log.noted who allowed formula ⟨⟨source, []⟩, ⟨s, []⟩, []⟩
    let sound := roll g.traced MemoryLog.log who allowed formula ⟨⟨source, []⟩, {}, []⟩
    let offers := (final failing).log.offers
    outcome failing = outcome sound ∧
      (final failing).source = (final sound).source ∧
      offers.map (·.1) = (final sound).log.records ∧
      rows (final failing).log.log = rows s ++ kept offers ∧
      ∀ r last, failing = .ok r last → r.unrecorded = complaints (offers.map (·.2)) ∧
        (kept offers).length + r.unrecorded.length = r.rolled.leaves.flatten.length := by
  have hnoted : log.noted.IsLenient ⟨s, []⟩ := RollLog.IsLenient.noted (n := ⟨s, []⟩) hs
  have hsound : MemoryLog.log.IsLenient {} := MemoryLog.isLenient_log nofun
  rw [roll_eq hnoted, roll_eq hsound]
  cases hadmitted : admitted allowed formula with
  | error fault => simp [outcome, final, kept]
  | ok tree =>
    let c := cast g.traced tree.row ⟨source, []⟩
    let rs := List.zipWith who.recordOf tree.row c.values
    let offers := rs.zip (log.answers s rs)
    have hoffers : offers.map (·.1) = rs :=
      List.map_fst_zip (RollLog.length_answers rs s).ge
    have hanswers : offers.map (·.2) = log.answers s rs :=
      List.map_snd_zip (RollLog.length_answers rs s).le
    have hrows' : rows (log.after s rs) = rows s ++ kept offers := rows_after hrows rs s
    have hfailing : Table.thrown log.noted who tree.row c ⟨⟨source, []⟩, ⟨s, []⟩, []⟩ =
      ⟨c.source, ⟨log.after s rs, offers⟩, complaints (offers.map (·.2))⟩ := by
      rw [thrown_noted, hanswers]
    have hrecords : (Table.thrown MemoryLog.log who tree.row c
        ⟨⟨source, []⟩, {}, []⟩).log.records = rs := MemoryLog.records_after rs rfl
    dsimp only
    rw [hfailing]
    cases hending : ending tree c with
    | error fault =>
      refine ⟨rfl, rfl, hoffers.trans hrecords.symm, hrows', ?_⟩
      rintro r last ⟨⟩
    | ok p =>
      refine ⟨rfl, rfl, hoffers.trans hrecords.symm, hrows', ?_⟩
      rintro r last ⟨⟩
      refine ⟨rfl, (length_kept_add offers).trans ?_⟩
      obtain ⟨hwhole, hfill⟩ := ending_eq_ok hending
      have hvalues : c.values.length = tree.row.length := length_cast hwhole
      calc offers.length = rs.length := by rw [← hoffers, List.length_map]
        _ = c.values.length := by rw [List.length_zipWith, hvalues, Nat.min_self]
        _ = p.1.leaves.flatten.length := by rw [hfill, (fill_spec tree hvalues).2]

/-- A log that loses the second of three records. -/
theorem roll_unmoved_disk_full :
    let who : Roller := ⟨7, ⟨2024, 5, 1, 12, 0, 0, 0, some 0⟩⟩
    let m : MemoryLog := { failures := fun n => if n = 1 then some (.system "disk full") else none }
    let failing := roll Source.congruence.traced MemoryLog.log.noted who none "2d6 + 1d20"
      ⟨⟨1, []⟩, ⟨m, []⟩, []⟩
    MemoryLog.log.Keeps MemoryLog.records ∧ MemoryLog.log.IsLenient m ∧
      ∃ r, failing = .ok r (final failing) ∧ r.unrecorded = ["disk full"] ∧
        (final failing).log.log.records.length = 2 ∧ r.rolled.leaves.flatten.length = 3 ∧
        outcome failing = outcome (roll Source.congruence.traced MemoryLog.log who none "2d6 + 1d20"
          ⟨⟨1, []⟩, {}, []⟩) := by
  intro who m failing
  have hm : MemoryLog.log.IsLenient m := MemoryLog.isLenient_log fun n fault h => by
    dsimp only [m] at h
    split at h <;> cases h
    rfl
  have hrun : succeeds failing := by decide +kernel
  obtain ⟨houtcome, -, -, hkept, htold⟩ :=
    roll_unmoved Source.congruence MemoryLog.log_keeps hm who none "2d6 + 1d20" 1
  obtain ⟨r, hr⟩ := exists_of_succeeds hrun
  obtain ⟨hcomplaints, hcount⟩ := htold r _ hr
  refine ⟨MemoryLog.log_keeps, hm, r, hr, ?_, ?_, ?_, houtcome⟩
  · rw [hcomplaints]
    decide +kernel
  · decide +kernel
  · rw [← hcount, hcomplaints]
    decide +kernel

/-! ## All dice or none -/

theorem traced_honest (hg : g.Honest) : g.traced.Honest := by
  intro lowest highest t h
  obtain ⟨n, source, hdraw, hbounds⟩ := hg lowest highest t.source h
  refine ⟨n, ⟨source, (lowest, highest) :: t.requests⟩, ?_, hbounds⟩
  simp only [Generator.traced, hdraw]

/-- Requests that are kept do not change what comes up. -/
theorem cast_traced (row : List Int) : ∀ s : Traced ρ,
    (cast g.traced row s).values = (cast g row s.source).values ∧
      (cast g.traced row s).whole = (cast g row s.source).whole := by
  induction row with
  | nil => exact fun _ => ⟨rfl, rfl⟩
  | cons faces row ih =>
    intro s
    rcases hdraw : g.draw 1 faces s.source with ⟨_ | n, source⟩
    · simp [cast, Generator.traced, hdraw]
    · obtain ⟨hvalues, hwhole⟩ := ih ⟨source, (1, faces) :: s.requests⟩
      simp only [cast, Generator.traced, hdraw] at hvalues hwhole ⊢
      exact ⟨congrArg (n :: ·) hvalues, hwhole⟩

theorem cast_whole (hg : g.Honest) {row : List Int} (hfaces : ∀ faces ∈ row, 1 ≤ faces) :
    ∀ s : ρ, (cast g row s).whole := by
  induction row with
  | nil => exact fun s => rfl
  | cons faces row ih =>
    intro s
    obtain ⟨hfirst, hrest⟩ := List.forall_mem_cons.mp hfaces
    obtain ⟨n, s', hdraw, -⟩ := hg 1 faces s hfirst
    simp only [cast, hdraw]
    exact ih hrest s'

theorem faces_pos_of_row {e : Expr Throw} (h : ∀ t ∈ e.leaves, 1 ≤ t.faces) :
    ∀ faces ∈ e.row, 1 ≤ faces := by
  intro faces hmem
  obtain ⟨t, ht, hmem⟩ := List.mem_flatMap.mp hmem
  rw [(List.mem_replicate.mp hmem).2]
  exact h t ht

theorem requests_cast {row : List Int} :
    ∀ {s : Traced ρ}, (cast g.traced row s).whole →
      (cast g.traced row s).source.requests = (row.map request).reverse ++ s.requests := by
  induction row with
  | nil => exact fun _ => rfl
  | cons faces row ih =>
    intro s h
    rcases hdraw : g.draw 1 faces s.source with ⟨_ | n, source⟩
    · simp [cast, Generator.traced, hdraw] at h
    · simp only [cast, Generator.traced, hdraw] at h ⊢
      refine (ih h).trans ?_
      simp [request]

/-- The dice of a tree that was read are as many as are counted. -/
theorem length_row {e : Expr Throw} (h : ∀ t ∈ e.leaves, 0 ≤ t.count) :
    (e.row.length : Int) = e.diceCount := by
  have hsum (ts : List Throw) : ∀ n : Int, (∀ t ∈ ts, 0 ≤ t.count) →
      ts.foldl (fun dice t => dice + t.count) n =
        n + (ts.flatMap fun t => List.replicate t.number t.faces).length := by
    induction ts with
    | nil => simp
    | cons t ts ih =>
      intro n hts
      obtain ⟨ht, hrest⟩ := List.forall_mem_cons.mp hts
      have hnumber : (t.number : Int) = t.count := Int.toNat_of_nonneg ht
      rw [List.foldl_cons, ih _ hrest, List.flatMap_cons, List.length_append,
        List.length_replicate]
      omega
  rw [Expr.diceCount, hsum e.leaves 0 h, Expr.row, Int.zero_add]

theorem admitted_eq_dice_iff {allowed : Option Int} {formula : String} :
    (∃ fault, admitted allowed formula = .error (.dice fault)) ↔
      ∃ e, Formula.read formula = .ok e ∧
        ((∃ most, allowed = some most ∧ most < e.diceCount) ∨ ∃ t ∈ e.leaves, t.faces = 0) := by
  rw [admitted]
  cases hread : Formula.read formula with
  | error fault => simp
  | ok tree =>
    have hleaves := Formula.leaves_of_isWritable (Formula.isWritable_of_read hread)
    have hfaceless : (∃ t ∈ tree.leaves, t.faces = 0) ↔ ∃ t ∈ tree.leaves, t.faces < 1 := by
      refine exists_congr fun t => and_congr_right fun ht => ?_
      have := (hleaves t ht).2.1
      omega
    simp only [Except.ok.injEq, exists_eq_left', hfaceless, ← exists_refusal_iff]
    cases refusal? allowed tree <;> simp

/-- **A roll throws all of its dice or none.** Each is offered to the log. A formula is refused
for its dice when they are too many or when some of them have no faces. -/
theorem roll_all_or_nothing (hg : g.Honest) {s : σ} (hs : log.IsLenient s) (who : Roller)
    (allowed : Option Int) (formula : String) (source : ρ) :
    let out := roll g.traced log.noted who allowed formula ⟨⟨source, []⟩, ⟨s, []⟩, []⟩
    let calls := (final out).source.requests.length
    let attempts := (final out).log.offers.length
    calls = attempts ∧
      (attempts = 0 ∨ ∃ e, Formula.read formula = .ok e ∧ attempts = e.diceCount) ∧
      (∀ fault last, out = .error (.formula fault) last → attempts = 0) ∧
      (∀ fault last, out = .error (.dice fault) last → attempts = 0) ∧
      (∀ r last, out = .ok r last → ∃ e, Formula.read formula = .ok e ∧ attempts = e.diceCount) ∧
      ((∃ fault last, out = .error (.dice fault) last) ↔ ∃ e, Formula.read formula = .ok e ∧
        ((∃ most, allowed = some most ∧ most < e.diceCount) ∨ ∃ t ∈ e.leaves, t.faces = 0)) := by
  have hnoted : log.noted.IsLenient ⟨s, []⟩ := RollLog.IsLenient.noted (n := ⟨s, []⟩) hs
  rw [roll_eq hnoted, ← admitted_eq_dice_iff]
  cases hadmitted : admitted allowed formula with
  | error fault => simp [final]
  | ok tree =>
    obtain ⟨hread, hrefusal⟩ := admitted_eq_ok_iff.mp hadmitted
    have hleaves := Formula.leaves_of_isWritable (Formula.isWritable_of_read hread)
    have hcount := length_row fun t ht => (hleaves t ht).1.1
    have hfaces : ∀ faces ∈ tree.row, 1 ≤ faces := by
      intro faces hmem
      obtain ⟨t, ht, hmem⟩ := List.mem_flatMap.mp hmem
      rw [(List.mem_replicate.mp hmem).2]
      exact faces_pos_of_refusal hrefusal t ht
    let c := cast g.traced tree.row ⟨source, []⟩
    let rs := List.zipWith who.recordOf tree.row c.values
    have hwhole : c.whole := cast_whole (traced_honest hg) hfaces _
    have hcalls : c.source.requests.length = tree.row.length := by
      rw [requests_cast hwhole]
      simp
    have hattempts : (rs.zip (log.answers s rs)).length = tree.row.length := by
      rw [List.length_zip, RollLog.length_answers, Nat.min_self, List.length_zipWith,
        length_cast hwhole, Nat.min_self]
    have hdice : ((rs.zip (log.answers s rs)).length : Int) = tree.diceCount := by
      rw [hattempts, hcount]
    dsimp only
    rw [thrown_noted]
    cases hending : ending tree c with
    | error fault =>
      obtain rfl | ⟨f, rfl⟩ := ending_eq_error hending
      all_goals exact ⟨hcalls.trans hattempts.symm, .inr ⟨tree, hread, hdice⟩, by simp, by simp,
        by simp, by simp⟩
    | ok p =>
      exact ⟨hcalls.trans hattempts.symm, .inr ⟨tree, hread, hdice⟩, by simp, by simp,
        fun _ _ h => ⟨tree, hread, by cases h; exact hdice⟩, by simp⟩

/-- A throw without faces among others: no dice are thrown, neither before it nor after. -/
theorem roll_all_or_nothing_faceless :
    let who : Roller := ⟨7, ⟨2024, 5, 1, 12, 0, 0, 0, some 0⟩⟩
    let out := roll Source.congruence.traced MemoryLog.log.noted who (some 500) "3d6 * (2 - 0d0)"
      ⟨⟨1, []⟩, ⟨{}, []⟩, []⟩
    Source.congruence.Honest ∧ MemoryLog.log.IsLenient {} ∧
      ∃ fault last, out = .error (.dice fault) last ∧ (final out).source.requests.length = 0 := by
  intro who out
  have hlenient : MemoryLog.log.IsLenient {} := MemoryLog.isLenient_log nofun
  obtain ⟨hcalls, -, -, hnone, -, hdice⟩ :=
    roll_all_or_nothing Source.congruence_honest hlenient who (some 500) "3d6 * (2 - 0d0)" 1
  have hread : Formula.read "3d6 * (2 - 0d0)" = .ok (.binary (.dice ⟨3, 6⟩) .mul
    (.binary (.number 2) .sub (.dice ⟨0, 0⟩))) := by decide +kernel
  obtain ⟨fault, last, hout⟩ := hdice.mpr ⟨_, hread, .inr ⟨⟨0, 0⟩, by decide, rfl⟩⟩
  have hzero := hcalls.trans (hnone fault last hout)
  exact ⟨Source.congruence_honest, hlenient, fault, last, hout, hzero⟩

end

end DiceLedger
