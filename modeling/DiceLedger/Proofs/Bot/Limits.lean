import DiceLedger.Bot.RollReply
import DiceLedger.Proofs.Roll.Attempts

/-!
# How many dice one command throws

The requests made of the source and the records offered to the log are watched. A formula throws
no more dice than a roll may have, whatever source and log do. A roll of Cthulhu Dark has no such
limit: it is one row of dice, and its points alone say how long the row is.
-/
namespace DiceLedger

/-! ## Spending and costing -/

section

variable {ρ σ : Type}

/-- From one table to the next, at most `n` requests were made and at most `n` records offered. -/
structure Spends (n : Nat) (t t' : Table (Traced ρ) (Noted σ)) : Prop where
  requests : t'.source.requests.length ≤ t.source.requests.length + n
  offers : t'.log.offers.length ≤ t.log.offers.length + n

/-- From one table to the next, `n` requests were made and `n` records offered. -/
structure Costs (n : Nat) (t t' : Table (Traced ρ) (Noted σ)) : Prop where
  requests : t'.source.requests.length = t.source.requests.length + n
  offers : t'.log.offers.length = t.log.offers.length + n

variable {t t' t'' : Table (Traced ρ) (Noted σ)} {m n : Nat}

theorem Spends.refl (n : Nat) (t : Table (Traced ρ) (Noted σ)) : Spends n t t :=
  ⟨Nat.le_add_right _ n, Nat.le_add_right _ n⟩

theorem Spends.trans (h : Spends m t t') (h' : Spends n t' t'') : Spends (m + n) t t'' := by
  obtain ⟨hrequests, hoffers⟩ := h
  obtain ⟨hrequests', hoffers'⟩ := h'
  constructor <;> omega

theorem Spends.mono (h : Spends m t t') (hle : m ≤ n) : Spends n t t' := by
  obtain ⟨hrequests, hoffers⟩ := h
  constructor <;> omega

/-- What costs `m` spends no more than `n` exactly when `m` is no more than that. -/
theorem Costs.spends_iff (h : Costs m t t') : Spends n t t' ↔ m ≤ n := by
  obtain ⟨hrequests, hoffers⟩ := h
  constructor
  · rintro ⟨hmost, -⟩
    omega
  · intro hle
    constructor <;> omega

theorem spends_bind {α β : Type} {x : Play (Traced ρ) (Noted σ) α}
    {f : α → Play (Traced ρ) (Noted σ) β} (hx : Spends m t (final (x t)))
    (hf : ∀ a mid, Spends n mid (final (f a mid))) : Spends (m + n) t (final ((x >>= f) t)) := by
  cases h : x t with
  | ok a mid =>
    rw [h] at hx
    rw [run_of_ok h]
    exact hx.trans (hf a mid)
  | error fault mid =>
    rw [h] at hx
    rw [run_of_error h]
    exact hx.mono (Nat.le_add_right m n)

/-! ## Rows of dice -/

variable {g : Generator ρ} {log : RollLog σ} {who : Roller}

/-- A die is asked for once and offered at most once, whatever becomes of it. -/
theorem rollDie_spends (faces : Int) (t : Table (Traced ρ) (Noted σ)) :
    Spends 1 t (final (rollDie g.traced log.noted who faces t)) := by
  rcases hdraw : g.draw 1 faces t.source.source with ⟨_ | n, s⟩
  · have hnone : draw g.traced 1 faces t =
        .error .exhausted { t with source := ⟨s, (1, faces) :: t.source.requests⟩ } := by
      simp only [draw, Generator.traced, hdraw]
    rw [rollDie, run_of_error hnone]
    exact ⟨by simp [final], Nat.le_add_right _ 1⟩
  · let mid : Table (Traced ρ) (Noted σ) := { t with source := ⟨s, (1, faces) :: t.source.requests⟩ }
    have hfall : draw g.traced 1 faces t = .ok n mid := by
      simp only [draw, Generator.traced, hdraw]
      rfl
    have hstill : final (rollDie g.traced log.noted who faces t) =
        final (keep log.noted ⟨who.user, n, faces, who.time⟩ mid) := by
      rw [rollDie, run_of_ok hfall]
      exact final_bind_of_still fun _ _ => rfl
    rw [hstill, keep]
    rcases hrecord : log.record ⟨who.user, n, faces, who.time⟩ mid.log.log with ⟨_ | fault, after⟩
    · simp only [RollLog.noted, hrecord]
      constructor <;> simp [final, mid]
    · simp only [RollLog.noted, hrecord]
      split <;> constructor <;> simp [final, mid]

theorem rollRow_spends (row : List Int) : ∀ t : Table (Traced ρ) (Noted σ),
    Spends row.length t (final (rollRow g.traced log.noted who row t)) := by
  induction row with
  | nil => exact .refl 0
  | cons faces row ih =>
    intro t
    have hdie : Spends 1 t (final (rollDie g.traced log.noted who faces t)) := rollDie_spends faces t
    have hrest (result : Int) (mid : Table (Traced ρ) (Noted σ)) : Spends row.length mid
        (final ((do return result :: (← rollRow g.traced log.noted who row) : Play _ _ _) mid)) := by
      rw [final_bind_of_still fun _ _ => rfl]
      exact ih mid
    rw [List.length_cons, Nat.add_comm]
    exact spends_bind hdie hrest

/-- With an honest source and a lenient log, a row of dice falls as a whole. -/
theorem rollRow_costs (hg : g.Honest) {row : List Int} (hfaces : ∀ faces ∈ row, 1 ≤ faces)
    {t : Table (Traced ρ) (Noted σ)} (hlog : log.IsLenient t.log.log) :
    Costs row.length t (final (rollRow g.traced log.noted who row t)) := by
  let c := cast g.traced row t.source
  have hwhole : c.whole := cast_whole (traced_honest hg) hfaces t.source
  have hnoted : log.noted.IsLenient t.log := RollLog.IsLenient.noted hlog
  have hrow : rollRow g.traced log.noted who row t = .ok c.values (t.thrown log.noted who row c) :=
    (rollRow_eq row hnoted).trans (if_pos hwhole)
  have hvalues : c.values.length = row.length := length_cast hwhole
  rw [hrow]
  constructor
  · have hrequests : c.source.requests = (row.map request).reverse ++ t.source.requests :=
      requests_cast hwhole
    simp [final, Table.thrown, Table.offered, hrequests, Nat.add_comm]
  · simp [final, Table.thrown, Table.offered, after_noted, RollLog.length_answers, hvalues]

/-! ## Formulas -/

/-- **A roll throws no more dice than are allowed.** -/
theorem roll_spends (most : Int) (formula : String) (t : Table (Traced ρ) (Noted σ)) :
    Spends most.toNat t (final (roll g.traced log.noted who (some most) formula t)) := by
  rw [roll_eq_admitted]
  cases hadmitted : admitted (some most) formula with
  | error fault => exact .refl _ t
  | ok tree =>
    obtain ⟨hread, hrefusal⟩ := admitted_eq_ok_iff.mp hadmitted
    have hleaves := Formula.leaves_of_isWritable (Formula.isWritable_of_read hread)
    have hcount : (tree.row.length : Int) = tree.diceCount :=
      length_row fun u hu => (hleaves u hu).1.1
    have hfew : tree.diceCount ≤ most := diceCount_le_of_refusal hrefusal
    have htree : Spends tree.row.length t (final (rollTree g.traced log.noted who tree t)) := by
      have hspends : Spends tree.row.length t (final (rollRow g.traced log.noted who tree.row t)) :=
        rollRow_spends tree.row t
      rw [rollTree_eq tree (faces_pos_of_refusal hrefusal)]
      cases hrow : rollRow g.traced log.noted who tree.row t with
      | ok values last => rwa [hrow] at hspends
      | error fault last => rwa [hrow] at hspends
    have hstill : final ((rollTree g.traced log.noted who tree >>= conclude formula) t) =
        final (rollTree g.traced log.noted who tree t) := by
      refine final_bind_of_still fun rolled last => ?_
      rw [conclude]
      cases rolled.total <;> rfl
    dsimp only
    rw [hstill]
    exact htree.mono (by omega)

end

/-! ## Cthulhu Dark -/

/-- How many dice some points are worth: one for every ten, and one for what is left over. -/
def cthulhuDice (points : Int) : Nat :=
  if points < 1 then 0 else (points / 10).toNat + if points % 10 = 0 then 0 else 1

/-- Points as they are dealt: the first values are the human dice, and the last of all is the
insight die if something was left over. -/
def dealt (points : Int) (values : List Int) : CthulhuDark :=
  ⟨values.take (points / 10).toNat, if 10 ∣ points then none else values.getLast?⟩

theorem cthulhuDice_le_iff {points : Int} {n : Nat} : cthulhuDice points ≤ n ↔ points ≤ 10 * n := by
  rw [cthulhuDice]
  split
  · omega
  · split <;> omega

section

variable {ρ σ : Type} {g : Generator ρ} {log : RollLog σ} {who : Roller}

/-- The human dice and the insight die fall as one row. -/
theorem rollCthulhuDark_eq {faces : Int} (hfaces : 1 ≤ faces) (points : Int) :
    rollCthulhuDark g log who faces points = (do
      return dealt points
        (← rollRow g log who (List.replicate (cthulhuDice points) faces))) := by
  have hhuman : rollThrow g log who ⟨points / 10, faces⟩ =
      rollRow g log who (List.replicate (points / 10).toNat faces) := rollThrow_eq hfaces
  have hinsight : rollThrow g log who ⟨1, faces⟩ = rollRow g log who [faces] := rollThrow_eq hfaces
  rw [rollCthulhuDark, cthulhuDice, hhuman, hinsight]
  by_cases hnone : points < 1
  · rw [if_pos hnone, if_pos hnone]
    simp [rollRow, dealt]
  rw [if_neg hnone, if_neg hnone]
  by_cases hround : points % 10 = 0
  · have hdivides : 10 ∣ points := Int.dvd_of_emod_eq_zero hround
    simp only [hround, if_true]
    -- only of a row that has fallen is it known how many values it has
    funext t
    cases hrow : rollRow g log who (List.replicate (points / 10).toNat faces) t with
    | error fault last => rw [run_of_error hrow, Nat.add_zero, run_of_error hrow]
    | ok values last =>
      have hlength := length_rollRow hrow
      rw [List.length_replicate] at hlength
      rw [run_of_ok hrow, Nat.add_zero, run_of_ok hrow, dealt, if_pos hdivides, ← hlength,
        List.take_length]
  · have hdivides : ¬10 ∣ points := fun h => hround (Int.emod_eq_zero_of_dvd h)
    simp only [hround, if_false]
    rw [List.replicate_add, rollRow_append]
    funext t
    cases hrow : rollRow g log who (List.replicate (points / 10).toNat faces) t with
    | error fault last => rw [run_of_error hrow, run_of_error (run_of_error hrow)]
    | ok values mid =>
      have hlength := length_rollRow hrow
      rw [List.length_replicate] at hlength
      rw [run_of_ok hrow]
      cases hlast : rollRow g log who [faces] mid with
      | error fault last =>
        rw [run_of_error hlast, run_of_error ((run_of_ok hrow).trans (run_of_error hlast))]
      | ok rest last =>
        obtain ⟨v, rfl⟩ := List.length_eq_one_iff.mp (length_rollRow hlast)
        rw [run_of_ok hlast, run_of_ok ((run_of_ok hrow).trans (run_of_ok hlast))]
        simp [dealt, hdivides, ← hlength]

theorem final_rollCthulhuDark {faces : Int} (hfaces : 1 ≤ faces) (points : Int) (t : Table ρ σ) :
    final (rollCthulhuDark g log who faces points t) =
      final (rollRow g log who (List.replicate (cthulhuDice points) faces) t) := by
  rw [rollCthulhuDark_eq hfaces, final_bind_of_still fun _ _ => rfl]

end

/-! ## Answers -/

namespace Bot

section

variable {ρ σ : Type} {g : Generator ρ} {log : RollLog σ} {who : Roller}

/-- An answer to a roll leaves what the roll leaves. -/
theorem final_rollReply (formula : String) (t : Table ρ σ) :
    final (rollReply g log who formula t) = final (roll g log who (some mostDice) formula t) := by
  rw [rollReply]
  cases roll g log who (some mostDice) formula t with
  | ok r last => rfl
  | error fault last =>
    dsimp only
    split <;> rfl

theorem final_cthulhuReply (points : Int) (t : Table ρ σ) :
    final (cthulhuReply g log who points t) =
      final (rollRow g log who (List.replicate (cthulhuDice points) cthulhuFaces) t) := by
  rw [cthulhuReply, final_bind_of_still fun _ _ => rfl, final_rollCthulhuDark (by decide)]

theorem cthulhuReply_costs (hg : g.Honest) {t : Table (Traced ρ) (Noted σ)}
    (hlog : log.IsLenient t.log.log) (points : Int) :
    Costs (cthulhuDice points) t (final (cthulhuReply g.traced log.noted who points t)) := by
  have hfaces : ∀ faces ∈ List.replicate (cthulhuDice points) cthulhuFaces, 1 ≤ faces := by
    intro faces hmem
    rw [(List.mem_replicate.mp hmem).2]
    decide
  rw [final_cthulhuReply]
  simpa using rollRow_costs hg hfaces hlog

/-- **How many dice a command throws.** No formula makes the bot throw more dice than a roll may
have, whatever the source and the log do. A roll of Cthulhu Dark throws as many as its points are
worth, and keeps to that limit up to ten times as many points. -/
theorem dice_limit (g : Generator ρ) (log : RollLog σ) (who : Roller)
    (t : Table (Traced ρ) (Noted σ)) :
    (∀ formula, Spends mostDice.toNat t (final (rollReply g.traced log.noted who formula t))) ∧
      (∀ points, Spends (cthulhuDice points) t
        (final (cthulhuReply g.traced log.noted who points t))) ∧
      (g.Honest → log.IsLenient t.log.log → ∀ points,
        let last := final (cthulhuReply g.traced log.noted who points t)
        Costs (cthulhuDice points) t last ∧
          (Spends mostDice.toNat t last ↔ points ≤ 10 * mostDice)) := by
  refine ⟨fun formula => ?_, fun points => ?_, fun hg hlog points => ?_⟩
  · rw [final_rollReply]
    exact roll_spends mostDice formula t
  · rw [final_cthulhuReply]
    simpa using rollRow_spends (List.replicate (cthulhuDice points) cthulhuFaces) t
  · have hcosts : Costs (cthulhuDice points) t
        (final (cthulhuReply g.traced log.noted who points t)) := cthulhuReply_costs hg hlog points
    exact ⟨hcosts, hcosts.spends_iff.trans cthulhuDice_le_iff⟩

/-- The last points within the limit, and the first beyond it. -/
theorem dice_limit_five_thousand :
    let who : Roller := ⟨7, ⟨2024, 5, 1, 12, 0, 0, 0, some 0⟩⟩
    let t : Table (Traced UInt64) (Noted MemoryLog) := ⟨⟨1, []⟩, ⟨{}, []⟩, []⟩
    let last points :=
      final (cthulhuReply Source.congruence.traced MemoryLog.log.noted who points t)
    Source.congruence.Honest ∧ MemoryLog.log.IsLenient t.log.log ∧
      Costs 500 t (last 5000) ∧ Spends 500 t (last 5000) ∧
      Costs 501 t (last 5001) ∧ ¬Spends 500 t (last 5001) := by
  intro who t last
  have hlenient : MemoryLog.log.IsLenient t.log.log := MemoryLog.isLenient_log nofun
  have hdice : cthulhuDice 5000 = 500 ∧ cthulhuDice 5001 = 501 := by decide
  have hpoints : (5000 : Int) ≤ 10 * mostDice ∧ ¬(5001 : Int) ≤ 10 * mostDice := by decide
  obtain ⟨-, -, hall⟩ := dice_limit Source.congruence MemoryLog.log who t
  obtain ⟨hcosts, hwithin⟩ := hall Source.congruence_honest hlenient 5000
  obtain ⟨hcosts', hbeyond⟩ := hall Source.congruence_honest hlenient 5001
  rw [hdice.1] at hcosts
  rw [hdice.2] at hcosts'
  exact ⟨Source.congruence_honest, hlenient, hcosts, hwithin.mpr hpoints.1, hcosts',
    fun h => hpoints.2 (hbeyond.mp h)⟩

/-- More dice than any roll may have, thrown and offered to the log at one command. -/
theorem cthulhu_exceeds :
    let who : Roller := ⟨7, ⟨2024, 5, 1, 12, 0, 0, 0, some 0⟩⟩
    let t : Table (Traced UInt64) (Noted MemoryLog) := ⟨⟨1, []⟩, ⟨{}, []⟩, []⟩
    let last := final (cthulhuReply Source.congruence.traced MemoryLog.log.noted who 5001 t)
    mostDice < last.source.requests.length ∧ mostDice < last.log.offers.length := by
  intro who t last
  have hlenient : MemoryLog.log.IsLenient t.log.log := MemoryLog.isLenient_log nofun
  obtain ⟨hrequests, hoffers⟩ : Costs (cthulhuDice 5001) t last :=
    cthulhuReply_costs Source.congruence_honest hlenient 5001
  rw [hrequests, hoffers]
  decide

end

end Bot

end DiceLedger
