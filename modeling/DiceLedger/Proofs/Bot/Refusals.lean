import DiceLedger.Bot.RollReply
import DiceLedger.Proofs.Roll.Attempts
import DiceLedger.Session.Log

/-!
# What is recorded at a refused roll

A roll that is refused for its formula or its dice throws nothing, and its log is not touched.
A total is worked out after the dice have fallen, and each of them was offered to the log as it
landed. So a roll that is refused for its total has all of its dice on record.
-/
namespace DiceLedger

/-! ## Logs that refuse nothing -/

/-- Whatever it is offered from now on, a log keeps. -/
def RollLog.IsSound {σ : Type} (log : RollLog σ) (s : σ) : Prop :=
  ∀ rs r, (log.record r (log.after s rs)).1 = none

section

variable {σ : Type} {log : RollLog σ}

theorem RollLog.IsSound.isLenient {s : σ} (h : log.IsSound s) : log.IsLenient s := by
  intro rs r fault hfault
  rw [h rs r] at hfault
  cases hfault

theorem RollLog.IsSound.after {s : σ} (h : log.IsSound s) (rs : List RollRecord) :
    log.IsSound (log.after s rs) := by
  intro rs' r
  rw [RollLog.after, RollLog.after, ← List.foldl_append]
  exact h (rs ++ rs') r

/-- A sound log has all that it was offered. -/
theorem rows_of_isSound {rows : σ → List RollRecord} (hrows : log.Keeps rows)
    (rs : List RollRecord) : ∀ {s : σ}, log.IsSound s → rows (log.after s rs) = rows s ++ rs := by
  induction rs with
  | nil => exact fun _ => (List.append_nil _).symm
  | cons r rs ih =>
    intro s h
    have hfirst : rows (log.record r s).2 = rows s ++ [r] := (hrows r s).trans (if_pos (h [] r))
    refine (ih (h.after [r])).trans ?_
    show rows (log.record r s).2 ++ rs = rows s ++ r :: rs
    rw [hfirst, List.append_assoc, List.singleton_append]

theorem MemoryLog.isSound_log {m : MemoryLog} (h : m.failures = fun _ => none) :
    MemoryLog.log.IsSound m := by
  have hkept (m' : MemoryLog) (h' : m'.failures = fun _ => none) (r : RollRecord) :
      (MemoryLog.log.record r m').1 = none := by
    simp [MemoryLog.log, MemoryLog.offer, h']
  exact fun rs r => hkept _ ((MemoryLog.failures_after rs m).trans h) r

end

namespace Session

/-- The records that wait, whatever their sessions. -/
def Log.waiting (log : Log) : List RollRecord := log.pending.map (·.record)

theorem rollLog_keeps : rollLog.Keeps Log.waiting := by
  rintro r ⟨directory, _ | session, pending⟩
  · rfl
  · simp [rollLog, Log.record, Log.waiting]

theorem record_of_current {log : Log} {session : String} (h : log.current = some session)
    (r : RollRecord) : rollLog.record r log =
      (none, { log with pending := log.pending ++ [⟨session, r⟩] }) := by
  simp only [rollLog, Log.record, h]

theorem current_after (rs : List RollRecord) :
    ∀ {log : Log} {session : String}, log.current = some session →
      (rollLog.after log rs).current = some session := by
  induction rs with
  | nil => exact fun h => h
  | cons r rs ih =>
    intro log session h
    have hfirst : (rollLog.record r log).2.current = some session := by
      rw [record_of_current h]
      exact h
    exact ih hfirst

/-- While a session is open the session log refuses nothing. -/
theorem isSound_rollLog {log : Log} {session : String} (h : log.current = some session) :
    rollLog.IsSound log := by
  intro rs r
  rw [record_of_current (current_after rs h)]

end Session

/-! ## Faults of a roll -/

/-- Of the faults at the end of a roll only those of arithmetic are told to whoever rolls. -/
theorem arithmetic_of_ending {ρ : Type} {e : Expr Throw} {c : Cast ρ} {fault : RollFault}
    (h : ending e c = .error fault) (hreported : fault.isReported) :
    ∃ f, fault = .total (.arithmetic f) := by
  obtain rfl | ⟨f, rfl⟩ := ending_eq_error h
  · cases hreported
  · cases f with
    | arithmetic f => exact ⟨f, rfl⟩
    | unknownSign symbol => cases hreported
    | unknownOperator symbol => cases hreported
    | unrolled t => cases hreported
    | noValue => cases hreported

/-! ## Refusals -/

namespace Bot

open DiceLedger.Session

/-- Is this the answer to a roll that was refused? -/
def Reply.IsRefusal (reply : Reply) : Prop := "Roll error.\n".toList <+: reply.text.toList

instance (reply : Reply) : Decidable reply.IsRefusal :=
  inferInstanceAs (Decidable ("Roll error.\n".toList <+: reply.text.toList))

/-- What is said of a roll begins with a backtick. -/
theorem not_isRefusal_rollText (formula display : String) (total : Int) (unrecorded : Nat)
    (nice : Bool) : ¬(Reply.mk (rollText formula display total unrecorded) nice).IsRefusal := by
  rintro ⟨rest, hrest⟩
  simp [rollText, Text.Fence.wrap, Text.Fence.Size.delimiter, Text.Fence.tick] at hrest

section

variable {ρ σ : Type} {g : Generator ρ} {log : RollLog σ} {who : Roller}

theorem rollReply_refused {formula : String} {t last : Table ρ σ} {reply : Reply}
    (h : rollReply g log who formula t = .ok reply last) (hrefusal : reply.IsRefusal) :
    ∃ fault, roll g log who (some mostDice) formula t = .error fault last ∧
      fault.isReported ∧ reply = ⟨faultText fault, false⟩ := by
  rw [rollReply] at h
  cases hroll : roll g log who (some mostDice) formula t with
  | ok r last' =>
    rw [hroll] at h
    obtain ⟨rfl, -⟩ := EStateM.Result.ok.inj h
    exact absurd hrefusal (not_isRefusal_rollText _ _ _ _ _)
  | error fault last' =>
    rw [hroll] at h
    dsimp only at h
    split at h
    · next hreported =>
      cases h
      exact ⟨fault, rfl, hreported, rfl⟩
    · cases h

/-- **What a refused roll leaves behind.** Either nothing is drawn and the log is not touched,
because the fault is one of the formula or of its dice. Or all dice have fallen and each is on
record, in order, because only their total fails. -/
theorem refusal_records {rows : σ → List RollRecord} (hrows : log.Keeps rows) (g : Generator ρ)
    (who : Roller) (formula : String) {t last : Table ρ σ} {reply : Reply}
    (hlog : log.IsSound t.log) (h : rollReply g log who formula t = .ok reply last)
    (hrefusal : reply.IsRefusal) :
    ∃ fault, reply = ⟨faultText fault, false⟩ ∧
      (last = t ∧ ((∃ f, fault = .formula f) ∨ ∃ f, fault = .dice f) ∨
        ∃ f e, fault = .total (.arithmetic f) ∧ Formula.read formula = .ok e ∧
          let values := (cast g e.row t.source).values
          values.length = e.row.length ∧ (e.fill values).total = .error (.arithmetic f) ∧
            rows last.log = rows t.log ++ List.zipWith who.recordOf e.row values) := by
  obtain ⟨fault, hroll, hreported, rfl⟩ := rollReply_refused h hrefusal
  refine ⟨fault, rfl, ?_⟩
  rw [roll_eq hlog.isLenient] at hroll
  cases hadmitted : admitted (some mostDice) formula with
  | error fault' =>
    rw [hadmitted] at hroll
    cases hroll
    exact .inl ⟨rfl, admitted_eq_error hadmitted⟩
  | ok tree =>
    rw [hadmitted] at hroll
    dsimp only at hroll
    cases hending : ending tree (cast g tree.row t.source) with
    | ok p =>
      rw [hending] at hroll
      cases hroll
    | error fault' =>
      rw [hending] at hroll
      cases hroll
      obtain ⟨f, rfl⟩ := arithmetic_of_ending hending hreported
      obtain ⟨hwhole, htotal⟩ := ending_eq_total hending
      exact .inr ⟨f, tree, rfl, (admitted_eq_ok_iff.mp hadmitted).1, length_cast hwhole, htotal,
        rows_of_isSound hrows _ hlog⟩

/-- Both kinds of log are sound. Three dice of an open session, in a quotient that does not
exist. -/
theorem refusal_records_quotient :
    let who : Roller := ⟨7, ⟨2024, 5, 1, 12, 0, 0, 0, some 0⟩⟩
    let t : Table UInt64 Log := ⟨1, ⟨"rolls", some "may.csv", []⟩, []⟩
    let out := rollReply Source.congruence rollLog who "(2d6 + 1d4) / 0" t
    let reply : Reply := ⟨"Roll error.\n```Division by zero: 11 / 0```", false⟩
    MemoryLog.log.Keeps MemoryLog.records ∧ MemoryLog.log.IsSound {} ∧
      rollLog.Keeps Log.waiting ∧ rollLog.IsSound t.log ∧
      out = .ok reply (final out) ∧ reply.IsRefusal ∧ (final out).log.waiting.length = 3 := by
  intro who t out reply
  have hsound : rollLog.IsSound t.log := isSound_rollLog rfl
  have hout : out = .ok reply (final out) := eq_ok_of_answer? (by decide +kernel)
  have hrefusal : reply.IsRefusal := by decide +kernel
  have hread : Formula.read "(2d6 + 1d4) / 0" = .ok (.binary (.binary (.dice ⟨2, 6⟩) .add
    (.dice ⟨1, 4⟩)) .div (.number 0)) := by decide +kernel
  have hwaiting : (final out).log.waiting ≠ [] := by decide +kernel
  refine ⟨MemoryLog.log_keeps, MemoryLog.isSound_log rfl, rollLog_keeps, hsound, hout, hrefusal, ?_⟩
  obtain ⟨fault, -, ⟨hlast, -⟩ | ⟨f, e, -, he, hlength, -, hrows⟩⟩ :=
    refusal_records rollLog_keeps Source.congruence who "(2d6 + 1d4) / 0" hsound hout hrefusal
  · exact absurd (congrArg (fun last => last.log.waiting) hlast) hwaiting
  · have hthree : e.row.length = 3 := by
      rw [← Except.ok.inj (hread.symm.trans he)]
      decide
    have hnone : t.log.waiting.length = 0 := rfl
    rw [hrows, List.length_append, List.length_zipWith, hlength, Nat.min_self, hnone, hthree]

/-- A die that is on record although its roll was refused. -/
theorem refused_yet_recorded :
    let who : Roller := ⟨7, ⟨2024, 5, 1, 12, 0, 0, 0, some 0⟩⟩
    let out := rollReply Source.congruence MemoryLog.log who "1d6 / 0" ⟨1, {}, []⟩
    let reply : Reply := ⟨"Roll error.\n```Division by zero: 4 / 0```", false⟩
    out = .ok reply (final out) ∧ reply.IsRefusal ∧
      (final out).log.records = [⟨7, 4, 6, who.time⟩] := by
  intro who out reply
  exact ⟨eq_ok_of_answer? (by decide +kernel), by decide +kernel, by decide +kernel⟩

end

end Bot

end DiceLedger
