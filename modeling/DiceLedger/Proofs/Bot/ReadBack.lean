import DiceLedger.Proofs.Bot.Requests
import DiceLedger.Proofs.Bot.Seen

/-!
# The dice of the bot are read back

From the first command to the last, over all the layers: what falls is what the session files
say after a flush.
-/
namespace DiceLedger.Bot

open DiceLedger.Text DiceLedger.Time DiceLedger.Session

section

variable {ρ : Type} {g : Generator ρ}

/-- What a sequence of commands asks of the session log. -/
def allOps (g : Generator ρ) : Parlour (Watched ρ) → List Request → List Op
  | _, [] => []
  | p, c :: requests => c.ops g p ++ allOps g (c.serve g.watched p) requests

theorem serveAll_archive (hg : g.Honest) (requests : List Request) :
    ∀ p : Parlour (Watched ρ),
      (serveAll g.watched p requests).archive = run p.archive (allOps g p requests) := by
  induction requests with
  | nil => exact fun p => rfl
  | cons c requests ih =>
    intro p
    rw [allOps, run_append, ← (c.serve_archive hg p).1, ← ih]
    rfl

theorem Request.serve_see {ρ' : Type} {g' : Generator ρ'} {f : ρ → ρ'} (h : g.SeenAs f g')
    (p : Parlour ρ) (c : Request) : c.serve g' (p.see f) = (c.serve g p).see f := by
  rw [Request.serve, seen_serve h, final_seen]
  rfl

/-- Watching the source changes nothing else. -/
theorem serveAll_see {ρ' : Type} {g' : Generator ρ'} {f : ρ → ρ'} (h : g.SeenAs f g')
    (requests : List Request) :
    ∀ p : Parlour ρ, serveAll g' (p.see f) requests = (serveAll g p requests).see f := by
  induction requests with
  | nil => exact fun p => rfl
  | cons c requests ih =>
    intro p
    rw [serveAll, List.foldl_cons, c.serve_see h]
    exact ih _

/-- The history of a command: its dice, in the session that is current. -/
theorem Request.history_ops {p : Parlour (Watched ρ)} (h : Undisturbed p.archive) (c : Request) :
    history p.archive (c.ops g p) =
      p.archive.log.tag ((c.thrown g p).map c.roller.recordDie) := by
  obtain ⟨o, command⟩ := c
  cases command with
  | roll formula =>
    rw [ops, ← history_record, List.map_map]
    rfl
  | rcd points =>
    rw [ops, ← history_record, List.map_map]
    rfl
  | session =>
    rw [ops, history, Op.recorded_own h, history, List.append_nil]
    rfl
  | forcesave =>
    rw [ops, history, Op.recorded_own h, history, List.append_nil]
    rfl
  | draw | ping | uptime => exact (tag_nil p.archive.log).symm

theorem history_allOps (hg : g.Honest) (requests : List Request) :
    ∀ {p : Parlour (Watched ρ)} {ns : List String}, Sound p.archive ns → Undisturbed p.archive →
      (history p.archive (allOps g p requests)).map (fun q => (some q.session, q.record)) =
        fallen g p requests := by
  induction requests with
  | nil => exact fun _ _ => rfl
  | cons c requests ih =>
    intro p ns h hu
    have hserve := (c.serve_archive hg p).1
    obtain ⟨ns', hsound, hundisturbed⟩ := run_undisturbed (c.ops g p) h hu
    rw [← hserve] at hsound hundisturbed
    have hrest := ih hsound hundisturbed
    obtain ⟨name, hname⟩ := Option.ne_none_iff_exists'.mp hu.current
    rw [allOps, fallen, history_append, List.map_append, ← hserve, hrest, c.history_ops hu, hname,
      Log.tag, hname, List.map_map, List.map_map]
    rfl

/-- A command at a time of the calendar, by an author with a number that is not too long for the
session files. Those of a chat are such: their authors are numbered in 64 bits. -/
structure Request.IsProper (c : Request) : Prop where
  author : Integer.IsWritable c.occasion.author.id
  time : c.occasion.now.toUniversal.IsValid

instance (c : Request) : Decidable c.IsProper :=
  decidable_of_iff (Integer.IsWritable c.occasion.author.id ∧ c.occasion.now.toUniversal.IsValid)
    ⟨fun ⟨author, time⟩ => ⟨author, time⟩, fun h => ⟨h.author, h.time⟩⟩

theorem isWritable_of_le_largestThrow {n : Int} (hlow : 1 ≤ n) (hmost : n ≤ Formula.largestThrow) :
    Integer.IsWritable n := by
  have hsize : n.natAbs ≤ Formula.largestThrow := by omega
  have hshort : Formula.largestThrow < Nat.pow 10 10 := by decide
  have hlong (digits : Nat) (h : 10 ≤ digits) : Nat.pow 10 10 ≤ Nat.pow 10 digits :=
    Nat.pow_le_pow_right (by decide) h
  exact Nat.lt_of_le_of_lt hsize (Nat.lt_of_lt_of_le hshort (hlong digitLimit (by decide)))

theorem isWritable_recordDie {c : Request} (hc : c.IsProper) {d : Die} (hd : d.IsFair) :
    IsWritable (c.roller.recordDie d) := by
  obtain ⟨hlow, hvalue, hfaces⟩ := hd
  have hresult : d.value ≤ Formula.largestThrow := by omega
  have hsides : 1 ≤ d.faces := by omega
  refine ⟨hc.author, isWritable_of_le_largestThrow hlow hresult,
    isWritable_of_le_largestThrow hsides hfaces, hc.time, fun n hn => ?_⟩
  cases hn
  exact .inl rfl

theorem isWritable_of_fallen (hg : g.Honest) (requests : List Request) :
    ∀ p : Parlour (Watched ρ), (∀ c ∈ requests, c.IsProper) →
      ∀ x ∈ fallen g p requests, IsWritable x.2 := by
  induction requests with
  | nil => exact fun _ _ => nofun
  | cons c requests ih =>
    intro p hproper x hx
    rcases List.mem_append.mp hx with hx | hx
    · obtain ⟨die, hdie, rfl⟩ := List.mem_map.mp hx
      exact isWritable_recordDie (hproper c List.mem_cons_self) ((c.serve_archive hg p).2 die hdie)
    · exact ih _ (fun c' hc' => hproper c' (List.mem_cons_of_mem c hc')) x hx

end

/-- **Every die is read back.** Let a session log be set up in an empty directory and be left alone.
After any commands, whatever they are answered, and one more flush, the sessions that are listed,
loaded one after the other, are all the dice that fell in order; and each session has the dice
that fell while it was the current one. -/
theorem dice_read_back {ρ : Type} {g : Generator ρ} (hg : g.Honest) {d : Disk}
    {directory name : String} {now : Moment} {a : Archive} (hvacant : Vacant d directory)
    (hinit : init now ⟨{ directory }, d, []⟩ = .ok name a) (source : ρ) (requests : List Request)
    (hproper : ∀ c ∈ requests, c.IsProper) :
    let dice := fallen g ⟨a, ⟨source, []⟩⟩ requests
    ∃ b ns loaded, flush (serveAll g ⟨a, source⟩ requests).archive = .ok false b ∧
      sessions b = .ok ns ∧ ns.mapM (load b.disk directory) = .ok loaded ∧
      loaded.flatten = dice.map (·.2) ∧
      ∀ f ∈ ns, load b.disk directory f = .ok ((dice.filter (·.1 = some f)).map (·.2)) := by
  intro dice
  let p : Parlour (Watched ρ) := ⟨a, ⟨source, []⟩⟩
  obtain ⟨ns₀, hfirst, hundisturbed⟩ := init_account hvacant hinit
  have hfallen : _ = dice := history_allOps hg requests (p := p) hfirst.sound hundisturbed
  have hw : ∀ q ∈ history a (allOps g p requests), IsWritable q.record := by
    intro q hq
    have hmem : (some q.session, q.record) ∈ dice := by
      rw [← hfallen]
      exact List.mem_map_of_mem hq
    exact isWritable_of_fallen hg requests p hproper _ hmem
  obtain ⟨b, ns, hflush, hsessions, hload, hordered⟩ := history_read_back hvacant hinit _ hw
  refine ⟨b, ns, _, ?_, hsessions, mapM_of_ok hload, ?_, fun f hf => ?_⟩
  · have hseen := serveAll_see (watched_seenAs g) requests p
    have harchive : (serveAll g ⟨a, source⟩ requests).archive = run a (allOps g p requests) :=
      (congrArg Parlour.archive hseen).trans (serveAll_archive hg requests p)
    rw [harchive]
    exact hflush
  · rw [← hfallen, List.map_map]
    exact hordered.symm
  · have hfilter : ((fun x : Option String × RollRecord => decide (x.1 = some f)) ∘
        fun q : Pending => (some q.session, q.record)) = fun q => decide (q.session = f) := by
      funext q
      simp
    rw [hload f hf, ← hfallen, List.filter_map, List.map_map, hfilter, pendingOf]
    rfl

/-- A formula without a value, a new session, and dice at an hour told by another clock. -/
theorem dice_read_back_two_sessions :
    let noon : Moment := ⟨2024, 5, 1, 12, 0, 0, 0, some 0⟩
    let evening : Moment := ⟨2024, 5, 1, 21, 30, 0, 0, some 7200000000⟩
    let requests : List Request := [⟨⟨⟨"Ann", 7⟩, noon, noon⟩, .roll "2d6 / (1d1 - 1)"⟩,
      ⟨⟨⟨"Ann", 7⟩, noon, noon⟩, .session⟩, ⟨⟨⟨"Bo", 8⟩, evening, noon⟩, .rcd 21⟩]
    Source.congruence.Honest ∧ Vacant Disk.blank "rolls" ∧ (∀ c ∈ requests, c.IsProper) ∧
    ∃ name a, init noon ⟨⟨"rolls", none, []⟩, Disk.blank, []⟩ = .ok name a ∧
      ∃ b ns loaded,
        flush (serveAll Source.congruence ⟨a, 5⟩ requests).archive = .ok false b ∧
        sessions b = .ok ns ∧ ns.mapM (load b.disk "rolls") = .ok loaded ∧
        loaded.flatten.map (fun r => (r.roller, r.sides, r.result)) =
          [(7, 6, 3), (7, 6, 3), (7, 1, 1), (8, 6, 3), (8, 6, 2), (8, 6, 3)] := by
  intro noon evening requests
  have hvacant : Vacant Disk.blank "rolls" := vacant_blank "rolls" ⟨by decide, by decide⟩
  have hproper : ∀ c ∈ requests, c.IsProper := by decide +kernel
  have hsucceeds : succeeds (init noon ⟨⟨"rolls", none, []⟩, Disk.blank, []⟩) := by
    decide +kernel
  obtain ⟨name, hinit⟩ := exists_of_succeeds hsucceeds
  obtain ⟨b, ns, loaded, hflush, hsessions, hloaded, hfallen, -⟩ :=
    dice_read_back Source.congruence_honest hvacant hinit (5 : UInt64) requests hproper
  refine ⟨Source.congruence_honest, hvacant, hproper, name, _, hinit, b, ns, loaded, hflush,
    hsessions, hloaded, ?_⟩
  rw [hfallen]
  decide +kernel

end DiceLedger.Bot
