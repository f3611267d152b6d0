import DiceLedger.Bot.Client
import DiceLedger.Proofs.Bot.ReadBack
import DiceLedger.Proofs.Session.Queue

/-!
# Leaving the chat

The log is flushed a last time, and its manager stopped, only where `start` comes to its end. A
set-up, a login or a connection that ends in an error takes the bot past both, and what waits at
that time is never written.
-/
namespace DiceLedger.Bot

open DiceLedger.Session DiceLedger.Time

/-- The session log of a bot, with its disk. -/
def House.archive? (h : House) : Option Archive := h.client.log.map (⟨·, h.disk, h.turns⟩)

/-- The bot with its session log, and the disk, in another state. -/
def House.hold (h : House) (a : Archive) : House :=
  ⟨{ h.client with log := some a.log }, a.disk, a.turns⟩

/-- The bot after another contact with the chat. -/
def House.meet (h : House) (c : Contact) : House :=
  { h with client := { h.client with contacts := h.client.contacts ++ [c] } }

theorem House.hold_hold (h : House) (a b : Archive) : (h.hold a).hold b = h.hold b := rfl

theorem House.log_of_archive? {h : House} {a : Archive} (ha : h.archive? = some a) :
    h.client.log = some a.log := by
  obtain ⟨log, hlog, rfl⟩ := Option.map_eq_some_iff.mp ha
  exact hlog

theorem House.hold_of_archive? {h : House} {a : Archive} (ha : h.archive? = some a) :
    h.hold a = h := by
  obtain ⟨log, hlog, rfl⟩ := Option.map_eq_some_iff.mp ha
  obtain ⟨client, disk, turns⟩ := h
  cases client
  cases hlog
  rfl

/-- What goes on while the bot is connected: commands, and the flushes that come at intervals. -/
inductive Affair
  | request (c : Request)
  | save

namespace Client

theorem withLog_of_archive? {α : Type} {h : House} {a : Archive} (ha : h.archive? = some a)
    (work : Work α) :
    withLog work h = match work a with
      | .ok x b => .ok x (h.hold b)
      | .error fault b => .error (.log fault) (h.hold b) := by
  obtain ⟨log, hlog, rfl⟩ := Option.map_eq_some_iff.mp ha
  simp only [withLog, hlog]
  split <;> simp_all [House.hold]

section

variable {ρ : Type} (g : Generator ρ)

/-- One affair, with the source of its dice and the bot. -/
def attend : ρ × House → Affair → ρ × House
  | (source, h), .save => (source, final (flushTask h))
  | (source, h), .request c =>
    match h.archive? with
    | none => (source, h)
    | some a =>
      let p := c.serve g ⟨a, source⟩
      (p.source, h.hold p.archive)

/-- A stay at which affairs are attended to. -/
def stay (affairs : List Affair) (source : ρ) (h : House) : ρ × House :=
  affairs.foldl (attend g) (source, h)

end

theorem final_flushTask {h : House} {a : Archive} (ha : h.archive? = some a) :
    final (flushTask h) = h.hold (final (flush a)) := by
  have hstill : final (flushTask h) = final (withLog flush h) :=
    final_bind_of_still fun _ _ => rfl
  rw [hstill, withLog_of_archive? ha]
  cases flush a <;> rfl

section

variable {ρ : Type} {g : Generator ρ}

theorem serve_run (hg : g.Honest) (a : Archive) (source : ρ) (c : Request) :
    ∃ ops, (c.serve g ⟨a, source⟩).archive = run a ops := by
  let p : Parlour (Watched ρ) := ⟨a, ⟨source, []⟩⟩
  have hsee := congrArg Parlour.archive (c.serve_see (watched_seenAs g) p)
  exact ⟨c.ops g p, hsee.trans (c.serve_archive hg p).1⟩

/-- An affair is some operations of the session log, and these depend on nothing else. -/
theorem attend_run (hg : g.Honest) (affair : Affair) (a : Archive) (source : ρ) :
    ∃ ops source', ∀ h : House, h.archive? = some a →
      attend g (source, h) affair = (source', h.hold (run a ops)) := by
  cases affair with
  | save =>
    refine ⟨[.flush], source, fun h ha => ?_⟩
    rw [attend, final_flushTask ha]
    rfl
  | request c =>
    obtain ⟨ops, hops⟩ := serve_run hg a source c
    refine ⟨ops, (c.serve g ⟨a, source⟩).source, fun h ha => ?_⟩
    simp only [attend, ha, hops]

theorem stay_run (hg : g.Honest) (affairs : List Affair) :
    ∀ (a : Archive) (source : ρ), ∃ ops source', ∀ h : House, h.archive? = some a →
      stay g affairs source h = (source', h.hold (run a ops)) := by
  induction affairs with
  | nil =>
    intro a source
    exact ⟨[], source, fun h ha => by rw [run, List.foldl_nil, House.hold_of_archive? ha]; rfl⟩
  | cons affair affairs ih =>
    intro a source
    obtain ⟨ops, source', hattend⟩ := attend_run hg affair a source
    obtain ⟨ops', source'', hrest⟩ := ih (run a ops) source'
    refine ⟨ops ++ ops', source'', fun h ha => ?_⟩
    have hlast := hrest (h.hold (run a ops)) rfl
    rw [House.hold_hold, ← run_append] at hlast
    rw [stay, List.foldl_cons, hattend h ha]
    exact hlast

end

/-! ## Setting up and stopping -/

/-- Setting up opens the log, and leaves it as that leaves it. -/
theorem setUp_spec {h : House} (hnew : h.client.manager = none) (now : Moment) :
    let a : Archive := ⟨{ directory := rollsDirectory h.client.dataDirectory }, h.disk, h.turns⟩
    (final (setUp now h)).archive? = some (final (init now a)) ∧
      (final (setUp now h)).client.manager = some .started ∧
      succeeds (setUp now h) = succeeds (init now a) := by
  intro a
  have hrun : setUp now h = (do
      let _ ← withLog (init now)
      change fun client => { client with flushing := true } : Chore Unit)
      ⟨{ h.client with
        managed := ["SessionLog"]
        manager := some .started
        log := some a.log }, h.disk, h.turns⟩ := by
    rw [setUp, run_of_ok (run_get h)]
    simp only [hnew]
    rfl
  have hinit := withLog_of_archive? (h := ⟨{ h.client with
    managed := ["SessionLog"]
    manager := some .started
    log := some a.log }, h.disk, h.turns⟩) rfl (init now)
  cases h : init now a with
  | ok name b =>
    rw [hrun, run_of_ok (hinit.trans (by rw [h]))]
    exact ⟨rfl, rfl, rfl⟩
  | error fault b =>
    rw [hrun, run_of_error (hinit.trans (by rw [h]))]
    exact ⟨rfl, rfl, rfl⟩

/-- Stopping writes what waits a last time. -/
theorem shutDown_spec {h : House} {a b : Archive} {trouble : Bool} (ha : h.archive? = some a)
    (hflush : flush a = .ok trouble b) :
    ∃ h', shutDown h = .ok () h' ∧ h'.archive? = some b ∧
      h'.client.manager = h.client.manager.map fun _ => .stopped := by
  let quiet : House := { h with client := { h.client with flushing := false } }
  have hquiet : quiet.archive? = some a := ha
  have hlog : quiet.client.log.isSome := by
    rw [House.log_of_archive? hquiet]
    rfl
  have hsaved : flushLog quiet = .ok () (quiet.hold b) := by
    rw [flushLog, run_of_ok (run_get quiet), if_pos hlog,
      run_of_ok (a := trouble) (t := quiet.hold b)]
    · rfl
    · rw [withLog_of_archive? hquiet, hflush]
  let still : House := quiet.hold b
  let stopped : Client :=
    { still.client with manager := still.client.manager.map fun _ => .stopped }
  have hrun : shutDown h = .ok () { still with client := stopped } := by
    rw [shutDown, change, run_of_ok (run_modify _ h), run_of_ok hsaved]
    rfl
  exact ⟨_, hrun, rfl, rfl⟩

/-- Then every record is in its session's file, unless the write to that file failed. -/
theorem shutDown_settles {h : House} {a : Archive} {ns : List String} (ha : h.archive? = some a)
    (hqueued : Queued a ns) :
    ∃ h', shutDown h = .ok () h' ∧
      h'.client.manager = (h.client.manager.map fun _ => .stopped) ∧
      ∃ trouble b, h'.archive? = some b ∧ flush a = .ok trouble b ∧
        Settles a b (· ∈ a.refused) ∧ (Untroubled a → trouble = false) := by
  obtain ⟨trouble, b, hflush, hsettles, htrouble, -⟩ :=
    hqueued.settles (· ∈ a.refused) fun _ _ => Iff.rfl
  obtain ⟨h', hstop, hstopped, hmanager⟩ := shutDown_spec ha hflush
  refine ⟨h', hstop, hmanager, trouble, b, hstopped, hflush, hsettles, fun hfine => ?_⟩
  rw [← Bool.not_eq_true, htrouble, refused_of_untroubled hfine]
  simp

/-! ## The whole visit -/

/-- The ways in which a visit can go, in the order of its stages. -/
theorem start_eq {α : Type} (now : Moment) (token : String) (reconnect : Bool) (visit : Visit α)
    (h : House) :
    start now token reconnect visit h =
      match setUp now h with
      | .error fault h => .error fault h
      | .ok () h =>
        let greeted := h.meet (.login token)
        match visit.loginFailure with
        | some message => .error (.network message) greeted
        | none =>
          let (outcome, left) := visit.stay (greeted.meet (.connect reconnect))
          match visit.connectFailure with
          | some message => .error (.network message) left
          | none => (shutDown >>= fun _ => return outcome : Chore α) left := by
  rw [start]
  cases hready : setUp now h with
  | error fault h₁ => rw [run_of_error hready]
  | ok done h₁ =>
    have hlogin : contact (.login token) h₁ = .ok () (h₁.meet (.login token)) := rfl
    have hconnect : contact (.connect reconnect) (h₁.meet (.login token)) =
        .ok () ((h₁.meet (.login token)).meet (.connect reconnect)) := rfl
    rw [run_of_ok hready, run_of_ok hlogin]
    dsimp only
    cases visit.loginFailure with
    | some message => rfl
    | none =>
      dsimp only
      rw [run_of_ok hconnect]
      cases visit.connectFailure <;> rfl

/-- **Only a visit without error ends with a flush.** Let a bot start whose directory was empty at
first, and let any commands and flushes take place while it is connected. The manager is stopped
exactly if set-up, login and connection all went well, and then a flush is the last that was
done: every record that waited is in its session's file, unless the write to that file failed. In
all other cases the log is left as it was, with what waits in it. -/
theorem start_leaves {ρ : Type} {g : Generator ρ} (hg : g.Honest) {client : Client} {disk : Disk}
    (hvacant : Vacant disk (rollsDirectory client.dataDirectory)) (hnew : client.manager = none)
    (first turns : List Turn) (earlier : List Deed) (now : Moment) (token : String)
    (reconnect : Bool) (loginFailure connectFailure : Option String) (affairs : List Affair)
    (source : ρ) :
    let used := earlier.foldl Deed.step
      ⟨{ directory := rollsDirectory client.dataDirectory }, disk, first⟩
    let h : House := ⟨client, used.disk, turns⟩
    let out := start now token reconnect ⟨loginFailure, stay g affairs source, connectFailure⟩ h
    let ready := setUp now h
    let left := if succeeds ready ∧ loginFailure = none
      then (stay g affairs source (final ready)).2 else final ready
    (succeeds out = true ↔
      succeeds ready = true ∧ loginFailure = none ∧ connectFailure = none) ∧
    (final out).client.manager = some (if succeeds out then .stopped else .started) ∧
    ∃ a, left.archive? = some a ∧
      (succeeds out = true →
        ∃ trouble b, (final out).archive? = some b ∧ flush a = .ok trouble b ∧
          Settles a b (· ∈ a.refused) ∧ (Untroubled a → trouble = false)) ∧
      (succeeds out = false → (final out).archive? = some a) := by
  intro used h out ready left
  obtain ⟨ns, hused, hdirectory⟩ := queued_foldl earlier (.of_vacant hvacant first)
  have hempty : (⟨{ directory := rollsDirectory client.dataDirectory }, used.disk, turns⟩ :
      Archive) = used.restart turns := by
    rw [Archive.restart, hdirectory]
  obtain ⟨hopened, hstarted, -⟩ := setUp_spec (h := h) hnew now
  rw [hempty] at hopened
  obtain ⟨ns', hfirst⟩ := (Deed.init now).queued (hused.restart turns)
  have hout : out = _ := start_eq now token reconnect _ h
  cases hsetUp : setUp now h with
  | error fault h₁ =>
    rw [hsetUp] at hout hopened hstarted
    have hleft : left = h₁ := by simp only [left, ready, hsetUp, succeeds]; rfl
    have hready : succeeds ready = false := by simp only [ready, hsetUp, succeeds]
    rw [hout, hleft, hready]
    exact ⟨by simp [succeeds], hstarted, _, hopened, nofun, fun _ => hopened⟩
  | ok done h₁ =>
    rw [hsetUp] at hout hopened hstarted
    have hready : succeeds ready = true := by simp only [ready, hsetUp, succeeds]
    rw [hready]
    cases loginFailure with
    | some message =>
      have hleft : left = h₁ := by simp only [left, ready, hsetUp, succeeds]; rfl
      rw [hout, hleft]
      exact ⟨by simp [succeeds], hstarted, _, hopened, nofun, fun _ => hopened⟩
    | none =>
      let opened := final (init now (used.restart turns))
      obtain ⟨ops, source', hstay⟩ := stay_run hg affairs opened source
      obtain ⟨ns'', hlast⟩ := hfirst.run ops
      have hleft : left = h₁.hold (run opened ops) := by
        have hstayed : left = (stay g affairs source h₁).2 := by
          simp only [left, ready, hsetUp, succeeds]
          rfl
        rw [hstayed, hstay h₁ hopened]
      -- what the chat has seen makes no difference to the stay
      let greeted := (h₁.meet (.login token)).meet (.connect reconnect)
      have hparted : stay g affairs source greeted =
          (source', greeted.hold (run opened ops)) := hstay greeted hopened
      rw [hleft]
      cases connectFailure with
      | some message =>
        have hfailed : out = .error (.network message) (greeted.hold (run opened ops)) := by
          rw [hout]
          simp only [greeted, hparted]
        rw [hfailed]
        exact ⟨by simp [succeeds], hstarted, _, rfl, nofun, fun _ => rfl⟩
      | none =>
        obtain ⟨h₂, hstop, hmanager, hsaved⟩ :=
          shutDown_settles (h := greeted.hold (run opened ops)) rfl hlast
        have hdone : out = .ok source' h₂ := by
          rw [hout]
          simp only [greeted, hparted]
          rw [run_of_ok hstop]
          rfl
        have hmanaged : h₂.client.manager = some .stopped := by
          rw [hmanager]
          exact congrArg (Option.map fun _ => Manager.stopped) hstarted
        rw [hdone]
        exact ⟨by simp [succeeds], hmanaged, run opened ops, rfl, fun _ => hsaved, nofun⟩

theorem content_blank (place : Place) : Disk.blank.content place = none := by
  by_cases hroot : place = []
  · rw [hroot]
    rfl
  · rw [Disk.content, Disk.find?, if_neg hroot, Disk.blank, List.lookup_cons]
    cases place == ["home"] <;> rfl

def guest : Client := { summons := "!", dataDirectory := none }

/-- Dice in two sessions, and an uneventful leave-taking. -/
def outing : EStateM.Result ClientFault House UInt64 :=
  let noon : Moment := ⟨2024, 5, 1, 12, 0, 0, 0, some 0⟩
  let asks (command : Command) : Affair := .request ⟨⟨⟨"Ann", 7⟩, noon, noon⟩, command⟩
  start noon "t" true ⟨none, stay Source.congruence
    [asks (.roll "2d6"), .save, asks .session, asks (.roll "1d20")] 5, none⟩ ⟨guest, Disk.blank, []⟩

theorem start_leaves_two_sessions :
    Source.congruence.Honest ∧ Vacant Disk.blank (rollsDirectory guest.dataDirectory) ∧
      guest.manager = none ∧ succeeds outing = true ∧
      (final outing).client.manager = some .stopped ∧
      ∃ a trouble b, flush a = .ok trouble b ∧ (final outing).archive? = some b ∧
        b.log.pending = [] := by
  have hvacant : Vacant Disk.blank (rollsDirectory guest.dataDirectory) := fun _ => content_blank _
  have hfacts : succeeds (setUp ⟨2024, 5, 1, 12, 0, 0, 0, some 0⟩ ⟨guest, Disk.blank, []⟩) = true ∧
      (final outing).client.log.map (·.pending) = some [] := by decide +kernel
  obtain ⟨hready, hnone⟩ := hfacts
  obtain ⟨affairs, houting⟩ : ∃ affairs, outing = start ⟨2024, 5, 1, 12, 0, 0, 0, some 0⟩ "t" true
      ⟨none, stay Source.congruence affairs (5 : UInt64), none⟩ ⟨guest, Disk.blank, []⟩ := ⟨_, rfl⟩
  have hspec := start_leaves Source.congruence_honest hvacant rfl [] [] []
    ⟨2024, 5, 1, 12, 0, 0, 0, some 0⟩ "t" true none none affairs (5 : UInt64)
  simp only [List.foldl_nil, ← houting] at hspec
  obtain ⟨hsucceeds, hmanager, a, -, hsaved, -⟩ := hspec
  have hdone : succeeds outing = true := hsucceeds.mpr ⟨hready, trivial, trivial⟩
  rw [if_pos hdone] at hmanager
  obtain ⟨trouble, b, hb, hflush, -⟩ := hsaved hdone
  rw [House.log_of_archive? hb] at hnone
  exact ⟨Source.congruence_honest, hvacant, rfl, hdone, hmanager, a, trouble, _, hflush, hb,
    Option.some.inj hnone⟩

/-- The connection ends in an error after a roll: it waits on, though its file could be written.
And a log that cannot be set up leaves a manager that is never stopped. -/
theorem start_cut_off :
    let noon : Moment := ⟨2024, 5, 1, 12, 0, 0, 0, some 0⟩
    let client : Client := { summons := "!", dataDirectory := none }
    let affairs : List Affair := [.request ⟨⟨⟨"Ann", 7⟩, noon, noon⟩, .roll "1d6"⟩]
    let lost := start noon "t" true
      ⟨none, stay Source.congruence affairs 5, some "Connection closed."⟩ ⟨client, Disk.blank, []⟩
    let taken := (Disk.blank.put ["home", "data"] .directory).put ["home", "data", "rolls"]
      (.file .empty)
    let unready := start noon "t" true ⟨none, stay Source.congruence affairs 5, none⟩
      ⟨client, taken, []⟩
    (final lost).client.manager = some .started ∧
      (final lost).client.log.map (·.pending) =
        some [⟨"2024-05-01_12-00-00.csv", ⟨7, 3, 6, noon⟩⟩] ∧
      ((final lost).disk.read "data/rolls/2024-05-01_12-00-00.csv").toOption =
        some (rowBytes [header]) ∧ (final lost).turns = [] ∧
      (final unready).client.manager = some .started := by
  decide +kernel

end Client

end DiceLedger.Bot
