import DiceLedger.Bot.Command
import DiceLedger.Proofs.Bot.Refusals
import DiceLedger.Proofs.Text.Digits
import DiceLedger.Proofs.Text.Fence

/-!
# What arrives of a reply

A reply that is too long loses its end on the way, whatever stands there. The end of a refusal is
the end of the block in which the fault is told, so a refusal that is cut is left open. How long
a refusal is depends on what it quotes: a formula with an unknown character is quoted as a whole,
and an overflow by the text of all the dice before it.
-/
namespace DiceLedger

open DiceLedger.Text

/-- A formula that begins with an unknown character is refused for it. -/
theorem Formula.read_unknown {c : Char} (hblank : isBlank c = false)
    (hstart : ∀ cs, Formula.Lexeme.first? (c :: cs) = none) (cs : List Char) :
    Formula.read (String.ofList (c :: cs)) =
      .error (.unknownCharacter c (String.ofList (c :: cs)) 0) := by
  have hscan : Formula.scan (String.ofList (c :: cs)) =
      .error (.unknownCharacter c (String.ofList (c :: cs)) 0) := by
    rw [Formula.scan, String.toList_ofList, Formula.scanFrom, hblank, hstart]
    rfl
  rw [Formula.read, hscan, if_neg (by simp [hblank])]
  rfl

namespace Bot

open DiceLedger.Text.Fence DiceLedger.Session

/-! ## Messages that are cut -/

/-- What is said behind a text from whose end `n` characters were cut. -/
def cutNote (n : Nat) : String :=
  " ... (message too long, truncated " ++ String.ofList (decimal n) ++ " characters.)"

theorem shortened_of_le {text : String} (h : text.length ≤ longestMessage) :
    shortened text = text := by
  rw [← String.length_toList] at h
  rw [shortened, if_neg (Nat.not_lt.mpr h)]

theorem toList_shortened {text : String} (h : longestMessage < text.length) :
    (shortened text).toList =
      text.toList.take longestMessage ++ (cutNote (text.length - longestMessage)).toList := by
  have hassoc (a b c d : String) : a ++ b ++ c ++ d = a ++ (b ++ c ++ d) := by
    rw [String.append_assoc, String.append_assoc, String.append_assoc]
  rw [← String.length_toList] at h
  have hcut : shortened text = String.ofList (text.toList.take longestMessage) ++
      cutNote (text.toList.length - longestMessage) := (if_pos h).trans (hassoc _ _ _ _)
  rw [hcut, String.length_toList, String.toList_append, String.toList_ofList]

/-- The way of a text to its addressee does not change it otherwise. -/
theorem text_answer (addressee : Addressee) (author : Author) (text : String) :
    (answer addressee author false (some text)).text = some (shortened text) := by
  rcases addressee with _ | _ | acknowledged
  · rfl
  · rfl
  · cases acknowledged <;> rfl

theorem say_eq (text : String) : say text = .reply (shortened text) none := rfl

theorem mem_cutNote {n : Nat} {c : Char} (h : c ∈ (cutNote n).toList) :
    c ∈ " ... (message too long, truncated ".toList ∨ c ∈ digits ∨ c ∈ " characters.)".toList := by
  have hnote : (cutNote n).toList = _ := toList_around _ _ (decimal n)
  rw [hnote, List.mem_append, List.mem_append, or_assoc] at h
  exact h.imp_right (Or.imp_left mem_digits_of_decimal)

/-! ## Blocks that are cut -/

/-- What every refusal begins with: its first line, and the start of a block. -/
def opening : List Char := "Roll error.\n".toList ++ Size.block.delimiter

/-- Is the block of a refusal closed again? -/
def IsClosed (text : String) : Prop :=
  ∃ body rest, text.toList = opening ++ (body ++ Size.block.delimiter ++ rest)

theorem length_opening : opening.length = 15 := by decide

theorem toList_faultText (fault : RollFault) : (faultText fault).toList =
    opening ++ (inner fault.message.toList ++ Size.block.delimiter) := by
  let first := "Roll error.\n".toList
  let block := Size.block.delimiter
  calc (faultText fault).toList = first ++ (wrap .block fault.message).toList := String.toList_append
    _ = first ++ (block ++ inner fault.message.toList ++ block) :=
      congrArg (first ++ ·) String.toList_ofList
    _ = opening ++ (inner fault.message.toList ++ block) := by
      rw [List.append_assoc block, ← List.append_assoc first]
      rfl

theorem length_faultText (fault : RollFault) : (faultText fault).length =
    opening.length + ((inner fault.message.toList).length + Size.block.delimiter.length) := by
  rw [← String.length_toList, toList_faultText, List.length_append, List.length_append]

theorem tick_not_mem_cutNote (n : Nat) : tick ∉ (cutNote n).toList := by
  intro h
  rcases mem_cutNote h with h | h | h
  · revert h
    decide +kernel
  · revert h
    decide
  · revert h
    decide +kernel

theorem not_isClosed_of_cut {fault : RollFault} (h : longestMessage < (faultText fault).length) :
    ¬IsClosed (shortened (faultText fault)) := by
  rintro ⟨body, rest, hclosed⟩
  have hcontained := isContained_inner fault.message.toList
  -- the cut lies behind the opening, within what is quoted or within the end of the block
  have hlimit : longestMessage = opening.length + 1885 := rfl
  have hroom : 1885 < (inner fault.message.toList).length + Size.block.delimiter.length := by
    rw [length_faultText] at h
    omega
  rw [toList_shortened h, toList_faultText, hlimit, List.take_length_add_append,
    List.append_assoc, List.append_cancel_left_eq] at hclosed
  exact hcontained.not_infix_take (tick_not_mem_cutNote _) hroom ⟨body, rest, hclosed.symm⟩

theorem isClosed_faultText (fault : RollFault) : IsClosed (faultText fault) :=
  ⟨inner fault.message.toList, [], by rw [List.append_nil, toList_faultText]⟩

theorem faultText_eq (fault : RollFault) : faultText fault =
    "Roll error.\n```" ++ String.ofList (inner fault.message.toList) ++ "```" := by
  rw [faultText, wrap_block, ← String.append_assoc, ← String.append_assoc]
  rfl

/-- A formula with an unknown character is quoted as a whole, and is too long to be quoted within
one message if it fills the message alone. -/
theorem not_isClosed_of_unknown {c : Char} {formula : String} {position : Nat}
    (h : longestMessage ≤ formula.length) :
    ¬IsClosed (shortened (faultText (.formula (.unknownCharacter c formula position)))) := by
  apply not_isClosed_of_cut
  have hquoted (a b c d e : String) : b.length ≤ (a ++ b ++ c ++ d ++ e).length := by
    simp only [String.length_append]
    omega
  have hmessage : formula.length ≤
      (RollFault.formula (.unknownCharacter c formula position)).message.length :=
    hquoted _ formula _ _ _
  have hinner := length_le_inner
    (RollFault.formula (.unknownCharacter c formula position)).message.toList
  rw [String.length_toList] at hinner
  rw [length_faultText, length_opening]
  omega

/-! ## Refusals as they are sent -/

section

variable {ρ : Type} {g : Generator ρ}

/-- A reply to a roll is sent, and may be followed by reactions. -/
theorem serve_roll {o : Occasion} {formula : String} {p last : Parlour ρ} {reply : Reply}
    (h : withDice (rollReply g rollLog ⟨o.author.id, o.now.toUniversal⟩ formula) p =
      .ok reply last) :
    (Command.roll formula).serve g o p = .ok (.reply (shortened reply.text) none ::
      if reply.nice then niceReactions.map .reaction else []) last := by
  rw [Command.serve, Command.run, run_of_ok h, ← say_eq]
  rfl

theorem withDice_eq_ok {play : Play ρ Log Reply} {p last : Parlour ρ} {reply : Reply}
    (h : withDice play p = .ok reply last) :
    ∃ table, play ⟨p.source, p.archive.log, []⟩ = .ok reply table := by
  rw [withDice] at h
  cases hplay : play ⟨p.source, p.archive.log, []⟩ with
  | ok reply' table =>
    rw [hplay] at h
    cases h
    exact ⟨table, rfl⟩
  | error fault table =>
    rw [hplay] at h
    cases h

/-- A formula that cannot be read is refused, and nothing else happens. -/
theorem serve_of_unread {o : Occasion} {formula : String}
    {fault : Formula.Fault} (h : Formula.read formula = .error fault)
    (hreported : (RollFault.formula fault).isReported) (p : Parlour ρ) :
    (Command.roll formula).serve g o p =
      .ok [.reply (shortened (faultText (.formula fault))) none] p := by
  have hreply : withDice (rollReply g rollLog ⟨o.author.id, o.now.toUniversal⟩ formula) p =
      .ok ⟨faultText (.formula fault), false⟩ p := by
    have hroll : roll g rollLog ⟨o.author.id, o.now.toUniversal⟩ (some mostDice) formula
        ⟨p.source, p.archive.log, []⟩ = .error (.formula fault) ⟨p.source, p.archive.log, []⟩ := by
      rw [roll, h]
      rfl
    rw [withDice, rollReply, hroll]
    dsimp only
    rw [if_pos hreported]
  have hserved := serve_roll hreply
  rwa [if_neg Bool.false_ne_true] at hserved

/-- **A refusal is closed if it is not cut.** A roll that is refused is answered by a block that
its text does not close. It is sent as it is if it is no longer than a message may be. If it is
longer its end is cut off, and with it the end of the block, so that all that is quoted in it
stands in the open. -/
theorem refusal_closed_iff {o : Occasion} {formula : String} {p last : Parlour ρ} {reply : Reply}
    (h : withDice (rollReply g rollLog ⟨o.author.id, o.now.toUniversal⟩ formula) p =
      .ok reply last) (hrefusal : reply.IsRefusal) :
    ∃ shown text, IsContained shown ∧
      reply.text = "Roll error.\n```" ++ String.ofList shown ++ "```" ∧
      (Command.roll formula).serve g o p = .ok [.reply text none] last ∧
      (∀ addressee author, (answer addressee author false (some reply.text)).text = some text) ∧
      reply.text.toList.take longestMessage <+: text.toList ∧
      (reply.text.length ≤ longestMessage → text = reply.text) ∧
      (IsClosed text ↔ reply.text.length ≤ longestMessage) := by
  obtain ⟨table, hreply⟩ := withDice_eq_ok h
  obtain ⟨fault, -, -, hfault⟩ := rollReply_refused hreply hrefusal
  have htext : reply.text = faultText fault := by rw [hfault]
  have hserved := serve_roll h
  have hnice : ¬reply.nice = true := by simp [hfault]
  rw [if_neg hnice] at hserved
  refine ⟨inner fault.message.toList, shortened reply.text, isContained_inner _,
    htext.trans (faultText_eq fault), hserved, fun addressee author => text_answer addressee author _,
    ?_, shortened_of_le, ?_⟩
  · by_cases hfits : reply.text.length ≤ longestMessage
    · rw [shortened_of_le hfits]
      exact List.take_prefix _ _
    · rw [toList_shortened (Nat.lt_of_not_le hfits)]
      exact List.prefix_append _ _
  · rw [htext]
    constructor
    · intro hclosed
      by_contra hlong
      exact not_isClosed_of_cut (Nat.lt_of_not_le hlong) hclosed
    · intro hfits
      rw [shortened_of_le hfits]
      exact isClosed_faultText fault

/-- A formula that would close the block if its backticks were not kept apart. -/
theorem refusal_closed_iff_ticks :
    let o : Occasion :=
      ⟨⟨"alice", 7⟩, ⟨2024, 5, 1, 12, 0, 0, 0, some 0⟩, ⟨2024, 5, 1, 12, 0, 0, 0, some 0⟩⟩
    let p : Parlour UInt64 := ⟨⟨⟨"rolls", some "may.csv", []⟩, .blank, []⟩, 1⟩
    let out := withDice (rollReply Source.congruence rollLog ⟨7, o.now.toUniversal⟩ "1d6```") p
    let reply : Reply := ⟨"Roll error.\n```Couldn't interpret <`\u200b> from: " ++
      "1d6`\u200b`\u200b`\u200b (at position 3)```", false⟩
    out = .ok reply (final out) ∧ reply.IsRefusal ∧ IsClosed reply.text ∧
      (Command.roll "1d6```").serve Source.congruence o p =
        .ok [.reply reply.text none] (final out) := by
  intro o p out reply
  have hout : out = .ok reply (final out) := eq_ok_of_answer? (by decide +kernel)
  have hrefusal : reply.IsRefusal := by decide +kernel
  have hfits : reply.text.length ≤ longestMessage := by decide +kernel
  obtain ⟨shown, text, -, -, hserved, -, -, hsent, hclosed⟩ := refusal_closed_iff (o := o) hout hrefusal
  rw [hsent hfits] at hserved hclosed
  exact ⟨hout, hrefusal, hclosed.mpr hfits, hserved⟩

end

/-- A formula of letters is quoted in a block that is never closed. -/
theorem refusal_left_open :
    let o : Occasion :=
      ⟨⟨"alice", 7⟩, ⟨2024, 5, 1, 12, 0, 0, 0, some 0⟩, ⟨2024, 5, 1, 12, 0, 0, 0, some 0⟩⟩
    let p : Parlour UInt64 := ⟨⟨⟨"rolls", some "may.csv", []⟩, .blank, []⟩, 1⟩
    let letters := String.ofList (List.replicate 1900 'x')
    let refusal := faultText (.formula (.unknownCharacter 'x' letters 0))
    (Command.roll letters).serve Source.congruence o p =
        .ok [.reply (shortened refusal) none] p ∧
      ¬IsClosed (shortened refusal) := by
  intro o p letters refusal
  have hletters : letters = String.ofList ('x' :: List.replicate 1899 'x') :=
    congrArg String.ofList List.replicate_succ
  have hread : Formula.read letters = .error (.unknownCharacter 'x' letters 0) := by
    rw [hletters]
    exact Formula.read_unknown (by decide) (fun _ => rfl) _
  have hlong : longestMessage ≤ letters.length := by
    rw [← String.length_toList, String.toList_ofList, List.length_replicate]
    exact Nat.le_refl _
  clear_value letters
  exact ⟨serve_of_unread hread rfl p, not_isClosed_of_unknown hlong⟩

end Bot

end DiceLedger
