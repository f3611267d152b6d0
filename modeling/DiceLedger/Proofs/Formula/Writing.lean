import DiceLedger.Formula.Written
import DiceLedger.Proofs.Formula.FirstFault
import DiceLedger.Proofs.Formula.Tokenizing

/-!
# Every tree can be written and read back

The lexemes of a tree denote the tree, whatever parentheses are put around its parts beyond
those it needs. How loosely they hold together depends on the root alone: `rankOf` names the
rank, and a part that is written without parentheses has the rank that its place asks for.
-/
namespace DiceLedger.Formula

open DiceLedger.Text

/-! ## Ranks -/

/-- A minus is allowed at the start, not asked for. -/
theorem denotes_first {rank : Rank} {ls : List Lexeme} {e : Expr Throw} (h : Denotes rank ls e)
    (hrank : rank = .product false) : Denotes (.product true) ls e := by
  induction h with
  | factor h => exact .factor h
  | times hs hop hl hr ihl => exact .times hs hop (ihl hrank) hr
  | _ => cases hrank

/-- Whatever holds together somehow is a formula. -/
theorem denotes_sum {rank : Rank} {ls : List Lexeme} {e : Expr Throw} (h : Denotes rank ls e) :
    Denotes .sum ls e := by
  cases rank with
  | operand => exact .term (.factor h)
  | product first =>
    cases first with
    | true => exact .term h
    | false => exact .term (denotes_first h rfl)
  | sum => exact h

/-- An operand can stand anywhere. -/
theorem denotes_of_operand {ls : List Lexeme} {e : Expr Throw} (h : Denotes .operand ls e)
    (rank : Rank) : Denotes rank ls e := by
  cases rank with
  | operand => exact h
  | product first => exact .factor h
  | sum => exact denotes_sum h

theorem denotes_bracketed {rank : Rank} {ls : List Lexeme} {e : Expr Throw}
    (h : Denotes rank ls e) (rank' : Rank) : Denotes rank' (bracketed ls) e :=
  denotes_of_operand (.group (denotes_sum h)) rank'

/-- A part that may need parentheses to have a rank, and gets them then. -/
theorem denotes_part {holds : Bool} {rank rank' : Rank} {ls bs : List Lexeme} {e : Expr Throw}
    (h : holds → Denotes rank ls e) (hb : Denotes rank' bs e) :
    Denotes rank (if holds then ls else bracketed bs) e := by
  split
  · next hholds => exact h hholds
  · exact denotes_bracketed hb rank

/-- More parentheses change nothing. -/
theorem denotes_enclosed {rank : Rank} {ls : List Lexeme} {e : Expr Throw}
    (h : Denotes rank ls e) (pairs : Nat) : Denotes rank (enclosed pairs ls) e := by
  induction pairs with
  | zero => exact h
  | succ pairs ih => exact denotes_bracketed ih rank

/-- How loosely a tree holds together that is written without parentheses around it. -/
def rankOf (leading : Bool) : Expr Throw → Rank
  | .number _ | .dice _ => .operand
  | .unary _ _ => if leading then .product true else .operand
  | .binary _ op _ => if op.isProduct then .product leading else .sum

/-- Behind a minus stands an operand. -/
theorem denotes_leaf {ls : List Lexeme} {e : Expr Throw} (hleaf : isLeaf e)
    (h : Denotes (rankOf false e) ls e) : Denotes .operand ls e := by
  cases e with
  | number n => exact h
  | dice t => exact h
  | _ => cases hleaf

/-- To the left of an operator that binds tightly stands a product. -/
theorem denotes_left {op : Operator} {leading : Bool} {ls : List Lexeme} {e : Expr Throw}
    (hop : op.isProduct) (hholds : holdsLeft op e) (h : Denotes (rankOf leading e) ls e) :
    Denotes (.product leading) ls e := by
  cases e with
  | number n => exact .factor h
  | dice t => exact .factor h
  | unary sign operand =>
    cases leading with
    | true => exact h
    | false => exact .factor h
  | binary left inner right =>
    have hinner : inner.isProduct := by simpa [holdsLeft, hop] using hholds
    rwa [rankOf, if_pos hinner] at h

/-- To the right of an operator that binds tightly stands an operand. -/
theorem denotes_right {op : Operator} {ls : List Lexeme} {e : Expr Throw} (hop : op.isProduct)
    (hholds : holdsRight op e) (h : Denotes (rankOf false e) ls e) : Denotes .operand ls e := by
  cases e with
  | binary left inner right =>
    rw [holdsRight, hop, Bool.not_true, Bool.and_false] at hholds
    cases hholds
  | _ => exact h

/-- To the right of an operator that binds loosely stands a product. -/
theorem denotes_right_loose {op : Operator} {ls : List Lexeme} {e : Expr Throw}
    (hholds : holdsRight op e) (h : Denotes (rankOf false e) ls e) :
    Denotes (.product false) ls e := by
  cases e with
  | binary left inner right =>
    have hinner : inner.isProduct := (Bool.and_eq_true_iff.mp hholds).1
    rwa [rankOf, if_pos hinner] at h
  | _ => exact denotes_of_operand h _

theorem operator?_of_symbol? {op : Operator} {s : Symbol} (h : Operator.symbol? op = some s) :
    s.operator? = some op := by
  cases op <;> cases h <;> rfl

/-! ## Written trees -/

/-- **The lexemes of a tree denote it.** -/
theorem denotes_writtenWith {e : Expr Throw} (he : IsWritable e) :
    ∀ (extra : List Side → Nat) (leading : Bool),
      Denotes (rankOf leading e) (writtenWith extra leading e) e := by
  induction e with
  | number n =>
    intro extra leading
    refine denotes_enclosed ?_ _
    have hnumber : Denotes .operand [.number (decimal n.toNat)]
        (.number (value (decimal n.toNat))) := .number
    rwa [value_decimal, Int.toNat_of_nonneg he.1] at hnumber
  | dice t =>
    intro extra leading
    refine denotes_enclosed ?_ _
    have hdice : Denotes .operand [.dice (decimal t.count.toNat) (decimal t.faces.toNat)]
        (.dice ⟨value (decimal t.count.toNat), value (decimal t.faces.toNat)⟩) := .dice
    rwa [value_decimal, value_decimal, Int.toNat_of_nonneg he.1.1,
      Int.toNat_of_nonneg he.2.1] at hdice
  | unary sign operand ih =>
    intro extra leading
    obtain ⟨rfl, hoperand⟩ := he
    refine denotes_enclosed ?_ _
    have hpart := ih hoperand fun way => extra (.operand :: way)
    have hinner := denotes_part (fun hleaf => denotes_leaf hleaf (hpart false)) (hpart true)
    cases leading with
    | true => exact .negated hinner
    | false => exact denotes_bracketed (.negated hinner) _
  | binary left op right ihl ihr =>
    intro extra leading
    obtain ⟨hop, hleft, hright⟩ := he
    obtain ⟨s, hs⟩ := Option.isSome_iff_exists.mp hop
    have hoperator := operator?_of_symbol? hs
    refine denotes_enclosed ?_ _
    rw [hs, List.append_assoc]
    by_cases hproduct : op.isProduct
    · rw [rankOf, if_pos hproduct]
      exact .times hoperator hproduct
        (denotes_part (fun hholds => denotes_left hproduct hholds (ihl hleft _ leading))
          (ihl hleft _ true))
        (denotes_part (fun hholds => denotes_right hproduct hholds (ihr hright _ false))
          (ihr hright _ true))
    · rw [rankOf, if_neg hproduct]
      exact .plus hoperator hproduct
        (denotes_part (fun _ => denotes_sum (ihl hleft _ leading)) (ihl hleft _ true))
        (denotes_part (fun hholds => denotes_right_loose hholds (ihr hright _ false))
          (ihr hright _ true))

/-- What holds of the symbols and of the lexemes of the numbers and dice of a tree holds of all
its lexemes. -/
theorem forall_mem_writtenWith {P : Lexeme → Prop} (hsymbol : ∀ s, P (.symbol s))
    (hnumber : ∀ n : Int, 0 ≤ n ∧ n ≤ largestNumber → P (.number (decimal n.toNat)))
    (hdice : ∀ t : Throw, (0 ≤ t.count ∧ t.count ≤ largestThrow) ∧
      (0 ≤ t.faces ∧ t.faces ≤ largestThrow) →
        P (.dice (decimal t.count.toNat) (decimal t.faces.toNat)))
    {e : Expr Throw} (he : IsWritable e) :
    ∀ (extra : List Side → Nat) (leading : Bool), ∀ l ∈ writtenWith extra leading e, P l := by
  have hbracketed {ls : List Lexeme} (h : ∀ l ∈ ls, P l) : ∀ l ∈ bracketed ls, P l := by
    simpa [bracketed, or_imp, forall_and, hsymbol] using h
  have henclosed {ls : List Lexeme} (h : ∀ l ∈ ls, P l) (pairs : Nat) :
      ∀ l ∈ enclosed pairs ls, P l := by
    induction pairs with
    | zero => exact h
    | succ pairs ih => exact hbracketed ih
  have hpart {holds : Bool} {ls bs : List Lexeme} (h : ∀ l ∈ ls, P l) (hb : ∀ l ∈ bs, P l) :
      ∀ l ∈ if holds then ls else bracketed bs, P l := by
    split
    · exact h
    · exact hbracketed hb
  induction e with
  | number n => exact fun _ _ => henclosed (by simpa using hnumber n he) _
  | dice t => exact fun _ _ => henclosed (by simpa using hdice t he) _
  | unary sign operand ih =>
    intro extra leading
    have hinner := ih he.2 fun way => extra (.operand :: way)
    have hsigned := List.forall_mem_cons.mpr
      ⟨hsymbol .minus, @hpart (isLeaf operand) _ _ (hinner false) (hinner true)⟩
    refine henclosed ?_ _
    cases leading with
    | true => exact hsigned
    | false => exact hbracketed hsigned
  | binary left op right ihl ihr =>
    intro extra leading
    refine henclosed ?_ _
    have hl := ihl he.2.1 fun way => extra (.left :: way)
    have hr := ihr he.2.2 fun way => extra (.right :: way)
    refine List.forall_mem_append.mpr ⟨List.forall_mem_append.mpr
      ⟨hpart (hl leading) (hl true), ?_⟩, hpart (hr false) (hr true)⟩
    intro l hl
    obtain ⟨s, -, rfl⟩ := List.mem_map.mp hl
    exact hsymbol s

/-- The lexemes of a tree can be spelled, and read again. -/
theorem isReadable_writtenWith {e : Expr Throw} (he : IsWritable e) (extra : List Side → Nat)
    (leading : Bool) :
    ∀ l ∈ writtenWith extra leading e, l.IsProper ∧ l.IsReadable := by
  have hplain {l : Lexeme} (hl : l.plain = l) (h : l.InRange) : l.IsProper ∧ l.IsReadable :=
    ⟨hl ▸ isProper_plain l, h, hl ▸ isShort_plain h⟩
  refine forall_mem_writtenWith (fun s => hplain (l := .symbol s) rfl trivial) ?_ ?_ he extra leading
  · intro n hn
    refine hplain (by simp [Lexeme.plain, value_decimal]) ?_
    simp only [Lexeme.InRange, value_decimal]
    omega
  · intro t ht
    refine hplain (by simp [Lexeme.plain, value_decimal]) ?_
    simp only [Lexeme.InRange, value_decimal]
    omega

/-- **Every tree can be written and read back.** A tree of numbers, dice, minuses and operators
that are not too large, written with parentheses only where they are needed and with any
blanks between the lexemes, is read as itself; and so it is with any number of parentheses
more around its parts. -/
theorem read_written (e : Expr Throw) (he : IsWritable e) (pieces : List Piece) (last : Gap) :
    (pieces.map (·.lexeme) = written true e →
      read (String.ofList (spread pieces last)) = .ok e) ∧
    ∀ extra : List Side → Nat, pieces.map (·.lexeme) = writtenWith extra true e →
      read (String.ofList (spread pieces last)) = .ok e := by
  have hextra (extra : List Side → Nat) (h : pieces.map (·.lexeme) = writtenWith extra true e) :
      read (String.ofList (spread pieces last)) = .ok e := by
    have hall : ∀ p ∈ pieces, p.lexeme.IsProper ∧ p.lexeme.IsReadable := fun p hp =>
      isReadable_writtenWith he extra true _ (h ▸ List.mem_map_of_mem hp)
    have hdenotes := denotes_sum (denotes_writtenWith he extra true)
    exact read_spread_of_denotes last (fun p hp => (hall p hp).1) (fun p hp => (hall p hp).2)
      (h ▸ hdenotes)
  exact ⟨fun h => hextra _ (h.trans (writtenWith_none e true).symm), hextra⟩

/-- Minuses at the start and inside, a sum on the right of a difference, and two pairs of
parentheses more than needed. -/
theorem read_written_nested :
    let e : Expr Throw := .binary
      (.binary (.unary .minus (.binary (.number 1) .add (.number 2))) .mul
        (.unary .minus (.dice ⟨2, 6⟩)))
      .sub (.binary (.number 3) .sub (.number 4))
    IsWritable e ∧ read " - ( 1 + 2 ) * ( - 2d6 ) - ( 3 - 4 )" = .ok e ∧
      read "((-(1+2)*(-2d6)))-(3-4)" = .ok e := by
  intro e
  have he : IsWritable e := by
    simp only [e, IsWritable, Operator.symbol?]
    decide
  let extra (way : List Side) : Nat := if way = [.left] then 2 else 0
  let apart : List Piece := (written true e).map fun l => ⟨spaces 1, l⟩
  let close : List Piece := (writtenWith extra true e).map fun l => ⟨spaces 0, l⟩
  have hapart : " - ( 1 + 2 ) * ( - 2d6 ) - ( 3 - 4 )" = String.ofList (spread apart (spaces 0)) := by
    decide +kernel
  have hclose : "((-(1+2)*(-2d6)))-(3-4)" = String.ofList (spread close (spaces 0)) := by
    decide +kernel
  rw [hapart, hclose]
  exact ⟨he, (read_written e he apart (spaces 0)).1 (by simp [apart, Function.comp_def]),
    (read_written e he close (spaces 0)).2 extra (by simp [close, Function.comp_def])⟩

end DiceLedger.Formula
