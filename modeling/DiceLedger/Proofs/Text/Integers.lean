import DiceLedger.Proofs.Text.Digits
import DiceLedger.Text.Integer
import Mathlib.Data.List.TakeWhile

/-!
# Written integers

An integer is read back from its decimal text, as long as it has no more digits than a number
may have.
-/
namespace DiceLedger.Text.Integer

/-- An integer that is not too long to be read. -/
def IsWritable (n : Int) : Prop := n.natAbs < Nat.pow 10 digitLimit

instance (n : Int) : Decidable (IsWritable n) := Nat.decLt _ _

theorem wellGrouped_of_not_mem {cs : List Char} (h : '_' ∉ cs) : wellGrouped cs = true := by
  induction cs with
  | nil => rfl
  | cons c cs ih =>
    rw [List.mem_cons, not_or] at h
    unfold wellGrouped
    split
    · rfl
    · next heq => exact absurd (List.cons.inj heq).1.symm h.1
    · next heq => exact absurd (List.cons.inj heq).1.symm h.1
    · next heq =>
      rw [← (List.cons.inj heq).2]
      exact ih h.2

theorem magnitude_decimal (text : String) {n : Nat} (h : n < Nat.pow 10 digitLimit) :
    magnitude text (decimal n) = .ok (n, []) := by
  have hdigit : ∀ c ∈ decimal n, isDigit c := fun c hc => isDigit_of_mem_decimal hc
  have hmark : '_' ∉ decimal n := by
    intro hc
    have hall : '_' ∉ digits := by decide
    exact hall (mem_digits_of_decimal hc)
  have hrun : (decimal n).takeWhile (fun c => isDigit c || c == '_') = decimal n := by
    rw [List.takeWhile_eq_self_iff]
    intro c hc
    rw [hdigit c hc, Bool.true_or]
  have hfilter : (decimal n).filter (· ≠ '_') = decimal n := by
    rw [List.filter_eq_self]
    intro c hc
    simp only [decide_eq_true_eq]
    rintro rfl
    exact hmark hc
  have hhead : (decimal n).head? ≠ some '_' := fun he => hmark (List.mem_of_head? he)
  have hlength : ¬digitLimit < (decimal n).length :=
    Nat.not_lt_of_le (length_decimal_le (by decide) h)
  have hfull : (decimal n).isEmpty = false := by
    rw [List.isEmpty_eq_false_iff]
    exact decimal_ne_nil n
  simp only [magnitude, hrun, hfilter, hhead, wellGrouped_of_not_mem hmark, hlength, hfull,
    value_decimal, decide_false, Bool.not_true, Bool.or_false, Bool.false_eq_true, if_false,
    List.drop_length]

/-- **A written integer is read back.** -/
theorem read_signedDecimal {n : Int} (h : IsWritable n) :
    read (String.ofList (signedDecimal n)) = .ok n := by
  have hpadding : ∀ c ∈ digits, ¬isPadding c := forall_of_all (by decide)
  cases n with
  | ofNat n =>
    obtain ⟨c, cs, hcs⟩ := List.exists_cons_of_ne_nil (decimal_ne_nil n)
    have hc : c ∈ digits := mem_digits_of_decimal (n := n) (by simp [hcs])
    have hsign : c ≠ '-' ∧ c ≠ '+' := by
      have hall : ∀ c ∈ digits, c ≠ '-' ∧ c ≠ '+' := forall_of_all (by decide)
      exact hall c hc
    have hmagnitude : magnitude (String.ofList (decimal n)) (decimal n) = .ok (n, []) :=
      magnitude_decimal _ h
    have hbody : (decimal n).dropWhile isPadding = decimal n := by
      rw [hcs, List.dropWhile_cons_of_neg (hpadding c hc)]
    rw [read, signedDecimal, String.toList_ofList, hbody]
    rw [hcs] at hmagnitude ⊢
    dsimp only
    split
    · next heq => exact absurd (List.cons.inj heq).1 hsign.1
    · next heq => exact absurd (List.cons.inj heq).1 hsign.2
    · dsimp only
      rw [hmagnitude]
      rfl
  | negSucc n =>
    have hmagnitude : magnitude (String.ofList ('-' :: decimal (n + 1))) (decimal (n + 1)) =
        .ok (n + 1, []) := magnitude_decimal _ h
    have hbody : ('-' :: decimal (n + 1)).dropWhile isPadding = '-' :: decimal (n + 1) := by
      rw [List.dropWhile_cons_of_neg (by decide)]
    rw [read, signedDecimal, String.toList_ofList, hbody]
    dsimp only
    split
    · next rest heq =>
      obtain rfl := (List.cons.inj heq).2
      dsimp only
      rw [hmagnitude]
      rfl
    · next heq => cases (List.cons.inj heq).1
    · next hne _ => exact absurd rfl (hne _)

end DiceLedger.Text.Integer
