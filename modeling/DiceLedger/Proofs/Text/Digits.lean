import DiceLedger.Text.Digit

/-!
# Written numbers

A number is written in the ten ASCII digits and nothing else, and zeros in front of it do not
change what it says.
-/
namespace DiceLedger.Text

/-- What holds of the members of a list, found by looking at these alone. There may be an
instance that looks at all characters instead. -/
theorem forall_of_all {α : Type} {p : α → Prop} [DecidablePred p] {xs : List α}
    (h : xs.all (decide <| p ·) = true) : ∀ x ∈ xs, p x :=
  fun x hx => of_decide_eq_true (List.all_eq_true.mp h x hx)

def digits : List Char := "0123456789".toList

theorem digitChar_mem_digits {d : Nat} (h : d < 10) : d.digitChar ∈ digits := by
  have hall : ∀ d < 10, d.digitChar ∈ digits := by decide
  exact hall d h

theorem mem_digits_of_decimal {n : Nat} {c : Char} (h : c ∈ decimal n) : c ∈ digits := by
  induction n using Nat.strongRecOn with
  | _ n ih =>
    by_cases hn : n < 10
    · rw [decimal, Nat.toDigits_of_lt_base hn, List.mem_singleton] at h
      rw [h]
      exact digitChar_mem_digits hn
    · rw [decimal, Nat.toDigits_of_base_le (by decide : 1 < 10) (by omega)] at h
      rcases List.mem_append.mp h with h | h
      · exact ih (n / 10) (by omega) h
      · rw [List.mem_singleton.mp h]
        exact digitChar_mem_digits (Nat.mod_lt n (by decide))

theorem mem_signedDecimal {n : Int} {c : Char} (h : c ∈ signedDecimal n) : c ∈ '-' :: digits := by
  cases n with
  | ofNat n => exact List.mem_cons_of_mem _ (mem_digits_of_decimal h)
  | negSucc n =>
    rcases List.mem_cons.mp h with rfl | h
    · exact List.mem_cons_self
    · exact List.mem_cons_of_mem _ (mem_digits_of_decimal h)

theorem signedDecimal_of_nonneg {n : Int} (h : 0 ≤ n) : signedDecimal n = decimal n.toNat := by
  cases n with
  | ofNat n => rfl
  | negSucc n => exact absurd h (by omega)

theorem decimal_injective {m n : Nat} (h : decimal m = decimal n) : m = n := by
  have hvalue := congrArg value h
  rwa [value_decimal, value_decimal] at hvalue

theorem mem_digits_of_padded {width n : Nat} {c : Char} (h : c ∈ padded width n) :
    c ∈ digits := by
  rcases List.mem_append.mp h with h | h
  · rw [List.eq_of_mem_replicate h]
    decide
  · exact mem_digits_of_decimal h

theorem length_decimal_le {width n : Nat} (hpos : 0 < width) (h : n < Nat.pow 10 width) :
    (decimal n).length ≤ width :=
  (Nat.length_toDigits_le_iff (by decide) hpos).mpr h

/-- A number that is not too long for it is filled up to the width. -/
theorem length_padded {width n : Nat} (hpos : 0 < width) (h : n < Nat.pow 10 width) :
    (padded width n).length = width := by
  have hle := length_decimal_le hpos h
  rw [padded, List.length_append, List.length_replicate]
  omega

theorem value_padded (width n : Nat) : value (padded width n) = n := by
  have hzeros (count : Nat) : (List.replicate count '0').foldl
      (fun n c => 10 * n + (digitValue? c).getD 0) 0 = 0 := by
    induction count with
    | zero => rfl
    | succ count ih => exact ih
  rw [padded, value, List.foldl_append, hzeros]
  exact value_decimal n

/-! ## Numbers within a text -/

theorem toList_around (before after : String) (number : List Char) :
    (before ++ String.ofList number ++ after).toList = before.toList ++ number ++ after.toList := by
  rw [String.toList_append, String.toList_append, String.toList_ofList]

theorem toList_ending (label : String) (number : List Char) :
    (label ++ String.ofList number).toList = label.toList ++ number := by
  rw [String.toList_append, String.toList_ofList]

end DiceLedger.Text
