import DiceLedger.Roll.Arithmetic
import Mathlib.Data.Rat.Floor
import Mathlib.Tactic.FieldSimp
import Mathlib.Tactic.Linarith

/-!
# Quotients and remainders

The quotient of two numbers is the rational one without its fraction, and the remainder is what
is left over by it. Rounding is stated here over the rationals and not by the division of
integers. Of the quotients of two numbers that fit into 64 bits one does not fit itself, and all
remainders do.
-/
namespace DiceLedger.Arithmetic

/-! ## Rounding -/

/-- A rational number without its fraction. -/
def towardZero (a : ℚ) : Int := if 0 ≤ a then ⌊a⌋ else ⌈a⌉

theorem towardZero_of_fraction {a b : ℚ} {q : Int} (ha : a = q + b) (hb : |b| < 1)
    (hsign : b = 0 ∨ 0 < a * b) : towardZero a = q := by
  obtain ⟨hlow, hhigh⟩ := abs_lt.mp hb
  rw [towardZero]
  split
  · next hnonneg =>
    have hfraction : 0 ≤ b := by
      rcases hsign with rfl | hpos
      · exact le_rfl
      · exact (pos_of_mul_pos_right hpos hnonneg).le
    rw [Int.floor_eq_iff]
    constructor <;> linarith
  · next hneg =>
    have hfraction : b ≤ 0 := by
      rcases hsign with rfl | hpos
      · exact le_rfl
      · exact (neg_of_mul_pos_right hpos (not_le.mp hneg).le).le
    rw [Int.ceil_eq_iff]
    constructor <;> linarith

theorem mul_pos_of_sign {x r : Int} (h : r.sign = x.sign) (hr : r ≠ 0) : 0 < x * r := by
  rw [← Int.sign_eq_one_iff_pos, Int.sign_mul, ← h, ← Int.sign_mul, Int.sign_eq_one_iff_pos]
  exact mul_self_pos.mpr hr

/-- A remainder that is small and has the sign of the dividend belongs to the quotient that is
rounded toward zero. -/
theorem towardZero_div {x y q r : Int} (hx : x = y * q + r) (hr : |r| < |y|)
    (hsign : r = 0 ∨ r.sign = x.sign) : towardZero (x / y) = q := by
  have hy : (y : ℚ) ≠ 0 := by
    intro hzero
    obtain rfl : y = 0 := by exact_mod_cast hzero
    exact absurd hr (by simp)
  refine towardZero_of_fraction (b := r / y) ?_ ?_ ?_
  · rw [hx]
    push_cast
    field_simp
  · rw [abs_div, div_lt_one (abs_pos.mpr hy)]
    exact_mod_cast hr
  · by_cases hzero : r = 0
    · exact .inl (by simp [hzero])
    · have hpos : 0 < x * r := mul_pos_of_sign (hsign.resolve_left hzero) hzero
      rw [div_mul_div_comm]
      exact .inr (div_pos (by exact_mod_cast hpos) (mul_self_pos.mpr hy))

/-! ## Quotient and remainder -/

theorem abs_tmod_lt (x : Int) {y : Int} (hy : y ≠ 0) : |Int.tmod x y| < |y| := by
  rw [Int.abs_eq_natAbs, Int.abs_eq_natAbs, Int.natAbs_tmod]
  exact_mod_cast Nat.mod_lt x.natAbs (Int.natAbs_pos.mpr hy)

theorem sign_tmod (x y : Int) : Int.tmod x y = 0 ∨ (Int.tmod x y).sign = x.sign := by
  rw [← Int.sign_eq_zero_iff_zero, Int.sign_tmod]
  split
  · exact .inl rfl
  · exact .inr rfl

/-- The quotient is that of the sizes, and negative if one of the two numbers is. -/
theorem tdiv_eq_sized (x y : Int) :
    Int.tdiv x y = if x < 0 ↔ y < 0 then |x| / |y| else -(|x| / |y|) := by
  rcases lt_or_ge x 0 with hx | hx <;> rcases lt_or_ge y 0 with hy | hy
  · rw [if_pos (iff_of_true hx hy), abs_of_neg hx, abs_of_neg hy,
      ← Int.tdiv_eq_ediv_of_nonneg (by omega), Int.neg_tdiv_neg]
  · rw [if_neg fun h => (h.mp hx).not_ge hy, abs_of_neg hx, abs_of_nonneg hy,
      ← Int.tdiv_eq_ediv_of_nonneg (by omega), Int.neg_tdiv, Int.neg_neg]
  · rw [if_neg fun h => (h.mpr hy).not_ge hx, abs_of_nonneg hx, abs_of_neg hy,
      ← Int.tdiv_eq_ediv_of_nonneg hx, Int.tdiv_neg, Int.neg_neg]
  · rw [if_pos (iff_of_false hx.not_gt hy.not_gt), abs_of_nonneg hx, abs_of_nonneg hy,
      Int.tdiv_eq_ediv_of_nonneg hx]

/-! ## What fits -/

theorem fits_iff {n : Int} : Fits n ↔ -9223372036854775808 ≤ n ∧ n ≤ 9223372036854775807 := Iff.rfl

theorem checked_eq_error_iff {part : Unit → String} {n : Int} :
    (∃ f, checked part n = .error f) ↔ ¬Fits n := by
  rw [checked]
  split <;> simp [*]

/-- Of the quotients of numbers that fit only one does not: that of the least by minus one. -/
theorem not_fits_tdiv_iff {x y : Int} (hx : Fits x) (hy : y ≠ 0) :
    ¬Fits (Int.tdiv x y) ↔ x = least ∧ y = -1 := by
  rw [fits_iff] at hx ⊢
  have hleast : least = -9223372036854775808 := rfl
  by_cases hone : y = 1
  · subst hone
    rw [Int.tdiv_one]
    omega
  by_cases hminus : y = -1
  · subst hminus
    rw [Int.tdiv_neg, Int.tdiv_one]
    omega
  have hhalf : (Int.tdiv x y).natAbs ≤ x.natAbs / 2 := by
    rw [Int.natAbs_tdiv]
    exact Nat.div_le_div_left (by omega) (by decide)
  omega

theorem fits_tmod {x y : Int} (hy : Fits y) (hzero : y ≠ 0) : Fits (Int.tmod x y) := by
  rw [fits_iff] at hy ⊢
  have hsmall := abs_tmod_lt x hzero
  rw [Int.abs_eq_natAbs, Int.abs_eq_natAbs] at hsmall
  omega

/-- **Quotient and remainder belong together.** Both fail just for a divisor of zero. Otherwise
the dividend is made up of them again, the remainder is smaller than the divisor and has the
sign of the dividend if it is not zero, and the quotient is the rational one rounded toward
zero, which is that of the sizes with its sign. In 64 bits one quotient alone does not fit, and
every remainder does. -/
theorem division_truncates (x y : Int) :
    (∀ f, divide x y = .error f ↔ y = 0 ∧ f = .divisionByZero x y) ∧
      (∀ f, modulo x y = .error f ↔ y = 0 ∧ f = .moduloByZero x y) ∧
      (y ≠ 0 → ∃ q r, divide x y = .ok q ∧ modulo x y = .ok r ∧
        x = y * q + r ∧ |r| < |y| ∧ (r = 0 ∨ r.sign = x.sign) ∧ q = towardZero (x / y) ∧
        q = (if x < 0 ↔ y < 0 then |x| / |y| else -(|x| / |y|)) ∧
        (Fits x → Fits y → ∀ part, ((∃ f, checked part q = .error f) ↔ x = least ∧ y = -1) ∧
          checked part r = .ok r)) := by
  have hdivide (f : Fault) : divide x y = .error f ↔ y = 0 ∧ f = .divisionByZero x y := by
    rw [divide]
    split <;> simp [*, eq_comm]
  have hmodulo (f : Fault) : modulo x y = .error f ↔ y = 0 ∧ f = .moduloByZero x y := by
    rw [modulo]
    split <;> simp [*, eq_comm]
  refine ⟨hdivide, hmodulo, fun hy => ?_⟩
  have hwhole : x = y * Int.tdiv x y + Int.tmod x y := (Int.mul_tdiv_add_tmod x y).symm
  refine ⟨Int.tdiv x y, Int.tmod x y, if_neg hy, if_neg hy, hwhole, abs_tmod_lt x hy,
    sign_tmod x y, ?_, tdiv_eq_sized x y, fun hx hfits part => ⟨?_, ?_⟩⟩
  · exact (towardZero_div hwhole (abs_tmod_lt x hy) (sign_tmod x y)).symm
  · rw [checked_eq_error_iff, not_fits_tdiv_iff hx hy]
  · exact if_pos (fits_tmod hfits hy)

/-- The one quotient that does not fit. -/
theorem division_truncates_least :
    (-1 : Int) ≠ 0 ∧ Fits least ∧ Fits (-1) ∧ ∃ q r, divide least (-1) = .ok q ∧
      modulo least (-1) = .ok r ∧ least = -1 * q + r ∧
      (∃ f, checked (fun _ => "quotient") q = .error f) ∧
      checked (fun _ => "remainder") r = .ok r := by
  have hleast : Fits least := by decide
  have hminus : Fits (-1) := by decide
  obtain ⟨-, -, hall⟩ := division_truncates least (-1)
  obtain ⟨q, r, hq, hr, hwhole, -, -, -, -, hfits⟩ := hall (by decide)
  obtain ⟨hmisfit, -⟩ := hfits hleast hminus fun _ => "quotient"
  obtain ⟨-, hremainder⟩ := hfits hleast hminus fun _ => "remainder"
  exact ⟨by decide, hleast, hminus, q, r, hq, hr, hwhole, hmisfit.mpr ⟨rfl, rfl⟩, hremainder⟩

end DiceLedger.Arithmetic
