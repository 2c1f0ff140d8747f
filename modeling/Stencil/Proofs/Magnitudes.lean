import Mathlib.Algebra.Order.Field.Power
import Mathlib.Data.Rat.Floor
import Mathlib.Tactic.Positivity
import Stencil.Binary64.Basic

/-!
# Binary64 numbers as rational numbers

A finite binary64 number is a rational number: its mantissa times a power of two, with a sign. The
units in which numbers are compared count the same value, and a number without its fraction is this
value rounded towards zero.

The canonical form is the only one, so a number is determined by its sign and its magnitude.
-/

namespace Stencil.Binary64

/-- The magnitude of a number. -/
def magnitude (x : Binary64) : ℚ := x.mantissa * 2 ^ x.exponent

/-- The rational number that a binary64 number is. -/
def value (x : Binary64) : ℚ := if x.negative then -x.magnitude else x.magnitude

/-- The units of a number are its value, counted in the least positive number. -/
theorem units_eq (x : Binary64) : (x.units : ℚ) = x.value * 2 ^ 1074 := by
  obtain ⟨-, least, -, -⟩ := x.canonical
  obtain ⟨places, exponent⟩ : ∃ places : Nat, x.exponent + 1074 = places :=
    Int.eq_ofNat_of_zero_le (by omega)
  have scaled : x.magnitude * 2 ^ 1074 = ((x.mantissa <<< places : Nat) : ℚ) := by
    have power : (2 : ℚ) ^ x.exponent * 2 ^ (1074 : ℕ) = 2 ^ places := by
      rw [← zpow_natCast, ← zpow_natCast, ← zpow_add₀ two_ne_zero]
      congr 1
    rw [magnitude, mul_assoc, power, Nat.shiftLeft_eq]
    push_cast
    rfl
  unfold units value
  rw [exponent, Int.toNat_natCast]
  cases x.negative with
  | true => simp only [if_true, Int.cast_neg, Int.cast_natCast, neg_mul, scaled]
  | false => simp only [Bool.false_eq_true, if_false, Int.cast_natCast, scaled]

/-- A quotient without its fraction is rounded towards zero. -/
theorem tdiv_eq (n : Int) {scale : Nat} (positive : 0 < scale) :
    n.tdiv scale = if 0 ≤ (n : ℚ) / scale then ⌊(n : ℚ) / scale⌋ else ⌈(n : ℚ) / scale⌉ := by
  have divisor : (0 : ℚ) < scale := Nat.cast_pos.mpr positive
  have sign : (0 ≤ (n : ℚ) / scale) ↔ 0 ≤ n := by
    rw [le_div_iff₀ divisor, zero_mul, Int.cast_nonneg_iff]
  by_cases nonneg : 0 ≤ n
  · rw [if_pos (sign.mpr nonneg), Rat.floor_intCast_div_natCast, Int.tdiv_eq_ediv_of_nonneg nonneg]
  · rw [if_neg (mt sign.mp nonneg), Rat.ceil_intCast_div_natCast, ← Int.neg_neg n, Int.neg_tdiv,
      Int.neg_neg, Int.tdiv_eq_ediv_of_nonneg (by omega)]

/-- A number is truncated towards zero. -/
theorem truncate_eq (x : Binary64) :
    x.truncate = if 0 ≤ x.value then ⌊x.value⌋ else ⌈x.value⌉ := by
  have cast (places : Nat) : Int.pow 2 places = ((2 ^ places : Nat) : Int) :=
    (Int.natCast_pow 2 places).symm
  have quotient : (x.units : ℚ) / (2 ^ 1074 : Nat) = x.value := by
    rw [units_eq, Nat.cast_pow, Nat.cast_two, mul_div_cancel_right₀ _ (pow_ne_zero _ two_ne_zero)]
  rw [truncate, unitsOfOne, cast, tdiv_eq x.units (pow_pos two_pos 1074), quotient]

/-- A mantissa that has all its bits is not doubled in exchange for the exponent. -/
theorem exponent_le_of_magnitude {x y : Binary64} (same : x.magnitude = y.magnitude) :
    y.exponent ≤ x.exponent := by
  by_contra less
  obtain ⟨places, apart⟩ :=
    Int.eq_ofNat_of_zero_le (show 0 ≤ y.exponent - x.exponent - 1 by omega)
  have exponent : y.exponent = x.exponent + (places + 1 : Nat) := by omega
  have mantissas : x.mantissa = y.mantissa * 2 ^ (places + 1) := by
    rw [magnitude, magnitude, exponent, zpow_add₀ two_ne_zero, zpow_natCast,
      mul_comm ((2 : ℚ) ^ x.exponent), ← mul_assoc] at same
    have cancelled := mul_right_cancel₀ (zpow_ne_zero x.exponent two_ne_zero) same
    exact_mod_cast cancelled
  have carried : y.mantissa * 2 ≤ x.mantissa := by
    rw [mantissas, pow_succ, ← mul_assoc]
    exact Nat.mul_le_mul_right 2 (Nat.le_mul_of_pos_right _ Nat.one_le_two_pow)
  obtain ⟨most, least, -, -⟩ := x.canonical
  obtain ⟨-, -, -, full⟩ := y.canonical
  have full := full.resolve_right (by omega)
  simp only [Nat.pow_eq] at most full
  omega

/-- A number is determined by its sign and its magnitude. -/
theorem eq_of_magnitude {x y : Binary64} (sign : x.negative = y.negative)
    (same : x.magnitude = y.magnitude) : x = y := by
  have exponents : x.exponent = y.exponent :=
    le_antisymm (exponent_le_of_magnitude same.symm) (exponent_le_of_magnitude same)
  rw [magnitude, magnitude, exponents] at same
  have mantissas : x.mantissa = y.mantissa := by
    exact_mod_cast mul_right_cancel₀ (zpow_ne_zero y.exponent two_ne_zero) same
  cases x
  cases y
  simp_all

end Stencil.Binary64
