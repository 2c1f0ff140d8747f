import Mathlib.Algebra.Ring.Parity
import Mathlib.Tactic.Linarith
import Stencil.Binary64.Decimal
import Stencil.Proofs.Magnitudes

/-!
# Decimals are rounded correctly

A decimal denotes the binary64 number that is nearest to its exact value, and of two that are
equally near the one with the even mantissa. A magnitude that would be rounded beyond the greatest
finite number denotes an infinity.

To find the nearest number one exponent is chosen, and the quotient is rounded to a whole mantissa
at this exponent. That is enough: numbers with a greater exponent are whole multiples of the same
unit, and those with a lesser one are below all mantissas of 53 bits. The main statement covers the
decimals that are not divided at all as well, because they are far too small or too large.
-/

namespace Stencil

namespace Binary64

/-- The number of a sign that is nearest to a magnitude. Of two numbers that are equally near, the
one with the even mantissa is meant. -/
structure Nearest (x : Binary64) (negative : Bool) (q : ℚ) : Prop where
  sign : x.negative = negative
  nearest : ∀ y : Binary64, |x.magnitude - q| ≤ |y.magnitude - q|
  even : ∀ y : Binary64, |y.magnitude - q| = |x.magnitude - q| →
    y.magnitude = x.magnitude ∨ Even x.mantissa ∧ Odd y.mantissa

/-- There is at most one nearest number. -/
theorem Nearest.unique {x y : Binary64} {negative : Bool} {q : ℚ} (nearest : x.Nearest negative q)
    (other : y.Nearest negative q) : x = y := by
  have distance := le_antisymm (nearest.nearest y) (other.nearest x)
  apply eq_of_magnitude (nearest.sign.trans other.sign.symm)
  rcases other.even x distance with same | ⟨even, odd⟩
  · exact same
  · rcases nearest.even y distance.symm with same | ⟨evenToo, -⟩
    · exact same.symm
    · exact absurd odd (Nat.not_odd_iff_even.mpr evenToo)

/-! ### Rounding at one exponent -/

/-- A quotient is compared with a half by doubling what is divided. -/
theorem div_le_half_iff {a b : Nat} (positive : 0 < b) : (a : ℚ) / b ≤ 1 / 2 ↔ a * 2 ≤ b := by
  rw [div_le_div_iff₀ (Nat.cast_pos.mpr positive) two_pos, one_mul]
  norm_cast

theorem half_le_div_iff {a b : Nat} (positive : 0 < b) : 1 / 2 ≤ (a : ℚ) / b ↔ b ≤ a * 2 := by
  rw [div_le_div_iff₀ two_pos (Nat.cast_pos.mpr positive), one_mul]
  norm_cast

/-- A rounded quotient is at most a half away, and exactly a half only if it is even. -/
theorem roundQuotient_near (num : Nat) {den : Nat} (positive : 0 < den) :
    |(roundQuotient num den : ℚ) - num / den| ≤ 1 / 2 ∧
      (|(roundQuotient num den : ℚ) - num / den| = 1 / 2 → Even (roundQuotient num den)) := by
  have divisor : (0 : ℚ) < den := Nat.cast_pos.mpr positive
  have parts : (num : ℚ) / den = (num / den : Nat) + (num % den : Nat) / (den : ℚ) := by
    have whole : ((den * (num / den) + num % den : Nat) : ℚ) = num := by rw [Nat.div_add_mod]
    push_cast at whole
    rw [← whole, add_div, mul_div_cancel_left₀ _ divisor.ne']
  have rest := Nat.mod_lt num positive
  unfold roundQuotient
  dsimp only
  rw [parts]
  generalize num / den = floor
  generalize num % den = remainder at *
  have nonneg : (0 : ℚ) ≤ remainder / den := by positivity
  split
  · next down =>
    have distance : |(floor : ℚ) - (floor + remainder / den)| = remainder / den := by
      rw [sub_add_cancel_left, abs_neg, abs_of_nonneg nonneg]
    rw [distance]
    refine ⟨(div_le_half_iff positive).mpr (by omega), fun tie => ?_⟩
    have reached := (half_le_div_iff positive).mp tie.ge
    rcases down with less | ⟨-, even⟩
    · omega
    · exact Nat.even_iff.mpr even
  · next up =>
    have half : 1 / 2 ≤ (remainder : ℚ) / den := (half_le_div_iff positive).mpr (by omega)
    have small : (remainder : ℚ) / den < 1 := (div_lt_one divisor).mpr (Nat.cast_lt.mpr rest)
    have distance :
        |((floor + 1 : Nat) : ℚ) - (floor + remainder / den)| = 1 - remainder / den := by
      rw [Nat.cast_succ, add_sub_add_left_eq_sub, abs_of_nonneg (by linarith)]
    rw [distance]
    refine ⟨by linarith, fun tie => ?_⟩
    have reached := (@div_le_half_iff remainder den positive).mp (by linarith)
    rw [Nat.even_iff]
    omega

/-- Among the whole numbers a rounded quotient is nearest to the quotient, and if another one is as
near, then it is odd and the rounded quotient is even. -/
theorem roundQuotient_nearest (num : Nat) {den : Nat} (positive : 0 < den) (k : Nat) :
    |(roundQuotient num den : ℚ) - num / den| ≤ |(k : ℚ) - num / den| ∧
      (|(k : ℚ) - num / den| = |(roundQuotient num den : ℚ) - num / den| →
        k = roundQuotient num den ∨ Even (roundQuotient num den) ∧ Odd k) := by
  obtain ⟨near, even⟩ := roundQuotient_near num positive
  generalize roundQuotient num den = m at *
  generalize (num : ℚ) / den = r at *
  by_cases same : k = m
  · exact ⟨by rw [same], fun _ => .inl same⟩
  -- Two whole numbers are at least one apart, and the quotient is not more than a half from one.
  have apart : 1 ≤ |(k : ℚ) - m| := by
    have whole : 1 ≤ |(k : ℤ) - m| := Int.one_le_abs (sub_ne_zero.mpr (by exact_mod_cast same))
    exact_mod_cast whole
  have triangle := abs_sub_le (k : ℚ) r m
  rw [abs_sub_comm r m] at triangle
  refine ⟨by linarith, fun tie => .inr ?_⟩
  have half : |(m : ℚ) - r| = 1 / 2 := by linarith
  have next : |(k : ℤ) - m| = 1 := by
    have distance : |(k : ℚ) - m| = 1 := le_antisymm (by linarith) apart
    exact_mod_cast distance
  have parity := Nat.even_iff.mp (even half)
  refine ⟨even half, Nat.odd_iff.mpr ?_⟩
  rcases (abs_eq zero_le_one).mp next with above | below <;> omega

/-! ### The exponent -/

/-- Scaling divides a quotient by a power of two. -/
theorem scaled_ratio (num den : Nat) (exponent : Int) :
    ((scaled num den exponent).1 : ℚ) / (scaled num den exponent).2 =
      (num : ℚ) / den / 2 ^ exponent := by
  unfold scaled
  split
  · next negative =>
    obtain ⟨places, same⟩ : ∃ places : Nat, -exponent = places :=
      Int.eq_ofNat_of_zero_le (by omega)
    have power : (2 : ℚ) ^ exponent = (2 ^ places)⁻¹ := by
      rw [← zpow_natCast, ← zpow_neg, ← same, neg_neg]
    rw [same, Int.toNat_natCast, power, div_inv_eq_mul, Nat.pow_eq]
    push_cast
    rw [div_mul_eq_mul_div]
  · next nonnegative =>
    obtain ⟨places, same⟩ : ∃ places : Nat, exponent = places :=
      Int.eq_ofNat_of_zero_le (by omega)
    rw [same, Int.toNat_natCast, zpow_natCast, Nat.pow_eq]
    push_cast
    rw [div_div]

theorem scaled_pos (num : Nat) {den : Nat} (positive : 0 < den) (exponent : Int) :
    0 < (scaled num den exponent).2 := by
  unfold scaled
  split
  · exact positive
  · exact Nat.mul_pos positive (Nat.two_pow_pos _)

/-- A positive number lies between powers of two. -/
theorem two_zpow_log2 {n : Nat} (nonzero : n ≠ 0) :
    (2 : ℚ) ^ (n.log2 : Int) ≤ n ∧ (n : ℚ) < 2 ^ ((n.log2 : Int) + 1) := by
  have least := Nat.log2_self_le nonzero
  have most := Nat.lt_log2_self (n := n)
  constructor
  · rw [zpow_natCast]
    exact_mod_cast least
  · rw [← Nat.cast_succ, zpow_natCast]
    exact_mod_cast most

/-- The bits of a quotient, up to one, from those of its parts. -/
theorem quotient_bounds {num den : Nat} (nonzero : num ≠ 0) (positive : 0 < den) :
    2 ^ 52 * 2 ^ ((num.log2 : Int) - den.log2 - 53) ≤ (num : ℚ) / den ∧
      (num : ℚ) / den < 2 ^ 54 * 2 ^ ((num.log2 : Int) - den.log2 - 53) := by
  have divisor : (0 : ℚ) < den := Nat.cast_pos.mpr positive
  obtain ⟨numLeast, numMost⟩ := two_zpow_log2 nonzero
  obtain ⟨denLeast, denMost⟩ := two_zpow_log2 positive.ne'
  have shift (a b : Int) : (2 : ℚ) ^ a * 2 ^ b = 2 ^ (a + b) := (zpow_add₀ two_ne_zero a b).symm
  constructor
  · rw [le_div_iff₀ divisor, ← zpow_natCast, shift]
    calc (2 : ℚ) ^ (((52 : Nat) : Int) + ((num.log2 : Int) - den.log2 - 53)) * den
        ≤ 2 ^ (((52 : Nat) : Int) + ((num.log2 : Int) - den.log2 - 53)) *
            2 ^ ((den.log2 : Int) + 1) :=
          mul_le_mul_of_nonneg_left denMost.le (zpow_nonneg two_pos.le _)
      _ = 2 ^ (num.log2 : Int) := by rw [shift]; congr 1; omega
      _ ≤ num := numLeast
  · rw [div_lt_iff₀ divisor, ← zpow_natCast, shift]
    calc (num : ℚ) < 2 ^ ((num.log2 : Int) + 1) := numMost
      _ = 2 ^ (((54 : Nat) : Int) + ((num.log2 : Int) - den.log2 - 53)) *
            2 ^ (den.log2 : Int) := by rw [shift]; congr 1; omega
      _ ≤ 2 ^ (((54 : Nat) : Int) + ((num.log2 : Int) - den.log2 - 53)) * den :=
          mul_le_mul_of_nonneg_left denLeast (zpow_nonneg two_pos.le _)

/-- Whether a scaled quotient has at most 53 bits. -/
theorem scaled_div_lt_iff (num : Nat) {den : Nat} (positive : 0 < den) (exponent : Int) :
    (scaled num den exponent).1 / (scaled num den exponent).2 < Nat.pow 2 53 ↔
      (num : ℚ) / den < 2 ^ 53 * 2 ^ exponent := by
  have divisor := scaled_pos num positive exponent
  have bottom : (0 : ℚ) < (scaled num den exponent).2 := Nat.cast_pos.mpr divisor
  have cast (a b : Nat) : a < b ↔ (a : ℚ) < b := Nat.cast_lt.symm
  rw [Nat.div_lt_iff_lt_mul divisor, cast, Nat.cast_mul, ← div_lt_iff₀ bottom, scaled_ratio,
    div_lt_iff₀ (zpow_pos two_pos _), Nat.pow_eq, Nat.cast_pow]
  rfl

/-- With the chosen exponent a mantissa has at most 53 bits, and exactly so many unless the exponent
is the least one. -/
theorem exponentFor_bounds {num den : Nat} (nonzero : num ≠ 0) (positive : 0 < den) :
    -1074 ≤ exponentFor num den ∧
      (num : ℚ) / den < 2 ^ 53 * 2 ^ exponentFor num den ∧
      (exponentFor num den = -1074 ∨ 2 ^ 52 * 2 ^ exponentFor num den ≤ (num : ℚ) / den) := by
  obtain ⟨low, high⟩ := quotient_bounds nonzero positive
  have decided := scaled_div_lt_iff num positive ((num.log2 : Int) - den.log2 - 53)
  obtain ⟨exponent, chosen, floor, ceiling⟩ : ∃ exponent : Int,
      exponentFor num den = max exponent (-1074) ∧ 2 ^ 52 * 2 ^ exponent ≤ (num : ℚ) / den ∧
      (num : ℚ) / den < 2 ^ 53 * 2 ^ exponent := by
    unfold exponentFor
    dsimp only
    generalize (num.log2 : Int) - den.log2 - 53 = estimate at *
    have doubled : (2 : ℚ) ^ (estimate + 1) = 2 ^ estimate * 2 := zpow_add_one₀ two_ne_zero _
    split
    · next fits => exact ⟨estimate, rfl, low, decided.mp fits⟩
    · next wide =>
      have reached := not_lt.mp (mt decided.mpr wide)
      exact ⟨estimate + 1, rfl, by rw [doubled]; linarith, by rw [doubled]; linarith⟩
  rw [chosen]
  refine ⟨le_max_right _ _, ?_, ?_⟩
  · have raised : (2 : ℚ) ^ exponent ≤ 2 ^ max exponent (-1074) :=
      zpow_le_zpow_right₀ one_le_two (le_max_left _ _)
    linarith
  · rcases le_total exponent (-1074) with less | more
    · exact .inl (max_eq_right less)
    · exact .inr (by rwa [max_eq_left more])

/-! ### The nearest number -/

/-- A number with a higher exponent is a multiple of the unit of a lower one, and an odd multiple
only if its mantissa is odd. -/
theorem exists_multiple (y : Binary64) {exponent : Int} (above : exponent ≤ y.exponent) :
    ∃ k : Nat, y.magnitude = k * 2 ^ exponent ∧ (Odd k → Odd y.mantissa) := by
  obtain ⟨places, apart⟩ := Int.eq_ofNat_of_zero_le (show 0 ≤ y.exponent - exponent by omega)
  refine ⟨y.mantissa * 2 ^ places, ?_, fun odd => (Nat.odd_mul.mp odd).1⟩
  rw [magnitude, show y.exponent = places + exponent by omega, zpow_add₀ two_ne_zero, zpow_natCast]
  push_cast
  ring

/-- A number with a lower exponent is below all mantissas of 53 bits. -/
theorem magnitude_lt (y : Binary64) {exponent : Int} (below : y.exponent < exponent) :
    y.magnitude < 2 ^ 52 * 2 ^ exponent := by
  have most : (y.mantissa : ℚ) < 2 ^ 53 := by exact_mod_cast y.canonical.1
  have unit : (2 : ℚ) ^ (y.exponent + 1) ≤ 2 ^ exponent := zpow_le_zpow_right₀ one_le_two below
  rw [zpow_add₀ two_ne_zero, zpow_one] at unit
  calc y.magnitude < 2 ^ 53 * 2 ^ y.exponent :=
        mul_lt_mul_of_pos_right most (zpow_pos two_pos _)
    _ = 2 ^ 52 * (2 ^ y.exponent * 2) := by ring
    _ ≤ 2 ^ 52 * 2 ^ exponent := mul_le_mul_of_nonneg_left unit (by positivity)

section

variable {num den : Nat} (nonzero : num ≠ 0) (positive : 0 < den)

include nonzero positive

/-- The mantissa that a quotient is rounded to at the chosen exponent. -/
theorem nearest_of_magnitude {x : Binary64} {m : Nat}
    (rounded : m = roundQuotient (scaled num den (exponentFor num den)).1
      (scaled num den (exponentFor num den)).2)
    (magnitude : x.magnitude = m * 2 ^ exponentFor num den) (even : Even m → Even x.mantissa) :
    x.Nearest x.negative ((num : ℚ) / den) := by
  obtain ⟨-, -, full⟩ := exponentFor_bounds nonzero positive
  have whole := roundQuotient_nearest (scaled num den (exponentFor num den)).1
    (scaled_pos num positive (exponentFor num den))
  have ratio := scaled_ratio num den (exponentFor num den)
  rw [← rounded, ratio] at whole
  generalize exponentFor num den = exponent at *
  have unit : (0 : ℚ) < 2 ^ exponent := zpow_pos two_pos _
  -- Distances are taken in units of the last place of the mantissa.
  have distance (k : ℚ) : |k * 2 ^ exponent - num / den| =
      |k - num / den / 2 ^ exponent| * 2 ^ exponent := by
    rw [← abs_of_pos unit, ← abs_mul, abs_of_pos unit, sub_mul, div_mul_cancel₀ _ unit.ne']
  have nearer (y : Binary64) : |x.magnitude - num / den| ≤ |y.magnitude - num / den| ∧
      (|y.magnitude - num / den| = |x.magnitude - num / den| →
        y.magnitude = x.magnitude ∨ Even x.mantissa ∧ Odd y.mantissa) := by
    rw [magnitude, distance]
    by_cases above : exponent ≤ y.exponent
    · obtain ⟨k, multiple, odd⟩ := exists_multiple y above
      obtain ⟨near, tie⟩ := whole k
      rw [multiple, distance]
      refine ⟨mul_le_mul_of_nonneg_right near unit.le, fun same => ?_⟩
      rcases tie (mul_right_cancel₀ unit.ne' same) with rfl | ⟨evenRounded, oddOther⟩
      · exact .inl rfl
      · exact .inr ⟨even evenRounded, odd oddOther⟩
    · have below := not_le.mp above
      have least := y.canonical.2.1
      have reached := full.resolve_left (by omega)
      obtain ⟨near, -⟩ := whole (2 ^ 52)
      have farther : |(m : ℚ) - num / den / 2 ^ exponent| * 2 ^ exponent <
          |y.magnitude - num / den| := by
        have low := magnitude_lt y below
        calc |(m : ℚ) - num / den / 2 ^ exponent| * 2 ^ exponent
            ≤ |((2 ^ 52 : Nat) : ℚ) - num / den / 2 ^ exponent| * 2 ^ exponent :=
              mul_le_mul_of_nonneg_right near unit.le
          _ = |2 ^ 52 * 2 ^ exponent - (num : ℚ) / den| := by
              rw [← distance]
              push_cast
              rfl
          _ = num / den - 2 ^ 52 * 2 ^ exponent := by
              rw [abs_of_nonpos (by linarith), neg_sub]
          _ < num / den - y.magnitude := by linarith
          _ ≤ |y.magnitude - num / den| := by
              rw [abs_sub_comm]
              exact le_abs_self _
      exact ⟨farther.le, fun tie => absurd tie farther.ne'⟩
  exact ⟨rfl, fun y => (nearer y).1, fun y => (nearer y).2⟩

end

/-- The least magnitude that is rounded beyond the finite numbers: half a unit of the last place
above the greatest one. -/
def overflow : ℚ := (2 ^ 54 - 1) * 2 ^ 970

/-- What is rounded down to a mantissa of 53 bits is less than half a unit above the greatest one:
the greatest one is odd, so a tie would be rounded up. -/
theorem lt_of_mantissa {m : Nat} {r : ℚ} (near : |(m : ℚ) - r| ≤ 1 / 2)
    (even : |(m : ℚ) - r| = 1 / 2 → Even m) (small : m < 2 ^ 53) : r < 2 ^ 53 - 1 / 2 := by
  by_contra reached
  have most : (m : ℚ) ≤ 2 ^ 53 - 1 := by
    have bound : ((m + 1 : Nat) : ℚ) ≤ 2 ^ 53 := by exact_mod_cast small
    push_cast at bound
    linarith
  have distance : |(m : ℚ) - r| = r - m := by
    rw [abs_of_nonpos (by linarith), neg_sub]
  rw [distance] at near even
  have tie : r - m = 1 / 2 := by linarith
  have last : (m : ℚ) = 2 ^ 53 - 1 := by linarith
  have odd : m + 1 = 2 ^ 53 := by
    have cast : ((m + 1 : Nat) : ℚ) = 2 ^ 53 := by
      push_cast
      linarith
    exact_mod_cast cast
  have parity := Nat.even_iff.mp (even tie)
  omega

/-- The overflow in units of the last place of the greatest finite numbers. -/
theorem exists_unit_overflow :
    ∃ last : ℚ, 0 < last ∧ last = 2 ^ (971 : Int) ∧ overflow = (2 ^ 53 - 1 / 2) * last := by
  refine ⟨2 ^ (971 : Int), zpow_pos two_pos _, rfl, ?_⟩
  rw [overflow, show (971 : Int) = ((970 + 1 : Nat) : Int) by rfl, zpow_natCast, pow_succ _ 970]
  generalize (2 : ℚ) ^ 970 = unit
  ring

/-- What is less than half a unit above a greatest mantissa does not overflow. -/
theorem lt_overflow_of_lt {r : ℚ} {exponent : Int} (below : r < 2 ^ 53 - 1 / 2)
    (bounded : exponent ≤ 971) : r * 2 ^ exponent < overflow := by
  obtain ⟨last, -, power, overflows⟩ := exists_unit_overflow
  have raised : (2 : ℚ) ^ exponent ≤ last := power ▸ zpow_le_zpow_right₀ one_le_two bounded
  rw [overflows]
  calc r * 2 ^ exponent < (2 ^ 53 - 1 / 2) * 2 ^ exponent :=
        mul_lt_mul_of_pos_right below (zpow_pos two_pos _)
    _ ≤ (2 ^ 53 - 1 / 2) * last := mul_le_mul_of_nonneg_left raised (by norm_num)

/-- With a lower exponent no mantissa does. -/
theorem lt_overflow_of_exponent {r : ℚ} {exponent : Int} (below : r < 2 ^ 53)
    (bounded : exponent ≤ 970) : r * 2 ^ exponent < overflow := by
  have half : r / 2 < 2 ^ 53 - 1 / 2 := by linarith
  have doubled := lt_overflow_of_lt half (show exponent + 1 ≤ 971 by omega)
  rwa [zpow_add_one₀ two_ne_zero, ← mul_assoc, mul_right_comm, div_mul_cancel₀ _ two_ne_zero]
    at doubled

/-- What is at most half a unit below the first mantissa with 54 bits overflows with the greatest
exponent or a greater one. -/
theorem overflow_le_of_le {r : ℚ} {exponent : Int} (above : 2 ^ 53 - 1 / 2 ≤ r)
    (large : 971 ≤ exponent) : overflow ≤ r * 2 ^ exponent := by
  obtain ⟨last, positive, power, overflows⟩ := exists_unit_overflow
  have raised : last ≤ (2 : ℚ) ^ exponent := power ▸ zpow_le_zpow_right₀ one_le_two large
  rw [overflows]
  exact mul_le_mul above raised positive.le (by linarith)

/-- Every mantissa with 53 bits overflows with an exponent greater than the greatest one. -/
theorem overflow_le_of_exponent {r : ℚ} {exponent : Int} (above : 2 ^ 52 ≤ r)
    (large : 972 ≤ exponent) : overflow ≤ r * 2 ^ exponent := by
  have doubled := overflow_le_of_le (show (2 : ℚ) ^ 53 - 1 / 2 ≤ r * 2 by linarith)
    (show 971 ≤ exponent - 1 by omega)
  rwa [mul_assoc, mul_comm 2, ← zpow_add_one₀ two_ne_zero, sub_add_cancel] at doubled

/-- A mantissa and an exponent to which a quotient is rounded are the parts of the number that is
nearest to the quotient, or the quotient is beyond the finite numbers. The parts are those of a
finite number already, or the rounding carried the mantissa, or the exponent is too large. -/
theorem ofParts?_spec (negative : Bool) {m : Nat} {exponent : Int} {r : ℚ}
    (least : -1074 ≤ exponent) (ceiling : r < 2 ^ 53) (full : exponent = -1074 ∨ 2 ^ 52 ≤ r)
    (near : |(m : ℚ) - r| ≤ 1 / 2) (even : |(m : ℚ) - r| = 1 / 2 → Even m)
    (made : ∀ x : Binary64, x.magnitude = m * 2 ^ exponent → (Even m → Even x.mantissa) →
      x.Nearest x.negative (r * 2 ^ exponent)) :
    (∀ x, ofParts? negative m exponent = some x →
      r * 2 ^ exponent < overflow ∧ x.Nearest negative (r * 2 ^ exponent)) ∧
    (ofParts? negative m exponent = none → overflow ≤ r * 2 ^ exponent) := by
  have bounds := abs_le.mp near
  unfold ofParts?
  split
  · next finite =>
    refine ⟨?_, by rintro ⟨⟩⟩
    rintro _ ⟨⟩
    exact ⟨lt_overflow_of_lt (lt_of_mantissa near even finite.1) finite.2.2.1, made _ rfl id⟩
  · split
    · next _ carried =>
      obtain ⟨rfl, -, bounded⟩ := carried
      refine ⟨?_, by rintro ⟨⟩⟩
      rintro _ ⟨⟩
      refine ⟨lt_overflow_of_exponent ceiling bounded, made _ ?_ fun _ => ⟨2 ^ 51, rfl⟩⟩
      change ((2 ^ 52 : Nat) : ℚ) * 2 ^ (exponent + 1) = ((2 ^ 53 : Nat) : ℚ) * 2 ^ exponent
      rw [zpow_add_one₀ two_ne_zero]
      push_cast
      ring
    · next infinite uncarried =>
      refine ⟨(by rintro _ ⟨⟩), fun _ => ?_⟩
      have most : m ≤ 2 ^ 53 := by
        have bound : (m : ℚ) < ((2 ^ 53 + 1 : Nat) : ℚ) := by
          push_cast
          linarith
        exact Nat.lt_succ_iff.mp (Nat.cast_lt.mp bound)
      rcases Nat.lt_or_eq_of_le most with small | rfl
      · have reached : exponent = -1074 ∨ 2 ^ 52 ≤ m := by
          refine full.imp_right fun above => ?_
          have bound : ((2 ^ 52 : Nat) : ℚ) < ((m + 1 : Nat) : ℚ) := by
            push_cast
            linarith
          exact Nat.lt_succ_iff.mp (Nat.cast_lt.mp bound)
        have large : 972 ≤ exponent := by
          by_contra lower
          exact infinite ⟨small, least, by omega, reached.symm⟩
        exact overflow_le_of_exponent (full.resolve_left (by omega)) large
      · have large : 971 ≤ exponent := by
          by_contra lower
          exact uncarried ⟨rfl, by omega, by omega⟩
        push_cast at bounds
        exact overflow_le_of_le (by linarith) large

/-- Below half of the least positive number zero is nearest. -/
theorem zero_nearest (negative : Bool) {q : ℚ} (nonneg : 0 ≤ q) (small : q < 2 ^ (-1075 : Int)) :
    (zero negative).Nearest negative q := by
  have none : (zero negative).magnitude = 0 := by simp [magnitude, zero]
  have own : |(zero negative).magnitude - q| = q := by
    rw [none, zero_sub, abs_neg, abs_of_nonneg nonneg]
  have other (y : Binary64) : y.magnitude = 0 ∨ q < |y.magnitude - q| := by
    by_cases empty : y.mantissa = 0
    · exact .inl (by rw [magnitude, empty, Nat.cast_zero, zero_mul])
    · have positive : (1 : ℚ) ≤ y.mantissa := Nat.one_le_cast.mpr (Nat.pos_of_ne_zero empty)
      have unit : (2 : ℚ) ^ (-1075 + 1 : Int) ≤ 2 ^ y.exponent :=
        zpow_le_zpow_right₀ one_le_two (by have := y.canonical.2.1; omega)
      rw [zpow_add_one₀ two_ne_zero] at unit
      have least : (2 : ℚ) ^ (-1075 : Int) * 2 ≤ y.magnitude :=
        unit.trans (le_mul_of_one_le_left (zpow_nonneg two_pos.le _) positive)
      generalize (2 : ℚ) ^ (-1075 : Int) = half at *
      refine .inr (lt_of_lt_of_le ?_ (le_abs_self _))
      linarith
  refine ⟨rfl, fun y => ?_, fun y tie => .inl ?_⟩
  · rw [own]
    rcases other y with same | farther
    · rw [same, zero_sub, abs_neg, abs_of_nonneg nonneg]
    · exact farther.le
  · rw [own] at tie
    exact none ▸ (other y).resolve_right (by rw [tie]; exact lt_irrefl q)

/-- Such a magnitude is far from the overflow. -/
theorem least_lt_overflow : (2 : ℚ) ^ (-1075 : Int) < overflow := by
  have one : (1 : ℚ) * 2 ^ (-1075 : Int) < overflow :=
    lt_overflow_of_exponent (by norm_num) (by norm_num)
  rwa [one_mul] at one

/-- Quotients are rounded to the number that is nearest to them, and to none exactly if they are
beyond the finite numbers. -/
theorem nearest?_spec (negative : Bool) (num : Nat) {den : Nat} (positive : 0 < den) :
    (∀ x, nearest? negative num den = some x →
      (num : ℚ) / den < overflow ∧ x.Nearest negative ((num : ℚ) / den)) ∧
    (nearest? negative num den = none → overflow ≤ (num : ℚ) / den) := by
  by_cases nonzero : num = 0
  · subst nonzero
    have made : nearest? negative 0 den = some (zero negative) := rfl
    have small : (0 : ℚ) < 2 ^ (-1075 : Int) := zpow_pos two_pos _
    rw [made, Nat.cast_zero, zero_div]
    refine ⟨?_, by rintro ⟨⟩⟩
    rintro _ ⟨⟩
    exact ⟨small.trans least_lt_overflow, zero_nearest negative le_rfl small⟩
  obtain ⟨least, ceiling, full⟩ := exponentFor_bounds nonzero positive
  have divisor := scaled_pos num positive (exponentFor num den)
  obtain ⟨near, even⟩ :=
    roundQuotient_near (scaled num den (exponentFor num den)).1 divisor
  have made (x : Binary64) := @nearest_of_magnitude num den nonzero positive x _ rfl
  have unit : (0 : ℚ) < 2 ^ exponentFor num den := zpow_pos two_pos _
  have quotient : (num : ℚ) / den =
      num / den / 2 ^ exponentFor num den * 2 ^ exponentFor num den :=
    (div_mul_cancel₀ _ unit.ne').symm
  have unfolded : nearest? negative num den = ofParts? negative
      (roundQuotient (scaled num den (exponentFor num den)).1
        (scaled num den (exponentFor num den)).2) (exponentFor num den) := if_neg nonzero
  rw [scaled_ratio] at near even
  rw [← div_lt_iff₀ unit] at ceiling
  rw [← le_div_iff₀ unit] at full
  rw [unfolded, quotient]
  refine ofParts?_spec negative least ceiling full near even ?_
  rwa [← quotient]

end Binary64

namespace Extended

open Binary64

/-- What a magnitude with a sign is rounded to: the nearest finite number, or an infinity beyond
these. -/
def Rounds (x : Extended) (negative : Bool) (q : ℚ) : Prop :=
  match x with
  | .finite y => q < overflow ∧ y.Nearest negative q
  | .infinite sign => overflow ≤ q ∧ sign = negative
  | .nan => False

/-- A magnitude is rounded to one value only. -/
theorem Rounds.unique {x y : Extended} {negative : Bool} {q : ℚ} (rounds : x.Rounds negative q)
    (other : y.Rounds negative q) : x = y := by
  cases x <;> cases y <;> simp only [Rounds] at rounds other
  case finite.finite => rw [rounds.2.unique other.2]
  case finite.infinite => exact absurd rounds.1 (not_lt.mpr other.1)
  case infinite.finite => exact absurd other.1 (not_lt.mpr rounds.1)
  case infinite.infinite => rw [rounds.2, other.2]

/-- The powers of ten that are far outside of the finite numbers, compared as powers of eight. -/
theorem ten_zpow_lt {exponent : Int} (negative : exponent ≤ -400) :
    (10 : ℚ) ^ exponent < 2 ^ (-1075 : Int) := by
  calc (10 : ℚ) ^ exponent ≤ 10 ^ (-400 : Int) := zpow_le_zpow_right₀ (by norm_num) negative
    _ ≤ 8 ^ (-400 : Int) := by
        rw [zpow_neg, zpow_neg]
        exact inv_anti₀ (by positivity)
          (zpow_le_zpow_left₀ (by norm_num) (by norm_num) (by norm_num))
    _ = 2 ^ (-1200 : Int) := by
        rw [show (8 : ℚ) = 2 ^ (3 : Int) by norm_num, ← zpow_mul]
        rfl
    _ < 2 ^ (-1075 : Int) := zpow_lt_zpow_right₀ one_lt_two (by norm_num)

theorem overflow_le_ten_zpow {exponent : Int} (large : 400 ≤ exponent) :
    overflow ≤ (10 : ℚ) ^ exponent := by
  have first : overflow ≤ 2 ^ 52 * (2 : ℚ) ^ (1148 : Int) :=
    overflow_le_of_exponent le_rfl (by norm_num)
  refine first.trans ?_
  calc (2 : ℚ) ^ 52 * 2 ^ (1148 : Int) = 2 ^ (1200 : Int) := by
        rw [← zpow_natCast, ← zpow_add₀ two_ne_zero]
        rfl
    _ = 8 ^ (400 : Int) := by
        rw [show (8 : ℚ) = 2 ^ (3 : Int) by norm_num, ← zpow_mul]
        rfl
    _ ≤ 10 ^ (400 : Int) := zpow_le_zpow_left₀ (by norm_num) (by norm_num) (by norm_num)
    _ ≤ 10 ^ exponent := zpow_le_zpow_right₀ (by norm_num) large

/-- The number of bits bounds the number of decimal digits. -/
theorem digits_bounds {digits : Nat} (nonzero : digits ≠ 0) :
    10 ^ (digits.log2 / 4) ≤ digits ∧ digits < 10 ^ (digits.log2 / 3 + 1) := by
  constructor
  · calc 10 ^ (digits.log2 / 4) ≤ (2 ^ 4) ^ (digits.log2 / 4) := Nat.pow_le_pow_left (by decide) _
      _ = 2 ^ (4 * (digits.log2 / 4)) := (pow_mul 2 4 _).symm
      _ ≤ 2 ^ digits.log2 := Nat.pow_le_pow_right (by decide) (Nat.mul_div_le _ 4)
      _ ≤ digits := Nat.log2_self_le nonzero
  · calc digits < 2 ^ (digits.log2 + 1) := Nat.lt_log2_self
      _ ≤ 2 ^ (3 * (digits.log2 / 3 + 1)) := Nat.pow_le_pow_right (by decide) (by omega)
      _ = (2 ^ 3) ^ (digits.log2 / 3 + 1) := pow_mul 2 3 _
      _ ≤ 10 ^ (digits.log2 / 3 + 1) := Nat.pow_le_pow_left (by decide) _

/-- A decimal below all places of the finite numbers is less than half of the least one. -/
theorem decimal_small {digits : Nat} {exponent : Int}
    (small : digits = 0 ∨ exponent + (digits.log2 / 3 : Nat) < -400) :
    (digits : ℚ) * 10 ^ exponent < 2 ^ (-1075 : Int) := by
  by_cases nonzero : digits = 0
  · rw [nonzero, Nat.cast_zero, zero_mul]
    exact zpow_pos two_pos _
  · have below := small.resolve_left nonzero
    have most : (digits : ℚ) ≤ 10 ^ ((digits.log2 / 3 + 1 : Nat) : Int) := by
      rw [zpow_natCast]
      exact_mod_cast (digits_bounds nonzero).2.le
    calc (digits : ℚ) * 10 ^ exponent
        ≤ 10 ^ ((digits.log2 / 3 + 1 : Nat) : Int) * 10 ^ exponent :=
          mul_le_mul_of_nonneg_right most (by positivity)
      _ = 10 ^ (((digits.log2 / 3 + 1 : Nat) : Int) + exponent) :=
          (zpow_add₀ (by norm_num) _ _).symm
      _ < 2 ^ (-1075 : Int) := ten_zpow_lt (by omega)

/-- A decimal above all places of the finite numbers overflows. -/
theorem decimal_large {digits : Nat} {exponent : Int} (nonzero : digits ≠ 0)
    (large : 400 < exponent + (digits.log2 / 4 : Nat)) :
    overflow ≤ (digits : ℚ) * 10 ^ exponent := by
  have least : (10 : ℚ) ^ ((digits.log2 / 4 : Nat) : Int) ≤ digits := by
    rw [zpow_natCast]
    exact_mod_cast (digits_bounds nonzero).1
  calc overflow ≤ (10 : ℚ) ^ (((digits.log2 / 4 : Nat) : Int) + exponent) :=
        overflow_le_ten_zpow (by omega)
    _ = 10 ^ ((digits.log2 / 4 : Nat) : Int) * 10 ^ exponent := zpow_add₀ (by norm_num) _ _
    _ ≤ digits * 10 ^ exponent := mul_le_mul_of_nonneg_right least (by positivity)

/-- The places of a decimal are those of a quotient of whole numbers. -/
theorem decimal_ratio (digits : Nat) (exponent : Int) :
    ((digits * Nat.pow 10 exponent.toNat : Nat) : ℚ) / (Nat.pow 10 (-exponent).toNat : Nat) =
      digits * 10 ^ exponent := by
  rw [Nat.pow_eq, Nat.pow_eq]
  push_cast
  obtain ⟨places, rfl | rfl⟩ := exponent.eq_nat_or_neg
  · rw [Int.toNat_natCast, Int.toNat_neg_natCast, pow_zero, div_one, zpow_natCast]
  · rw [neg_neg, Int.toNat_natCast, Int.toNat_neg_natCast, pow_zero, mul_one, zpow_neg,
      zpow_natCast, div_eq_mul_inv]

/-- A decimal is rounded once, from its exact value. -/
theorem ofDecimal_rounds (negative : Bool) (digits : Nat) (exponent : Int) :
    (ofDecimal negative digits exponent).Rounds negative (digits * 10 ^ exponent) := by
  unfold ofDecimal
  dsimp only
  split
  · next small =>
    have nonneg : (0 : ℚ) ≤ digits * 10 ^ exponent := by positivity
    have below := decimal_small small
    exact ⟨below.trans least_lt_overflow, zero_nearest negative nonneg below⟩
  · next notSmall =>
    split
    · next large => exact ⟨decimal_large (fun zero => notSmall (.inl zero)) large, rfl⟩
    · have positive : 0 < Nat.pow 10 (-exponent).toNat := Nat.pow_pos (by decide)
      obtain ⟨finite, infinite⟩ :=
        nearest?_spec negative (digits * Nat.pow 10 exponent.toNat) positive
      rw [decimal_ratio] at finite infinite
      cases rounded : nearest? negative (digits * Nat.pow 10 exponent.toNat)
        (Nat.pow 10 (-exponent).toNat) with
      | some x => exact finite x rounded
      | none => exact ⟨infinite rounded, rfl⟩

end Extended

end Stencil
