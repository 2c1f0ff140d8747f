import Mathlib
import Stencil.Value.Number

/-!
# Whole numbers as binary64 numbers

A whole number becomes the nearest binary64 number, and that is a whole number again: a
multiple of the last place of a mantissa with 53 bits. Up to 53 bits nothing is rounded, and
beyond them neighbours can become one number.

The main statements say that rounding keeps the order of whole numbers, so two of them
compare as they are unless they become one number.
-/

namespace Stencil

namespace Binary64

/-! ### Rounded quotients -/

/-- A quotient is rounded down or up to the next whole number. -/
theorem roundQuotient_cases (num den : Nat) :
    roundQuotient num den = num / den ∨ roundQuotient num den = num / den + 1 := by
  unfold roundQuotient
  dsimp only
  split
  · exact .inl rfl
  · exact .inr rfl

/-- Rounding does not go below a whole number that the quotient reaches. -/
theorem le_roundQuotient {least num den : Nat} (positive : 0 < den) (reached : least * den ≤ num) :
    least ≤ roundQuotient num den := by
  have floor : least ≤ num / den := (Nat.le_div_iff_mul_le positive).mpr reached
  rcases roundQuotient_cases num den with down | up
  · omega
  · omega

/-- Rounding does not go above a whole number that the quotient stays below. -/
theorem roundQuotient_le {most num den : Nat} (positive : 0 < den) (below : num < most * den) :
    roundQuotient num den ≤ most := by
  have floor : num / den < most := (Nat.div_lt_iff_lt_mul positive).mpr below
  rcases roundQuotient_cases num den with down | up
  · omega
  · omega

/-- A quotient that is whole is not rounded. -/
theorem roundQuotient_mul {whole den : Nat} (positive : 0 < den) :
    roundQuotient (whole * den) den = whole := by
  simp only [roundQuotient, Nat.mul_mod_left, Nat.mul_zero, positive, true_or, if_true,
    Nat.mul_div_cancel whole positive]

/-- The larger of two numbers has the larger rounded quotient. With the same whole part it has
the larger remainder, so it is rounded up if the other one is. -/
theorem roundQuotient_mono {num more : Nat} (den : Nat) (ordered : num ≤ more) :
    roundQuotient num den ≤ roundQuotient more den := by
  have floors : num / den ≤ more / den := Nat.div_le_div_right ordered
  by_cases same : num / den = more / den
  · have parts := Nat.div_add_mod num den
    have moreParts := Nat.div_add_mod more den
    rw [← same] at moreParts
    have remainders : num % den ≤ more % den := by omega
    unfold roundQuotient
    dsimp only
    rw [← same]
    split <;> split <;> omega
  · have below := roundQuotient_cases num den
    have above := roundQuotient_cases more den
    omega

/-! ### The nearest whole number with 53 bits -/

/-- The unit in the last place of a mantissa of 53 bits. -/
def lastPlace (num : Nat) : Nat := 2 ^ (num.log2 - 52)

/-- The magnitude of the number that is nearest to a whole number. -/
def roundedMagnitude (num : Nat) : Nat := roundQuotient num (lastPlace num) * lastPlace num

theorem lastPlace_pos (num : Nat) : 0 < lastPlace num := Nat.two_pow_pos _

/-- A multiple of the last place is not rounded. -/
theorem roundedMagnitude_of_dvd {num : Nat} (whole : lastPlace num ∣ num) :
    roundedMagnitude num = num := by
  obtain ⟨count, parts⟩ := whole
  have positive := lastPlace_pos num
  rw [roundedMagnitude]
  generalize lastPlace num = place at *
  rw [parts, Nat.mul_comm place count, roundQuotient_mul positive]

/-- A number with at most 53 bits is not rounded. -/
theorem roundedMagnitude_of_lt {num : Nat} (small : num < 2 ^ 53) : roundedMagnitude num = num := by
  have bits : num.log2 ≤ 52 := by
    by_cases zero : num = 0
    · subst zero
      decide
    · exact Nat.le_of_lt_succ ((Nat.log2_lt zero).mpr small)
  apply roundedMagnitude_of_dvd
  rw [lastPlace, Nat.sub_eq_zero_of_le bits]
  exact Nat.one_dvd num

/-- The first number with 54 bits is not rounded either. -/
theorem roundedMagnitude_of_le {num : Nat} (small : num ≤ 2 ^ 53) :
    roundedMagnitude num = num := by
  rcases Nat.lt_or_eq_of_le small with below | rfl
  · exact roundedMagnitude_of_lt below
  · decide

/-- A large number is at least so many units of its last place as the least mantissa has. -/
theorem two_pow_log2 {num : Nat} (large : 52 ≤ num.log2) :
    2 ^ num.log2 = 2 ^ 52 * lastPlace num := by
  rw [lastPlace, ← Nat.pow_add, Nat.add_sub_cancel' large]

/-- The mantissa of a large number has 53 bits, or it is carried to the next power of two. -/
theorem mantissa_bounds {num : Nat} (large : 52 ≤ num.log2) :
    2 ^ 52 ≤ roundQuotient num (lastPlace num) ∧ roundQuotient num (lastPlace num) ≤ 2 ^ 53 := by
  have nonzero : num ≠ 0 := by
    rintro rfl
    exact absurd large (by decide)
  have least := Nat.log2_self_le nonzero
  have most := Nat.lt_log2_self (n := num)
  rw [two_pow_log2 large] at least
  rw [Nat.pow_succ, two_pow_log2 large] at most
  constructor
  · exact le_roundQuotient (lastPlace_pos num) least
  · apply roundQuotient_le (lastPlace_pos num)
    omega

/-- Rounding stays between the powers of two around a number. -/
theorem roundedMagnitude_bounds {num : Nat} (nonzero : num ≠ 0) :
    2 ^ num.log2 ≤ roundedMagnitude num ∧ roundedMagnitude num ≤ 2 ^ (num.log2 + 1) := by
  by_cases large : 52 ≤ num.log2
  · obtain ⟨least, most⟩ := mantissa_bounds large
    rw [Nat.pow_succ, two_pow_log2 large, roundedMagnitude]
    refine ⟨Nat.mul_le_mul_right _ least, ?_⟩
    have scaled := Nat.mul_le_mul_right (lastPlace num) most
    omega
  · have small : num < 2 ^ 53 := (Nat.log2_lt nonzero).mp (by omega)
    rw [roundedMagnitude_of_lt small]
    exact ⟨Nat.log2_self_le nonzero, Nat.le_of_lt Nat.lt_log2_self⟩

/-- Rounding keeps the order of magnitudes: between two powers of two the unit is the same, and a
power of two is never crossed. -/
theorem roundedMagnitude_mono {num more : Nat} (ordered : num ≤ more) :
    roundedMagnitude num ≤ roundedMagnitude more := by
  by_cases zero : num = 0
  · subst zero
    exact Nat.zero_le _
  have nonzero : more ≠ 0 := by omega
  by_cases same : num.log2 = more.log2
  · have place : lastPlace num = lastPlace more := by rw [lastPlace, lastPlace, same]
    rw [roundedMagnitude, roundedMagnitude, place]
    exact Nat.mul_le_mul_right _ (roundQuotient_mono _ ordered)
  · have bits : num.log2 + 1 ≤ more.log2 := by
      have least := Nat.log2_self_le zero
      have reached := (Nat.le_log2 nonzero).mpr (Nat.le_trans least ordered)
      omega
    calc
      roundedMagnitude num ≤ 2 ^ (num.log2 + 1) := (roundedMagnitude_bounds zero).2
      _ ≤ 2 ^ more.log2 := Nat.pow_le_pow_right (by decide) bits
      _ ≤ roundedMagnitude more := (roundedMagnitude_bounds nonzero).1

/-- The whole number that is nearest to a whole number among the binary64 numbers. -/
def roundedInt (n : Int) : Int := n.sign * roundedMagnitude n.natAbs

/-- Rounding keeps the order of whole numbers. -/
theorem roundedInt_mono {m n : Int} (ordered : m ≤ n) : roundedInt m ≤ roundedInt n := by
  unfold roundedInt
  rcases Int.lt_trichotomy m 0 with below | rfl | above
  · rcases Int.lt_trichotomy n 0 with belowToo | rfl | above
    · have magnitudes := roundedMagnitude_mono (show n.natAbs ≤ m.natAbs by omega)
      rw [Int.sign_eq_neg_one_of_neg below, Int.sign_eq_neg_one_of_neg belowToo]
      omega
    · rw [Int.sign_eq_neg_one_of_neg below, Int.sign_zero]
      omega
    · rw [Int.sign_eq_neg_one_of_neg below, Int.sign_eq_one_of_pos above]
      omega
  · rcases Int.lt_or_eq_of_le ordered with above | rfl
    · rw [Int.sign_eq_one_of_pos above, Int.sign_zero]
      omega
    · exact Int.le_refl _
  · have magnitudes := roundedMagnitude_mono (show m.natAbs ≤ n.natAbs by omega)
    rw [Int.sign_eq_one_of_pos above, Int.sign_eq_one_of_pos (Int.lt_of_lt_of_le above ordered)]
    omega

/-- Whole numbers up to 2^53 are not rounded. -/
theorem roundedInt_of_le {n : Int} (small : n.natAbs ≤ 2 ^ 53) : roundedInt n = n := by
  rw [roundedInt, roundedMagnitude_of_le small, Int.sign_mul_natAbs]

/-! ### The binary64 number -/

/-- A number whose last place is not below one is a whole number. -/
theorem units_of_exponent {x : Binary64} {place : Nat} (exponent : x.exponent = place) :
    x.units = (if x.negative then -1 else 1) * (x.mantissa * 2 ^ place : Nat) * unitsOfOne := by
  have shift : (x.exponent + 1074).toNat = place + 1074 := by omega
  have magnitude : ((x.mantissa <<< (place + 1074) : Nat) : Int) =
      (x.mantissa * 2 ^ place : Nat) * unitsOfOne := by
    have scale (count power : Nat) : ((count <<< (place + power) : Nat) : Int) =
        (count * 2 ^ place : Nat) * Int.pow 2 power := by
      rw [Nat.shiftLeft_eq, Nat.pow_add, ← Nat.mul_assoc, Int.natCast_mul]
      exact congrArg (_ * ·) (Int.natCast_pow 2 power)
    exact scale x.mantissa 1074
  rw [units, shift, magnitude]
  cases x.negative with
  | true => simp only [if_true, Int.neg_mul, Int.one_mul]
  | false => simp only [Bool.false_eq_true, if_false, Int.one_mul]

/-- A mantissa of 53 bits, or one that was carried, makes a whole number with a place that is
not too high. -/
theorem exists_ofParts? (negative : Bool) {mantissa place : Nat} (least : 2 ^ 52 ≤ mantissa)
    (most : mantissa ≤ 2 ^ 53) (bounded : place ≤ 970) :
    ∃ x, ofParts? negative mantissa place = some x ∧
      x.units = (if negative then -1 else 1) * (mantissa * 2 ^ place : Nat) * unitsOfOne := by
  rcases Nat.lt_or_eq_of_le most with below | rfl
  · have finite : Canonical mantissa place :=
      ⟨below, by omega, by omega, .inl least⟩
    exact ⟨⟨negative, mantissa, place, finite⟩, dif_pos finite, units_of_exponent rfl⟩
  · have wide : ¬Canonical (2 ^ 53) place := fun finite => Nat.lt_irrefl _ finite.1
    have carried : 2 ^ 53 = Nat.pow 2 53 ∧ -1075 ≤ (place : Int) ∧ (place : Int) ≤ 970 :=
      ⟨rfl, by omega, by omega⟩
    refine ⟨_, (dif_neg wide).trans (dif_pos carried), ?_⟩
    rw [units_of_exponent (show (place : Int) + 1 = (place + 1 : Nat) by omega)]
    have doubled : Nat.pow 2 52 * 2 = 2 ^ 53 := by decide
    have moved : Nat.pow 2 52 * 2 ^ (place + 1) = 2 ^ 53 * 2 ^ place := by
      rw [Nat.pow_succ 2 place, Nat.mul_comm (2 ^ place) 2, ← Nat.mul_assoc, doubled]
    rw [moved]

/-- The exponent of a whole number that has more than 53 bits. -/
theorem exponentFor_of_le {num : Nat} (large : 2 ^ 53 ≤ num) :
    exponentFor num 1 = (num.log2 - 52 : Nat) := by
  have nonzero : num ≠ 0 := by omega
  have bits : 53 ≤ num.log2 := (Nat.le_log2 nonzero).mpr large
  have estimate : (num.log2 : Int) - (Nat.log2 1 : Nat) - 53 = (num.log2 - 53 : Nat) := by
    have one : Nat.log2 1 = 0 := by decide
    omega
  have enough : ¬num / 2 ^ (num.log2 - 53) < 2 ^ 53 := by
    rw [Nat.not_lt, Nat.le_div_iff_mul_le (Nat.two_pow_pos _), ← Nat.pow_add,
      Nat.add_sub_cancel' bits]
    exact Nat.log2_self_le nonzero
  have positive : ¬((num.log2 - 53 : Nat) : Int) < 0 := by omega
  simp only [exponentFor, estimate, scaled, if_neg positive, Int.toNat_natCast, Nat.one_mul,
    Nat.pow_eq, if_neg enough]
  omega

/-- A whole number that is not too large becomes the number nearest to it. -/
theorem exists_ofInt?_rounded {n : Int} (bounded : n.natAbs.log2 ≤ 1022) :
    ∃ x, ofInt? n = some x ∧ x.units = roundedInt n * unitsOfOne := by
  by_cases small : n.natAbs < 2 ^ 53
  · rw [roundedInt_of_le (Nat.le_of_lt small)]
    exact exists_ofInt? small
  · have large : 2 ^ 53 ≤ n.natAbs := Nat.le_of_not_lt small
    have nonzero : n.natAbs ≠ 0 := by omega
    have bits : 52 ≤ n.natAbs.log2 := Nat.le_of_succ_le ((Nat.le_log2 nonzero).mpr large)
    obtain ⟨least, most⟩ := mantissa_bounds bits
    obtain ⟨x, made, value⟩ := exists_ofParts? (n < 0) least most
      (show n.natAbs.log2 - 52 ≤ 970 by omega)
    have shifted : scaled n.natAbs 1 (n.natAbs.log2 - 52 : Nat) =
        (n.natAbs, lastPlace n.natAbs) := by
      have positive : ¬((n.natAbs.log2 - 52 : Nat) : Int) < 0 := by omega
      rw [scaled, if_neg positive, Int.toNat_natCast, Nat.one_mul]
      rfl
    refine ⟨x, ?_, ?_⟩
    · simp only [ofInt?, nearest?, if_neg nonzero, exponentFor_of_le large, shifted]
      exact made
    · rw [value, roundedInt, roundedMagnitude]
      congr 2
      split
      · next below =>
        rw [Int.sign_eq_neg_one_of_neg (of_decide_eq_true below)]
      · next above =>
        have positive : 0 < n := by
          have notBelow : ¬n < 0 := fun below => above (decide_eq_true below)
          omega
        rw [Int.sign_eq_one_of_pos positive]

end Binary64

end Stencil
