/-!
# Finite binary64 numbers

A binary64 number with a finite value is a sign, a mantissa below 2^53 and an
exponent. The mantissa is normal (at least 2^52) unless the exponent is the
least one, so every number has one form; only zero has two signs.

Arithmetic is exact arithmetic followed by one rounding to the nearest number,
halves to the even mantissa. Every finite number is a whole multiple of
2^-1074, so order, closeness and truncation are integer arithmetic on these
units. No operation relies on machine floating point.
-/

namespace Stencil

/-- The mantissa and exponent of a finite binary64 number. -/
def Binary64.Canonical (mantissa : Nat) (exponent : Int) : Prop :=
  mantissa < Nat.pow 2 53 ∧ -1074 ≤ exponent ∧ exponent ≤ 971 ∧
    (Nat.pow 2 52 ≤ mantissa ∨ exponent = -1074)

instance (mantissa : Nat) (exponent : Int) : Decidable (Binary64.Canonical mantissa exponent) :=
  inferInstanceAs (Decidable (_ ∧ _))

/-- The number `mantissa * 2 ^ exponent` with a sign. -/
structure Binary64 where
  negative : Bool
  mantissa : Nat
  exponent : Int
  canonical : Binary64.Canonical mantissa exponent
  deriving DecidableEq, Repr

namespace Binary64

/-- The zero of a sign. -/
def zero (negative : Bool) : Binary64 := ⟨negative, 0, -1074, by decide⟩

/-- The number with the given parts, if they are those of a finite number. A
mantissa that a rounding carried to 2^53 is renormalized first. -/
def ofParts? (negative : Bool) (mantissa : Nat) (exponent : Int) : Option Binary64 :=
  if finite : Canonical mantissa exponent then
    some ⟨negative, mantissa, exponent, finite⟩
  else if carried : mantissa = Nat.pow 2 53 ∧ -1075 ≤ exponent ∧ exponent ≤ 970 then
    some ⟨negative, Nat.pow 2 52, exponent + 1, by simp only [Canonical, Nat.pow_eq]; omega⟩
  else
    none

/-- The quotient rounded to the nearest whole number, a half to the even one. -/
def roundQuotient (num den : Nat) : Nat :=
  let floor := num / den
  let twice := 2 * (num % den)
  if twice < den ∨ (twice = den ∧ floor % 2 = 0) then floor else floor + 1

/-- The numerator and denominator of `num / den / 2 ^ exponent`. -/
def scaled (num den : Nat) (exponent : Int) : Nat × Nat :=
  if exponent < 0 then (num * Nat.pow 2 (-exponent).toNat, den) else (num, den * Nat.pow 2 exponent.toNat)

/-- The exponent at which the mantissa of a positive quotient has 53 bits, or
the least exponent if it is larger. -/
def exponentFor (num den : Nat) : Int :=
  let estimate : Int := (num.log2 : Int) - den.log2 - 53
  let (n, d) := scaled num den estimate
  max (if n / d < Nat.pow 2 53 then estimate else estimate + 1) (-1074)

/-- The number nearest to `num / den`, halves to the even mantissa; none beyond
the largest finite number. The denominator is not zero. -/
def nearest? (negative : Bool) (num den : Nat) : Option Binary64 :=
  if num = 0 then some (zero negative)
  else
    let exponent := exponentFor num den
    let (n, d) := scaled num den exponent
    ofParts? negative (roundQuotient n d) exponent

/-- The number nearest to an integer; none beyond the largest finite number. -/
def ofInt? (n : Int) : Option Binary64 := nearest? (n < 0) n.natAbs 1

/-- The magnitude as a numerator and a denominator. -/
def ratio (x : Binary64) : Nat × Nat := scaled x.mantissa 1 (-x.exponent)

/-- The rounded product; none if it overflows. -/
def mul? (x y : Binary64) : Option Binary64 :=
  let (a, b) := x.ratio
  let (c, d) := y.ratio
  nearest? (x.negative != y.negative) (a * c) (b * d)

/-- The rounded quotient; none if it overflows. The divisor is not zero. -/
def div? (x y : Binary64) : Option Binary64 :=
  let (a, b) := x.ratio
  let (c, d) := y.ratio
  nearest? (x.negative != y.negative) (a * d) (b * c)

/-- The number with the other sign. -/
def neg (x : Binary64) : Binary64 := { x with negative := !x.negative }

/-- The value as a multiple of 2^-1074. -/
def units (x : Binary64) : Int :=
  let magnitude : Int := (x.mantissa <<< (x.exponent + 1074).toNat : Nat)
  if x.negative then -magnitude else magnitude

/-- The number one as a multiple of 2^-1074. -/
def unitsOfOne : Int := Int.pow 2 1074

/-- The value without its fraction. -/
def truncate (x : Binary64) : Int := x.units.tdiv unitsOfOne

/-- Numeric equality: the two zeros are equal. -/
def same (x y : Binary64) : Bool := x.units = y.units

/-- Dividing by one needs no rounding. -/
theorem roundQuotient_one (num : Nat) : roundQuotient num 1 = num := by
  simp [roundQuotient, Nat.mod_one]

/-- The exponent of a whole number that has at most 53 bits. -/
theorem exponentFor_one {num : Nat} (positive : num ≠ 0) (small : num < Nat.pow 2 53) :
    exponentFor num 1 = (num.log2 : Int) - 52 := by
  have bits : num.log2 < 53 := (Nat.log2_lt positive).mpr small
  have enough : Nat.pow 2 53 ≤ num * Nat.pow 2 (53 - num.log2) := by
    have floor := Nat.mul_le_mul_right (2 ^ (53 - num.log2)) (Nat.log2_self_le positive)
    rw [← Nat.pow_add, Nat.add_sub_cancel' (Nat.le_of_lt bits)] at floor
    exact floor
  have estimate : (num.log2 : Int) - (Nat.log2 1 : Nat) - 53 = -((53 - num.log2 : Nat) : Int) := by
    have one : Nat.log2 1 = 0 := by decide
    omega
  have negative : -((53 - num.log2 : Nat) : Int) < 0 := by omega
  simp only [exponentFor, scaled, estimate, if_pos negative, Int.neg_neg, Int.toNat_natCast,
    Nat.div_one, if_neg (Nat.not_lt.mpr enough)]
  omega

/-- A whole number with at most 53 bits is a binary64 number itself. -/
theorem exists_ofInt? {n : Int} (small : n.natAbs < Nat.pow 2 53) :
    ∃ x, ofInt? n = some x ∧ x.units = n * unitsOfOne := by
  by_cases isZero : n = 0
  · exact ⟨zero false, by subst isZero; rfl, by
      rw [isZero, Int.zero_mul, units, zero, Nat.zero_shiftLeft]
      rfl⟩
  · have positive : n.natAbs ≠ 0 := by omega
    have bits : n.natAbs.log2 < 53 := (Nat.log2_lt positive).mpr small
    have exponent := exponentFor_one positive small
    have shifted : scaled n.natAbs 1 (exponentFor n.natAbs 1) =
        (n.natAbs * Nat.pow 2 (52 - n.natAbs.log2), 1) := by
      rw [exponent, scaled]
      split
      · next below =>
        rw [show (-((n.natAbs.log2 : Int) - 52)).toNat = 52 - n.natAbs.log2 by omega]
      · next above =>
        have full : n.natAbs.log2 = 52 := by omega
        simp [full]
    have least : Nat.pow 2 52 ≤ n.natAbs * Nat.pow 2 (52 - n.natAbs.log2) := by
      have floor := Nat.mul_le_mul_right (2 ^ (52 - n.natAbs.log2)) (Nat.log2_self_le positive)
      rw [← Nat.pow_add, Nat.add_sub_cancel' (by omega)] at floor
      exact floor
    have most : n.natAbs * Nat.pow 2 (52 - n.natAbs.log2) < Nat.pow 2 53 := by
      have ceiling := Nat.mul_lt_mul_of_pos_right (Nat.lt_log2_self (n := n.natAbs))
        (Nat.two_pow_pos (52 - n.natAbs.log2))
      rw [← Nat.pow_add, show n.natAbs.log2 + 1 + (52 - n.natAbs.log2) = 53 by omega] at ceiling
      exact ceiling
    have finite : Canonical (n.natAbs * Nat.pow 2 (52 - n.natAbs.log2))
        ((n.natAbs.log2 : Int) - 52) :=
      ⟨most, by omega, by omega, .inl least⟩
    have value : (((n.natAbs * Nat.pow 2 (52 - n.natAbs.log2)) <<<
        ((n.natAbs.log2 : Int) - 52 + 1074).toNat : Nat) : Int) = n.natAbs * unitsOfOne := by
      have cast (power : Nat) : ((2 ^ power : Nat) : Int) = Int.pow 2 power :=
        Int.natCast_pow 2 power
      rw [Nat.shiftLeft_eq, Nat.pow_eq, Nat.mul_assoc, ← Nat.pow_add, Int.natCast_mul, cast,
        show 52 - n.natAbs.log2 + ((n.natAbs.log2 : Int) - 52 + 1074).toNat = 1074 by omega,
        unitsOfOne]
    rw [exponent] at shifted
    refine ⟨⟨n < 0, _, _, finite⟩, ?_, ?_⟩
    · simp only [ofInt?, nearest?, if_neg positive, exponent, shifted, roundQuotient_one,
        ofParts?, dif_pos finite]
    · simp only [units, value, decide_eq_true_eq]
      split
      · next below => rw [← Int.neg_mul, show -(n.natAbs : Int) = n by omega]
      · next above => rw [show (n.natAbs : Int) = n by omega]

end Binary64

end Stencil
