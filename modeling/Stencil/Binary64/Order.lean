import Stencil.Binary64.Decimal

/-!
# Comparing numeric values

Finite values are whole multiples of 2^-1074, so they are compared as integers on
this scale.

Order follows one rule: two values whose rounded difference is below 2^-52 are
equal, then the smaller one is less, and in every other case the first one is
greater. With a value that is not a number the last case applies both ways.
-/

namespace Stencil

/-- A value on the scale of comparisons. -/
inductive Scaled where
  | finite (units : Int)
  | infinite (negative : Bool)
  | nan
  deriving DecidableEq, Repr

/-- The place of a value on the scale. -/
def Extended.scaled : Extended → Scaled
  | .finite x => .finite x.units
  | .infinite negative => .infinite negative
  | .nan => .nan

namespace Scaled

/-- The least difference, in units of 2^-1074, that rounds to 2^-52 or more: the
midpoint 2^-52 - 2^-106 below it, from which a half goes up to the even mantissa. -/
def closeness : Nat := Nat.pow 2 1022 - Nat.pow 2 968

/-- The bound is not zero, so equal numbers are close. -/
theorem closeness_pos : 0 < closeness := by decide +kernel

/-- Whether the rounded difference is below 2^-52. A difference with an infinity
is never that small. -/
def close : Scaled → Scaled → Bool
  | .finite x, .finite y => (x - y).natAbs < closeness
  | _, _ => false

/-- Numeric order; false whenever a value is not a number. -/
def less : Scaled → Scaled → Bool
  | .nan, _ => false
  | _, .nan => false
  | .finite x, .finite y => x < y
  | .infinite negative, .finite _ => negative
  | .finite _, .infinite negative => !negative
  | .infinite first, .infinite second => first && !second

/-- How two values compare. -/
def order (x y : Scaled) : Ordering :=
  if x.close y then .eq else if x.less y then .lt else .gt

/-- Closeness does not depend on the order of the two values. -/
theorem close_comm (x y : Scaled) : x.close y = y.close x := by
  unfold close
  split
  · congr 2
    omega
  · split
    · next different => exact absurd rfl (different _ _ rfl)
    · rfl

/-- Every finite value is close to itself. -/
theorem close_self (units : Int) : (finite units).close (.finite units) = true := by
  simp [close, closeness_pos]

/-- Two whole numbers are close only if they are the same. -/
theorem close_ofInt (m n : Int) :
    (finite (m * Binary64.unitsOfOne)).close (.finite (n * Binary64.unitsOfOne)) = true ↔
      m = n := by
  have wide : closeness < Binary64.unitsOfOne.natAbs := by decide +kernel
  rw [close, decide_eq_true_iff, ← Int.sub_mul, Int.natAbs_mul]
  refine ⟨fun few => Decidable.byContradiction fun different => ?_, fun same => ?_⟩
  · have apart : 1 ≤ (m - n).natAbs := by omega
    have far := Nat.mul_le_mul_right Binary64.unitsOfOne.natAbs apart
    rw [Nat.one_mul] at far
    exact absurd (Nat.lt_trans few wide) (Nat.not_lt.mpr far)
  · rw [same, Int.sub_self, Int.natAbs_zero, Nat.zero_mul]
    exact closeness_pos

/-- Whole numbers on the scale compare as integers. -/
theorem order_ofInt (m n : Int) :
    (finite (m * Binary64.unitsOfOne)).order (.finite (n * Binary64.unitsOfOne)) =
      compare m n := by
  have positive : 0 < Binary64.unitsOfOne := by decide +kernel
  have less : m * Binary64.unitsOfOne < n * Binary64.unitsOfOne ↔ m < n :=
    ⟨fun below => Int.lt_of_mul_lt_mul_right below (Int.le_of_lt positive),
      fun below => Int.mul_lt_mul_of_pos_right below positive⟩
  simp only [order, close_ofInt, Scaled.less, decide_eq_true_eq, less]
  change _ = compareOfLessAndEq m n
  rw [compareOfLessAndEq]
  rcases Int.lt_trichotomy m n with below | same | above
  · simp only [if_neg (Int.ne_of_lt below), if_pos below]
  · simp only [same, if_neg (Int.lt_irrefl n), if_true]
  · simp only [if_neg (Int.ne_of_gt above), if_neg (Int.lt_asymm above)]

end Scaled

end Stencil
