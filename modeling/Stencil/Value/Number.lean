import Stencil.Binary64.Order

/-!
# Numbers

A number is either a whole number or a finite binary64 number, and the two stay
distinct: `1` and `1.0` print differently and are different elements of an array,
although they compare as equal.

Numbers compare by their binary64 values. A whole number of at most 53 bits is its
own binary64 value, so rounding is left out for these.
-/

namespace Stencil

/-- A whole number or a number with a fraction. -/
inductive Number where
  | int (n : Int)
  | float (x : Binary64)
  deriving DecidableEq, Repr

namespace Number

/-- The number as comparisons see it: a whole number is rounded to binary64. -/
def toExtended : Number → Extended
  | .int n =>
    match Binary64.ofInt? n with
    | some x => .finite x
    | none => .infinite (n < 0)
  | .float x => .finite x

/-- The least whole number that needs more than 53 bits. -/
def exactLimit : Nat := Nat.pow 2 53

/-- The place of a number on the scale of comparisons. A whole number of at most 53
bits takes its place without rounding. -/
def scaled : Number → Scaled
  | .int n =>
    if n.natAbs < exactLimit then .finite (n * Binary64.unitsOfOne)
    else (int n).toExtended.scaled
  | .float x => .finite x.units

/-- How two numbers compare. Whole numbers of at most 53 bits compare as integers. -/
def order (a b : Number) : Ordering :=
  match a, b with
  | .int m, .int n =>
    if m.natAbs < exactLimit && n.natAbs < exactLimit then compare m n
    else a.scaled.order b.scaled
  | _, _ => a.scaled.order b.scaled

/-- The least 64-bit signed integer. -/
def leastInt : Int := -Int.pow 2 63

/-- The greatest 64-bit signed integer. -/
def greatestInt : Int := Int.pow 2 63 - 1

/-- The nearest integer of the 64-bit signed range. -/
def saturate (n : Int) : Int := max leastInt (min n greatestInt)

/-- The number as an index or a range bound: its fraction is dropped, and beyond
the 64-bit signed range the end of the range stands for it. -/
def toIndex : Number → Int
  | .int n => saturate n
  | .float x => saturate x.truncate

/-- Equality of kind and value; the two zeros with a fraction are equal. -/
def same : Number → Number → Bool
  | .int m, .int n => m = n
  | .float x, .float y => x.same y
  | _, _ => false

/-- A saturated integer is in the 64-bit signed range. -/
theorem saturate_range (n : Int) : leastInt ≤ saturate n ∧ saturate n ≤ greatestInt := by
  have positive : 0 < Int.pow 2 63 := by decide
  simp only [saturate, leastInt, greatestInt]
  omega

/-- An integer of the 64-bit signed range saturates to itself. -/
theorem saturate_of_range (n : Int) (low : leastInt ≤ n) (high : n ≤ greatestInt) :
    saturate n = n := by
  simp only [saturate, leastInt, greatestInt] at *
  omega

/-- The place of a number is that of its binary64 value. -/
theorem scaled_eq (a : Number) : a.scaled = a.toExtended.scaled := by
  cases a with
  | float x => rfl
  | int n =>
    rw [scaled]
    split
    · next exactly =>
      obtain ⟨x, read, units⟩ := Binary64.exists_ofInt? exactly
      rw [toExtended, read, ← units]
      rfl
    · rfl

/-- Numbers compare as their binary64 values do. -/
theorem order_eq (a b : Number) : a.order b = a.toExtended.scaled.order b.toExtended.scaled := by
  rw [← scaled_eq, ← scaled_eq]
  unfold Number.order
  split
  · next m n =>
    split
    · next exactly =>
      rw [Bool.and_eq_true, decide_eq_true_iff, decide_eq_true_iff] at exactly
      rw [scaled, scaled, if_pos exactly.1, if_pos exactly.2, Scaled.order_ofInt]
    · rfl
  · rfl

end Number

end Stencil
