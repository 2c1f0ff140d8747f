import Mathlib.Data.List.Induction
import Mathlib.Data.Nat.Digits.Defs
import Stencil.Text.Digits

/-!
# What decimal digits denote

A run of digits is a numeral of the base ten with the highest place first. The number that it
denotes is the sum of its digits, each multiplied by the power of ten of its place. Reading takes
the digits from the front, long runs in halves, and comes to the same number.

An integer is digits after a sign, or without one. The main statement says which texts are read as
integers, and as which.
-/

namespace Stencil.Text

/-- The number of which some digits are the decimal numeral. -/
def decimal (digits : List Char) : Nat :=
  Nat.ofDigits 10 (digits.reverse.map fun c => c.toNat - '0'.toNat)

/-- A further digit at the end moves all others up by one place. -/
theorem decimal_concat (digits : List Char) (c : Char) :
    decimal (digits ++ [c]) = 10 * decimal digits + (c.toNat - '0'.toNat) := by
  simp only [decimal, List.reverse_append, List.reverse_singleton, List.singleton_append,
    List.map_cons, Nat.ofDigits_cons]
  omega

/-- A run of digits is read as the number that it denotes. The induction is on the digits from the
last one on, which is the one that is read last. -/
theorem digitsValue_eq_decimal (digits : List Char) : digitsValue digits = decimal digits := by
  rw [digitsValue_eq]
  induction digits using List.reverseRecOn with
  | nil => rfl
  | append_singleton digits c inductionHypothesis =>
    rw [decimal_concat, ← inductionHypothesis]
    simp only [digitsValueFrom, List.foldl_append, List.foldl_cons, List.foldl_nil, digitValue]

/-- The whole numbers that are written with digits alone. -/
theorem readNat?_eq_some_iff {text : List Char} {n : Nat} :
    readNat? text = some n ↔
      text ≠ [] ∧ (∀ c ∈ text, c.isDigit = true) ∧ n = decimal text := by
  unfold readNat?
  rw [digitsValue_eq_decimal]
  by_cases wellFormed : text ≠ [] ∧ ∀ c ∈ text, c.isDigit = true
  · have accepted : (text.isEmpty || !text.all Char.isDigit) = false := by
      rw [Bool.or_eq_false_iff, List.isEmpty_eq_false_iff, Bool.not_eq_false', List.all_eq_true]
      exact wellFormed
    simp only [accepted, Bool.false_eq_true, if_false, Option.some.injEq]
    exact ⟨fun same => ⟨wellFormed.1, wellFormed.2, same.symm⟩, fun denoted => denoted.2.2.symm⟩
  · have refused : (text.isEmpty || !text.all Char.isDigit) = true := by
      rw [← Bool.not_eq_false, Bool.or_eq_false_iff, List.isEmpty_eq_false_iff,
        Bool.not_eq_false', List.all_eq_true]
      exact wellFormed
    simp only [refused, if_true, reduceCtorEq, false_iff]
    exact fun denoted => wellFormed ⟨denoted.1, denoted.2.1⟩

/-- The integer that a text denotes: digits after a minus sign, a plus sign or no sign. -/
inductive Denotes : List Char → Int → Prop where
  | unsigned {digits : List Char} (nonempty : digits ≠ [])
      (inside : ∀ c ∈ digits, c.isDigit = true) : Denotes digits (decimal digits)
  | plus {digits : List Char} (nonempty : digits ≠ [])
      (inside : ∀ c ∈ digits, c.isDigit = true) : Denotes ('+' :: digits) (decimal digits)
  | minus {digits : List Char} (nonempty : digits ≠ [])
      (inside : ∀ c ∈ digits, c.isDigit = true) : Denotes ('-' :: digits) (-decimal digits)

/-- A text is read as the integer that it denotes, and no other text is read as an integer. -/
theorem readInt?_eq_some_iff {text : List Char} {n : Int} :
    readInt? text = some n ↔ Denotes text n := by
  constructor
  · intro read
    unfold readInt? signed? at read
    split at read
    all_goals
      obtain ⟨magnitude, found, rfl⟩ := Option.map_eq_some_iff.mp read
      obtain ⟨nonempty, inside, rfl⟩ := readNat?_eq_some_iff.mp found
    · exact .minus nonempty inside
    · exact .plus nonempty inside
    · exact .unsigned nonempty inside
  · intro denoted
    cases denoted with
    | minus nonempty inside =>
      exact Option.map_eq_some_iff.mpr
        ⟨_, readNat?_eq_some_iff.mpr ⟨nonempty, inside, rfl⟩, rfl⟩
    | plus nonempty inside =>
      exact Option.map_eq_some_iff.mpr
        ⟨_, readNat?_eq_some_iff.mpr ⟨nonempty, inside, rfl⟩, rfl⟩
    | unsigned nonempty inside =>
      have read := readNat?_eq_some_iff.mpr ⟨nonempty, inside, rfl⟩
      unfold readInt? signed?
      -- The signs are no digits, so neither of the cases with a sign applies.
      split
      · exact absurd (inside '-' List.mem_cons_self) (by decide)
      · exact absurd (inside '+' List.mem_cons_self) (by decide)
      · rw [read]
        rfl

end Stencil.Text
