import Stencil.Text.Search
import Stencil.Value.Basic

/-!
# Comparing values

Two strings compare by code points, two booleans with false first, and two
numbers, or a number and a numeric string, by their binary64 values. Null equals
null. Every other pair of values is either equal as a whole or incomparable, and
no operator but `!=` holds of incomparable values.
-/

namespace Stencil.Value

mutual

/-- Equality of whole values. Whole numbers and numbers with a fraction differ. -/
def same : Value → Value → Bool
  | .null, .null => true
  | .bool a, .bool b => a == b
  | .number m, .number n => m.same n
  | .string s, .string t => s == t
  | .array xs, .array ys => sameItems xs ys
  | .object xs, .object ys => sameFields xs ys
  | _, _ => false

/-- Equality of lists, element by element. -/
def sameItems : List Value → List Value → Bool
  | [], [] => true
  | x :: xs, y :: ys => same x y && sameItems xs ys
  | _, _ => false

/-- Equality of the entries of two objects, which are in the same order. -/
def sameFields : List (String × Value) → List (String × Value) → Bool
  | [], [] => true
  | (k, x) :: xs, (l, y) :: ys => k == l && same x y && sameFields xs ys
  | _, _ => false

end

/-- The place of a numeric string on the scale of comparisons. -/
def scaledText? (s : String) : Option Scaled := (Extended.ofText? s.toList).map (·.scaled)

/-- How two values compare, if they do. -/
def compare? (a b : Value) : Option Ordering :=
  match a, b with
  | .string s, .string t => some (compare s t)
  | .number m, .number n => some (m.order n)
  | .bool p, .bool q => some (compare p q)
  | .number m, .string t => (scaledText? t).map m.scaled.order
  | .string s, .number n => (scaledText? s).map (·.order n.scaled)
  | _, _ => if a.same b then some .eq else none

/-- Whether two values are equal for `==`. -/
def equal (a b : Value) : Bool := a.compare? b = some .eq

/-- Whether an element of an array is equal to a string, whose place on the scale is
given if it is numeric. -/
def equalString (text : String) (scaled : Option Scaled) : Value → Bool
  | .number m => scaled.map m.scaled.order = some .eq
  | item => item.equal (.string text)

/-- Whether a value holds another: a string a part of it, an array an equal
element, an object a key. -/
def contains (whole part : Value) : Bool :=
  match whole, part with
  | .string s, .string t => Text.occursIn t.toList s.toList
  | .array items, .string t =>
    let scaled := scaledText? t
    items.any (equalString t scaled)
  | .array items, _ => items.any (·.equal part)
  | .object fields, .string key => Dict.contains key fields
  | _, _ => false

/-- An array holds a value that one of its elements is equal to. -/
theorem contains_array (items : List Value) (part : Value) :
    contains (.array items) part = items.any (·.equal part) := by
  cases part with
  | string t =>
    rw [contains]
    congr 1
    funext item
    cases item <;> rfl
  | _ => rfl

end Stencil.Value
