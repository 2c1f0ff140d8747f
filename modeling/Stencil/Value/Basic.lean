import Stencil.Dict
import Stencil.Text.White
import Stencil.Value.Number

/-!
# Values

The values that templates print, compare and bind: null, booleans, numbers,
strings, arrays and objects. A number is either a whole number or a finite
binary64 number, and the two stay distinct: `1` and `1.0` print differently and
are different elements of an array, although they compare as equal.

The entries of an object are in key order, so an object is a dictionary.
-/

namespace Stencil

/-- A value. The fields of an object are in key order. -/
inductive Value where
  | null
  | bool (b : Bool)
  | number (n : Number)
  | string (s : String)
  | array (items : List Value)
  | object (fields : List (String × Value))
  deriving Repr

namespace Value

/-- The value of a whole number. -/
def ofInt (n : Int) : Value := .number (.int n)

/-- The value of a count. -/
def ofNat (n : Nat) : Value := .number (.int n)

/-- Null and false are falsy, every other value is truthy. -/
def truthy : Value → Bool
  | .null => false
  | .bool b => b
  | _ => true

/-- Whether the value is null. -/
def isNull : Value → Bool
  | .null => true
  | _ => false

/-- The value as an index or a range bound. A string counts if it is, between
white ends, a whole number of the 64-bit signed range. -/
def toIndex? : Value → Option Int
  | .number n => some n.toIndex
  | .string s =>
    (Text.readInt? (Text.trim s.toList)).filter fun n =>
      Number.leastInt ≤ n && n ≤ Number.greatestInt
  | _ => none

/-- The elements of a value that can be iterated over. An object yields its
entries as pairs of key and value; other values have no elements. -/
def elements? : Value → Option (List Value)
  | .array items => some items
  | .object fields => some (fields.map fun field => .array [.string field.1, field.2])
  | _ => none

/-- The member of an object under a key, or what `size`, `first` and `last` name;
null if there is neither. -/
def member (v : Value) (key : String) : Value :=
  match v with
  | .object fields =>
    match Dict.get? key fields with
    | some found => found
    | none => if key = "size" then ofNat fields.length else .null
  | .array items =>
    if key = "size" then ofNat items.length
    else if key = "first" then items.head?.getD .null
    else if key = "last" then items.getLast?.getD .null
    else .null
  | .string s => if key = "size" then ofNat s.length else .null
  | _ => .null

/-- The element of a list at a position; a negative position counts from the end. -/
def itemAt (items : List Value) (index : Int) : Value :=
  let position := if index < 0 then items.length + index else index
  if position < 0 then .null else items[position.toNat]?.getD .null

/-- The element of an array at an index value, or the member under a string. -/
def element (v index : Value) : Value :=
  match index with
  | .string key => v.member key
  | _ =>
    match v, index.toIndex? with
    | .array items, some n => itemAt items n
    | _, _ => .null

/-- A range with more elements than this is empty. -/
def longestRange : Int := 100000

/-- The integers from one bound to another, both included. A range that is too
long, or with a bound that is no integer, is empty. -/
def range (first last : Value) : List Value :=
  match first.toIndex?, last.toIndex? with
  | some a, some b =>
    if longestRange ≤ b - a then []
    else (List.range (b - a + 1).toNat).map fun offset => ofInt (a + (offset : Nat))
  | _, _ => []

end Value

end Stencil
