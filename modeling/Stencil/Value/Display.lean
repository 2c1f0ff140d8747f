import Stencil.Binary64.Shortest
import Stencil.Value.Basic

/-!
# The text of values

Two texts of a value: its compact JSON text, without spaces and with the keys of
objects in order, and the text an output prints, which differs for null, strings
and arrays. Both are appended to a text that is given, so that the work on a long
value is proportional to its length.
-/

namespace Stencil

/-- Numbers from 0.00001 up to 10^16 are written without an exponent part. -/
def Number.plainRange : Binary64.PlainRange := ⟨-5, 16⟩

/-- Whole numbers have no fraction and other numbers always show that they are
not whole. -/
def Number.text : Number → String
  | .int n => toString n
  | .float x => String.ofList (x.text plainRange)

namespace Value

/-- The digits of hexadecimal escapes are in lower case. -/
def hexDigit (n : Nat) : Char := Nat.digitChar n

/-- A character inside a JSON string. The quote, the backslash and the control
characters below the space are escaped, the latter by a letter where JSON has
one. -/
def escaped (out : String) (c : Char) : String :=
  if c = '"' then out ++ "\\\""
  else if c = '\\' then out ++ "\\\\"
  else if 0x20 ≤ c.toNat then out.push c
  else
    match c.toNat with
    | 0x8 => out ++ "\\b"
    | 0x9 => out ++ "\\t"
    | 0xA => out ++ "\\n"
    | 0xC => out ++ "\\f"
    | 0xD => out ++ "\\r"
    | n => ((out ++ "\\u00").push (hexDigit (n / 16))).push (hexDigit (n % 16))

/-- A JSON string. -/
def quoted (out s : String) : String := (s.toList.foldl escaped (out.push '"')).push '"'

mutual

/-- Appends the compact JSON text of a value. -/
def compactTo (out : String) : Value → String
  | .null => out ++ "null"
  | .bool b => out ++ (if b then "true" else "false")
  | .number n => out ++ n.text
  | .string s => quoted out s
  | .array [] => out ++ "[]"
  | .array (item :: items) => (itemsTo (compactTo (out.push '[') item) items).push ']'
  | .object [] => (out.push '{').push '}'
  | .object ((key, value) :: fields) =>
    (fieldsTo (compactTo ((quoted (out.push '{') key).push ':') value) fields).push '}'

/-- Appends elements that follow another one. -/
def itemsTo (out : String) : List Value → String
  | [] => out
  | item :: items => itemsTo (compactTo (out.push ',') item) items

/-- Appends entries that follow another one. -/
def fieldsTo (out : String) : List (String × Value) → String
  | [] => out
  | (key, value) :: fields =>
    fieldsTo (compactTo ((quoted (out.push ',') key).push ':') value) fields

end

/-- The compact JSON text. -/
def compact (v : Value) : String := compactTo "" v

mutual

/-- Appends what an output prints: nothing for null, a string as it is, the
elements of an array one after the other, and an object as JSON. -/
def displayTo (out : String) : Value → String
  | .null => out
  | .bool b => out ++ (if b then "true" else "false")
  | .number n => out ++ n.text
  | .string s => out ++ s
  | .array items => displayItemsTo out items
  | .object fields => compactTo out (.object fields)

/-- Appends what an output prints for elements in turn. -/
def displayItemsTo (out : String) : List Value → String
  | [] => out
  | item :: items => displayItemsTo (displayTo out item) items

end

/-- The text an output prints. -/
def display (v : Value) : String := displayTo "" v

end Value

end Stencil
