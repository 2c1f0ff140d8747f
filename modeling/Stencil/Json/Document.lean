import Stencil.Json.Lexeme

/-!
# JSON documents

A document is the tree that a JSON text spells, before its numbers and strings
are asked for their values: the entries of an object stand in the order of the
text, repeated keys included, and a numeral that is too large or a string with a
lone surrogate half is a node without a value.

Reading takes one lexeme after the other and keeps the open arrays and objects on
a stack, so it needs no recursion into the text. `Document.value?` then asks for
the value of the whole tree.
-/

namespace Stencil.Json

/-- The tree of a JSON text. -/
inductive Document where
  | null
  | bool (b : Bool)
  | number (n : Option Number)
  | string (s : Option String)
  | array (items : List Document)
  | object (entries : List (Option String × Document))

/-- An array or object whose end has not been read. Its parts come latest first;
an object also has the key whose value is being read. -/
inductive Open where
  | array (items : List Document)
  | object (entries : List (Option String × Document)) (key : Option String)

/-- What may come next. -/
inductive Place where
  /-- A value must come. -/
  | value
  /-- A value or the end of an array that is still empty. -/
  | firstItem
  /-- A key or the end of an object that is still empty. -/
  | firstKey
  /-- A key must come, after the given entries. -/
  | key (entries : List (Option String × Document))
  /-- The colon after a key must come. -/
  | colon (entries : List (Option String × Document)) (key : Option String)
  /-- A value has been read in full. -/
  | complete (node : Document)

/-- A point inside a text: what may come next, and the arrays and objects around
it, the innermost first. -/
structure Reading where
  place : Place
  around : List Open

/-- The text of string units, if they denote characters. -/
def unitsText? (units : List Unit16) : Option String := (Unit16.join units).map String.ofList

/-- Starts the value that a lexeme begins. -/
def Reading.begin? (around : List Open) : Lexeme → Option Reading
  | .null => some ⟨.complete .null, around⟩
  | .bool b => some ⟨.complete (.bool b), around⟩
  | .numeral n => some ⟨.complete (.number n.toNumber?), around⟩
  | .string units => some ⟨.complete (.string (unitsText? units)), around⟩
  | .openArray => some ⟨.firstItem, .array [] :: around⟩
  | .openObject => some ⟨.firstKey, around⟩
  | _ => none

/-- Takes one more lexeme; none if it cannot come here. -/
def Reading.step? (reading : Reading) (lexeme : Lexeme) : Option Reading :=
  match reading.place, reading.around, lexeme with
  | .value, around, _ => begin? around lexeme
  | .firstItem, .array [] :: around, .closeArray => some ⟨.complete (.array []), around⟩
  | .firstItem, around, _ => begin? around lexeme
  | .firstKey, around, .closeObject => some ⟨.complete (.object []), around⟩
  | .firstKey, around, .string units => some ⟨.colon [] (unitsText? units), around⟩
  | .key entries, around, .string units => some ⟨.colon entries (unitsText? units), around⟩
  | .colon entries key, around, .colon => some ⟨.value, .object entries key :: around⟩
  | .complete node, .array items :: around, .comma =>
    some ⟨.value, .array (node :: items) :: around⟩
  | .complete node, .array items :: around, .closeArray =>
    some ⟨.complete (.array (node :: items).reverse), around⟩
  | .complete node, .object entries key :: around, .comma =>
    some ⟨.key ((key, node) :: entries), around⟩
  | .complete node, .object entries key :: around, .closeObject =>
    some ⟨.complete (.object ((key, node) :: entries).reverse), around⟩
  | _, _, _ => none

/-- The document a text spells; none unless the whole text is one JSON value. -/
def Document.ofText? (text : List Char) : Option Document := do
  let reading ← (← lexemes? text).foldlM Reading.step? ⟨.value, []⟩
  match reading.place, reading.around with
  | .complete node, [] => some node
  | _, _ => none

/-- Arrays and objects may stand in each other up to this depth. -/
def deepest : Nat := 127

mutual

/-- The value of a tree with at most the given number of arrays and objects inside
each other. Of the entries with one key the last one counts. -/
def Document.value? : (levels : Nat) → Document → Option Value
  | _, .null => some .null
  | _, .bool b => some (.bool b)
  | _, .number n => n.map .number
  | _, .string s => s.map .string
  | 0, .array _ => none
  | levels + 1, .array items => (itemValues? levels items).map .array
  | 0, .object _ => none
  | levels + 1, .object entries =>
    (entryValues? levels entries).map fun fields => .object (Dict.ofList fields)

/-- The values of elements. -/
def Document.itemValues? (levels : Nat) : List Document → Option (List Value)
  | [] => some []
  | item :: items => do
    let v ← item.value? levels
    return v :: (← itemValues? levels items)

/-- The values of entries. -/
def Document.entryValues? (levels : Nat) :
    List (Option String × Document) → Option (List (String × Value))
  | [] => some []
  | (key, node) :: entries => do
    let k ← key
    let v ← node.value? levels
    return (k, v) :: (← entryValues? levels entries)

end

/-- The value a JSON text denotes. -/
def read? (text : String) : Option Value := do
  (← Document.ofText? text.toList).value? deepest

end Stencil.Json
