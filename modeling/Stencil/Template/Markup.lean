import Stencil.Condition.Reader
import Stencil.Template.Basic

/-!
# The markup of tags

What stands in a tag after its name. An assignment splits at its first equals
sign; the name of a loop's element, the word `in` and the collection have white
space between them, and the collection is a fragment, so white space in it must
be quoted; the name of a capture is any text without white space.
-/

namespace Stencil.Template

open Markup

/-- The name and the value of an assignment. Only the identifier at the start of the
left side counts. -/
def readAssign (markup : List Char) : Except SyntaxError (String × Expr) :=
  match Text.splitAt? ['='] markup with
  | none => .error (.invalid .assign)
  | some (left, right) =>
    match identifier? (Text.trim left) with
    | none => .error .identifierExpected
    | some (name, _) => (Expr.parse right).map (name, ·)

/-- The element's name and the fragment of the collection, and the rest. -/
def readLoopParts? (markup : List Char) : Option (String × List Char × List Char) := do
  let (item, afterItem) ← identifier? markup
  let afterIn ← keyword? "in".toList (Text.trimStart afterItem)
  let (collection, rest) ← fragment? (Text.trimStart afterIn)
  return (item, collection, Text.trimStart rest)

/-- Whether the end of a loop's markup asks for reversed order; none if it is
anything else. -/
def readReversed? (text : List Char) : Option Bool :=
  match text, keyword? "reversed".toList text with
  | [], _ => some false
  | _, some rest => if (Text.trimStart rest).isEmpty then some true else none
  | _, none => none

/-- The head of a loop. A mistake in the collection is reported before one in what
follows it. -/
def readLoopHead (markup : List Char) : Except SyntaxError LoopHead :=
  match readLoopParts? markup with
  | none => .error (.invalid .loop)
  | some (item, fragment, rest) =>
    match Expr.parse fragment with
    | .error cause => .error cause
    | .ok collection =>
      match readReversed? rest with
      | none => .error (.invalid .loop)
      | some reversed => .ok ⟨item, collection, reversed⟩

/-- The name of a capture. -/
def readCaptureName (markup : List Char) : Except SyntaxError String :=
  let name := Text.trim markup
  if name.isEmpty || name.any Text.isWhite then .error (.invalid .capture)
  else .ok (String.ofList name)

/-- The value of an output; an empty one prints nothing. -/
def readOutput (inner : List Char) : Except SyntaxError Expr :=
  if inner.isEmpty then .ok (.literal .null) else Expr.parse inner

end Stencil.Template
