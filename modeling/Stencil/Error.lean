/-!
# Errors

Everything that can go wrong while a template is read or rendered, as a cause.
The wording of each cause is in `message`, and nowhere else.
-/

namespace Stencil

/-- What a markup of a tag has to look like. -/
inductive Form where
  | assign
  | loop
  | capture
  /-- A snippet call, by the name its tag was written with. -/
  | call (tag : String)
  deriving DecidableEq, Repr

/-- Why a template or a markup cannot be read. -/
inductive SyntaxError where
  | unterminatedDelimiter (opening closing : String)
  | unknownTag (name : String) (known : List String)
  | neverClosed (tag : String)
  | invalid (form : Form)
  | identifierExpected
  | numberExpected
  | integerTooLarge
  | unterminatedString
  | expressionExpected
  | rangeDotsExpected
  | expected (c : Char)
  | afterExpression (rest whole : String)
  | afterCondition (rest whole : String)
  deriving DecidableEq, Repr

/-- Why reading or rendering fails. -/
inductive Error where
  | malformed (cause : SyntaxError)
  | unknownSnippet (name : String)
  | nestingTooDeep
  /-- Assigns that are no object, by their JSON text. -/
  | assignsNotObject (text : String)
  /-- A failure that a snippet source reports. -/
  | sourceFailed (message : String)
  /-- A file that cannot be read as text. -/
  | unreadable
  /-- A JSON text that does not denote what is needed. -/
  | badJson
  deriving DecidableEq, Repr

/-- Snippets may call each other up to this depth. -/
def deepestCall : Nat := 100

/-- What a valid markup looks like. -/
def Form.message : Form → String
  | .assign => "Syntax Error in 'assign' - Valid syntax: assign [var] = [source]"
  | .loop => "Syntax Error in 'for loop' - Valid syntax: for [item] in [collection]"
  | .capture => "Syntax Error in 'capture' - Valid syntax: capture [var]"
  | .call tag =>
    "Syntax Error in '" ++ tag ++ "' - Valid syntax: " ++ tag ++
      " 'snippet' [with object|for array] [as alias] [, key: value]"

/-- The wording of a cause. -/
def SyntaxError.message : SyntaxError → String
  | .unterminatedDelimiter opening closing =>
    "'" ++ opening ++ "' was not properly terminated with '" ++ closing ++ "'"
  | .unknownTag name known =>
    "Unknown tag '" ++ name ++ "' (known tags: " ++ String.intercalate ", " known ++ ")"
  | .neverClosed tag => "'" ++ tag ++ "' tag was never closed"
  | .invalid form => form.message
  | .identifierExpected => "identifier expected"
  | .numberExpected => "number expected"
  | .integerTooLarge => "bad int"
  | .unterminatedString => "unterminated string"
  | .expressionExpected => "expression expected"
  | .rangeDotsExpected => "expected '..' in range"
  | .expected c => "expected '" ++ c.toString ++ "'"
  | .afterExpression rest whole => "unexpected '" ++ rest ++ "' in expression '" ++ whole ++ "'"
  | .afterCondition rest whole => "unexpected '" ++ rest ++ "' in condition '" ++ whole ++ "'"

/-- The wording of an error. -/
def Error.message : Error → String
  | .malformed cause => "Liquid syntax error: " ++ cause.message
  | .unknownSnippet name => "Unknown snippet '" ++ name ++ "'"
  | .nestingTooDeep =>
    "runtime error: snippet nesting exceeds " ++ toString deepestCall ++ " levels"
  | .assignsNotObject text => "runtime error: assigns must be a JSON object, got " ++ text
  | .sourceFailed message => "runtime error: " ++ message
  | .unreadable => "io error"
  | .badJson => "json error"

end Stencil
