import Stencil.Error
import Stencil.Markup.Word

/-!
# Snippet requests

The markup of a snippet call names a snippet, may bind one value or ask for each
element of a collection, may name that value, and gives parameters. The parts are
kept as fragments, as they are written: what they denote is decided when the call
is rendered, from the variables that are bound then.
-/

namespace Stencil

/-- What a call hands to the snippet: nothing, one value, or each element of a
collection in turn. -/
inductive Target where
  | nothing
  | single (fragment : List Char)
  | each (fragment : List Char)
  deriving DecidableEq, Repr

/-- The request of a snippet call. Parameters are in the order in which their keys
are first written, no key twice. -/
structure Request where
  snippet : List Char
  target : Target
  name : Option String
  parameters : List (String × List Char)
  deriving DecidableEq, Repr

namespace Request

open Markup

/-- The name of the value inside the snippet. -/
def boundName (request : Request) : String :=
  match request.name, request.target with
  | some name, _ => name
  | none, .each _ => "item"
  | none, _ => "object"

/-- Adds a parameter. A repeated key keeps its place and takes the later fragment. -/
def withParameter (parameters : List (String × List Char)) (parameter : String × List Char) :
    List (String × List Char) :=
  if parameters.any (·.1 = parameter.1) then
    parameters.map fun held => if held.1 = parameter.1 then parameter else held
  else parameters ++ [parameter]

/-- A text without its first comma and the white space around that place. -/
def afterSeparator (text : List Char) : List Char :=
  match Text.trimStart text with
  | ',' :: rest => Text.trimStart rest
  | rest => rest

/-- A separator does not lengthen a text. -/
theorem length_afterSeparator_le (text : List Char) :
    (afterSeparator text).length ≤ text.length := by
  have trimmed := Text.length_trimStart_le text
  unfold afterSeparator
  split
  · next rest start =>
    have again := Text.length_trimStart_le rest
    rw [start, List.length_cons] at trimmed
    omega
  · exact trimmed

/-- A key, a colon and a fragment. -/
def readParameter? (text : List Char) : Option ((String × List Char) × List Char) := do
  let (key, afterKey) ← identifier? text
  match Text.trimStart afterKey with
  | ':' :: afterColon =>
    let (fragment, rest) ← fragment? (Text.trimStart afterColon)
    return ((key, fragment), rest)
  | _ => none

/-- A parameter takes at least one character. -/
theorem length_readParameter?_lt {text rest : List Char} {parameter : String × List Char}
    (found : readParameter? text = some (parameter, rest)) : rest.length < text.length := by
  simp only [readParameter?, Option.bind_eq_bind, Option.bind_eq_some_iff, Prod.exists] at found
  obtain ⟨key, afterKey, keyFound, found⟩ := found
  have keyLength := length_identifier?_lt keyFound
  have trimmed := Text.length_trimStart_le afterKey
  split at found
  · next afterColon start =>
    simp only [Option.bind_eq_some_iff, Option.pure_def, Option.some.injEq, Prod.mk.injEq,
      Prod.exists] at found
    obtain ⟨_, _, fragmentFound, -, rfl⟩ := found
    have fragmentLength := length_fragment?_lt fragmentFound
    have again := Text.length_trimStart_le afterColon
    rw [start, List.length_cons] at trimmed
    omega
  · simp at found

/-- All parameters of a text in the order in which they are written, repeated keys
included. Commas between them are optional. -/
def readParameters? (text : List Char) : Option (List (String × List Char)) :=
  match _ : afterSeparator text with
  | [] => some []
  | c :: unread =>
    match _ : readParameter? (c :: unread) with
    | none => none
    | some (parameter, rest) => (readParameters? rest).map (parameter :: ·)
termination_by text.length
decreasing_by
  have separated := length_afterSeparator_le text
  have taken := length_readParameter?_lt ‹_›
  rw [‹afterSeparator text = _›] at separated
  omega

/-- What a call hands over, if a keyword says so, and the rest. -/
def readTarget? (text : List Char) : Option (Target × List Char) :=
  match keyword? "with".toList text, keyword? "for".toList text with
  | some rest, _ => (fragment? (Text.trimStart rest)).map fun (fragment, after) =>
      (.single fragment, Text.trimStart after)
  | none, some rest => (fragment? (Text.trimStart rest)).map fun (fragment, after) =>
      (.each fragment, Text.trimStart after)
  | none, none => some (.nothing, text)

/-- The name of the value, if a keyword says so, and the rest. -/
def readName? (text : List Char) : Option (Option String × List Char) :=
  match keyword? "as".toList text with
  | some rest => (identifier? (Text.trimStart rest)).map fun (name, after) => (some name, after)
  | none => some (none, text)

/-- The request a markup spells. -/
def read? (markup : List Char) : Option Request := do
  let (snippet, afterSnippet) ← fragment? (Text.trimStart markup)
  let (target, afterTarget) ← readTarget? (Text.trimStart afterSnippet)
  let (name, afterName) ← readName? afterTarget
  let parameters ← readParameters? afterName
  return ⟨snippet, target, name, parameters.foldl withParameter []⟩

/-- The request of a tag's markup; any mistake in it is reported as a whole. -/
def parse (tag : String) (markup : List Char) : Except SyntaxError Request :=
  match read? markup with
  | some request => .ok request
  | none => .error (.invalid (.call tag))

end Request

end Stencil
