import Stencil.Dict

/-!
# Tags

There are seven kinds of tags. A registry says under which names a template can
use them; one kind can have several names. A branch or a capture that is opened
under a name is closed under that name, so a second name behaves like a tag of its
own; loops and comments are closed under one name only.
-/

namespace Stencil

/-- The kinds of tags. -/
inductive Tag where
  | assign
  | loop
  | ifHolds
  | ifFails
  | comment
  | capture
  | call
  deriving DecidableEq, Repr

/-- The name a tag is registered under if no other one is given. -/
def Tag.name : Tag → String
  | .assign => "assign"
  | .loop => "for"
  | .ifHolds => "if"
  | .ifFails => "unless"
  | .comment => "comment"
  | .capture => "capture"
  | .call => "render"

/-- The tags of each name. -/
abbrev Registry := Dict Tag

namespace Registry

/-- Registers a tag under a name, which may have belonged to another tag. -/
def registerAs (registry : Registry) (name : String) (tag : Tag) : Registry :=
  Dict.insert name tag registry

/-- Registers a tag under its own name. -/
def register (registry : Registry) (tag : Tag) : Registry := registry.registerAs tag.name tag

/-- The tags that need no snippets. -/
def builtin : Registry :=
  [Tag.assign, .loop, .ifHolds, .ifFails, .comment].foldl register []

/-- Adds snippet calls, under two names, and captures. -/
def withSnippets (registry : Registry) : Registry :=
  ((registry.register .call).registerAs "include" .call).register .capture

/-- All tags. -/
def standard : Registry := builtin.withSnippets

end Registry

end Stencil
