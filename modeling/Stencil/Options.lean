import Stencil.Json.Document

/-!
# Options

The options of an environment and their JSON form: an object in which every field
may be missing and unknown fields are skipped unseen, or an array of at most three
values in the order of the fields. A field that is repeated or has a value of
another kind, null included, is a mistake.
-/

namespace Stencil

open Json

/-- Where snippets are looked for, and whether the output of a file loses its white
ends. -/
structure Options where
  snippetsDir : String
  extension : String
  stripOutput : Bool
  deriving DecidableEq, Repr

namespace Options

/-- The options if none are given. -/
def default : Options := ⟨"snippets", "liquid", true⟩

/-- The fields. -/
inductive Field where
  | snippetsDir
  | extension
  | stripOutput
  deriving DecidableEq, Repr

/-- The field of a name. -/
def Field.ofName? : String → Option Field
  | "snippets_dir" => some .snippetsDir
  | "extension" => some .extension
  | "strip_output" => some .stripOutput
  | _ => none

/-- Sets a field, if the value is of its kind. -/
def set? (options : Options) : Field → Document → Option Options
  | .snippetsDir, .string (some s) => some { options with snippetsDir := s }
  | .extension, .string (some s) => some { options with extension := s }
  | .stripOutput, .bool b => some { options with stripOutput := b }
  | _, _ => none

/-- Sets fields from values that stand in the order of the fields. -/
def setInOrder? (options : Options) : List Field → List Document → Option Options
  | _, [] => some options
  | [], _ :: _ => none
  | field :: fields, node :: nodes => do setInOrder? (← options.set? field node) fields nodes

/-- Sets fields from the entries of an object, none of them twice. -/
def setByName? (options : Options) (seen : List Field) :
    List (Option String × Document) → Option Options
  | [] => some options
  | (none, _) :: _ => none
  | (some name, node) :: entries =>
    match Field.ofName? name with
    | none => setByName? options seen entries
    | some field =>
      if seen.contains field then none
      else do setByName? (← options.set? field node) (field :: seen) entries

/-- The options of a document. -/
def ofDocument? : Document → Option Options
  | .object entries => setByName? default [] entries
  | .array nodes => setInOrder? default [.snippetsDir, .extension, .stripOutput] nodes
  | _ => none

/-- The options of a JSON text. -/
def ofJson? (text : String) : Option Options := do
  ofDocument? (← Document.ofText? text.toList)

end Options

end Stencil
