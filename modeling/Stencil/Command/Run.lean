import Stencil.Command.Arguments
import Stencil.Environment
import Stencil.Snippet.Files

/-!
# Running a command line

A command renders one template file with snippets from files. Its options come from
a configuration file, if one is named, and arguments override them; then the
assigns are read, and then the template. The first failure decides the outcome.

Files are read through a function, and the paths that are opened are recorded. So
what a command does is determined by the contents of these paths alone.
-/

namespace Stencil

/-- The outcome of a command. -/
structure Exit where
  status : Nat
  out : String
  err : String
  deriving DecidableEq, Repr

namespace Command

/-- The state of a command: the paths that were opened, the latest first. A failure
keeps them. -/
abbrev Reading (α : Type) := EStateM Error (List String) α

/-- The text of a file that must exist. -/
def required (read : String → FileText) (path : String) : Reading String := fun opened =>
  match read path with
  | .found text => .ok text (path :: opened)
  | _ => .error .unreadable (path :: opened)

/-- The value of a JSON text. -/
def json {α : Type} (value : Option α) : Reading α :=
  match value with
  | some v => pure v
  | none => throw .badJson

/-- The options of a command. -/
def options (read : String → FileText) (arguments : Arguments) : Reading Options := do
  let configured ←
    match arguments.config with
    | some path => json (Options.ofJson? (← required read path))
    | none => pure Options.default
  return {
    snippetsDir := arguments.snippetsDir.getD configured.snippetsDir
    extension := arguments.extension.getD configured.extension
    stripOutput := configured.stripOutput && !arguments.noStrip }

/-- The assigns of a command. -/
def assigns (read : String → FileText) (arguments : Arguments) : Reading Value :=
  match arguments.assigns, arguments.assignsFile with
  | some text, _ => json (Json.read? text)
  | none, some path => do json (Json.read? (← required read path))
  | none, none => pure .null

/-- The output of a command. -/
def render (read : String → FileText) (arguments : Arguments) : Reading String := do
  let options ← options read arguments
  let assigns ← assigns read arguments
  let text ← required read arguments.template
  fun opened =>
    let files : SnippetFiles := ⟨options.snippetsDir, options.extension⟩
    match (Environment.new options opened).renderFile (files.source read) (.ok text) assigns with
    | (.ok out, env) => .ok out env.store.source
    | (.error e, env) => .error e env.store.source

/-- How the command is used. -/
def usage : String := "Usage: stencil [OPTIONS] <TEMPLATE>

Options:
  --assigns <JSON>        Assigns as a JSON object
  --assigns-file <FILE>   Read the assigns from a file
  --config <FILE>         Options as a JSON file
  --snippets-dir <DIR>    Folder of the snippet files
  --extension <EXT>       Extension of the snippet files
  --no-strip              Keep the white ends of the output
  -v, --verbose           Report more
  -h, --help              Print this text
  -V, --version           Print the version"

/-- What an invocation prints and returns, and the paths that it opened. -/
def run (read : String → FileText) : Invocation → Exit × List String
  | .help => (⟨0, usage ++ "\n", ""⟩, [])
  | .version => (⟨0, "stencil 0.1.0\n", ""⟩, [])
  | .usageError => (⟨2, "", usage ++ "\n"⟩, [])
  | .render arguments =>
    match render read arguments [] with
    | .ok out opened => (⟨0, out ++ "\n", ""⟩, opened)
    | .error e opened => (⟨1, "", e.message ++ "\n"⟩, opened)

end Command

end Stencil
