import Stencil.Options
import Stencil.Render

/-!
# Environments

An environment holds the options, the tags and the snippets that templates are read
and rendered with. Rendering leaves it as it was but for what its store keeps.
-/

namespace Stencil

/-- Options, tags and snippets. -/
structure Environment (σ : Type) where
  options : Options
  tags : Registry
  store : Store σ
  deriving Repr

/-- A result, and the environment after it was computed. -/
abbrev Environment.Outcome (σ : Type) := Except Error String × Environment σ

namespace Environment

variable {σ : Type}

/-- An environment with all tags and no snippets. -/
def new (options : Options) (source : σ) : Environment σ :=
  ⟨options, .standard, .empty source⟩

/-- Registers a tag under a name. -/
def registerTag (env : Environment σ) (name : String) (tag : Tag) : Environment σ :=
  { env with tags := env.tags.registerAs name tag }

/-- Registers a snippet. -/
def registerSnippet (env : Environment σ) (name content : String) : Environment σ :=
  { env with store := env.store.register name content }

/-- Forgets all snippets. -/
def resetSnippets (env : Environment σ) : Environment σ := { env with store := env.store.reset }

/-- Looks a snippet up. -/
def lookup (env : Environment σ) (source : Source σ) (name : String) :
    Answer × Environment σ :=
  let (answer, store) := env.store.lookup source name
  (answer, { env with store := store })

/-- The template of a source text. -/
def parse (env : Environment σ) (text : String) : Except Error Template :=
  (Template.parse env.tags text.toList).mapError .malformed

/-- Renders a template in a context and shows what happened. -/
def run (env : Environment σ) (source : Source σ) (context : Context) (template : Template) :
    EStateM.Result Error (Run σ) Unit :=
  template.render ⟨env.tags, source⟩ ⟨context, "", env.store⟩

/-- The outermost scope that assigns give: an object, or null for none. -/
def scope (assigns : Value) : Except Error Scope :=
  match assigns with
  | .object fields => .ok fields
  | .null => .ok []
  | other => .error (.assignsNotObject other.compact)

/-- Renders a template. A failure discards the output. -/
def render (env : Environment σ) (source : Source σ) (template : Template) (assigns : Value) :
    Outcome σ :=
  match scope assigns with
  | .error e => (.error e, env)
  | .ok outermost =>
    match env.run source (.top outermost) template with
    | .ok _ after => (.ok after.out, { env with store := after.store })
    | .error e after => (.error e, { env with store := after.store })

/-- Renders a source text. -/
def renderText (env : Environment σ) (source : Source σ) (text : String) (assigns : Value) :
    Outcome σ :=
  match env.parse text with
  | .error e => (.error e, env)
  | .ok template => env.render source template assigns

/-- Renders the text of a file, if it could be read, and strips the output if the
options ask for it. -/
def renderFile (env : Environment σ) (source : Source σ) (text : Except Error String)
    (assigns : Value) : Outcome σ :=
  match text with
  | .error e => (.error e, env)
  | .ok text =>
    let (result, after) := env.renderText source text assigns
    (result.map fun out =>
      if env.options.stripOutput then String.ofList (Text.trim out.toList) else out, after)

end Environment

end Stencil
