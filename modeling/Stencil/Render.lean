import Stencil.Snippet.Call
import Stencil.Snippet.Store
import Stencil.Template.Reader
import Stencil.Value.Display

/-!
# Rendering

Rendering appends text to an output, binds variables in a context and asks a store
for snippets. When it fails, what it did before stays: the output is kept up to the
point of failure, and so are the bindings.

A node is rendered by recursion on the template, and what a snippet call does is a
parameter of that recursion. Calls are then defined by recursion on the number of
levels that are left, which is what ends snippets that call each other.
-/

namespace Stencil

/-- What rendering changes. -/
structure Run (σ : Type) where
  context : Context
  out : String
  store : Store σ
  deriving Repr

/-- A rendering step with a result. -/
abbrev Rendering (σ α : Type) := EStateM Error (Run σ) α

/-- What the templates of snippets are read and found with. -/
structure Engine (σ : Type) where
  registry : Registry
  source : Source σ

variable {σ α : Type}

namespace Rendering

/-- Appends a text to the output. -/
def write (text : String) : Rendering σ Unit :=
  modify fun run => { run with out := run.out ++ text }

/-- Binds a variable in the innermost scope. -/
def setVariable (name : String) (v : Value) : Rendering σ Unit :=
  modify fun run => { run with context := run.context.set name v }

/-- The current value of an expression. -/
def valueOf (e : Expr) : Rendering σ Value := fun run => .ok (e.eval run.context.get?) run

/-- Whether a condition holds now. -/
def test (condition : Condition) : Rendering σ Bool := fun run =>
  .ok (condition.eval run.context.get?) run

/-- What a step writes, in place of writing it. Nothing is written if the step
fails. -/
def captured (body : Rendering σ Unit) : Rendering σ String := fun run =>
  match body { run with out := "" } with
  | .ok _ after => .ok after.out { after with out := run.out }
  | .error e after => .error e { after with out := run.out }

/-- A step with a scope of its own. -/
def inScope (body : Rendering σ α) : Rendering σ α := fun run =>
  match body { run with context := run.context.push } with
  | .ok result after => .ok result { after with context := after.context.pop }
  | .error e after => .error e { after with context := after.context.pop }

/-- The elements a loop runs over now, in its order. A value without elements has
none. -/
def elementsOf (head : LoopHead) : Rendering σ (List Value) := do
  let items := (← valueOf head.collection).elements?.getD []
  return if head.reversed then items.reverse else items

/-- A step for each element, with the element and its position bound in a scope that
all of them share. -/
def forEach (name : String) (items : List Value) (body : Rendering σ Unit) : Rendering σ Unit :=
  inScope <| (Position.locate items).forM fun (position, item) => do
    setVariable name item
    setVariable Position.boundName position.toValue
    body

/-- A step in another context; the current one is kept aside. -/
def inContext (context : Context) (body : Rendering σ α) : Rendering σ α := fun run =>
  match body { run with context := context } with
  | .ok result after => .ok result { after with context := run.context }
  | .error e after => .error e { after with context := run.context }

/-- The content of a snippet, which must exist. -/
def requireSnippet (source : Source σ) (name : String) : Rendering σ String := fun run =>
  match run.store.lookup source name with
  | (.ok (some content), store) => .ok content { run with store := store }
  | (.ok none, store) => .error (.unknownSnippet name) { run with store := store }
  | (.error e, store) => .error e { run with store := store }

/-- A template that has been read, or its mistake. -/
def readable (template : Except SyntaxError Template) : Rendering σ Template := fun run =>
  match template with
  | .ok template => .ok template run
  | .error cause => .error (.malformed cause) run

end Rendering

open Rendering

mutual

/-- Renders a node. -/
def Node.render (call : Request → Rendering σ Unit) : Node → Rendering σ Unit
  | .text content => write content
  | .output e => do write (← valueOf e).display
  | .assign name e => do setVariable name (← valueOf e)
  | .capture name body => do setVariable name (.string (← captured (renderAll call body)))
  | .loop head body empty => do
    match ← elementsOf head with
    | [] => renderAll call empty
    | items => forEach head.item items (renderAll call body)
  | .branches arms otherwise negateFirst =>
    renderFirst call (renderAll call otherwise) negateFirst arms
  | .call request => call request

/-- Renders nodes in turn, up to the first that fails. -/
def Node.renderAll (call : Request → Rendering σ Unit) : List Node → Rendering σ Unit
  | [] => pure ()
  | node :: nodes => do
    node.render call
    renderAll call nodes

/-- Renders the body of the first arm whose condition holds, or does what is left to do
if there is none. The condition of the first arm may be negated, so it has to fail. -/
def Node.renderFirst (call : Request → Rendering σ Unit) (otherwise : Rendering σ Unit)
    (negated : Bool) : Arms → Rendering σ Unit
  | [] => otherwise
  | (condition, body) :: arms => do
    if (← test condition) != negated then renderAll call body
    else renderFirst call otherwise false arms

end

/-- Finds the snippet of a call and renders it in each of the contexts that the call
asks for. A mistake in the snippet is found only if it is rendered. -/
def Request.perform (engine : Engine σ) (render : Template → Rendering σ Unit)
    (request : Request) : Rendering σ Unit := do
  let caller := (← get).context
  let content ← requireSnippet engine.source (request.snippetName caller)
  let template := Template.parse engine.registry content.toList
  (request.contexts caller).forM fun context => do
    let nodes ← readable template
    inContext context (render nodes)

/-- Performs a call with the given number of levels left. -/
def Request.performWithin (engine : Engine σ) : (levels : Nat) → Request → Rendering σ Unit
  | 0, _ => throw .nestingTooDeep
  | levels + 1, request =>
    request.perform engine (Node.renderAll (Request.performWithin engine levels))

/-- The levels of calls that are left in a context. -/
def Context.levelsLeft (context : Context) : Nat := deepestCall - context.depth

/-- Renders a template in the current context. -/
def Template.render (engine : Engine σ) (template : Template) : Rendering σ Unit := do
  let levels := (← get).context.levelsLeft
  Node.renderAll (Request.performWithin engine levels) template

end Stencil
