import Stencil.Context
import Stencil.Position
import Stencil.Request

/-!
# What a snippet call denotes

The fragments of a request are resolved in the caller's context. The snippet's name
is the string that the fragment, taken as the name of a variable or else as an
expression, denotes, or the fragment itself, in each case without quotes. A
parameter is the value of the variable or the expression, or the fragment itself as
a string, so a call never fails on its parameters.

The snippet sees the bound value, in an iteration its position, and the parameters,
each of which replaces an earlier binding of the same name, and nothing else.
-/

namespace Stencil

namespace Request

/-- A text without its quotes. -/
def unquoted (text : String) : String :=
  String.ofList (text.toList.filter fun c => !Markup.isQuote c)

/-- The name of the snippet that is called. A variable counts even if it is null. -/
def snippetName (request : Request) (caller : Context) : String :=
  let written := String.ofList request.snippet
  match (caller.get? written).or (caller.evaluate? request.snippet) with
  | some (.string name) => unquoted name
  | _ => unquoted written

/-- The value of a parameter. -/
def parameterValue (caller : Context) (fragment : List Char) : Value :=
  let written := String.ofList fragment
  (((caller.get? written).filter fun v => !v.isNull).or (caller.evaluate? fragment)).getD
    (.string written)

/-- Binds the parameters in the snippet's context. -/
def bindParameters (request : Request) (caller callee : Context) : Context :=
  request.parameters.foldl
    (fun context (key, fragment) => context.set key (parameterValue caller fragment)) callee

/-- The value that a call hands over. -/
def targetValue (caller : Context) (fragment : List Char) : Value :=
  (caller.evaluate? fragment).getD .null

/-- The context of a snippet that is rendered once. -/
def onceContext (request : Request) (caller : Context) (bound : Option Value) : Context :=
  request.bindParameters caller <|
    match bound with
    | none => caller.child
    | some v => caller.child.set request.boundName v

/-- The context of a snippet that is rendered for an element. -/
def itemContext (request : Request) (caller : Context) (position : Position) (item : Value) :
    Context :=
  request.bindParameters caller <|
    (caller.child.set request.boundName item).set Position.boundName position.toValue

/-- The contexts of the renderings that a call asks for, in order. A value without
elements asks for none. -/
def contexts (request : Request) (caller : Context) : List Context :=
  match request.target with
  | .nothing => [request.onceContext caller none]
  | .single fragment => [request.onceContext caller (targetValue caller fragment)]
  | .each fragment =>
    match (targetValue caller fragment).elements? with
    | none => []
    | some items =>
      (Position.locate items).map fun (position, item) => request.itemContext caller position item

end Request

end Stencil
