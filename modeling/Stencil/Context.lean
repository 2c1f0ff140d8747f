import Stencil.Dict
import Stencil.Expr.Reader

/-!
# Contexts

A context holds the variables that a template sees: scopes inside each other, of
which the innermost takes new bindings and shadows the others. There is always at
least one scope. Its depth is the number of snippet calls around it.

The main statements say what binding, opening and closing a scope do to lookups.
-/

namespace Stencil

/-- The bindings of one scope. -/
abbrev Scope := Dict Value

/-- The scopes of a template, and how many calls deep it is rendered. -/
structure Context where
  inner : Scope
  outer : List Scope
  depth : Nat
  deriving Repr

namespace Context

/-- A context outside all calls, with one scope. -/
def top (scope : Scope) : Context := ⟨scope, [], 0⟩

/-- All scopes, the innermost first. -/
def scopes (context : Context) : List Scope := context.inner :: context.outer

/-- The value of a variable in the innermost scope that binds it. -/
def get? (context : Context) (name : String) : Option Value :=
  context.scopes.findSome? (Dict.get? name)

/-- Binds a variable in the innermost scope. -/
def set (context : Context) (name : String) (v : Value) : Context :=
  { context with inner := Dict.insert name v context.inner }

/-- Opens an empty scope. -/
def push (context : Context) : Context :=
  { context with inner := [], outer := context.inner :: context.outer }

/-- Closes the innermost scope, unless it is the only one. -/
def pop (context : Context) : Context :=
  match context.outer with
  | [] => context
  | scope :: outer => { context with inner := scope, outer := outer }

/-- The context of a called snippet: none of the caller's variables, one call
deeper. -/
def child (context : Context) : Context := ⟨[], [], context.depth + 1⟩

/-- The value a fragment spells, unless it is no expression or its value is null. -/
def evaluate? (context : Context) (fragment : List Char) : Option Value :=
  match Expr.parse fragment with
  | .error _ => none
  | .ok e => some (e.eval context.get?) |>.filter fun v => !v.isNull

/-- A new binding shadows all others of its name and no others. -/
theorem get?_set (context : Context) (name asked : String) (v : Value) :
    (context.set name v).get? asked = if name = asked then some v else context.get? asked := by
  simp only [get?, scopes, set, List.findSome?_cons, Dict.get?_insert]
  by_cases same : name = asked <;> simp [same]

/-- An empty scope hides nothing. -/
theorem get?_push (context : Context) (asked : String) :
    context.push.get? asked = context.get? asked := by
  simp [get?, scopes, push, List.findSome?_cons, Dict.get?]

/-- Closing a scope restores the context it was opened in. -/
theorem pop_push (context : Context) : context.push.pop = context := rfl

/-- A called snippet sees no variables. -/
theorem get?_child (context : Context) (asked : String) : context.child.get? asked = none := by
  simp [get?, scopes, child, Dict.get?]

end Context

end Stencil
