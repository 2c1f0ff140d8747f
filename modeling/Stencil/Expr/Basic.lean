import Stencil.Value.Basic

/-!
# Expressions

An expression is a literal, a range of integers, or a path: a variable followed
by any number of members and elements. Evaluating one needs only a lookup of
variables and never fails; whatever is missing is null.
-/

namespace Stencil

/-- The value of each variable that is bound. -/
abbrev Bindings := String → Option Value

/-- An expression. A path is nested to the left: its last step is outermost. -/
inductive Expr where
  | literal (v : Value)
  | range (first last : Expr)
  | var (name : String)
  | member (e : Expr) (key : String)
  | element (e index : Expr)
  deriving Repr

namespace Expr

/-- The value of an expression. -/
def eval (bindings : Bindings) : Expr → Value
  | .literal v => v
  | .range first last => .array (Value.range (first.eval bindings) (last.eval bindings))
  | .var name => (bindings name).getD .null
  | .member e key => (e.eval bindings).member key
  | .element e index => (e.eval bindings).element (index.eval bindings)

/-- A variable that stands alone denotes a literal if its name is that of one. -/
def named : Expr → Expr
  | .var "true" => .literal (.bool true)
  | .var "false" => .literal (.bool false)
  | .var "nil" => .literal .null
  | .var "null" => .literal .null
  | e => e

end Expr

end Stencil
