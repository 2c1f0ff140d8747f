import Stencil.Expr.Basic
import Stencil.Value.Order

/-!
# Conditions

A condition is an expression that has to be truthy, a comparison of two
expressions, or two conditions joined by `and` or `or`. Like the values of
expressions, the truth of a condition depends on the bindings alone.
-/

namespace Stencil

/-- The operators between two expressions. -/
inductive Comparison where
  | equal
  | unequal
  | less
  | atMost
  | greater
  | atLeast
  | contains
  deriving DecidableEq, Repr

/-- Whether an operator holds of two values. Of incomparable values only
inequality holds. -/
def Comparison.holds (op : Comparison) (a b : Value) : Bool :=
  match op, a.compare? b with
  | .contains, _ => a.contains b
  | .unequal, order => order != some .eq
  | .equal, order => order == some .eq
  | .less, order => order == some .lt
  | .greater, order => order == some .gt
  | .atMost, order => order == some .lt || order == some .eq
  | .atLeast, order => order == some .gt || order == some .eq

/-- A condition of a branch. -/
inductive Condition where
  | truthy (e : Expr)
  | compare (left : Expr) (op : Comparison) (right : Expr)
  | and (left right : Condition)
  | or (left right : Condition)
  deriving Repr

/-- The truth of a condition. -/
def Condition.eval (bindings : Bindings) : Condition → Bool
  | .truthy e => (e.eval bindings).truthy
  | .compare left op right => op.holds (left.eval bindings) (right.eval bindings)
  | .and left right => left.eval bindings && right.eval bindings
  | .or left right => left.eval bindings || right.eval bindings

end Stencil
