import Stencil.Condition.Basic
import Stencil.Request

/-!
# Templates

A template is a list of nodes. One kind of node holds the bodies of a block of
branches with their conditions, in order, and what is rendered if none of these
applies; only the first condition can be negated. Comments leave no node.
-/

namespace Stencil

/-- What a loop runs over, and the name of the element. -/
structure LoopHead where
  item : String
  collection : Expr
  reversed : Bool
  deriving Repr

/-- A part of a template. -/
inductive Node where
  | text (content : String)
  | output (e : Expr)
  | assign (name : String) (e : Expr)
  | capture (name : String) (body : List Node)
  | loop (head : LoopHead) (body empty : List Node)
  | branches (arms : List (Condition × List Node)) (otherwise : List Node) (negateFirst : Bool)
  | call (request : Request)
  deriving Repr

/-- A template, or the body of a block. -/
abbrev Template := List Node

/-- The bodies of a block of branches with their conditions, in order. -/
abbrev Arms := List (Condition × Template)

end Stencil
