import Stencil.Value.Basic

/-!
# Positions in a collection

While a collection is iterated over, the variable `forloop` tells where the current
element stands. Everything it tells follows from the number of elements before and
after the current one.
-/

namespace Stencil

/-- The place of an element among others. -/
structure Position where
  before : Nat
  after : Nat
  deriving DecidableEq, Repr

namespace Position

/-- The name under which the position is bound. -/
def boundName : String := "forloop"

/-- The number of elements. -/
def length (p : Position) : Nat := p.before + p.after + 1

/-- What is told about the position. -/
def toValue (p : Position) : Value :=
  .object [
    ("first", .bool (p.before = 0)),
    ("index", .ofNat (p.before + 1)),
    ("index0", .ofNat p.before),
    ("last", .bool (p.after = 0)),
    ("length", .ofNat p.length),
    ("rindex", .ofNat (p.after + 1)),
    ("rindex0", .ofNat p.after)]

/-- The elements of a list with their positions. -/
def locate (items : List Value) : List (Position × Value) :=
  let last := items.length - 1
  items.zipIdx.map fun (item, index) => (⟨index, last - index⟩, item)

end Position

end Stencil
