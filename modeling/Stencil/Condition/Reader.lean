import Stencil.Condition.Basic
import Stencil.Expr.Reader

/-!
# Reading conditions

A condition is a chain of simple conditions joined by `and` and `or`, which bind
equally and to the right: `a or b and c` is `a or (b and c)`. The words `and`,
`or` and `contains` count as such only where a connective or an operator can
stand, so they remain usable as names of variables.
-/

namespace Stencil.Condition

open Stencil.Markup Stencil.Expr

/-- The operators that are written with signs, each before those that begin it. -/
def signs : List (List Char × Comparison) :=
  [(['=', '='], .equal), (['!', '='], .unequal), (['<', '>'], .unequal), (['<', '='], .atMost),
    (['>', '='], .atLeast), (['<'], .less), (['>'], .greater)]

/-- The operator at the start of a text, and the rest. -/
def operator? (text : List Char) : Option (Comparison × List Char) :=
  (signs.findSome? fun (sign, op) => (sign.isPrefixOf? text).map (op, ·)).or
    ((keyword? "contains".toList text).map (.contains, ·))

/-- The ways to join two conditions. -/
inductive Connective where
  | and
  | or
  deriving DecidableEq, Repr

/-- The condition that a connective joins two conditions to. -/
def Connective.join : Connective → Condition → Condition → Condition
  | .and => .and
  | .or => .or

/-- The connective at the start of a text, and the rest. -/
def connective? (text : List Char) : Option (Connective × List Char) :=
  ((keyword? "and".toList text).map (.and, ·)).or ((keyword? "or".toList text).map (.or, ·))

/-- The rest after a keyword is no longer than the text. -/
theorem length_keyword?_le {word text rest : List Char} (found : keyword? word text = some rest) :
    rest.length ≤ text.length := by
  rw [keyword?_eq_some found, List.length_append]
  omega

/-- The rest after an operator is no longer than the text. -/
theorem length_operator?_le {text rest : List Char} {op : Comparison}
    (found : operator? text = some (op, rest)) : rest.length ≤ text.length := by
  simp only [operator?, Option.or_eq_some_iff, List.findSome?_eq_some_iff,
    Option.map_eq_some_iff, Prod.mk.injEq] at found
  rcases found with ⟨_, ⟨_, _⟩, _, -, ⟨_, read, -, rfl⟩, -⟩ | ⟨-, _, read, -, rfl⟩
  · rw [Text.isPrefixOf?_eq_some read, List.length_append]
    omega
  · exact length_keyword?_le read

/-- The rest after a connective is no longer than the text. -/
theorem length_connective?_le {text rest : List Char} {c : Connective}
    (found : connective? text = some (c, rest)) : rest.length ≤ text.length := by
  simp only [connective?, Option.or_eq_some_iff, Option.map_eq_some_iff,
    Prod.mk.injEq] at found
  rcases found with ⟨_, read, -, rfl⟩ | ⟨-, _, read, -, rfl⟩
  · exact length_keyword?_le read
  · exact length_keyword?_le read

/-- Reads an expression, or two with an operator between them. -/
def readSimple (text : List Char) : Except SyntaxError (Read Condition text) :=
  match Expr.read text with
  | .error cause => .error cause
  | .ok ⟨(left, afterLeft), leftBound⟩ =>
    match found : operator? (Text.trimStart afterLeft) with
    | none =>
      .ok ⟨(.truthy left, Text.trimStart afterLeft),
        Nat.lt_of_le_of_lt (Text.length_trimStart_le _) leftBound⟩
    | some (op, afterOp) =>
      match Expr.read afterOp with
      | .error cause => .error cause
      | .ok ⟨(right, rest), rightBound⟩ =>
        .ok ⟨(.compare left op right, rest), by
          have opBound := length_operator?_le found
          have trimmed := Text.length_trimStart_le afterLeft
          simp only at *
          omega⟩

/-- Reads a chain of simple conditions; what stands after it is left unread. -/
def readChain (text : List Char) : Except SyntaxError (Condition × List Char) :=
  match readSimple text with
  | .error cause => .error cause
  | .ok ⟨(left, afterLeft), leftBound⟩ =>
    match found : connective? (Text.trimStart afterLeft) with
    | none => .ok (left, Text.trimStart afterLeft)
    | some (connective, afterConnective) =>
      have shorter : afterConnective.length < text.length := by
        have trimmed := Text.length_trimStart_le afterLeft
        have connectiveBound := length_connective?_le found
        simp only at leftBound
        omega
      match readChain afterConnective with
      | .error cause => .error cause
      | .ok (right, rest) => .ok (connective.join left right, rest)
termination_by text.length

/-- The condition a whole text spells, up to white space around it. -/
def parse (text : List Char) : Except SyntaxError Condition :=
  match readChain text with
  | .error cause => .error cause
  | .ok (c, rest) =>
    match Text.trimStart rest with
    | [] => .ok c
    | unread =>
      .error (.afterCondition (String.ofList unread) (String.ofList (Text.trim text)))

end Stencil.Condition
