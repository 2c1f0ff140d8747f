import Stencil.Expr.Basic
import Stencil.Markup.Literal
import Stencil.Markup.Word

/-!
# Reading expressions

White space may stand before every expression, before the dots and the closing
parenthesis of a range and before a closing bracket, and nowhere else. Two points
end a path, so that it can be the first bound of a range.

Readers return the rest of the text with the fact that it is shorter, which is
what makes the recursion into ranges and brackets end.
-/

namespace Stencil.Expr

open Stencil.Markup

/-- A result and the rest of a text, which is shorter. -/
abbrev Read (α : Type) (text : List Char) : Type :=
  { found : α × List Char // found.2.length < text.length }

/-- A result and the rest of a text, which may be all of it. -/
abbrev ReadMore (α : Type) (text : List Char) : Type :=
  { found : α × List Char // found.2.length ≤ text.length }

/-- Trimming its start does not lengthen a text that starts with a given
character. -/
theorem length_lt_of_trimStart {text rest : List Char} {c : Char}
    (start : Text.trimStart text = c :: rest) : rest.length < text.length := by
  have shorter := Text.length_trimStart_le text
  rw [start, List.length_cons] at shorter
  omega

mutual

/-- Reads the expression at the start of a text. -/
def read (text : List Char) : Except SyntaxError (Read Expr text) :=
  match start : Text.trimStart text with
  | [] => .error .expressionExpected
  | c :: rest =>
    have bound := length_lt_of_trimStart start
    if isQuote c then
      match found : quoted? c rest with
      | none => .error .unterminatedString
      | some (run, after) =>
        .ok ⟨(.literal (.string (String.ofList run)), after),
          Nat.lt_trans (length_quoted?_lt found) bound⟩
    else if c = '(' then
      match read rest with
      | .error cause => .error cause
      | .ok ⟨(first, afterFirst), firstBound⟩ =>
        match dots : Text.trimStart afterFirst with
        | '.' :: '.' :: afterDots =>
          have dotsBound : afterDots.length < text.length := by
            have shorter := length_lt_of_trimStart dots
            simp only [List.length_cons] at *
            omega
          match read afterDots with
          | .error cause => .error cause
          | .ok ⟨(last, afterLast), lastBound⟩ =>
            match close : Text.trimStart afterLast with
            | ')' :: after =>
              have closeBound := length_lt_of_trimStart close
              .ok ⟨(.range first last, after), by simp only at *; omega⟩
            | _ => .error (.expected ')')
        | _ => .error .rangeDotsExpected
    else if c = '-' || c.isDigit then
      match found : number (c :: rest) with
      | .error cause => .error cause
      | .ok (v, after) =>
        .ok ⟨(.literal v, after), by
          have shorter := length_number_lt found
          simp only [List.length_cons] at *
          omega⟩
    else
      match found : identifier? (c :: rest) with
      | none => .error .identifierExpected
      | some (name, after) =>
        have nameBound : after.length < text.length := by
          have shorter := length_identifier?_lt found
          simp only [List.length_cons] at shorter
          omega
        match readSteps (.var name) after with
        | .error cause => .error cause
        | .ok ⟨(e, afterSteps), stepsBound⟩ =>
          .ok ⟨(e.named, afterSteps), by simp only at *; omega⟩
termination_by text.length

/-- Reads the members and elements that follow a path. -/
def readSteps (e : Expr) (text : List Char) : Except SyntaxError (ReadMore Expr text) :=
  match text with
  | '.' :: '.' :: rest => .ok ⟨(e, '.' :: '.' :: rest), Nat.le_refl _⟩
  | '.' :: rest =>
    match found : identifier? rest with
    | none => .error .identifierExpected
    | some (key, after) =>
      have bound := length_identifier?_lt found
      match readSteps (.member e key) after with
      | .error cause => .error cause
      | .ok ⟨(whole, afterSteps), stepsBound⟩ =>
        .ok ⟨(whole, afterSteps), by simp only [List.length_cons] at *; omega⟩
  | '[' :: rest =>
    match read rest with
    | .error cause => .error cause
    | .ok ⟨(index, afterIndex), indexBound⟩ =>
      match close : Text.trimStart afterIndex with
      | ']' :: after =>
        have closeBound : after.length < rest.length :=
          Nat.lt_trans (length_lt_of_trimStart close) indexBound
        match readSteps (.element e index) after with
        | .error cause => .error cause
        | .ok ⟨(whole, afterSteps), stepsBound⟩ =>
          .ok ⟨(whole, afterSteps), by simp only [List.length_cons] at *; omega⟩
      | _ => .error (.expected ']')
  | rest => .ok ⟨(e, rest), Nat.le_refl _⟩
termination_by text.length

end

/-- The expression a whole text spells, up to white space around it. -/
def parse (text : List Char) : Except SyntaxError Expr :=
  match read text with
  | .error cause => .error cause
  | .ok ⟨(e, rest), _⟩ =>
    match Text.trimStart rest with
    | [] => .ok e
    | unread =>
      .error (.afterExpression (String.ofList unread) (String.ofList (Text.trim text)))

end Stencil.Expr
