import Stencil.Error
import Stencil.Text.Search
import Stencil.Text.White

/-!
# Tokens

A source is text with outputs, in double braces, and tags, in braces with percent
signs, between its parts. A delimiter ends at the first closing mark after its
opening mark, whatever stands in between. A dash at either end inside the marks
removes the white space of the neighbouring text on that side.

Cutting a source into tokens has two steps. A `Layout` is the source as it is
written: texts, possibly empty, alternating with delimiters. Its tokens are the
inner texts of the delimiters and the texts after white space control, without
the texts of which nothing remains.
-/

namespace Stencil

/-- The two kinds of delimiters. -/
inductive DelimiterKind where
  | output
  | tag
  deriving DecidableEq, Repr

/-- The marks that open a delimiter. -/
def DelimiterKind.opening : DelimiterKind → List Char
  | .output => ['{', '{']
  | .tag => ['{', '%']

/-- The marks that close a delimiter. -/
def DelimiterKind.closing : DelimiterKind → List Char
  | .output => ['}', '}']
  | .tag => ['%', '}']

/-- A delimiter: its inner text without dashes and white ends, and whether it has a
dash on either side. -/
structure Delimiter where
  kind : DelimiterKind
  trimsBefore : Bool
  inner : List Char
  trimsAfter : Bool
  deriving DecidableEq, Repr

/-- A part of a source. The inner text of outputs and tags has no white ends, and a
text is never empty. -/
inductive Token where
  | text (content : List Char)
  | output (inner : List Char)
  | tag (inner : List Char)
  deriving DecidableEq, Repr

/-- A source as it is written: a text, then each delimiter with the text after it. -/
structure Layout where
  first : List Char
  rest : List (Delimiter × List Char)
  deriving DecidableEq, Repr

namespace Delimiter

/-- The delimiter of a kind whose marks enclose a text. The dash on the left is
taken first, so a lone dash is a left one. -/
def ofInside (kind : DelimiterKind) (inside : List Char) : Delimiter :=
  let (left, afterLeft) :=
    match inside with
    | '-' :: rest => (true, rest)
    | rest => (false, rest)
  if afterLeft.getLast? = some '-' then ⟨kind, left, Text.trim afterLeft.dropLast, true⟩
  else ⟨kind, left, Text.trim afterLeft, false⟩

/-- The token of a delimiter. -/
def token (d : Delimiter) : Token :=
  match d.kind with
  | .output => .output d.inner
  | .tag => .tag d.inner

end Delimiter

namespace Layout

/-- The text before the first opening mark, the kind of delimiter it opens, and what
follows the mark. -/
def nextOpening? : List Char → Option (List Char × DelimiterKind × List Char)
  | [] => none
  | '{' :: '{' :: rest => some ([], .output, rest)
  | '{' :: '%' :: rest => some ([], .tag, rest)
  | c :: rest => (nextOpening? rest).map fun (before, kind, after) => (c :: before, kind, after)

/-- What follows an opening mark is shorter than the source. -/
theorem length_nextOpening?_lt {source before after : List Char} {kind : DelimiterKind}
    (found : nextOpening? source = some (before, kind, after)) : after.length < source.length := by
  fun_induction nextOpening? source generalizing before with
  | case1 => simp at found
  | case2 rest =>
    simp only [Option.some.injEq, Prod.mk.injEq] at found
    obtain ⟨-, -, rfl⟩ := found
    simp only [List.length_cons]
    omega
  | case3 rest =>
    simp only [Option.some.injEq, Prod.mk.injEq] at found
    obtain ⟨-, -, rfl⟩ := found
    simp only [List.length_cons]
    omega
  | case4 c rest _ _ inductionHypothesis =>
    simp only [Option.map_eq_some_iff, Prod.mk.injEq, Prod.exists] at found
    obtain ⟨_, _, _, read, -, rfl, rfl⟩ := found
    exact Nat.lt_succ_of_lt (inductionHypothesis read)

/-- The layout of a source; the cause is the first delimiter without an end. -/
def ofSource (source : List Char) : Except SyntaxError Layout :=
  match _ : nextOpening? source with
  | none => .ok ⟨source, []⟩
  | some (before, kind, after) =>
    match _ : Text.splitAt? kind.closing after with
    | none =>
      .error (.unterminatedDelimiter (String.ofList kind.opening) (String.ofList kind.closing))
    | some (inside, rest) =>
      match ofSource rest with
      | .error cause => .error cause
      | .ok more => .ok ⟨before, (Delimiter.ofInside kind inside, more.first) :: more.rest⟩
termination_by source.length
decreasing_by
  exact Nat.lt_of_le_of_lt (Text.length_splitAt?_le ‹_›) (length_nextOpening?_lt ‹_›)

/-- A text after white space control, unless nothing remains of it. -/
def textTokens (trimsStart trimsEnd : Bool) (text : List Char) : List Token :=
  let started := if trimsStart then Text.trimStart text else text
  let ended := if trimsEnd then Text.trimEnd started else started
  if ended.isEmpty then [] else [.text ended]

/-- The tokens of a text and what follows it; the flag tells whether the delimiter
before the text trims it. -/
def tokensFrom (trimsStart : Bool) (text : List Char) : List (Delimiter × List Char) → List Token
  | [] => textTokens trimsStart false text
  | (d, next) :: rest =>
    textTokens trimsStart d.trimsBefore text ++ d.token :: tokensFrom d.trimsAfter next rest

/-- The tokens of a layout. -/
def tokens (layout : Layout) : List Token := tokensFrom false layout.first layout.rest

end Layout

namespace Token

/-- The tokens of a source. -/
def ofSource (source : List Char) : Except SyntaxError (List Token) :=
  (Layout.ofSource source).map Layout.tokens

/-- The name and the markup of a tag: its inner text is split at the first white
character. -/
def tagParts (inner : List Char) : List Char × List Char :=
  match inner.dropWhile (!Text.isWhite ·) with
  | [] => (inner, [])
  | _ :: markup => (inner.takeWhile (!Text.isWhite ·), Text.trim markup)

end Token

end Stencil
