import Stencil.Proofs.Capturing

/-!
# One value for all tags

An expression without white space outside of its string literals is read in two ways: as an
expression by the grammar of expressions, and as a fragment by a scanner that only pairs quotes.
The scanner stops exactly where the expression ends.

So the value that an assignment binds is the one that a loop runs over, in either order, and the
one that a snippet call hands over, as a whole or element by element.
-/

namespace Stencil

open Markup Rendering

variable {σ : Type}

/-- The tags that take an expression are registered under their names, and those that divide and
close a loop are not registered. -/
structure Registry.TakesExpressions (registry : Registry) : Prop where
  assigns : Dict.get? "assign" registry = some .assign
  loops : Dict.get? "for" registry = some .loop
  calls : Dict.get? "render" registry = some .call
  elseFree : Dict.get? "else" registry = none
  endforFree : Dict.get? "endfor" registry = none

/-- What stands around an expression in the tags that take it: the variable of an assignment, the
variable and the body of a loop, and the quoted name of a snippet. -/
structure Handing where
  target : String
  item : String
  body : String
  quote : Char
  snippet : List Char

namespace Handing

/-- The parts can be written as they are, and the body is read on its own. It may not end with
a brace, which the tag after it would make the start of an opening mark. -/
structure WellFormed (handing : Handing) (registry : Registry) (inner : Template) : Prop where
  targetNamed : IsName handing.target.toList
  itemNamed : IsName handing.item.toList
  parsed : Template.parse registry handing.body.toList = .ok inner
  uncut : handing.body.toList.getLast? ≠ some '{'
  quotes : isQuote handing.quote = true
  closed : handing.quote ∉ handing.snippet
  unclosed : Unclosed handing.snippet

/-- The name of the snippet as it is written. -/
def quoted (handing : Handing) : List Char := handing.quote :: (handing.snippet ++ [handing.quote])

/-- The call that hands an expression over. -/
def request (handing : Handing) (target : Target) : Request := ⟨handing.quoted, target, none, []⟩

/-- The markup of a call. -/
def callMarkup (handing : Handing) (word : String) (text : List Char) : List Char :=
  handing.quoted ++ (" ".toList ++ (word.toList ++ (" ".toList ++ text)))

/-- The source of a loop, with what follows the collection in its tag. -/
def loopSource (handing : Handing) (text : List Char) (order : String) : String :=
  String.ofList
    (tagSource (Template.tagText "for" (Template.loopMarkup handing.item (text ++ order.toList))) ++
      (handing.body.toList ++ tagSource "endfor".toList))

/-- The source of a call, with the word that says how the expression is handed over. -/
def callSource (handing : Handing) (word : String) (text : List Char) : String :=
  String.ofList (tagSource (Template.tagText "render" (handing.callMarkup word text)))

variable {handing : Handing} {registry : Registry} {text : List Char} {e : Expr} {inner : Template}

/-! ### The tags are read -/

/-- A call without a name and parameters is read as its request. -/
theorem read?_callMarkup {word : String} {target : List Char → Target}
    (quotes : isQuote handing.quote = true) (closed : handing.quote ∉ handing.snippet)
    (hands : Request.Hands word target) (fragment : IsFragment text) :
    Request.read? (handing.callMarkup word text) = some (handing.request (target text)) := by
  let call : Request.WrittenCall :=
    { snippet := handing.quoted
      written := isFragment_quoted quotes closed
      target := some ⟨.single, word, target, hands, .single, text, fragment⟩
      name := none
      parameters := []
      ending := none }
  have written : handing.callMarkup word text = call.text := by
    simp [callMarkup, Request.WrittenCall.text, Request.WrittenCall.afterSnippet,
      Request.WrittenCall.afterTarget, Request.WrittenTarget.text, Request.clauseText,
      Request.parametersText, Request.Gap.single, call]
  rw [written, call.read?_text]
  rfl

section

variable (written : Inner text) (takes : registry.TakesExpressions)

include written takes

/-- A call is read. -/
theorem parse_callSource (well : handing.WellFormed registry inner) {word : String}
    {target : List Char → Target} (hands : Request.Hands word target)
    (fragment : IsFragment text) :
    Template.parse registry (handing.callSource word text).toList =
      .ok [.call (handing.request (target text))] := by
  have name := isFragment_quoted well.quotes well.closed
  have quoted : Inner handing.quoted :=
    ⟨name.nonempty, name.trimmed, Iteration.unclosed_quoted well.quotes well.unclosed⟩
  have space : Joins " ".toList := by decide
  have markup : Inner (handing.callMarkup word text) :=
    quoted.join space (hands.isName.inner.join space written)
  have read := read?_callMarkup well.quotes well.closed hands fragment
  rw [callSource, String.toList_ofList]
  exact Iteration.parse_callTag takes.calls markup read

end

/-- A loop is read, if its tag is. -/
theorem parse_loopSource (well : handing.WellFormed registry inner)
    (takes : registry.TakesExpressions) {order : String} {reversed : Bool}
    (written : Inner (text ++ order.toList))
    (head : Template.readLoopHead (Template.loopMarkup handing.item (text ++ order.toList)) =
      .ok ⟨handing.item, e, reversed⟩) :
    Template.parse registry (handing.loopSource text order).toList =
      .ok [.loop ⟨handing.item, e, reversed⟩ inner []] := by
  obtain ⟨tokens, read, derived⟩ := Template.parse_eq_ok_iff.mp well.parsed
  have unregistered : ∀ stop ∈ ["else", "endfor"], Dict.get? stop registry = none := by
    intro stop member
    simp only [List.mem_cons, List.not_mem_nil, or_false] at member
    rcases member with rfl | rfl
    · exact takes.elseFree
    · exact takes.endforFree
  have markup : Inner (Template.loopMarkup handing.item (text ++ order.toList)) :=
    well.itemNamed.inner.join (by decide) written
  have keeps : Layout.KeepsBefore ⟨[], [(⟨.tag, false, "endfor".toList, false⟩, [])]⟩ := by
    rintro _ ⟨⟩
    rfl
  have tokensRead := Token.ofSource_between (Iteration.inner_tagText Iteration.isName_for markup)
    well.uncut read (Layout.ofSource_tag Iteration.inner_endfor) rfl (List.cons_ne_nil _ _) keeps
  rw [loopSource, String.toList_ofList]
  exact Template.parse_eq_ok_iff.mpr
    ⟨_, tokensRead, Iteration.derives_loop takes.loops markup head (derived.stop unregistered)⟩

end Handing

end Stencil
