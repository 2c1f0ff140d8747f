import Stencil.Proofs.Expressions
import Stencil.Proofs.Grammar
import Stencil.Proofs.Printing
import Stencil.Proofs.Requests

/-!
# Tags as they are written

A source can be made of tags whose inner texts are known. It is read as just these tags
if no inner text holds the mark that closes a tag, nor white space at its ends.

The markup of loops and of snippet calls is read as the names and fragments that it is
made of.
-/

namespace Stencil

/-! ### Tags -/

/-- A text does not hold the mark that closes a tag. -/
def Unclosed (text : List Char) : Prop := ¬DelimiterKind.tag.closing <:+: text

/-- Texts that do not hold the closing mark can be put together where the mark does not
arise between them. -/
theorem Unclosed.append {text more : List Char} (unclosed : Unclosed text)
    (unclosedMore : Unclosed more) (apart : text.getLast? ≠ some '%' ∨ more.head? ≠ some '}') :
    Unclosed (text ++ more) := Text.not_pair_append unclosed unclosedMore apart

/-- A text without closing braces does not hold the closing mark. -/
theorem unclosed_of_not_mem {text : List Char} (absent : '}' ∉ text) : Unclosed text :=
  fun occurs => absent (occurs.subset (by decide))

/-- A text between two others with which no closing mark arises. -/
def Joins (between : List Char) : Prop := between ≠ [] ∧ '%' ∉ between ∧ '}' ∉ between

instance (between : List Char) : Decidable (Joins between) :=
  inferInstanceAs (Decidable (between ≠ [] ∧ '%' ∉ between ∧ '}' ∉ between))

/-- Texts that do not hold the closing mark can be joined. -/
theorem Unclosed.join {text more between : List Char} (unclosed : Unclosed text)
    (joins : Joins between) (unclosedMore : Unclosed more) :
    Unclosed (text ++ (between ++ more)) := by
  obtain ⟨nonempty, noSign, noBrace⟩ := joins
  apply unclosed.append
  · exact (unclosed_of_not_mem noBrace).append unclosedMore
      (.inl fun last => noSign (List.mem_of_getLast? last))
  · rw [List.head?_append_of_ne_nil between nonempty]
    exact .inr fun head => noBrace (List.mem_of_head? head)

/-- The source of a tag with a given inner text. -/
def tagSource (inner : List Char) : List Char := "\x7b% ".toList ++ inner ++ " %\x7d".toList

/-- A text that can be written as the inner text of a tag. -/
structure Inner (text : List Char) : Prop where
  nonempty : text ≠ []
  trimmed : Text.Trimmed text
  unclosed : Unclosed text

/-- Inner texts can be joined to one. -/
theorem Inner.join {text more between : List Char} (written : Inner text) (joins : Joins between)
    (writtenMore : Inner more) : Inner (text ++ (between ++ more)) where
  nonempty := List.append_ne_nil_of_left_ne_nil written.nonempty _
  trimmed := by
    constructor
    · rw [List.head?_append_of_ne_nil text written.nonempty]
      exact written.trimmed.head
    · rw [← List.append_assoc, List.getLast?_append_of_ne_nil _ writtenMore.nonempty]
      exact writtenMore.trimmed.getLast
  unclosed := written.unclosed.join joins writtenMore.unclosed

namespace Layout

/-- The source of a tag is that of a delimiter without dashes. -/
theorem tagSource_eq (inner : List Char) :
    tagSource inner = Delimiter.source ⟨.tag, false, inner, false⟩ := by
  simp [tagSource, Delimiter.source, Delimiter.inside, Delimiter.dash, DelimiterKind.opening,
    DelimiterKind.closing]

/-- The source of a tag is read as this tag without the white ends of its inner text, and what
follows it as it is. -/
theorem ofSource_tagSource_trim {inner : List Char} (unclosed : Unclosed inner)
    (rest : List Char) :
    ofSource (tagSource inner ++ rest) = (ofSource rest).map fun more =>
      ⟨[], (⟨.tag, false, Text.trim inner, false⟩, more.first) :: more.rest⟩ := by
  have empty : Unopened [] := nextOpening?_eq_none_iff.mp rfl
  have printed := @ofSource_printed_trim [] ⟨.tag, false, inner, false⟩ empty (by decide)
    unclosed rest
  rwa [List.nil_append, ← tagSource_eq] at printed

theorem ofSource_tagSource {inner : List Char} (written : Inner inner) (rest : List Char) :
    ofSource (tagSource inner ++ rest) = (ofSource rest).map fun more =>
      ⟨[], (⟨.tag, false, inner, false⟩, more.first) :: more.rest⟩ := by
  have read := ofSource_tagSource_trim written.unclosed rest
  rwa [Text.trim_of_trimmed written.trimmed] at read

/-- A source of tags is read as these tags. -/
theorem ofSource_tags {tags : List (List Char)} (written : ∀ inner ∈ tags, Inner inner) :
    ofSource (tags.flatMap tagSource) =
      .ok ⟨[], tags.map fun inner => (⟨.tag, false, inner, false⟩, [])⟩ := by
  induction tags with
  | nil => exact ofSource_text rfl
  | cons inner tags inductionHypothesis =>
    have later := inductionHypothesis fun other member =>
      written other (List.mem_cons_of_mem inner member)
    rw [List.flatMap_cons, ofSource_tagSource (written inner List.mem_cons_self), later]
    rfl

end Layout

/-- A source of tags has these tags for its tokens. -/
theorem Token.ofSource_tags {tags : List (List Char)} (written : ∀ inner ∈ tags, Inner inner) :
    ofSource (tags.flatMap tagSource) = .ok (tags.map .tag) := by
  have alone (flag : Bool) (tags : List (List Char)) :
      Layout.tokensFrom flag [] (tags.map fun inner => (⟨.tag, false, inner, false⟩, [])) =
        tags.map .tag := by
    induction tags generalizing flag with
    | nil => cases flag <;> rfl
    | cons inner tags inductionHypothesis =>
      rw [List.map_cons, List.map_cons, Layout.tokensFrom, inductionHypothesis]
      cases flag <;> rfl
  rw [ofSource, Layout.ofSource_tags written]
  exact congrArg Except.ok (alone false tags)

/-- The source of one tag is read as this tag. -/
theorem Layout.ofSource_tag {inner : List Char} (written : Inner inner) :
    ofSource (tagSource inner) = .ok ⟨[], [(⟨.tag, false, inner, false⟩, [])]⟩ := by
  have single := ofSource_tags fun other member => List.mem_singleton.mp member ▸ written
  rwa [List.flatMap_singleton] at single

theorem Token.ofSource_tag {inner : List Char} (written : Inner inner) :
    ofSource (tagSource inner) = .ok [.tag inner] := by
  have single := ofSource_tags fun other member => List.mem_singleton.mp member ▸ written
  rwa [List.flatMap_singleton] at single

/-! ### Markup -/

namespace Markup

theorem IsName.unclosed {name : List Char} (named : IsName name) : Unclosed name :=
  unclosed_of_not_mem fun member => (named.plain_of_mem member).2 rfl

theorem IsName.inner {name : List Char} (named : IsName name) : Inner name :=
  ⟨named.ne_nil, named.trimmed, named.unclosed⟩

end Markup

namespace Template

open Markup

/-- The inner text of a tag with a name and a markup. -/
def tagText (name : String) (markup : List Char) : List Char := name.toList ++ ' ' :: markup

/-- A tag is split after its name, and its markup is trimmed. -/
theorem tagParts_tagText_trim {name : String} (named : IsName name.toList)
    (markup : List Char) :
    tagName (tagText name markup) = name ∧
      tagMarkup (tagText name markup) = Text.trim markup := by
  have black : ∀ c ∈ name.toList, (!Text.isWhite c) = true := by
    intro c member
    simp only [(named.plain_of_mem member).1, Bool.not_false]
  have space : ∀ c ∈ (' ' :: markup).head?, (!Text.isWhite c) = false := by
    rintro _ ⟨⟩
    decide
  obtain ⟨taken, left⟩ := span_append black space
  have parts : Token.tagParts (tagText name markup) = (name.toList, Text.trim markup) := by
    simp only [Token.tagParts, tagText, taken, left]
  simp only [tagName, tagMarkup, parts, String.ofList_toList, and_self]

theorem tagParts_tagText {name : String} {markup : List Char} (named : IsName name.toList)
    (trimmed : Text.Trimmed markup) :
    tagName (tagText name markup) = name ∧ tagMarkup (tagText name markup) = markup := by
  have parts := tagParts_tagText_trim named markup
  rwa [Text.trim_of_trimmed trimmed] at parts

/-- The markup of a loop. -/
def loopMarkup (item : String) (collection : List Char) : List Char :=
  item.toList ++ (" in ".toList ++ collection)

/-- The markup of a loop is read as the name of the element and the collection, with the order
that what follows the collection asks for. -/
theorem readLoopHead_append {item : String} {collection rest : List Char} {e : Expr}
    {reversed : Bool} (named : IsName item.toList) (fragment : IsFragment collection)
    (parsed : Expr.parse collection = .ok e) (ends : EndsFragment rest)
    (order : readReversed? (Text.trimStart rest) = some reversed) :
    readLoopHead (loopMarkup item (collection ++ rest)) = .ok ⟨item, e, reversed⟩ := by
  have itemRead : identifier? (loopMarkup item (collection ++ rest)) =
      some (item, " in ".toList ++ (collection ++ rest)) :=
    named.identifier?_append (endsName_space _)
  have inRead : keyword? "in".toList (Text.trimStart (" in ".toList ++ (collection ++ rest))) =
      some (' ' :: (collection ++ rest)) := keyword?_append "in".toList rfl
  have collectionRead : fragment? (Text.trimStart (' ' :: (collection ++ rest))) =
      some (collection, rest) := by
    rw [Text.trimStart_space, trimStart_append fragment.trimmed fragment.nonempty,
      fragment.fragment?_append ends]
  have parts : readLoopParts? (loopMarkup item (collection ++ rest)) =
      some (item, collection, Text.trimStart rest) := by
    simp only [readLoopParts?, itemRead, inRead, collectionRead, Option.bind_eq_bind,
      Option.bind_some]
    rfl
  simp only [readLoopHead, parts, parsed, order]

theorem readLoopHead_loopMarkup {item : String} {collection : List Char} {e : Expr}
    (named : IsName item.toList) (fragment : IsFragment collection)
    (parsed : Expr.parse collection = .ok e) :
    readLoopHead (loopMarkup item collection) = .ok ⟨item, e, false⟩ := by
  have nothing : EndsFragment [] := by rintro _ ⟨⟩
  have read := readLoopHead_append named fragment parsed nothing rfl
  rwa [List.append_nil] at read

end Template

namespace Request

open Markup

/-- Parameters as they are written after a call, each after a comma. -/
def parameterMarkup (parameters : List (String × List Char)) : List Char :=
  parameters.flatMap fun (key, fragment) =>
    ", ".toList ++ (key.toList ++ (": ".toList ++ fragment))

/-- The markup of a call that hands something over under a name. -/
def callMarkup (snippet : List Char) (word : String) (fragment : List Char) (name : String)
    (parameters : List (String × List Char)) : List Char :=
  snippet ++ (" ".toList ++ (word.toList ++ (" ".toList ++ (fragment ++ (" as ".toList ++
    (name.toList ++ parameterMarkup parameters))))))

/-- Keys are names and values are fragments. -/
def Writable (parameters : List (String × List Char)) : Prop :=
  ∀ parameter ∈ parameters, IsName parameter.1.toList ∧ IsFragment parameter.2

/-- Parameters are written after separators that are a comma and a space each. -/
theorem exists_parametersText {parameters : List (String × List Char)}
    (written : Writable parameters) :
    ∃ parts : List WrittenParameter, parametersText parts none = parameterMarkup parameters ∧
      parts.map (fun part => (part.key, part.fragment)) = parameters := by
  induction parameters with
  | nil => exact ⟨[], rfl, rfl⟩
  | cons parameter parameters inductionHypothesis =>
    obtain ⟨named, fragmentWritten⟩ := written _ List.mem_cons_self
    obtain ⟨parts, same, entries⟩ := inductionHypothesis fun other member =>
      written other (List.mem_cons_of_mem _ member)
    have nothing : Text.White [] := by decide
    let part : WrittenParameter :=
      ⟨.comma [] [' '] nothing Gap.single.white, parameter.1, named, parameter.2, fragmentWritten⟩
    refine ⟨part :: parts, ?_, ?_⟩
    · have first : part.text =
          ", ".toList ++ (parameter.1.toList ++ (": ".toList ++ parameter.2)) := rfl
      have later : parametersText (part :: parts) none = part.text ++ parametersText parts none :=
        rfl
      rw [later, same, first, parameterMarkup, parameterMarkup, List.flatMap_cons]
    · rw [List.map_cons, entries]

/-- The markup of a call is read as what it is made of. -/
theorem read?_callMarkup {snippet fragment : List Char} {word name : String}
    {parameters : List (String × List Char)} {target : List Char → Target}
    (hands : Hands word target) (snippetWritten : IsFragment snippet)
    (fragmentWritten : IsFragment fragment) (named : IsName name.toList)
    (written : Writable parameters) :
    read? (callMarkup snippet word fragment name parameters) =
      some ⟨snippet, target fragment, some name, parameters.foldl withParameter []⟩ := by
  obtain ⟨parts, same, entries⟩ := exists_parametersText written
  let call : WrittenCall :=
    { snippet := snippet
      written := snippetWritten
      target := some ⟨.single, word, target, hands, .single, fragment, fragmentWritten⟩
      name := some ⟨.single, .single, name, named⟩
      parameters := parts
      ending := none }
  have text : callMarkup snippet word fragment name parameters = call.text := by
    simp [callMarkup, WrittenCall.text, WrittenCall.afterSnippet, WrittenCall.afterTarget,
      WrittenTarget.text, WrittenName.text, clauseText, Gap.single, same, call]
  rw [text, call.read?_text, WrittenCall.request, ← (collects_foldl call.entries).eq,
    WrittenCall.entries, entries]
  rfl

/-- Parameters can be written after any inner text. -/
theorem inner_parameterMarkup {text : List Char} (inner : Inner text)
    {parameters : List (String × List Char)} (written : Writable parameters)
    (unclosed : ∀ parameter ∈ parameters, Unclosed parameter.2) :
    Inner (text ++ parameterMarkup parameters) := by
  induction parameters generalizing text with
  | nil => rwa [parameterMarkup, List.flatMap_nil, List.append_nil]
  | cons parameter parameters inductionHypothesis =>
    obtain ⟨key, fragment⟩ := parameter
    obtain ⟨named, fragmentWritten⟩ := written _ List.mem_cons_self
    have value : Inner fragment :=
      ⟨fragmentWritten.nonempty, fragmentWritten.trimmed, unclosed _ List.mem_cons_self⟩
    have first : Inner (text ++ (", ".toList ++ (key.toList ++ (": ".toList ++ fragment)))) :=
      inner.join (by decide) (named.inner.join (by decide) value)
    have later := inductionHypothesis first
      (fun other member => written other (List.mem_cons_of_mem _ member))
      fun other member => unclosed other (List.mem_cons_of_mem _ member)
    rwa [parameterMarkup, List.flatMap_cons, ← List.append_assoc]

/-- The markup of a call can be written as an inner text, if no part of it holds the closing
mark. -/
theorem inner_callMarkup {snippet fragment : List Char} {word name : String}
    {parameters : List (String × List Char)} {target : List Char → Target}
    (snippetInner : Inner snippet) (hands : Hands word target) (fragmentInner : Inner fragment)
    (named : IsName name.toList) (written : Writable parameters)
    (unclosed : ∀ parameter ∈ parameters, Unclosed parameter.2) :
    Inner (callMarkup snippet word fragment name parameters) := by
  have last := inner_parameterMarkup named.inner written unclosed
  have keyword : Joins " as ".toList := by decide
  have space : Joins " ".toList := by decide
  exact snippetInner.join space (hands.isName.inner.join space (fragmentInner.join keyword last))

end Request

end Stencil
