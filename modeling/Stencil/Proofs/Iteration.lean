import Stencil.Proofs.Acceptance
import Stencil.Proofs.Binding
import Stencil.Proofs.Dictionaries
import Stencil.Proofs.Spelling

/-!
# Two ways to iterate over a collection

A loop whose body calls a snippet and hands its element and its position over, and a call
for each element, are two ways to give a snippet the same. Both are written with the same
names and fragments, and read as what they are written for. The call in the loop gives
the snippet the same dictionary of variables, although the position is a parameter there:
a later parameter overrides it just as it overrides the position that a call for each
element binds by itself.
-/

namespace Stencil

/-! ### Parameters -/

namespace Request

/-- A name as a parameter is the value of the variable, if that is not null. -/
theorem parameterValue_of_get? {caller : Context} {name : String} {v : Value}
    (bound : caller.get? name = some v) (present : v.isNull = false) :
    parameterValue caller name.toList = v := by
  simp only [parameterValue, String.ofList_toList, bound, Option.filter_some, present,
    Bool.not_false, if_true, Option.some_or, Option.getD_some]

end Request

/-- The name of the position is read as an identifier. -/
theorem Position.isName_boundName : Markup.IsName boundName.toList :=
  Markup.isName_of_identifier? (by decide)

/-- What a loop around a call and a call for each element are made of: the quoted name of
a snippet, a collection, the variable of the loop, the name of the element inside the
snippet, and parameters. -/
structure Iteration where
  quote : Char
  snippet : List Char
  collection : List Char
  item : String
  name : String
  parameters : List (String × List Char)

namespace Iteration

open Markup Request

/-- The name of the snippet as it is written. -/
def quoted (iteration : Iteration) : List Char :=
  iteration.quote :: (iteration.snippet ++ [iteration.quote])

/-- The call for each element. -/
def call (iteration : Iteration) : Request :=
  ⟨iteration.quoted, .each iteration.collection, some iteration.name,
    iteration.parameters.foldl withParameter []⟩

/-- The parameters of the call in the loop, of which the first one is the position. -/
def innerParameters (iteration : Iteration) : List (String × List Char) :=
  (Position.boundName, Position.boundName.toList) :: iteration.parameters

/-- The call in the loop. -/
def inner (iteration : Iteration) : Request :=
  ⟨iteration.quoted, .single iteration.item.toList, some iteration.name,
    iteration.innerParameters.foldl withParameter []⟩

/-- The parts can be written as they are, and no parameter reads what the loop binds. -/
structure WellFormed (iteration : Iteration) (e : Expr) : Prop where
  quotes : isQuote iteration.quote = true
  closed : iteration.quote ∉ iteration.snippet
  parsed : Expr.parse iteration.collection = .ok e
  tight : ∀ c ∈ outside none iteration.collection, Text.isWhite c = false
  itemNamed : IsName iteration.item.toList
  itemStarts : ∀ c ∈ iteration.item.toList.head?, c.isDigit = false
  itemFree : iteration.item ∉ ["true", "false", "nil", "null", Position.boundName]
  named : IsName iteration.name.toList
  written : Writable iteration.parameters
  unread : ∀ parameter ∈ iteration.parameters,
    iteration.item ∉ wordReads parameter.2 ∧ Position.boundName ∉ wordReads parameter.2
  snippetUnclosed : Unclosed iteration.snippet
  collectionUnclosed : Unclosed iteration.collection
  unclosed : ∀ parameter ∈ iteration.parameters, Unclosed parameter.2

/-- Two contexts agree on all variables but those that the loop binds. -/
def AgreeOutside (iteration : Iteration) (left right : Context) : Prop :=
  ∀ name, name ≠ iteration.item → name ≠ Position.boundName → left.get? name = right.get? name

/-- The context in which the body of the loop is rendered. -/
def within (iteration : Iteration) (context : Context) (position : Position) (v : Value) :
    Context :=
  (context.set iteration.item v).set Position.boundName position.toValue

/-- What the call for each element gives the snippet for an element. -/
def given (iteration : Iteration) (caller : Context) (position : Position) (v : Value) :
    List (String × Value) :=
  (iteration.name, v) :: (Position.boundName, position.toValue) :: iteration.call.arguments caller

variable {iteration : Iteration} {e : Expr} {caller context : Context}

theorem AgreeOutside.agreeOn (agree : iteration.AgreeOutside context caller)
    {names : List String} (itemAbsent : iteration.item ∉ names)
    (positionAbsent : Position.boundName ∉ names) :
    Bindings.AgreeOn names context.get? caller.get? := by
  intro name member
  apply agree
  · rintro rfl
    exact itemAbsent member
  · rintro rfl
    exact positionAbsent member

/-- The loop binds nothing else. -/
theorem AgreeOutside.within (agree : iteration.AgreeOutside context caller)
    (position : Position) (v : Value) :
    iteration.AgreeOutside (iteration.within context position v) caller := by
  intro name notItem notPosition
  rw [Iteration.within, Context.get?_set, if_neg notPosition.symm, Context.get?_set,
    if_neg notItem.symm]
  exact agree name notItem notPosition

theorem get?_position (context : Context) (position : Position) (v : Value) :
    (iteration.within context position v).get? Position.boundName = some position.toValue := by
  rw [within, Context.get?_set, if_pos rfl]

section

variable (well : iteration.WellFormed e)

include well

theorem WellFormed.item_ne : iteration.item ≠ Position.boundName := by
  intro same
  exact well.itemFree (same ▸ by simp)

theorem WellFormed.get?_item (context : Context) (position : Position) (v : Value) :
    (iteration.within context position v).get? iteration.item = some v := by
  rw [within, Context.get?_set, if_neg well.item_ne.symm, Context.get?_set, if_pos rfl]

/-- The variable of the loop is read as a variable. -/
theorem WellFormed.parse_item : Expr.parse iteration.item.toList = .ok (.var iteration.item) := by
  have starts : ∀ c ∈ iteration.item.toList.head?, Expr.startsNumber c = false := by
    intro c head
    have notSign : c ≠ '-' := by
      rintro rfl
      exact absurd (well.itemNamed.head '-' head) (by decide)
    simp only [Expr.startsNumber, notSign, well.itemStarts c head, decide_false, Bool.or_self]
  have variableRead : (Expr.var iteration.item).named = .var iteration.item := by
    have free := well.itemFree
    simp only [List.mem_cons, List.not_mem_nil, or_false, not_or] at free
    unfold Expr.named
    split <;> simp_all
  rw [Expr.parse_name well.itemNamed starts, variableRead]

/-- Both calls ask for the same snippet. -/
theorem WellFormed.snippetName_inner (agree : iteration.AgreeOutside context caller) :
    iteration.inner.snippetName context = iteration.call.snippetName caller := by
  have reads : wordReads iteration.quoted = [String.ofList iteration.quoted] := by
    simp only [wordReads, fragmentReads, quoted, Expr.parse_quoted well.quotes well.closed,
      Expr.reads]
  have isWord {word : String} (same : word = String.ofList iteration.quoted) :
      ¬IsName word.toList := by
    intro named
    rw [same, String.toList_ofList] at named
    exact not_startsName_of_isQuote well.quotes (named.head iteration.quote rfl)
  apply snippetName_eq rfl
  change Bindings.AgreeOn (wordReads iteration.quoted) _ _
  rw [reads]
  apply agree.agreeOn
  · intro member
    exact isWord (List.mem_singleton.mp member) well.itemNamed
  · intro member
    exact isWord (List.mem_singleton.mp member) Position.isName_boundName

/-- The parameters of the call in the loop are those of the call for each element after the
position: each of them has its value outside of the loop. -/
theorem WellFormed.last?_arguments (agree : iteration.AgreeOutside context caller)
    (position : Position) (v : Value) (key : String) :
    Dict.last? key (iteration.inner.arguments (iteration.within context position v)) =
      (Dict.last? key (iteration.call.arguments caller)).or
        (if Position.boundName = key then some position.toValue else none) := by
  have positionValue : parameterValue (iteration.within context position v)
      Position.boundName.toList = position.toValue :=
    parameterValue_of_get? (iteration.get?_position context position v) rfl
  have values : (Dict.last? key iteration.parameters).map
        (parameterValue (iteration.within context position v)) =
      (Dict.last? key iteration.parameters).map (parameterValue caller) := by
    apply Option.map_congr
    intro fragment found
    obtain ⟨itemAbsent, positionAbsent⟩ := well.unread _ (Dict.mem_of_last? found)
    exact parameterValue_congr fragment
      ((agree.within position v).agreeOn itemAbsent positionAbsent)
  simp only [arguments, inner, call, innerParameters, Dict.last?_map, (collects_foldl _).last?_eq,
    Dict.last?_cons, Option.map_or, values]
  congr 1
  by_cases same : Position.boundName = key
  · simp only [same, if_true, Option.map_some]
    rw [← same, positionValue]
  · simp only [same, if_false, Option.map_none]

/-- The call in the loop renders the snippet once, with the bindings that the call for each
element gives it for this element. -/
theorem WellFormed.bindings_inner (agree : iteration.AgreeOutside context caller)
    (position : Position) (v : Value) :
    ∃ bound, iteration.inner.bindings (iteration.within context position v) = [bound] ∧
      Dict.ofList bound = Dict.ofList (iteration.given caller position v) := by
  have handed : targetValue (iteration.within context position v) iteration.item.toList = v := by
    rw [targetValue_of_parse well.parse_item, Expr.eval, well.get?_item, Option.getD_some]
  refine ⟨(iteration.name, v) :: iteration.inner.arguments (iteration.within context position v),
    ?_, ?_⟩
  · simp only [bindings, inner, handed, Option.getD_some]
  · apply Dict.ofList_congr
    intro key
    rw [given, Dict.last?_cons, Dict.last?_cons, Dict.last?_cons, well.last?_arguments agree,
      Option.or_assoc]

/-- The bindings of the call for each element. -/
theorem WellFormed.bindings_call (caller : Context) :
    iteration.call.bindings caller =
      (Position.locate ((e.eval caller.get?).elements?.getD [])).map fun (position, v) =>
        iteration.given caller position v := by
  simp only [bindings, call, targetValue_of_parse well.parsed, Position.locate, List.map_map]
  apply List.map_congr_left
  rintro ⟨v, index⟩ member
  have inside : index < ((e.eval caller.get?).elements?.getD []).length :=
    List.snd_lt_of_mem_zipIdx member
  simp only [Function.comp_apply, given, Position.toValue_eq_told inside]
  rfl

end

/-! ### As they are written -/

/-- The inner text of the tag that opens the loop. -/
def loopTag (iteration : Iteration) : List Char :=
  Template.tagText "for" (Template.loopMarkup iteration.item iteration.collection)

/-- The inner text of the tag in the loop. -/
def innerTag (iteration : Iteration) : List Char :=
  Template.tagText "render" (callMarkup iteration.quoted "with" iteration.item.toList
    iteration.name iteration.innerParameters)

/-- The inner text of the call for each element. -/
def callTag (iteration : Iteration) : List Char :=
  Template.tagText "render" (callMarkup iteration.quoted "for" iteration.collection
    iteration.name iteration.parameters)

/-- The source of a loop around a call. -/
def loopSource (iteration : Iteration) : String :=
  String.ofList ([iteration.loopTag, iteration.innerTag, "endfor".toList].flatMap tagSource)

/-- The source of a call for each element. -/
def callSource (iteration : Iteration) : String :=
  String.ofList ([iteration.callTag].flatMap tagSource)

/-- The loop over the elements of a collection. -/
def loop (iteration : Iteration) (e : Expr) : Node :=
  .loop ⟨iteration.item, e, false⟩ [.call iteration.inner] []

theorem isName_for : IsName "for".toList :=
  isName_of_identifier? (by decide)

theorem isName_render : IsName "render".toList :=
  isName_of_identifier? (by decide)

theorem inner_endfor : Inner "endfor".toList := by
  refine ⟨by decide, ⟨?_, ?_⟩, unclosed_of_not_mem (by decide)⟩
  · rintro _ ⟨⟩
    decide
  · rintro _ ⟨⟩
    decide

/-- A tag can be written if its markup can. -/
theorem inner_tagText {name : String} {markup : List Char} (named : IsName name.toList)
    (written : Inner markup) : Inner (Template.tagText name markup) :=
  named.inner.join (by decide : Joins " ".toList) written

/-- A text in quotes does not hold the closing mark if the text does not. -/
theorem unclosed_quoted {quote : Char} {run : List Char} (quotes : isQuote quote = true)
    (unclosed : Unclosed run) : Unclosed (quote :: (run ++ [quote])) := by
  have notSign : quote ≠ '%' := by
    rintro rfl
    cases quotes
  have notBrace : quote ≠ '}' := by
    rintro rfl
    cases quotes
  have alone : Unclosed [quote] :=
    unclosed_of_not_mem fun member => notBrace (List.mem_singleton.mp member).symm
  have before : ([quote] : List Char).getLast? ≠ some '%' := fun last =>
    notSign (Option.some.inj last)
  have after : ([quote] : List Char).head? ≠ some '}' := fun head =>
    notBrace (Option.some.inj head)
  exact alone.append (unclosed.append alone (.inr after)) (.inl before)

section

variable (well : iteration.WellFormed e)

include well

theorem WellFormed.isFragment_quoted : IsFragment iteration.quoted :=
  Markup.isFragment_quoted well.quotes well.closed

theorem WellFormed.inner_quoted : Inner iteration.quoted where
  nonempty := well.isFragment_quoted.nonempty
  trimmed := well.isFragment_quoted.trimmed
  unclosed := unclosed_quoted well.quotes well.snippetUnclosed

theorem WellFormed.isFragment_collection : IsFragment iteration.collection :=
  Expr.isFragment_of_parse well.parsed well.tight

theorem WellFormed.inner_collection : Inner iteration.collection where
  nonempty := well.isFragment_collection.nonempty
  trimmed := well.isFragment_collection.trimmed
  unclosed := well.collectionUnclosed

/-- The position can be written as a parameter. -/
theorem WellFormed.written_innerParameters : Writable iteration.innerParameters := by
  intro parameter member
  rcases List.mem_cons.mp member with rfl | member
  · exact ⟨Position.isName_boundName, Position.isName_boundName.isFragment⟩
  · exact well.written parameter member

theorem WellFormed.unclosed_innerParameters :
    ∀ parameter ∈ iteration.innerParameters, Unclosed parameter.2 := by
  intro parameter member
  rcases List.mem_cons.mp member with rfl | member
  · exact Position.isName_boundName.unclosed
  · exact well.unclosed parameter member

/-- The markup of the call in the loop can be written. -/
theorem WellFormed.inner_innerMarkup :
    Inner (callMarkup iteration.quoted "with" iteration.item.toList iteration.name
      iteration.innerParameters) :=
  inner_callMarkup well.inner_quoted .single well.itemNamed.inner well.named
    well.written_innerParameters well.unclosed_innerParameters

/-- The markup of the call for each element can be written. -/
theorem WellFormed.inner_callMarkup :
    Inner (callMarkup iteration.quoted "for" iteration.collection iteration.name
      iteration.parameters) :=
  Request.inner_callMarkup well.inner_quoted .each well.inner_collection well.named
    well.written well.unclosed

/-- The markup of the loop can be written. -/
theorem WellFormed.inner_loopMarkup :
    Inner (Template.loopMarkup iteration.item iteration.collection) :=
  well.itemNamed.inner.join (by decide : Joins " in ".toList) well.inner_collection

end

/-- The tag of a loop, a body and the tag that closes the loop are read as the loop. -/
theorem derives_loop {registry : Registry} (loops : Dict.get? "for" registry = some .loop)
    {markup : List Char} {head : LoopHead} {tokens : List Token} {body : Template}
    (written : Inner markup) (read : Template.readLoopHead markup = .ok head)
    (derived : Template.Derives registry (.body ["else", "endfor"]) tokens body) :
    Template.Derives registry (.body [])
      (.tag (Template.tagText "for" markup) :: (tokens ++ [.tag "endfor".toList]))
      [.loop head body []] := by
  obtain ⟨name, parts⟩ := Template.tagParts_tagText isName_for written.trimmed
  have statement : Template.Derives registry (.statement (Template.tagText "for" markup))
      (tokens ++ [.tag "endfor".toList]) [.loop head body []] := by
    apply Template.Derives.loop _ _ derived (by decide)
    · rw [name]
      exact loops
    · rw [parts]
      exact read
  have whole := Template.Derives.tag List.not_mem_nil statement (.nothing [])
  rwa [List.append_nil] at whole

section

variable {registry : Registry} (calls : Dict.get? "render" registry = some .call)

include calls

/-- The tag of a call is read as the call. -/
theorem derives_call {markup : List Char} {request : Request} {stops : List String}
    (written : Inner markup) (read : read? markup = some request) (free : "render" ∉ stops) :
    Template.Derives registry (.body stops) [.tag (Template.tagText "render" markup)]
      [.call request] := by
  obtain ⟨name, parts⟩ := Template.tagParts_tagText isName_render written.trimmed
  have statement : Template.Derives registry (.statement (Template.tagText "render" markup)) []
      [.call request] := by
    apply Template.Derives.call
    · rw [name]
      exact calls
    · rw [name, parts, Request.parse, read]
  rw [← name] at free
  exact .tag free statement (.nothing stops)

/-- The source of a tag of a call is read as the call. -/
theorem parse_callTag {markup : List Char} {request : Request} (written : Inner markup)
    (read : read? markup = some request) :
    Template.parse registry (tagSource (Template.tagText "render" markup)) = .ok [.call request] :=
  Template.parse_eq_ok_iff.mpr ⟨_, Token.ofSource_tag (inner_tagText isName_render written),
    derives_call calls written read List.not_mem_nil⟩

/-- The call for each element is read as such. -/
theorem WellFormed.parse_callSource (well : iteration.WellFormed e) :
    Template.parse registry iteration.callSource.toList = .ok [.call iteration.call] := by
  have read := read?_callMarkup .each well.isFragment_quoted well.isFragment_collection well.named
    well.written
  rw [callSource, String.toList_ofList, List.flatMap_singleton]
  exact parse_callTag calls well.inner_callMarkup read

/-- The loop is read as a loop around the call. -/
theorem WellFormed.parse_loopSource (well : iteration.WellFormed e)
    (loops : Dict.get? "for" registry = some .loop) :
    Template.parse registry iteration.loopSource.toList = .ok [iteration.loop e] := by
  have read := read?_callMarkup .single well.isFragment_quoted well.itemNamed.isFragment well.named
    well.written_innerParameters
  have body : Template.Derives registry (.body ["else", "endfor"]) [.tag iteration.innerTag]
      [.call iteration.inner] := derives_call calls well.inner_innerMarkup read (by decide)
  have head :=
    Template.readLoopHead_loopMarkup well.itemNamed well.isFragment_collection well.parsed
  refine Template.parse_eq_ok_iff.mpr ⟨[.tag iteration.loopTag, .tag iteration.innerTag,
    .tag "endfor".toList], ?_, derives_loop loops well.inner_loopMarkup head body⟩
  rw [loopSource, String.toList_ofList]
  apply Token.ofSource_tags
  intro inner member
  simp only [List.mem_cons, List.not_mem_nil, or_false] at member
  rcases member with rfl | rfl | rfl
  · exact inner_tagText isName_for well.inner_loopMarkup
  · exact inner_tagText isName_render well.inner_innerMarkup
  · exact inner_endfor

end

end Iteration

end Stencil
