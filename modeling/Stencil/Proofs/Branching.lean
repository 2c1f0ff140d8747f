import Stencil.Proofs.Capturing
import Stencil.Proofs.Margins

/-!
# Branches as two-way branches

A block of branches is written with one condition in its own tag and one in each `elsif`. It does
what two-way branches do that are put into each other: the first body whose condition holds is
rendered, or else what stands after `else`, and nothing is done for the bodies that are not
chosen. In an `unless` the condition of the first body has to fail, so this body changes places
with all that follows it.

A body is any source that can be read on its own, and a condition any text that is read as one,
with white space around it or without. A block of bodies is a body again, which can be put into
another one.
-/

namespace Stencil

open Template

/-! ### Bodies as they are written -/

/-- A source that is read on its own and does not end with a brace, which the tag after it would
make the start of an opening mark. -/
structure Body where
  text : List Char
  template : Template
  parsed : Template.parse .standard text = .ok template
  uncut : text.getLast? ≠ some '{'

namespace Body

/-- The body without a text. -/
def empty : Body where
  text := []
  template := []
  parsed := by
    have nothing : Layout.ofSource [] = .ok ⟨[], []⟩ := Layout.ofSource_text rfl
    exact parse_eq_ok_iff.mpr ⟨[], by rw [Token.ofSource, nothing]; rfl, .nothing []⟩
  uncut := by decide

/-- The text after `else`, or none if that is left out. -/
def textOf (otherwise : Option Body) : List Char := (otherwise.getD empty).text

/-- The template for which no condition has to hold. -/
def templateOf (otherwise : Option Body) : Template := (otherwise.getD empty).template

/-- Bodies with the same text have the same template. -/
theorem templateOf_congr {otherwise last : Option Body} (same : textOf otherwise = textOf last) :
    templateOf otherwise = templateOf last := by
  have read := (otherwise.getD empty).parsed
  rw [show (otherwise.getD empty).text = (last.getD empty).text from same,
    (last.getD empty).parsed] at read
  exact (Except.ok.inj read).symm

end Body

/-- A body and the text of the condition before it, in which no tag can end. -/
structure Guarded where
  written : List Char
  condition : Condition
  read : Condition.parse written = .ok condition
  unclosed : Unclosed written
  body : Body

/-- The inner text of the tag with the condition. -/
def Guarded.tag (word : String) (part : Guarded) : List Char := tagText word part.written

/-- A body on the condition that a variable is truthy. -/
def Guarded.ofName (name : String) (named : Markup.IsName name.toList)
    (starts : ∀ c ∈ name.toList.head?, Expr.startsNumber c = false) (body : Body) : Guarded where
  written := name.toList
  condition := .truthy (Expr.var name).named
  read := by
    let chain : Condition.Chain := ⟨[], .alone (.ofName name named starts)⟩
    have whole := chain.read (by rw [List.append_nil]) (Condition.endsChain_nil chain)
    change Condition.parse chain.text = _
    rw [Condition.parse, whole]
    rfl
  unclosed := named.unclosed
  body

namespace Branching

/-- The word of the tag that opens a block whose first condition has to hold or to fail. -/
def word (wanted : Bool) : String := if wanted then "if" else "unless"

/-- What is written after the first body of a block, up to the tag that closes the block. -/
def restText (ending : List Char) : (more : List Guarded) → (otherwise : Option Body) → List Char
  | [], none => tagSource ending
  | [], some body => tagSource "else".toList ++ (body.text ++ tagSource ending)
  | part :: more, otherwise =>
    tagSource (part.tag "elsif") ++ (part.body.text ++ restText ending more otherwise)

/-- A block as it is written. -/
def blockText (wanted : Bool) (first : Guarded) (more : List Guarded) (otherwise : Option Body) :
    List Char :=
  tagSource (first.tag (word wanted)) ++
    (first.body.text ++ restText (closing (word wanted)).toList more otherwise)

/-- The bodies of a block with their conditions, as they are read. -/
def arms (parts : List Guarded) : Arms := parts.map fun part => (part.condition, part.body.template)

/-- The node that a block is read as. -/
def node (wanted : Bool) (first : Guarded) (more : List Guarded) (otherwise : Option Body) :
    Node :=
  .branches (arms (first :: more)) (Body.templateOf otherwise) (!wanted)

/-! ### Blocks are read -/

theorem isName_elsif : Markup.IsName "elsif".toList := Markup.isName_of_identifier? (by decide)

theorem isName_word (wanted : Bool) : Markup.IsName (word wanted).toList := by
  cases wanted <;> exact Markup.isName_of_identifier? (by decide)

/-- The inner text of the tag before a body does not hold the closing mark. -/
theorem unclosed_tag {name : String} (named : Markup.IsName name.toList) (part : Guarded) :
    Unclosed (part.tag name) :=
  named.unclosed.join (by decide : Joins [' ']) part.unclosed

/-- The tag before a body has the condition for its markup. -/
theorem tag_read {name : String} (named : Markup.IsName name.toList) (part : Guarded) :
    tagName (Text.trim (part.tag name)) = name ∧
      Condition.parse (tagMarkup (Text.trim (part.tag name))) = .ok part.condition := by
  obtain ⟨tagged, markup⟩ := tagParts_trim named part.written
  exact ⟨tagged, markup ▸ Condition.parse_trim part.read⟩

/-- None of the tags that divide a block or close it is one of the registry. -/
theorem unregistered (wanted : Bool) :
    ∀ stop ∈ ["elsif", "else", closing (word wanted)], Dict.get? stop Registry.standard = none := by
  rw [standard_eq]
  cases wanted <;> decide

/-- The tag that closes a block is read as it is written. -/
theorem closing_read (wanted : Bool) :
    Unclosed (closing (word wanted)).toList ∧
      tagName (Text.trim (closing (word wanted)).toList) = closing (word wanted) := by
  cases wanted <;> exact ⟨unclosed_of_not_mem (by decide), by decide⟩

/-- What follows the first body of a block is the rest of an arm, whatever that body and its
condition are. The induction is on the bodies; each one is the first of those after it. -/
theorem exists_rest (wanted : Bool) (more : List Guarded) (otherwise : Option Body) :
    ∃ tokens, StartsMarked (restText (closing (word wanted)).toList more otherwise) tokens ∧
      ∀ condition bodyTokens body, Derives .standard (.body []) bodyTokens body →
        Derives .standard (.arm (closing (word wanted)) condition (!wanted)) (bodyTokens ++ tokens)
          [.branches ((condition, body) :: arms more) (Body.templateOf otherwise) (!wanted)] := by
  obtain ⟨unclosed, closes⟩ := closing_read wanted
  have held := unregistered wanted
  induction more with
  | nil =>
    cases otherwise with
    | none =>
      refine ⟨_, .single unclosed, fun condition bodyTokens body derived => ?_⟩
      exact .lastArm (derived.stop held) closes
    | some other =>
      obtain ⟨otherTokens, read, otherDerived⟩ := parse_eq_ok_iff.mp other.parsed
      have divides : tagName (Text.trim "else".toList) = "else" := by decide
      have unclosedElse : Unclosed "else".toList := unclosed_of_not_mem (by decide)
      refine ⟨_, .before unclosedElse other.uncut read (.single unclosed),
        fun condition bodyTokens body derived => ?_⟩
      exact .armElse (derived.stop held) divides
        (otherDerived.stop fun stop member => held stop (by simp_all)) closes
  | cons part more inductionHypothesis =>
    obtain ⟨tokens, marked, derives⟩ := inductionHypothesis
    obtain ⟨partTokens, read, partDerived⟩ := parse_eq_ok_iff.mp part.body.parsed
    obtain ⟨divides, conditionRead⟩ := tag_read isName_elsif part
    refine ⟨_, .before (unclosed_tag isName_elsif part) part.body.uncut read marked,
      fun condition bodyTokens body derived => ?_⟩
    exact .armElsif (derived.stop held) divides conditionRead
      (derives _ partTokens _ partDerived)

/-- A block is read as its bodies with their conditions. -/
theorem parse_blockText (wanted : Bool) (first : Guarded) (more : List Guarded)
    (otherwise : Option Body) :
    Template.parse .standard (blockText wanted first more otherwise) =
      .ok [node wanted first more otherwise] := by
  obtain ⟨tokens, marked, derives⟩ := exists_rest wanted more otherwise
  obtain ⟨firstTokens, read, firstDerived⟩ := parse_eq_ok_iff.mp first.body.parsed
  obtain ⟨tagged, condition⟩ := tag_read (isName_word wanted) first
  have whole := StartsMarked.before (unclosed_tag (isName_word wanted) first) first.body.uncut
    read marked
  have arms : Derives .standard
      (.arm ("end" ++ tagName (Text.trim (first.tag (word wanted)))) first.condition (!wanted))
      (firstTokens ++ tokens) [node wanted first more otherwise] := by
    rw [tagged]
    exact derives _ _ _ firstDerived
  have registered : Dict.get? (tagName (Text.trim (first.tag (word wanted)))) Registry.standard =
      some (if wanted then .ifHolds else .ifFails) := by
    rw [tagged, standard_eq]
    cases wanted <;> decide
  have statement : Derives .standard (.statement (Text.trim (first.tag (word wanted))))
      (firstTokens ++ tokens) [node wanted first more otherwise] := by
    cases wanted with
    | true => exact .ifHolds registered condition arms
    | false => exact .ifFails registered condition arms
  refine parse_eq_ok_iff.mpr ⟨_, whole.ofSource, ?_⟩
  have alone := Derives.tag List.not_mem_nil statement (.nothing [])
  rwa [List.append_nil, List.append_nil] at alone

/-- A block ends with the mark that closes its last tag. -/
theorem getLast?_blockText (wanted : Bool) (first : Guarded) (more : List Guarded)
    (otherwise : Option Body) :
    (blockText wanted first more otherwise).getLast? = some '}' := by
  have single (inner : List Char) : (tagSource inner).getLast? = some '}' := by
    rw [tagSource, List.getLast?_append_of_ne_nil _ (by decide)]
    rfl
  have rest (ending : List Char) : (restText ending more otherwise).getLast? = some '}' := by
    induction more with
    | nil =>
      cases otherwise with
      | none => exact single ending
      | some other => simp only [restText, List.getLast?_append, single, Option.some_or]
    | cons part more inductionHypothesis =>
      simp only [restText, List.getLast?_append, inductionHypothesis, Option.some_or]
  simp only [blockText, List.getLast?_append, rest, Option.some_or]

/-- A block as a body. -/
def block (wanted : Bool) (first : Guarded) (more : List Guarded) (otherwise : Option Body) :
    Body where
  text := blockText wanted first more otherwise
  template := [node wanted first more otherwise]
  parsed := parse_blockText wanted first more otherwise
  uncut := by
    rw [getLast?_blockText]
    decide

/-- The two-way form of a block: what follows the first body stands after `else`, in the same
form. -/
def nested (first : Guarded) : (more : List Guarded) → (otherwise : Option Body) → Body
  | [], otherwise => block true first [] otherwise
  | part :: more, otherwise => block true first [] (some (nested part more otherwise))

/-- What follows the first body as a body: a block of its own, or else what stands after
`else`. -/
def following : (more : List Guarded) → (otherwise : Option Body) → Body
  | [], otherwise => otherwise.getD .empty
  | part :: more, otherwise => block true part more otherwise

/-- A two-way branch with the first body in the second place. -/
def exchanged (first : Guarded) (more : List Guarded) (otherwise : Option Body) : Body :=
  block true { first with body := following more otherwise } [] (some first.body)

/-! ### Blocks are rendered -/

/-- The template of the first body whose condition holds, or else another one. -/
def chosen (bindings : Bindings) (parts : List Guarded) (otherwise : Template) : Template :=
  ((parts.find? fun part => part.condition.eval bindings).map (·.body.template)).getD otherwise

variable {σ : Type}

/-- Without arms a block does what is left to do. -/
theorem render_no_arms (engine : Engine σ) (otherwise : Template) (negateFirst : Bool)
    (run : Run σ) :
    Template.render engine [.branches [] otherwise negateFirst] run =
      Template.render engine otherwise run := by
  rw [Template.render_eq, Template.render_eq, Rendering.renderAll_single, Node.render,
    Node.renderFirst]

/-- A block does what its first body does if that applies, or else what the arms after it do, none
of which is negated. -/
theorem render_first_arm (engine : Engine σ) (condition : Condition) (body : Template)
    (later : Arms) (otherwise : Template) (negateFirst : Bool) (run : Run σ) :
    Template.render engine [.branches ((condition, body) :: later) otherwise negateFirst] run =
      Template.render engine
        (if condition.eval run.context.get? != negateFirst then body
          else [.branches later otherwise false]) run := by
  rw [Template.render_eq, Template.render_eq, Rendering.renderAll_single, Node.render,
    Node.renderFirst]
  simp only [bind, EStateM.bind, Rendering.test]
  split
  · rfl
  · rw [Rendering.renderAll_single, Node.render]

/-- A two-way branch does what the part of it does that its condition asks for. -/
theorem render_two_way (engine : Engine σ) (condition : Condition) (body otherwise : Template)
    (run : Run σ) :
    Template.render engine [.branches [(condition, body)] otherwise false] run =
      Template.render engine (if condition.eval run.context.get? then body else otherwise) run := by
  rw [render_first_arm, Bool.bne_false]
  split
  · rfl
  · exact render_no_arms engine otherwise false run

/-- Arms of which none is negated do what the chosen body does. The induction is on the arms. -/
theorem render_arms (engine : Engine σ) (parts : List Guarded) (otherwise : Template)
    (run : Run σ) :
    Template.render engine [.branches (arms parts) otherwise false] run =
      Template.render engine (chosen run.context.get? parts otherwise) run := by
  induction parts with
  | nil => exact render_no_arms engine otherwise false run
  | cons part parts inductionHypothesis =>
    rw [arms, List.map_cons, render_first_arm, Bool.bne_false, chosen, List.find?_cons]
    cases part.condition.eval run.context.get? with
    | true => rfl
    | false => exact inductionHypothesis

/-- The two-way form of a block does what the chosen body does: the block is unfolded from its
first body on. The induction is on the bodies after the first one. -/
theorem render_nested (engine : Engine σ) (first : Guarded) (more : List Guarded)
    (otherwise : Option Body) (run : Run σ) :
    (nested first more otherwise).template.render engine run =
      Template.render engine
        (chosen run.context.get? (first :: more) (Body.templateOf otherwise)) run := by
  induction more generalizing first with
  | nil => exact render_arms engine [first] (Body.templateOf otherwise) run
  | cons part more inductionHypothesis =>
    have unfolded : (nested first (part :: more) otherwise).template =
        [.branches [(first.condition, first.body.template)]
          (nested part more otherwise).template false] := rfl
    rw [unfolded, render_two_way, chosen, List.find?_cons]
    cases first.condition.eval run.context.get? with
    | true => rfl
    | false => exact inductionHypothesis part

/-- What follows the first body does what the chosen one of the other bodies does. -/
theorem render_following (engine : Engine σ) (more : List Guarded) (otherwise : Option Body)
    (run : Run σ) :
    (following more otherwise).template.render engine run =
      Template.render engine (chosen run.context.get? more (Body.templateOf otherwise)) run := by
  cases more with
  | nil => rfl
  | cons part more => exact render_arms engine (part :: more) (Body.templateOf otherwise) run

/-- In an `unless` the first body is rendered if its condition fails, and the other conditions are
what they are in an `if`. -/
theorem render_unless (engine : Engine σ) (first : Guarded) (more : List Guarded)
    (otherwise : Option Body) (run : Run σ) :
    (block false first more otherwise).template.render engine run =
      Template.render engine
        (if first.condition.eval run.context.get? then
          chosen run.context.get? more (Body.templateOf otherwise)
        else first.body.template) run := by
  have negated : (block false first more otherwise).template =
      [.branches ((first.condition, first.body.template) :: arms more)
        (Body.templateOf otherwise) true] := rfl
  rw [negated, render_first_arm]
  cases first.condition.eval run.context.get? with
  | true => exact render_arms engine more (Body.templateOf otherwise) run
  | false => rfl

/-- With the first body in the second place the same is rendered. -/
theorem render_exchanged (engine : Engine σ) (first : Guarded) (more : List Guarded)
    (otherwise : Option Body) (run : Run σ) :
    (exchanged first more otherwise).template.render engine run =
      Template.render engine
        (if first.condition.eval run.context.get? then
          chosen run.context.get? more (Body.templateOf otherwise)
        else first.body.template) run := by
  have inside : (exchanged first more otherwise).template =
      [.branches [(first.condition, (following more otherwise).template)]
        first.body.template false] := rfl
  rw [inside, render_two_way]
  cases first.condition.eval run.context.get? with
  | true => exact render_following engine more otherwise run
  | false => rfl

/-- A block of branches does what its two-way form does. Whatever the conditions and the bodies
are, if each of them can be read on its own, all of the four sources can be read. From every run
a block with `if` and its two-way form end alike: with the same output, the same bindings and
the same error, if there is one. So does a block with `unless` and the two-way branch in which
its first body has changed places with what follows it. They do what the first body does whose
condition holds, or else what stands after `else`; in an `unless` this is the first body if its
own condition fails. The text after `else` counts, whether `else` is written or left out. -/
theorem branches_as_two_way (env : Environment σ) (source : Source σ)
    (tags : env.tags = .standard) (first : Guarded) (more : List Guarded)
    {otherwise last : Option Body} (same : Body.textOf otherwise = Body.textOf last) :
    (∀ body ∈ [block true first more otherwise, nested first more last,
        block false first more otherwise, exchanged first more last],
      env.parse (String.ofList body.text) = .ok body.template) ∧
    ∀ run : Run σ,
      let render (body : Body) := body.template.render (env.engine source) run
      let bindings := run.context.get?
      let ending := Body.templateOf otherwise
      render (block true first more otherwise) = render (nested first more last) ∧
      render (block false first more otherwise) = render (exchanged first more last) ∧
      render (block true first more otherwise) =
        (chosen bindings (first :: more) ending).render (env.engine source) run ∧
      render (block false first more otherwise) =
        (if first.condition.eval bindings then chosen bindings more ending
          else first.body.template).render (env.engine source) run := by
  have templates := Body.templateOf_congr same
  constructor
  · intro body _
    rw [env.parse_eq_ok_iff, tags, String.toList_ofList]
    exact body.parsed
  · intro run render bindings ending
    have anyOf := render_arms (env.engine source) (first :: more) ending run
    have negated := render_unless (env.engine source) first more otherwise run
    have unfolded := render_nested (env.engine source) first more last run
    have changed := render_exchanged (env.engine source) first more last run
    rw [← templates] at unfolded changed
    exact ⟨anyOf.trans unfolded.symm, negated.trans changed.symm, anyOf, negated⟩

/-- A body that binds a variable, on the condition that another one is truthy. -/
def bindingPart : Guarded :=
  .ofName "hidden" (Markup.isName_of_identifier? (by decide)) (by rintro _ ⟨⟩; decide)
    { text := "\x7b% assign z = 1 %\x7dA".toList
      template := [.assign "z" (.literal (.ofInt 1)), .text "A"]
      parsed := by cbv
      uncut := by decide }

/-- A body that is a text. -/
def printingPart : Guarded :=
  .ofName "shown" (Markup.isName_of_identifier? (by decide)) (by rintro _ ⟨⟩; decide)
    ⟨"B".toList, [.text "B"], by cbv, by decide⟩

/-- A block with `unless` whose first condition holds, so that its second body is rendered. It
leaves `else` out, and its two-way form writes it with nothing after it. -/
theorem unless_elsif_as_two_way :
    let env : Environment Unit := .new .default ()
    let bound : Scope := [("hidden", .bool true), ("shown", .bool true)]
    let run : Run Unit := ⟨⟨bound, [], 0⟩, "o", env.store⟩
    ∃ whole other, env.parse ("\x7b% unless hidden %\x7d\x7b% assign z = 1 %\x7dA" ++
        "\x7b% elsif shown %\x7dB\x7b% endunless %\x7d") = .ok whole ∧
      env.parse ("\x7b% if hidden %\x7d" ++
        "\x7b% if shown %\x7dB\x7b% else %\x7d\x7b% endif %\x7d" ++
        "\x7b% else %\x7d\x7b% assign z = 1 %\x7dA\x7b% endif %\x7d") = .ok other ∧
      whole.render (env.engine .none) run = other.render (env.engine .none) run ∧
      whole.render (env.engine .none) run = .ok () { run with out := "oB" } := by
  intro env bound run
  have same : Body.textOf none = Body.textOf (some .empty) := rfl
  obtain ⟨parsed, rendered⟩ :=
    branches_as_two_way env .none rfl bindingPart [printingPart] same
  obtain ⟨-, alike, -, chosenAlone⟩ := rendered run
  have whole := parsed (block false bindingPart [printingPart] none) (by simp)
  have other := parsed (exchanged bindingPart [printingPart] (some .empty)) (by simp)
  have holds : bindingPart.condition.eval run.context.get? = true := by decide +kernel
  rw [if_pos holds] at chosenAlone
  refine ⟨_, _, whole, other, alike, chosenAlone.trans ?_⟩
  cbv

end Branching

end Stencil
