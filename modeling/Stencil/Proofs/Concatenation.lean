import Mathlib
import Stencil.Proofs.Acceptance
import Stencil.Proofs.Layouts
import Stencil.Proofs.Scoping
import Stencil.Proofs.Serving

/-!
# Templates in turn

A source can be rendered in two parts wherever no mark is cut and no white space is
trimmed across the seam. Each part must be readable on its own, so no block stays open
at the seam. Then the whole is readable, too, and rendering it is rendering the first
part and, if that does not fail, the second part in the run in which the first one
ended.

The nodes of the whole are those of the parts, but for the texts at the seam, which are
one text in the whole.
-/

namespace Stencil

variable {σ : Type}

/-! ### Reading -/

namespace Template

open Layout

variable {registry : Registry} {stops : List String}

theorem plain_nil : plain [] = [] := rfl

theorem plain_of_ne_nil {text : List Char} (nonempty : text ≠ []) : plain text = [.text text] := by
  simp only [plain, textTokens, Bool.false_eq_true, if_false, List.isEmpty_iff, nonempty]

/-- What belongs to a tag does not end with a text; a body can. -/
def Phrase.MayEndWith (last : Option Token) : Phrase → Prop
  | .body _ => True
  | _ => ∀ content, last ≠ some (.text content)

/-- Statements and arms end with tags. -/
theorem Derives.mayEndWith {phrase : Phrase} {tokens : List Token} {nodes : Template}
    (derived : Derives registry phrase tokens nodes) : phrase.MayEndWith tokens.getLast? := by
  induction derived with
  | nothing | text | output | tag => trivial
  | assign | call => simp [Phrase.MayEndWith]
  | comment | capture | loop | loopElse | lastArm | armElse =>
    simp [Phrase.MayEndWith, List.getLast?_append, List.getLast?_cons]
  | ifHolds _ _ _ inductionHypothesis => exact inductionHypothesis
  | ifFails _ _ _ inductionHypothesis => exact inductionHypothesis
  | @armElsif _ _ _ _ _ _ moreTokens _ _ _ _ _ _ _ _ inductionHypothesis =>
    intro content same
    rw [List.getLast?_append, List.getLast?_cons, Option.some_or, Option.some.injEq] at same
    cases last : moreTokens.getLast? with
    | none => rw [last] at same; cases same
    | some token =>
      rw [last] at same
      exact inductionHypothesis content (last.trans (congrArg some same))

/-- A last text of a body is a last node. -/
theorem Derives.init_text {tokens : List Token} {content : List Char} {nodes : Template}
    (derived : Derives registry (.body stops) (tokens ++ [.text content]) nodes) :
    ∃ init, nodes = init ++ [.text (String.ofList content)] ∧
      Derives registry (.body stops) tokens init := by
  generalize phrase : Phrase.body stops = body at derived
  generalize whole : tokens ++ [.text content] = all at derived
  induction derived generalizing tokens with
  | nothing => simp at whole
  | text other more inductionHypothesis =>
    cases phrase
    cases tokens with
    | nil =>
      cases whole
      cases more
      exact ⟨[], rfl, .nothing _⟩
    | cons token tokens =>
      cases whole
      obtain ⟨init, rfl, derived⟩ := inductionHypothesis rfl rfl
      exact ⟨_ :: init, rfl, .text other derived⟩
  | output read more inductionHypothesis =>
    cases phrase
    cases tokens with
    | nil => cases whole
    | cons token tokens =>
      cases whole
      obtain ⟨init, rfl, derived⟩ := inductionHypothesis rfl rfl
      exact ⟨_ :: init, rfl, .output read derived⟩
  | @tag _ inner own rest ownNodes nodes free statement more _ inductionHypothesis =>
    cases phrase
    cases tokens with
    | nil => cases whole
    | cons token tokens =>
      simp only [List.cons_append, List.cons.injEq] at whole
      obtain ⟨rfl, whole⟩ := whole
      rcases List.eq_nil_or_concat rest with rfl | ⟨init, last, rfl⟩
      · -- The statement would end with the text.
        rw [List.append_nil] at whole
        have last : own.getLast? = some (.text content) := by rw [← whole, List.getLast?_concat]
        exact absurd last (statement.mayEndWith content)
      · rw [List.concat_eq_append, ← List.append_assoc] at whole
        obtain ⟨rfl, last⟩ := List.append_inj' whole rfl
        cases last
        obtain ⟨init, rfl, derived⟩ := inductionHypothesis rfl (List.concat_eq_append ..).symm
        exact ⟨ownNodes ++ init, by rw [List.append_assoc], .tag free statement derived⟩
  | _ => cases phrase

end Template

/-! ### Rendering -/

namespace Rendering

/-- A text is written in two parts. -/
theorem write_append (text more : String) :
    (write (text ++ more) : Rendering σ Unit) = (write text >>= fun _ => write more) := by
  funext run
  simp only [write, modify, modifyGet, MonadStateOf.modifyGet, EStateM.modifyGet, bind,
    EStateM.bind, String.append_assoc]

/-- Nodes after other nodes are rendered in turn with these. -/
theorem renderAll_append (call : Request → Rendering σ Unit) (nodes more : Template) :
    Node.renderAll call (nodes ++ more) =
      (Node.renderAll call nodes >>= fun _ => Node.renderAll call more) := by
  induction nodes with
  | nil => simp only [List.nil_append, Node.renderAll, pure_bind]
  | cons node nodes inductionHypothesis =>
    simp only [List.cons_append, Node.renderAll, inductionHypothesis, bind_assoc]

/-- Two texts in turn are rendered like one. -/
theorem renderAll_texts (call : Request → Rendering σ Unit) (text more : String)
    (nodes : Template) :
    Node.renderAll call (.text (text ++ more) :: nodes) =
      Node.renderAll call (.text text :: .text more :: nodes) := by
  simp only [Node.renderAll, Node.render, write_append, bind_assoc]

end Rendering

open Rendering

/-- The body that is spelled across a seam is rendered like the bodies on both sides of it
in turn. -/
theorem Template.derives_seam {registry : Registry} {stops : List String}
    {tokens more : List Token} {text moreText : List Char} {nodes moreNodes : Template}
    (before : Derives registry (.body stops) (tokens ++ Layout.plain text) nodes)
    (after : Derives registry (.body stops) (Layout.plain moreText ++ more) moreNodes) :
    ∃ whole, Derives registry (.body stops)
        (tokens ++ (Layout.plain (text ++ moreText) ++ more)) whole ∧
      ∀ {σ : Type} (call : Request → Rendering σ Unit), Node.renderAll call whole =
        (Node.renderAll call nodes >>= fun _ => Node.renderAll call moreNodes) := by
  by_cases none : text = []
  · subst none
    rw [plain_nil, List.append_nil] at before
    exact ⟨nodes ++ moreNodes, before.append after, fun call => renderAll_append call _ _⟩
  by_cases noneMore : moreText = []
  · subst noneMore
    rw [plain_nil, List.nil_append] at after
    refine ⟨nodes ++ moreNodes, ?_, fun call => renderAll_append call _ _⟩
    rw [List.append_nil, ← List.append_assoc]
    exact before.append after
  · rw [plain_of_ne_nil none] at before
    rw [plain_of_ne_nil noneMore] at after
    obtain ⟨init, rfl, beforeText⟩ := before.init_text
    cases after with
    | text _ afterText =>
      rw [plain_of_ne_nil (List.append_ne_nil_of_left_ne_nil none moreText)]
      refine ⟨_, beforeText.append (.text (text ++ moreText) afterText), fun call => ?_⟩
      rw [← renderAll_append, List.append_assoc, renderAll_append, renderAll_append,
        String.ofList_append, renderAll_texts]
      rfl

/-- A run differs from another one in its output alone. -/
theorem Run.eq_of_written {run other : Run σ} {out : String}
    (context : run.context = other.context) (store : run.store = other.store)
    (written : run.out = out) : run = { other with out := out } := by
  obtain ⟨_, _, _⟩ := run
  obtain ⟨_, _, _⟩ := other
  cases context
  cases store
  cases written
  rfl

/-- What a template does does not depend on what was written before, and what was written
before stays. -/
theorem Template.render_writes (engine : Engine σ) (template : Template) (run : Run σ) :
    ∃ text, ∀ out,
      (template.render engine).failure? { run with out := out } =
          (template.render engine).failure? run ∧
        (template.render engine).after { run with out := out } =
          { (template.render engine).after run with out := out ++ text } := by
  obtain ⟨text, appended⟩ := (template_confined engine template run).appended
  refine ⟨text, fun out => ?_⟩
  let pairing : Pairing engine := .keeping engine (fun _ => True) fun _ => id
  have matched : Matched (fun _ => False)
      (Alongside pairing.stores View.same { run with out := out } run)
      (template.render engine { run with out := out }) (template.render engine run) :=
    pairing.render_matched template (View.same_sees _) rfl ⟨rfl, trivial⟩ (.inl rfl)
  obtain ⟨failure, ended⟩ := matched.ended fun _ _ => id
  obtain ⟨more, leftOut, rightOut⟩ := ended.out
  have same : text = more := (String.append_right_inj _).mp (appended.symm.trans rightOut)
  exact ⟨failure, Run.eq_of_written ended.context ended.store.1 (same ▸ leftOut)⟩

/-- Nodes that are rendered like two templates in turn do what these do: the second one
starts with the levels that the first one started with, since the depth stays the same. -/
theorem Template.render_in_turn (engine : Engine σ) {whole template more : Template}
    (inTurn : ∀ call : Request → Rendering σ Unit, Node.renderAll call whole =
      (Node.renderAll call template >>= fun _ => Node.renderAll call more))
    (run : Run σ) :
    whole.render engine run =
      (template.render engine >>= fun _ => more.render engine) run := by
  have confined := template_confined engine template run
  let first : Rendering σ Unit :=
    Node.renderAll (Request.performWithin engine run.context.levelsLeft) template
  rw [render_eq, inTurn]
  cases failed : (template.render engine).failure? run with
  | some e =>
    have failedFirst : first.failure? run = some e := failed
    rw [bind_of_failure _ failed]
    exact bind_of_failure _ failedFirst
  | none =>
    have succeededFirst : first.failure? run = none := failed
    have levels : ((template.render engine).after run).context.levelsLeft =
        run.context.levelsLeft := by
      rw [Context.levelsLeft, confined.depth, Context.levelsLeft]
    rw [bind_of_success _ failed, render_eq, levels]
    exact bind_of_success _ succeededFirst

/-- An environment reads a source with its own tags. -/
theorem Environment.parse_eq_ok_iff (env : Environment σ) {text : String} {template : Template} :
    env.parse text = .ok template ↔ Template.parse env.tags text.toList = .ok template := by
  unfold Environment.parse
  cases Template.parse env.tags text.toList with
  | error cause => simp only [Except.mapError, reduceCtorEq]
  | ok other => simp only [Except.mapError, Except.ok.injEq]

/-- Two sources that an environment can read are read as one source, with nodes that are
rendered like those of both in turn. -/
theorem Environment.exists_parse_append (env : Environment σ) {first second : String}
    {template more : Template} {layout last : Layout}
    (parsedFirst : env.parse first = .ok template) (parsedSecond : env.parse second = .ok more)
    (uncut : first.toList.getLast? ≠ some '{')
    (layoutFirst : Layout.ofSource first.toList = .ok layout) (keepsAfter : layout.KeepsAfter)
    (layoutSecond : Layout.ofSource second.toList = .ok last) (keepsBefore : last.KeepsBefore) :
    ∃ whole, env.parse (first ++ second) = .ok whole ∧
      ∀ {σ : Type} (call : Request → Rendering σ Unit), Node.renderAll call whole =
        (Node.renderAll call template >>= fun _ => Node.renderAll call more) := by
  obtain ⟨_, read, derived⟩ := Template.parse_eq_ok_iff.mp (env.parse_eq_ok_iff.mp parsedFirst)
  obtain ⟨_, readMore, derivedMore⟩ :=
    Template.parse_eq_ok_iff.mp (env.parse_eq_ok_iff.mp parsedSecond)
  rw [Token.ofSource, layoutFirst] at read
  rw [Token.ofSource, layoutSecond] at readMore
  cases read
  cases readMore
  obtain ⟨tokens, text, tokensFirst, tokensWhole⟩ := Layout.tokens_append keepsAfter
  rw [tokensFirst] at derived
  rw [Layout.tokens_keeps keepsBefore] at derivedMore
  obtain ⟨whole, derivedWhole, inTurn⟩ := Template.derives_seam derived derivedMore
  refine ⟨whole, env.parse_eq_ok_iff.mpr (Template.parse_eq_ok_iff.mpr ⟨_, ?_, derivedWhole⟩),
    inTurn⟩
  rw [Token.ofSource, String.toList_append,
    Layout.ofSource_append uncut layoutFirst layoutSecond, ← tokensWhole last keepsBefore]
  rfl

/-- Two sources that can be read, of which the first one does not end with a brace and no
delimiter next to the seam trims the text there, can be read as one source. Rendering it,
from any run, is rendering the first one and then the second one: what each of them
appends is what it appends to any output, and the whole ends where the second one ends
when it starts where the first one ended. If the first one fails, the whole does exactly
the same as the first one. -/
theorem concatenation_in_turn (env : Environment σ) (source : Source σ) {first second : String}
    {template more : Template} {layout last : Layout}
    (parsedFirst : env.parse first = .ok template) (parsedSecond : env.parse second = .ok more)
    (uncut : first.toList.getLast? ≠ some '{')
    (layoutFirst : Layout.ofSource first.toList = .ok layout) (keepsAfter : layout.KeepsAfter)
    (layoutSecond : Layout.ofSource second.toList = .ok last) (keepsBefore : last.KeepsBefore) :
    ∃ whole, env.parse (first ++ second) = .ok whole ∧
      ∀ run : Run σ,
        let rendering := whole.render (env.engine source)
        let one := template.render (env.engine source)
        let two := more.render (env.engine source)
        (∀ e, one.failure? run = some e → rendering run = one run) ∧
          (one.failure? run = none →
            rendering.failure? run = two.failure? (one.after run) ∧
            rendering.after run = two.after (one.after run) ∧
            ∃ text moreText,
              (∀ out, one.after { run with out := out } =
                { one.after run with out := out ++ text }) ∧
              (∀ out, two.after { one.after run with out := out } =
                { rendering.after run with out := out ++ moreText }) ∧
              (rendering.after run).out = run.out ++ text ++ moreText) := by
  obtain ⟨whole, parsed, inTurn⟩ := env.exists_parse_append parsedFirst parsedSecond uncut
    layoutFirst keepsAfter layoutSecond keepsBefore
  refine ⟨whole, parsed, fun run => ?_⟩
  intro rendering one two
  have outcome : rendering run = (one >>= fun _ => two) run :=
    Template.render_in_turn (env.engine source) inTurn run
  constructor
  · intro e failed
    rw [outcome, bind_of_failure _ failed]
    exact (eq_error_of_failure failed).symm
  · intro succeeded
    rw [bind_of_success two succeeded] at outcome
    have failure : rendering.failure? run = two.failure? (one.after run) := by
      simp only [failure?, outcome]
    have ended : rendering.after run = two.after (one.after run) := by
      simp only [after, outcome]
    obtain ⟨text, writes⟩ := template.render_writes (env.engine source) run
    obtain ⟨moreText, writesMore⟩ := more.render_writes (env.engine source) (one.after run)
    refine ⟨failure, ended, text, moreText, fun out => (writes out).2, fun out => ?_, ?_⟩
    · rw [ended]
      exact (writesMore out).2
    · rw [ended, (writesMore (one.after run).out).2, (writes run.out).2]

/-- A binding and a text, and then a text and an output: the texts at the seam are one text
in the whole, and the output sees the binding. -/
theorem binding_then_output :
    let env : Environment Unit := .new .default ()
    let first := "\x7b% assign v = \"1\" %\x7d a"
    let second := "b \x7b\x7b v \x7d\x7d"
    let run : Run Unit := ⟨.top [], "o", env.store⟩
    ∃ whole, env.parse (first ++ second) = .ok whole ∧
      (Template.render (env.engine .none) whole).failure? run = none ∧
      ((Template.render (env.engine .none) whole).after run).out = "o ab 1" := by
  intro env first second run
  have parsedFirst : env.parse first = .ok [.assign "v" (.literal (.string "1")), .text " a"] := by
    cbv
  have parsedSecond : env.parse second = .ok [.text "b ", .output (.var "v")] := by cbv
  have layoutFirst : Layout.ofSource first.toList =
      .ok ⟨[], [(⟨.tag, false, "assign v = \"1\"".toList, false⟩, " a".toList)]⟩ := by cbv
  have layoutSecond : Layout.ofSource second.toList =
      .ok ⟨"b ".toList, [(⟨.output, false, "v".toList, false⟩, [])]⟩ := by cbv
  obtain ⟨whole, parsed, rendered⟩ := concatenation_in_turn env .none parsedFirst parsedSecond
    (by decide) layoutFirst (by rintro _ ⟨⟩; rfl) layoutSecond (by rintro _ ⟨⟩; rfl)
  obtain ⟨-, inTurn⟩ := rendered run
  obtain ⟨failure, ended, -⟩ := inTurn (by decide +kernel)
  refine ⟨whole, parsed, ?_, ?_⟩
  · rw [failure]
    decide +kernel
  · rw [ended]
    decide +kernel

end Stencil
