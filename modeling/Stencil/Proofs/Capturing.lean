import Mathlib
import Stencil.Proofs.Concatenation
import Stencil.Proofs.Iteration

/-!
# Capturing a body and printing it

A body that is captured and printed right afterwards does what it does where it stands, but
for the variable that holds its text. Only if it fails there is a difference in what has
been written: nothing reaches the output then.

A body can be put into a capture as it is written: between two tags its layout stays the
same, and the tag that closes the capture ends no body that can be read on its own.
-/

namespace Stencil

variable {σ : Type}

/-! ### A body between tags -/

namespace Layout

/-- Delimiters that keep the text before them go on after the tokens of any text and delimiters.
The induction follows the delimiters before them; the flag is that of the delimiter before
the text. -/
theorem tokensFrom_before {last : Layout} (empty : last.first = []) (more : last.rest ≠ [])
    (keeps : last.KeepsBefore) (flag : Bool) (text : List Char)
    (rest : List (Delimiter × List Char)) :
    tokensFrom flag (appendFrom text last rest).first (appendFrom text last rest).rest =
      tokensFrom flag text rest ++ last.tokensAfterFirst := by
  induction rest generalizing flag text with
  | nil =>
    obtain ⟨first, _ | ⟨⟨d, next⟩, rest⟩⟩ := last
    · exact absurd rfl more
    · have kept : d.trimsBefore = false := keeps (d, next) rfl
      cases empty
      rw [appendFrom, List.append_nil, tokensFrom, tokensFrom, kept]
      rfl
  | cons delimiter rest inductionHypothesis =>
    obtain ⟨d, next⟩ := delimiter
    rw [appendFrom, tokensFrom, tokensFrom, inductionHypothesis, List.append_assoc,
      List.cons_append]

end Layout

/-- A source that starts with a delimiter without a dash on its left, and its tokens. -/
inductive StartsMarked (source : List Char) : List Token → Prop where
  | intro {layout : Layout} (read : Layout.ofSource source = .ok layout)
      (empty : layout.first = []) (more : layout.rest ≠ []) (keeps : layout.KeepsBefore) :
      StartsMarked source layout.tokensAfterFirst

theorem StartsMarked.ofSource {source : List Char} {tokens : List Token}
    (marked : StartsMarked source tokens) : Token.ofSource source = .ok tokens := by
  cases marked with
  | @intro layout read empty more keeps =>
    have nothing : Layout.plain layout.first = [] := by
      rw [empty]
      rfl
    rw [Token.ofSource, read, Except.map, Layout.tokens_keeps keeps, nothing, List.nil_append]

/-- A tag alone is such a source. -/
theorem StartsMarked.single {inner : List Char} (unclosed : Unclosed inner) :
    StartsMarked (tagSource inner) [.tag (Text.trim inner)] := by
  have nothing : Layout.ofSource [] = .ok ⟨[], []⟩ := Layout.ofSource_text rfl
  have whole := Layout.ofSource_tagSource_trim unclosed []
  rw [List.append_nil, nothing] at whole
  refine .intro whole rfl (List.cons_ne_nil _ _) ?_
  rintro _ ⟨⟩
  rfl

/-- The tokens of a tag and a body before such a source are the tag and those that the body has
on its own. The body may not end with a brace, which the delimiter after it would make the start
of an opening mark. -/
theorem StartsMarked.before {opening body closing : List Char} {tokens last : List Token}
    (unclosed : Unclosed opening) (uncut : body.getLast? ≠ some '{')
    (read : Token.ofSource body = .ok tokens) (marked : StartsMarked closing last) :
    StartsMarked (tagSource opening ++ (body ++ closing))
      (.tag (Text.trim opening) :: (tokens ++ last)) := by
  cases marked with
  | @intro last ends empty more keeps =>
    rw [Token.ofSource] at read
    cases layoutRead : Layout.ofSource body with
    | error cause =>
      rw [layoutRead] at read
      cases read
    | ok layout =>
      rw [layoutRead] at read
      cases read
      have inside : (layout.append last).tokens = layout.tokens ++ last.tokensAfterFirst :=
        Layout.tokensFrom_before empty more keeps false layout.first layout.rest
      have whole := Layout.ofSource_tagSource_trim unclosed (body ++ closing)
      rw [Layout.ofSource_append uncut layoutRead ends] at whole
      rw [← inside]
      refine .intro whole rfl (List.cons_ne_nil _ _) ?_
      rintro _ ⟨⟩
      rfl

theorem Token.ofSource_between {opening body closing : List Char} {last : Layout}
    {tokens : List Token} (opens : Inner opening) (uncut : body.getLast? ≠ some '{')
    (read : ofSource body = .ok tokens) (ends : Layout.ofSource closing = .ok last)
    (empty : last.first = []) (more : last.rest ≠ []) (keeps : last.KeepsBefore) :
    ofSource (tagSource opening ++ (body ++ closing)) =
      .ok (.tag opening :: (tokens ++ last.tokensAfterFirst)) := by
  have whole := StartsMarked.before opens.unclosed uncut read (.intro ends empty more keeps)
  rw [Text.trim_of_trimmed opens.trimmed] at whole
  exact whole.ofSource

namespace Template

variable {registry : Registry} {stops : List String}

/-- A tag that belongs to a statement is registered. -/
theorem Derives.registered {inner : List Char} {tokens : List Token} {nodes : Template}
    (statement : Derives registry (.statement inner) tokens nodes) :
    Dict.get? (tagName inner) registry ≠ none := by
  cases statement <;> simp_all only [ne_eq, reduceCtorEq, not_false_eq_true]

/-- Tags that are not registered end no body that is spelled without them. -/
theorem Derives.stop (unregistered : ∀ stop ∈ stops, Dict.get? stop registry = none)
    {tokens : List Token} {nodes : Template}
    (derived : Derives registry (.body []) tokens nodes) :
    Derives registry (.body stops) tokens nodes := by
  generalize phrase : Phrase.body [] = body at derived
  induction derived with
  | nothing => exact .nothing stops
  | text content _ inductionHypothesis => exact .text content (inductionHypothesis phrase)
  | output read _ inductionHypothesis => exact .output read (inductionHypothesis phrase)
  | tag free statement _ _ inductionHypothesis =>
    exact .tag (fun stop => statement.registered (unregistered _ stop)) statement
      (inductionHypothesis phrase)
  | _ => cases phrase

end Template

/-! ### The source -/

/-- The tag that opens a capture. -/
def captureTag (name : String) : List Char := Template.tagText "capture" name.toList

/-- The source of a capture of a body, and of an output after it that prints what was
captured. -/
def captureSource (name body : String) : String :=
  "\x7b% capture " ++ name ++ " %\x7d" ++ body ++ "\x7b% endcapture %\x7d\x7b\x7b " ++ name ++
    " \x7d\x7d"

/-- What follows the body. -/
def captureEnd (name : String) : Layout :=
  ⟨[], [(⟨.tag, false, "endcapture".toList, false⟩, []),
    (⟨.output, false, name.toList, false⟩, [])]⟩

theorem isName_capture : Markup.IsName "capture".toList :=
  Markup.isName_of_identifier? (by decide)

variable {name : String}

/-- What follows the body can be printed. -/
theorem written_captureEnd (named : Markup.IsName name.toList) : (captureEnd name).Written := by
  have unclosed : ¬DelimiterKind.output.closing <:+: name.toList := fun occurs =>
    (named.plain_of_mem (occurs.subset (by decide : '}' ∈ DelimiterKind.output.closing))).2 rfl
  have unopened : Unopened [] := Layout.nextOpening?_eq_none_iff.mp rfl
  constructor
  · intro text member
    have empty : text = [] := by simpa [captureEnd, Layout.texts] using member
    exact empty ▸ unopened
  · intro text member
    have empty : text = [] := by simpa [captureEnd, Layout.texts] using member
    rw [empty]
    decide
  · intro d member
    have either : d = ⟨.tag, false, "endcapture".toList, false⟩ ∨
        d = ⟨.output, false, name.toList, false⟩ := by
      simpa [captureEnd, Layout.delimiters] using member
    rcases either with rfl | rfl
    · exact ⟨by decide, by decide⟩
    · exact ⟨named.trimmed, unclosed⟩

/-- The source is made of the tag, the body and what follows it. -/
theorem captureSource_eq (name body : String) :
    (captureSource name body).toList =
      tagSource (captureTag name) ++ (body.toList ++ (captureEnd name).source) := by
  have opens : tagSource (captureTag name) =
      "\x7b% capture ".toList ++ (name.toList ++ " %\x7d".toList) := by
    rw [tagSource, captureTag, Template.tagText]
    rfl
  have ends : (captureEnd name).source =
      "\x7b% endcapture %\x7d\x7b\x7b ".toList ++ (name.toList ++ " \x7d\x7d".toList) := by
    simp only [captureEnd, Layout.source, List.flatMap_cons, List.flatMap_nil, List.append_nil,
      Delimiter.source, Delimiter.inside, Delimiter.dash, List.append_assoc, List.cons_append]
    rfl
  -- The texts are variables here, so that no literal is evaluated.
  have joined (a b c d e f g : String) : (a ++ b ++ c ++ d ++ e ++ f ++ g).toList =
      a.toList ++ (b.toList ++ c.toList) ++ (d.toList ++ (e.toList ++ (f.toList ++ g.toList))) := by
    simp only [String.toList_append, List.append_assoc]
  rw [opens, ends]
  exact joined _ _ _ _ _ _ _

/-- The tokens of the source are those of the body between those around it. -/
theorem ofSource_captureSource {body : String} {tokens : List Token}
    (named : Markup.IsName name.toList) (uncut : body.toList.getLast? ≠ some '{')
    (read : Token.ofSource body.toList = .ok tokens) :
    Token.ofSource (captureSource name body).toList =
      .ok (.tag (captureTag name) ::
        (tokens ++ [.tag "endcapture".toList] ++ [.output name.toList])) := by
  have opens : Inner (captureTag name) := Iteration.inner_tagText isName_capture named.inner
  have keeps : (captureEnd name).KeepsBefore := by
    rintro _ ⟨⟩
    rfl
  rw [captureSource_eq, List.append_assoc]
  exact Token.ofSource_between opens uncut read (written_captureEnd named).ofSource_source rfl
    (List.cons_ne_nil _ _) keeps

/-- A variable is printed by its name, unless that is the name of a literal. -/
theorem readOutput_name (named : Markup.IsName name.toList)
    (starts : ∀ c ∈ name.toList.head?, c.isDigit = false)
    (noLiteral : name ∉ ["true", "false", "nil", "null"]) :
    Template.readOutput name.toList = .ok (.var name) := by
  have noNumber : ∀ c ∈ name.toList.head?, Expr.startsNumber c = false := by
    intro c head
    have noDash : c ≠ '-' := by
      rintro rfl
      exact absurd (named.head _ head) (by decide)
    simp only [Expr.startsNumber, noDash, starts c head, decide_false, Bool.or_self]
  have unnamed : (Expr.var name).named = .var name := by
    simp only [List.mem_cons, List.not_mem_nil, or_false, not_or] at noLiteral
    unfold Expr.named
    split <;> simp_all
  rw [Template.readOutput, if_neg (by simpa using named.ne_nil), Expr.parse_name named noNumber,
    unnamed]

/-- A name without white space can be captured under. -/
theorem readCaptureName_name (named : Markup.IsName name.toList) :
    Template.readCaptureName name.toList = .ok name := by
  have visible : name.toList.any Text.isWhite = false :=
    List.any_eq_false.mpr fun c member => by simp [(named.plain_of_mem member).1]
  have nonempty : name.toList.isEmpty = false := List.isEmpty_eq_false_iff.mpr named.ne_nil
  simp only [Template.readCaptureName, Text.trim_of_trimmed named.trimmed, nonempty, visible,
    Bool.or_self, Bool.false_eq_true, if_false, String.ofList_toList]

/-- The source is read as the capture of the template that the body is read as, and the output of
the variable. -/
theorem parse_captureSource {body : String} {template : Template}
    (parsed : Template.parse .standard body.toList = .ok template)
    (uncut : body.toList.getLast? ≠ some '{') (named : Markup.IsName name.toList)
    (starts : ∀ c ∈ name.toList.head?, c.isDigit = false)
    (noLiteral : name ∉ ["true", "false", "nil", "null"]) :
    Template.parse .standard (captureSource name body).toList =
      .ok [.capture name template, .output (.var name)] := by
  obtain ⟨tokens, read, derived⟩ := Template.parse_eq_ok_iff.mp parsed
  obtain ⟨tagged, markup⟩ := Template.tagParts_tagText isName_capture named.trimmed
  have unregistered : ∀ stop ∈ ["end" ++ Template.tagName (captureTag name)],
      Dict.get? stop Registry.standard = none := by
    intro stop member
    rw [List.mem_singleton.mp member, captureTag, tagged, Template.standard_eq]
    decide
  have statement : Template.Derives .standard (.statement (captureTag name))
      (tokens ++ [.tag "endcapture".toList]) [.capture name template] := by
    apply Template.Derives.capture _ _ (derived.stop unregistered)
    · rw [captureTag, tagged]
      decide
    · rw [captureTag, tagged, Template.standard_eq]
      decide
    · rw [captureTag, markup]
      exact readCaptureName_name named
  have output : Template.Derives .standard (.body []) [.output name.toList] [.output (.var name)] :=
    .output (readOutput_name named starts noLiteral) (.nothing [])
  exact Template.parse_eq_ok_iff.mpr ⟨_, ofSource_captureSource named uncut read,
    .tag List.not_mem_nil statement output⟩

/-! ### Rendering -/

open Rendering

/-- What is captured is what the body writes, and it is kept from the output. -/
theorem Rendering.captured_of_success {body : Rendering σ Unit} {run last : Run σ} {text : String}
    (succeeded : body.failure? { run with out := "" } = none)
    (writes : body.after { run with out := "" } = { last with out := text }) :
    captured body run = .ok text { last with out := run.out } := by
  rw [captured, eq_ok_of_success succeeded, writes]

/-- What a body writes that fails is lost. -/
theorem Rendering.captured_of_failure {body : Rendering σ Unit} {run last : Run σ} {text : String}
    {e : Error} (failed : body.failure? { run with out := "" } = some e)
    (writes : body.after { run with out := "" } = { last with out := text }) :
    captured body run = .error e { last with out := run.out } := by
  rw [captured, eq_error_of_failure failed, writes]

/-- A template that is captured and printed ends as it does on its own, but for the variable, or
without its text if it fails. -/
theorem Template.render_captured (engine : Engine σ) (template : Template) (name : String)
    (run : Run σ) :
    let whole := Template.render engine [.capture name template, .output (.var name)]
    let alone := template.render engine
    let ended := alone.after run
    ∃ text, ended.out = run.out ++ text ∧
      (alone.failure? run = none →
        whole run = .ok () { ended with context := ended.context.set name (.string text) }) ∧
      ∀ e, alone.failure? run = some e → whole run = .error e { ended with out := run.out } := by
  intro whole alone ended
  obtain ⟨text, writes⟩ := template.render_writes engine run
  obtain ⟨ends, empty⟩ := writes ""
  have written : ((template.render engine).after run).out = run.out ++ text :=
    congrArg Run.out (writes run.out).2
  -- The body is rendered with the levels of the run, whatever has been written.
  let body : Rendering σ Unit :=
    Node.renderAll (Request.performWithin engine run.context.levelsLeft) template
  refine ⟨text, written, fun succeeded => ?_, fun e failed => ?_⟩
  · have captures : captured body run = _ := captured_of_success (ends.trans succeeded) empty
    have bound (context : Context) :
        (Expr.var name).eval (context.set name (.string text)).get? = .string text := by
      simp only [Expr.eval, Context.get?_set, if_true, Option.getD_some]
    simp only [whole, Template.render_eq, Node.renderAll, Node.render, bind, EStateM.bind]
    rw [captures]
    simp only [setVariable, valueOf, write, modify, modifyGet, MonadStateOf.modifyGet,
      EStateM.modifyGet, String.empty_append, bound, Value.display, Value.displayTo]
    rw [show ended.out = run.out ++ text from written]
    rfl
  · have captures : captured body run = _ := captured_of_failure (ends.trans failed) empty
    simp only [whole, Template.render_eq, Node.renderAll, Node.render, bind, EStateM.bind]
    rw [captures]

/-- A body that is captured and printed right afterwards does what it does on its own. If the
body can be read and does not end with a brace, and the variable is an identifier that does not
start with a digit and is not the name of a literal, then the whole can be read. From any run it
succeeds exactly if the body does. Then it appends the same text and ends where the body ends,
but for the variable, which holds just that text in the innermost scope. If the body fails, the
whole fails with the same error, with the bindings that the body had left, and nothing of
what the body wrote is in the output. -/
theorem capture_then_print (env : Environment σ) (source : Source σ)
    (tags : env.tags = .standard) {name body : String} {template : Template}
    (parsed : env.parse body = .ok template) (uncut : body.toList.getLast? ≠ some '{')
    (named : Markup.IsName name.toList)
    (starts : ∀ c ∈ name.toList.head?, c.isDigit = false)
    (noLiteral : name ∉ ["true", "false", "nil", "null"]) :
    ∃ whole, env.parse ("\x7b% capture " ++ name ++ " %\x7d" ++ body ++
        "\x7b% endcapture %\x7d\x7b\x7b " ++ name ++ " \x7d\x7d") = .ok whole ∧
      ∀ run : Run σ,
        let rendering := whole.render (env.engine source)
        let alone := template.render (env.engine source)
        let ended := alone.after run
        rendering.failure? run = alone.failure? run ∧
          (alone.failure? run = none → ∃ text, ended.out = run.out ++ text ∧
            rendering.after run =
              { ended with context := ended.context.set name (.string text) } ∧
            Dict.get? name (rendering.after run).context.inner = some (.string text)) ∧
          (alone.failure? run ≠ none → rendering.after run = { ended with out := run.out }) := by
  have parsedBody : Template.parse .standard body.toList = .ok template :=
    tags ▸ env.parse_eq_ok_iff.mp parsed
  have parsedWhole : env.parse (captureSource name body) =
      .ok [.capture name template, .output (.var name)] :=
    env.parse_eq_ok_iff.mpr (tags ▸ parse_captureSource parsedBody uncut named starts noLiteral)
  refine ⟨_, parsedWhole, fun run => ?_⟩
  intro rendering alone ended
  obtain ⟨text, written, succeeds, fails⟩ := template.render_captured (env.engine source) name run
  cases failure : alone.failure? run with
  | none =>
    obtain ⟨succeeded, last⟩ := ended_of_ok (succeeds failure)
    refine ⟨succeeded, fun _ => ⟨text, written, last, ?_⟩, fun failed => absurd rfl failed⟩
    rw [show rendering.after run = _ from last]
    exact Dict.get?_insert_self name _ _
  | some e =>
    obtain ⟨failed, last⟩ := ended_of_error (fails e failure)
    refine ⟨failed, fun succeeded => ?_, fun _ => last⟩
    cases succeeded

/-- A body that binds the variable itself and then calls a snippet. If there is that snippet, the
variable holds the whole text in the end. If there is not, the body fails after it has bound the
variable. -/
theorem body_captured_and_printed :
    let env : Environment Unit := (Environment.new .default ()).registerSnippet "dot" "."
    let body := "\x7b% capture v -%\x7d x\x7b% endcapture %\x7d\x7b\x7b v \x7d\x7d\x7b% render z %\x7d"
    let start (called : String) : Run Unit :=
      ⟨⟨[("v", .null)], [[("z", .string called)]], 7⟩, "o", env.store⟩
    ∃ whole, env.parse ("\x7b% capture v %\x7d" ++ body ++
        "\x7b% endcapture %\x7d\x7b\x7b v \x7d\x7d") = .ok whole ∧
      let rendering := Template.render (env.engine .none) whole
      (rendering.after (start "dot")).out = "ox." ∧
        Dict.get? "v" (rendering.after (start "dot")).context.inner = some (.string "x.") ∧
        rendering.failure? (start "lost") = some (.unknownSnippet "lost") ∧
        (rendering.after (start "lost")).out = "o" ∧
        Dict.get? "v" (rendering.after (start "lost")).context.inner = some (.string "x") := by
  intro env body start
  have parsed : env.parse body = .ok [.capture "v" [.text "x"], .output (.var "v"),
      .call ⟨"z".toList, .nothing, none, []⟩] := by
    cbv
  have named : Markup.IsName "v".toList := Markup.isName_of_identifier? (by decide)
  have starts : ∀ c ∈ "v".toList.head?, c.isDigit = false := by
    rintro _ ⟨⟩
    rfl
  obtain ⟨whole, parsedWhole, rendered⟩ :=
    capture_then_print env .none rfl parsed (by decide) named starts (by decide)
  refine ⟨whole, parsedWhole, ?_⟩
  intro rendering
  obtain ⟨-, succeeds, -⟩ := rendered (start "dot")
  obtain ⟨failure, -, fails⟩ := rendered (start "lost")
  obtain ⟨text, written, last, bound⟩ := succeeds (by decide +kernel)
  have ended := fails (by decide +kernel)
  have printed : text = "x." := by
    have whole : "o" ++ "x." = "o" ++ text := Eq.trans (by decide +kernel) written
    exact ((String.append_right_inj _).mp whole).symm
  have out : (rendering.after (start "dot")).out = "ox." := by
    rw [show rendering.after (start "dot") = _ from last]
    exact written.trans (by rw [printed]; rfl)
  refine ⟨out, printed ▸ bound, failure.trans (by decide +kernel), ?_, ?_⟩
  · rw [show rendering.after (start "lost") = _ from ended]
  · rw [show rendering.after (start "lost") = _ from ended]
    cbv

end Stencil
