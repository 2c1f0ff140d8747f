import Mathlib
import Stencil.Proofs.Scoping
import Stencil.Proofs.Serving

/-!
# Calls and renderings of their own

A call does what rendering the content of its snippet on its own does, once for each
of its bindings, in turn: it appends what these renderings write, up to and including
the first one that fails, and ends in the error of that one. Each of them has nothing
but its bindings as variables. Only the limit of nesting can tell a call from a
rendering of its own, since a call is one level deeper.

Two things stand between the two: the depth, at which only the limit is excused, and
the store, which holds more after each rendering but serves the same.
-/

namespace Stencil

variable {σ α : Type}

/-- What a rendering writes, and the error that it ends with if it fails. -/
structure Report where
  out : String
  error : Option Error
  deriving DecidableEq, Repr

namespace Report

/-- One rendering and then another one, unless the first one fails. -/
def followedBy (first second : Report) : Report :=
  match first.error with
  | some _ => first
  | none => ⟨first.out ++ second.out, second.error⟩

/-- Renderings in turn, up to the first one that fails. -/
def inTurn (reports : List Report) : Report := reports.foldr followedBy ⟨"", none⟩

/-- What an environment gives for a rendering: a failure discards the output. -/
def outcome (report : Report) : Except Error String :=
  match report.error with
  | some e => .error e
  | none => .ok report.out

/-- A step appends what is reported, and fails as reported or not at all. -/
def Describes (report : Report) (step : Rendering σ Unit) (run : Run σ) : Prop :=
  (step.after run).out = run.out ++ report.out ∧ step.failure? run = report.error

theorem inTurn_cons (report : Report) (reports : List Report) :
    inTurn (report :: reports) = report.followedBy (inTurn reports) := rfl

theorem inTurn_single (report : Report) : inTurn [report] = report := by
  obtain ⟨out, error⟩ := report
  cases error with
  | none => simp only [inTurn, List.foldr_cons, List.foldr_nil, followedBy, String.append_empty]
  | some e => rfl

end Report

namespace Environment

/-- The rendering of a source text on its own: outside all calls, with some bindings as
the only variables. -/
def report (env : Environment σ) (source : Source σ) (text : String)
    (bound : List (String × Value)) : Report :=
  match env.parse text with
  | .error e => ⟨"", some e⟩
  | .ok template =>
    match env.run source (.top (Dict.ofList bound)) template with
    | .ok _ ended => ⟨ended.out, none⟩
    | .error e ended => ⟨ended.out, some e⟩

/-- Rendering a source text with an object for its variables gives what is reported. -/
theorem renderText_outcome (env : Environment σ) (source : Source σ) (text : String)
    (bound : List (String × Value)) :
    (env.renderText source text (.object (Dict.ofList bound))).1 =
      (env.report source text bound).outcome := by
  simp only [renderText, report]
  cases env.parse text with
  | error e => rfl
  | ok template =>
    simp only [render, scope]
    cases env.run source (.top (Dict.ofList bound)) template <;> rfl

end Environment

namespace Rendering

/-- What two steps in turn do is reported by their reports in turn. -/
theorem describes_bind {first second : Report} {step next : Rendering σ Unit} {run : Run σ}
    (described : first.Describes step run)
    (nextDescribed : step.failure? run = none → second.Describes next (step.after run)) :
    (first.followedBy second).Describes (step >>= fun _ => next) run := by
  obtain ⟨appended, failure⟩ := described
  cases error : first.error with
  | some e =>
    have outcome := bind_of_failure (fun _ => next) (failure.trans error)
    simp only [Report.Describes, Report.followedBy, error]
    exact ⟨by simp only [after, outcome]; exact appended, by simp only [failure?, outcome]⟩
  | none =>
    have succeeded : step.failure? run = none := failure.trans error
    have outcome := bind_of_success next succeeded
    obtain ⟨nextAppended, nextFailure⟩ := nextDescribed succeeded
    simp only [Report.Describes, Report.followedBy, error]
    refine ⟨?_, ?_⟩
    · rw [← String.append_assoc, ← appended, ← nextAppended]
      simp only [after, outcome]
    · rw [← nextFailure]
      simp only [failure?, outcome]

/-- A step whose error does not come up in the end did not fail with it. -/
theorem unexcused_first {step next : Rendering σ Unit} {run : Run σ} {excused : Error}
    (unexcused : (step >>= fun _ => next).failure? run ≠ some excused) :
    step.failure? run ≠ some excused := by
  intro failed
  have outcome := bind_of_failure (fun _ => next) failed
  exact unexcused (by simp only [failure?, outcome])

/-- Steps for the elements of a list do what the reports of these in turn say, if each
step keeps what the reports rest on and an excused error does not come up. -/
theorem forM_describes {excused : Error} (rests : Store σ → Prop) {step : α → Rendering σ Unit}
    {report : α → Report}
    (each : ∀ item run, rests run.store → (step item).failure? run ≠ some excused →
      (report item).Describes (step item) run ∧ rests ((step item).after run).store)
    (items : List α) (run : Run σ) (start : rests run.store)
    (unexcused : (items.forM step).failure? run ≠ some excused) :
    (Report.inTurn (items.map report)).Describes (items.forM step) run := by
  induction items generalizing run with
  | nil => exact ⟨String.append_empty.symm, rfl⟩
  | cons item items inductionHypothesis =>
    have unfolded : (item :: items).forM step = (step item >>= fun _ => items.forM step) := rfl
    rw [List.map_cons, Report.inTurn_cons]
    rw [unfolded] at unexcused ⊢
    obtain ⟨described, later⟩ := each item run start (unexcused_first unexcused)
    apply describes_bind described
    intro succeeded
    apply inductionHypothesis _ later
    have outcome := bind_of_success (items.forM step) succeeded
    simpa only [failure?, outcome] using unexcused

/-- A snippet that the store serves is found, and only the store is changed. -/
theorem requireSnippet_of_found {source : Source σ} {name content : String} {run : Run σ}
    (found : (run.store.lookup source name).1 = .ok (some content)) :
    requireSnippet source name run =
      .ok content { run with store := (run.store.lookup source name).2 } := by
  unfold requireSnippet
  revert found
  rcases run.store.lookup source name with ⟨answer, store⟩
  rintro rfl
  rfl

/-- A call that finds its snippet renders the content once for each of its bindings. -/
theorem performWithin_of_found (engine : Engine σ) (levels : Nat) {request : Request} {run : Run σ}
    {content : String}
    (found : (run.store.lookup engine.source (request.snippetName run.context)).1 =
      .ok (some content)) :
    request.performWithin engine (levels + 1) run =
      (request.bindings run.context).forM
        (engine.renderContent (Node.renderAll (Request.performWithin engine levels)) content
          (run.context.depth + 1))
        { run with store :=
            (run.store.lookup engine.source (request.snippetName run.context)).2 } := by
  rw [Request.performWithin, Request.perform_eq]
  simp only [bind, EStateM.bind, requireSnippet_of_found found]

section

variable (env : Environment σ) (source : Source σ)

/-- A call with the given number of levels left renders the templates of its snippets. -/
abbrev renderWithin (levels : Nat) : Template → Rendering σ Unit :=
  Node.renderAll (Request.performWithin (env.engine source) levels)

/-- A rendering on its own is what a call at depth zero would do with all levels left. -/
theorem report_describes (content : String) (bound : List (String × Value)) (context : Context) :
    (env.report source content bound).Describes
      ((env.engine source).renderContent (renderWithin env source deepestCall) content 0 bound)
      ⟨context, "", env.store⟩ := by
  unfold Report.Describes Environment.report Environment.parse Engine.renderContent
  simp only [Environment.engine]
  cases Template.parse env.tags content.toList with
  | error cause => exact ⟨rfl, rfl⟩
  | ok template =>
    have outcome : env.run source (.top (Dict.ofList bound)) template =
        renderWithin env source deepestCall template ⟨⟨Dict.ofList bound, [], 0⟩, "", env.store⟩ :=
      rfl
    simp only [Except.mapError, outcome, after, failure?, readable, bind, EStateM.bind,
      inContext_eq]
    cases renderWithin env source deepestCall template
      ⟨⟨Dict.ofList bound, [], 0⟩, "", env.store⟩ with
    | ok result ended => exact ⟨String.empty_append.symm, rfl⟩
    | error e ended => exact ⟨String.empty_append.symm, rfl⟩

variable {env source} {served : String → Answer} (serves : env.store.Serves source served)

include serves in
/-- The content of a snippet is rendered inside of a call as on its own, unless the limit
of nesting is reached, and the store serves the same afterwards. -/
theorem renderContent_describes {levels : Nat} (bounded : levels ≤ deepestCall) (content : String)
    (depth : Nat) (bound : List (String × Value)) (run : Run σ)
    (stored : run.store.Serves source served)
    (shallow : ((env.engine source).renderContent (renderWithin env source levels) content depth
      bound).failure? run ≠ some .nestingTooDeep) :
    (env.report source content bound).Describes
        ((env.engine source).renderContent (renderWithin env source levels) content depth bound)
        run ∧
      (((env.engine source).renderContent (renderWithin env source levels) content depth
        bound).after run).store.Serves source served := by
  have rendered (template : Template) :
      Alike (Eq .nestingTooDeep) (Pairing.serving (env.engine source) served).stores View.scopes
        (renderWithin env source levels template)
        (renderWithin env source deepestCall template) :=
    (Pairing.serving (env.engine source) served).renderAll_alike (.inr ⟨rfl, bounded⟩) template
      (View.scopes_sees _)
  -- The rendering on its own starts with the first store, which need not hold as much.
  have matched := (Pairing.serving (env.engine source) served).renderContent_alike View.same
    rendered content depth 0 bound run ⟨run.context, "", env.store⟩ rfl ⟨stored, serves⟩
  obtain ⟨failure, ended⟩ := matched.ended fun e failed excused => shallow (excused ▸ failed)
  obtain ⟨appended, error⟩ := report_describes env source content bound run.context
  obtain ⟨text, out, ownOut⟩ := ended.out
  have written : text = (env.report source content bound).out := by
    have same := ownOut.symm.trans appended
    simpa only [String.empty_append] using same
  exact ⟨⟨written ▸ out, failure.trans error⟩, ended.store.1⟩

include serves in
/-- A call whose snippet the store serves does what rendering the content on its own does
for each of its bindings in turn, unless the limit of nesting is reached. -/
theorem call_describes (request : Request) (context : Context) (out : String) {content : String}
    (found : (env.store.lookup source (request.snippetName context)).1 = .ok (some content))
    (shallow : (Template.render (env.engine source) [.call request]).failure?
      ⟨context, out, env.store⟩ ≠ some .nestingTooDeep) :
    (Report.inTurn ((request.bindings context).map (env.report source content))).Describes
      (Template.render (env.engine source) [.call request]) ⟨context, out, env.store⟩ := by
  cases left : context.levelsLeft with
  | zero =>
    -- Then the call is refused before its snippet is looked up.
    have tooDeep : Template.render (env.engine source) [.call request] ⟨context, out, env.store⟩ =
        .error .nestingTooDeep ⟨context, out, env.store⟩ := by
      rw [Template.render_eq, renderAll_call, left]
      rfl
    exact absurd (by simp only [failure?, tooDeep]) shallow
  | succ levels =>
    have bounded : levels ≤ deepestCall := by
      have all : context.levelsLeft ≤ deepestCall := Nat.sub_le deepestCall context.depth
      omega
    have performed : Template.render (env.engine source) [.call request]
          ⟨context, out, env.store⟩ =
        (request.bindings context).forM
          ((env.engine source).renderContent (renderWithin env source levels) content
            (context.depth + 1))
          ⟨context, out, (env.store.lookup source (request.snippetName context)).2⟩ := by
      rw [Template.render_eq, renderAll_call, left]
      exact performWithin_of_found (env.engine source) levels found
    simp only [Report.Describes, failure?, after, performed] at shallow ⊢
    have each (bound : List (String × Value)) (run : Run σ)
        (stored : run.store.Serves source served) :=
      renderContent_describes serves bounded content (context.depth + 1) bound run stored
    exact forM_describes (Store.Serves · source served) each (request.bindings context)
      ⟨context, out, (env.store.lookup source (request.snippetName context)).2⟩
      (serves.lookup _) shallow

end

end Rendering

open Rendering

/-- A call whose snippet the store serves appends what rendering its content on its own
writes, once for each time that the snippet is rendered, and ends in the error of the
last of these if that one fails. With nothing or a single value handed over it is
rendered once, and for each element of an array or an object in the order of the elements,
each time with the element, its position and the parameters as the only variables, of which
a later one overrides an earlier one. The value and the parameters are resolved in the
caller's context. These are the renderings that the environment itself offers. The caller's
context stays as it was. This holds at any depth, if the source gives fixed answers and the
limit of nesting is not reached. -/
theorem call_eq_renderings (env : Environment σ) (source : Source σ) {answer : String → Answer}
    (steady : source.Steady answer env.store.source) (request : Request) (caller : Context)
    (out : String) {content : String}
    (found : (env.store.lookup source (request.snippetName caller)).1 = .ok (some content))
    (shallow : (Template.render (env.engine source) [.call request]).failure?
      ⟨caller, out, env.store⟩ ≠ some .nestingTooDeep) :
    let call := Template.render (env.engine source) [.call request]
    let start : Run σ := ⟨caller, out, env.store⟩
    let own := env.report source content
    ∃ parameters, request.Gives caller parameters ∧
      (request.target = .nothing → (own parameters).Describes call start) ∧
      (∀ fragment, request.target = .single fragment → ∃ v, caller.Evaluates fragment v ∧
        (own ((request.name.getD "object", v) :: parameters)).Describes call start) ∧
      (∀ fragment, request.target = .each fragment → ∃ v, caller.Evaluates fragment v ∧
        (∀ items,
          (v = .array items ∨
            ∃ fields, v = .object fields ∧
              items = fields.map fun (key, field) => .array [.string key, field]) →
          (Report.inTurn (items.zipIdx.map fun (item, index) =>
            own ((request.name.getD "item", item) ::
              ("forloop", Position.told index items.length) :: parameters))).Describes call
            start) ∧
        ((∀ items, v ≠ .array items) → (∀ fields, v ≠ .object fields) →
          Report.Describes ⟨"", none⟩ call start)) ∧
      (call.after start).context = caller ∧
      (∀ bound, (env.renderText source content (.object (Dict.ofList bound))).1 =
        (own bound).outcome) := by
  intro call start own
  have described : (Report.inTurn ((request.bindings caller).map own)).Describes call start :=
    call_describes ⟨answer, steady, rfl⟩ request caller out found shallow
  have value (fragment : List Char) :
      caller.Evaluates fragment (Request.targetValue caller fragment) :=
    Context.evaluates_iff.mpr rfl
  refine ⟨request.arguments caller, Request.gives_iff.mpr rfl, ?nothing, ?single, ?each, ?kept,
    env.renderText_outcome source content⟩
  case nothing =>
    intro target
    simp only [Request.bindings, target, List.map_cons, List.map_nil, Report.inTurn_single]
      at described
    exact described
  case single =>
    intro fragment target
    simp only [Request.bindings, target, List.map_cons, List.map_nil, Report.inTurn_single]
      at described
    exact ⟨_, value fragment, described⟩
  case each =>
    intro fragment target
    refine ⟨_, value fragment, fun items elements => ?_, fun noArray noObject => ?_⟩
    · have collection : (Request.targetValue caller fragment).elements? = some items := by
        rcases elements with array | ⟨fields, object, rfl⟩
        · rw [array, Value.elements?]
        · rw [object, Value.elements?]
      simp only [Request.bindings, target, collection, Option.getD_some, List.map_map,
        Function.comp_def] at described
      exact described
    · have collection : (Request.targetValue caller fragment).elements? = none := by
        unfold Value.elements?
        split
        · next items array => exact absurd array (noArray items)
        · next fields object => exact absurd object (noObject fields)
        · rfl
      simp only [Request.bindings, target, collection, Option.getD_none, List.zipIdx_nil,
        List.map_nil] at described
      exact described
  case kept =>
    have performed : Sealed start (call.after start) := by
      simp only [call, after, Template.render_eq, renderAll_call]
      exact performWithin_sealed (env.engine source) caller.levelsLeft request start
    exact performed.context

/-- Two rows, from inside three calls: a snippet that the source has is given a variable, the
value of an expression, a text that is no expression and the name of a variable that is null.
It calls a registered snippet with the first of them, and does not get the caller's `secret`. -/
theorem rows_eq_renderings :
    let env : Environment (List String) :=
      (Environment.new .default []).registerSnippet "mark" "\x7b\x7b sign \x7d\x7d"
    let row := "\x7b\x7b forloop.rindex \x7d\x7d\x7b\x7b item \x7d\x7d\x7b\x7b secret \x7d\x7d" ++
      "\x7b\x7b count \x7d\x7d\x7b\x7b note \x7d\x7d\x7b\x7b left \x7d\x7d" ++
      "\x7b% render 'mark', sign: sign %\x7d;"
    let source := Source.recorded fun name => .ok (if name = "row" then some row else none)
    let request : Request :=
      ⟨"'row'".toList, .each "list".toList, none,
        [("sign", "plus".toList), ("count", "list.size".toList), ("note", "oops!".toList),
          ("left", "gone".toList)]⟩
    let caller : Context :=
      ⟨[("list", .array [.string "a", .bool true]), ("plus", .string "+"), ("gone", .null)],
        [[("secret", .string "s")]], 3⟩
    let call := Template.render (env.engine source) [.call request]
    let parameters : List (String × Value) :=
      [("sign", .string "+"), ("count", .number (.int 2)), ("note", .string "oops!"),
        ("left", .string "gone")]
    (env.store.lookup source (request.snippetName caller)).1 = .ok (some row) ∧
      call.failure? ⟨caller, "", env.store⟩ ≠ some .nestingTooDeep ∧
      (Report.inTurn [
        env.report source row
          (("item", .string "a") :: ("forloop", Position.told 0 2) :: parameters),
        env.report source row
          (("item", .bool true) :: ("forloop", Position.told 1 2) :: parameters)]).Describes
        call ⟨caller, "", env.store⟩ ∧
      (call.after ⟨caller, "", env.store⟩).out = "2a2oops!gone+;1true2oops!gone+;" := by
  intro env row source request caller call parameters
  have found : (env.store.lookup source (request.snippetName caller)).1 = .ok (some row) := by
    have name : request.snippetName caller = "row" := by decide +kernel
    rw [name]
    rfl
  have shallow : call.failure? ⟨caller, "", env.store⟩ ≠ some .nestingTooDeep := by
    decide +kernel
  have resolved : request.Gives caller parameters := by
    have count : Expr.parse "list.size".toList = .ok (.member (.var "list") "size") := by cbv
    have note : Expr.parse "oops!".toList = .error (.afterExpression "!" "oops!") := by cbv
    have left : Expr.parse "gone".toList = .ok (.var "gone") := by cbv
    have sign : caller.get? "plus" = some (.string "+") := by rfl
    have lacks : caller.Lacks "list.size".toList ∧ caller.Lacks "oops!".toList := by
      constructor <;> rintro _ ⟨⟩
    have gone : caller.Lacks "gone".toList := by
      rintro _ ⟨⟩
      rfl
    exact .cons ⟨rfl, .ofVariable sign (by rintro ⟨⟩)⟩
      (.cons ⟨rfl, .ofExpression lacks.1 (.spelled count) (by rintro ⟨⟩)⟩
        (.cons ⟨rfl, .ofText lacks.2 (.unspelled note)⟩
          (.cons ⟨rfl, .ofText gone (.spelled left)⟩ .nil)))
  have written : (call.after ⟨caller, "", env.store⟩).out =
      "2a2oops!gone+;1true2oops!gone+;" := by
    decide +kernel
  obtain ⟨given, gives, -, -, each, -⟩ := call_eq_renderings env source
    (Source.recorded_steady _ []) request caller "" found shallow
  have same : given = parameters :=
    (Request.gives_iff.mp gives).trans (Request.gives_iff.mp resolved).symm
  subst same
  obtain ⟨v, value, elements, -⟩ := each "list".toList rfl
  have list : Expr.parse "list".toList = .ok (.var "list") := by cbv
  have listed : v = .array [.string "a", .bool true] := value.unique (.spelled list)
  exact ⟨found, shallow, elements _ (.inl listed), written⟩

end Stencil
