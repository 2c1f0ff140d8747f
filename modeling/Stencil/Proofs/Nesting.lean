import Stencil.Proofs.Iteration
import Stencil.Proofs.Concatenation
import Stencil.Proofs.Isolation
import Stencil.Proofs.Recording

/-!
# The limit of nesting

Calls can be nested up to a limit, and nothing but the limit depends on how deeply a
template is rendered. A call is refused with the error of the limit exactly where no level
is left, and otherwise its snippet is rendered one level deeper.

So of snippets that call each other in a chain, of any length, the limit alone decides
whether they are rendered; and a rendering that does not come upon the limit is the same at
every smaller depth.
-/

namespace Stencil

variable {σ α : Type}

namespace Rendering

/-- Steps that all end in the same way do so together, if there is at least one. -/
theorem failure_forM (kept : Store σ → Prop) {failure : Option Error} {step : α → Rendering σ Unit}
    {items : List α} (nonempty : items ≠ [])
    (each : ∀ item ∈ items, ∀ run, kept run.store →
      (step item).failure? run = failure ∧ kept ((step item).after run).store)
    {run : Run σ} (stored : kept run.store) :
    (items.forM step).failure? run = failure := by
  induction items generalizing run with
  | nil => exact absurd rfl nonempty
  | cons item items inductionHypothesis =>
    obtain ⟨ended, later⟩ := each item List.mem_cons_self run stored
    have unfolded : (item :: items).forM step = (step item >>= fun _ => items.forM step) := rfl
    rw [unfolded, failure_of_bind, ended]
    cases failure with
    | some e => rfl
    | none =>
      rw [Option.none_or]
      by_cases last : items = []
      · subst last
        rfl
      · exact inductionHypothesis last
          (fun other member => each other (List.mem_cons_of_mem item member)) later

end Rendering

open Rendering

/-- What lookups keep of a store, a rendering keeps. -/
theorem Template.render_keeps (engine : Engine σ) (kept : Store σ → Prop)
    (later : ∀ {store} name, kept store → kept (store.lookup engine.source name).2)
    (template : Template) {run : Run σ} (stored : kept run.store) :
    kept ((template.render engine).after run).store := by
  let pairing : Pairing engine := .keeping engine kept later
  have matched : Matched (fun _ => False) (Alongside pairing.stores View.same run run)
      (template.render engine run) (template.render engine run) :=
    pairing.render_matched template (View.same_sees _) rfl ⟨rfl, stored⟩ (.inl rfl)
  exact (matched.ended fun _ _ => id).2.store.2

/-! ### A call above the limit -/

/-- The content of a snippet is rendered with the levels that are left one call deeper. -/
theorem Engine.renderContent_levels (engine : Engine σ) (content : String) (depth : Nat) :
    engine.renderContent
        (Node.renderAll (Request.performWithin engine (deepestCall - depth))) content depth =
      engine.renderContent (Template.render engine) content depth := by
  funext bound
  unfold renderContent
  cases Template.parse engine.registry content.toList with
  | error mistake => rfl
  | ok template =>
    funext run
    rfl

/-- Above the limit a call finds its snippet and renders it as a template of its own. -/
theorem Template.render_call (engine : Engine σ) (request : Request) {run : Run σ}
    (shallow : run.context.depth < deepestCall) :
    Template.render engine [.call request] run =
      request.perform engine (Template.render engine) run := by
  obtain ⟨levels, left⟩ : ∃ levels, run.context.levelsLeft = levels + 1 :=
    Nat.exists_eq_succ_of_ne_zero (Nat.sub_ne_zero_of_lt shallow)
  have deeper : levels = deepestCall - (run.context.depth + 1) := by
    unfold Context.levelsLeft at left
    omega
  rw [Template.render_eq, renderAll_call, left, Request.performWithin, Request.perform_eq,
    Request.perform_eq, deeper]
  simp only [Engine.renderContent_levels]

/-- At the limit a call is refused and does nothing. -/
theorem Template.render_call_of_limit (engine : Engine σ) (request : Request) {run : Run σ}
    (limit : deepestCall ≤ run.context.depth) :
    Template.render engine [.call request] run = .error .nestingTooDeep run := by
  have noneLeft : run.context.levelsLeft = 0 := Nat.sub_eq_zero_of_le limit
  rw [Template.render_eq, renderAll_call, noneLeft]
  rfl

/-! ### Names that are found as they are written -/

/-- A name without quotes. -/
def Unquoted (name : String) : Prop := ∀ c ∈ name.toList, Markup.isQuote c = false

/-- An identifier has no quotes. -/
theorem Markup.IsName.unquoted {name : String} (named : IsName name.toList) : Unquoted name := by
  intro c member
  rcases named.kept c member with starts | rfl | rfl
  · by_contra quotes
    exact not_startsName_of_isQuote (Bool.not_eq_false _ ▸ quotes) starts
  · decide
  · decide

/-- No name that a context binds has quotes. -/
def Context.Unquoted (context : Context) : Prop :=
  ∀ name, context.get? name ≠ none → Stencil.Unquoted name

namespace Request

/-- The names that a call gives to its snippet have no quotes. -/
structure GivesUnquoted (request : Request) : Prop where
  name : ∀ name ∈ request.name, Unquoted name
  parameters : ∀ parameter ∈ request.parameters, Unquoted parameter.1

/-- The snippet is written by its name in quotes. -/
def Names (request : Request) (name : String) : Prop :=
  Unquoted name ∧ ∃ quote, Markup.isQuote quote = true ∧
    request.snippet = quote :: (name.toList ++ [quote])

variable {request : Request} {name : String}

/-- All bindings of a snippet have names without quotes. -/
theorem GivesUnquoted.bindings (gives : request.GivesUnquoted) {caller : Context}
    {bound : List (String × Value)} (member : bound ∈ request.bindings caller)
    {entry : String × Value} (inside : entry ∈ bound) : Unquoted entry.1 := by
  have arguments (entry : String × Value) (inside : entry ∈ request.arguments caller) :
      Unquoted entry.1 := by
    obtain ⟨parameter, written, rfl⟩ := List.mem_map.mp inside
    exact gives.parameters parameter written
  have named (other : String) (plain : Unquoted other) : Unquoted (request.name.getD other) := by
    cases given : request.name with
    | none => exact plain
    | some name => exact gives.name name given
  have object : Unquoted "object" := (Markup.isName_of_identifier? (by decide)).unquoted
  have item : Unquoted "item" := (Markup.isName_of_identifier? (by decide)).unquoted
  unfold Request.bindings at member
  split at member
  · obtain rfl := List.mem_singleton.mp member
    exact arguments entry inside
  · obtain rfl := List.mem_singleton.mp member
    rcases List.mem_cons.mp inside with rfl | inside
    · exact named "object" object
    · exact arguments entry inside
  · obtain ⟨_, -, rfl⟩ := List.mem_map.mp member
    rcases List.mem_cons.mp inside with rfl | inside
    · exact named "item" item
    rcases List.mem_cons.mp inside with rfl | inside
    · exact Position.isName_boundName.unquoted
    · exact arguments entry inside

/-- Removing the quotes keeps a text exactly if it has none. -/
theorem unquoted_eq_self_iff (text : String) : unquoted text = text ↔ Unquoted text := by
  rw [unquoted, ← String.toList_inj, String.toList_ofList, List.filter_eq_self]
  simp only [Stencil.Unquoted, Bool.not_eq_true']

/-- A snippet whose name stands in quotes is called by the text that a variable holds, if one is
written like the name with its quotes, and by the name otherwise, in each case without any quotes.
The fragment is an expression, but its value is not read where a variable takes its place. -/
theorem snippetName_of_quoted {quote : Char} {name : List Char}
    (quotes : Markup.isQuote quote = true) (closed : quote ∉ name)
    (written : request.snippet = quote :: (name ++ [quote])) (caller : Context) :
    request.snippetName caller =
      match caller.get? (String.ofList request.snippet) with
      | some (.string text) => unquoted text
      | _ => unquoted (String.ofList name) := by
  have value : caller.evaluate? request.snippet = some (.string (String.ofList name)) := by
    rw [written, Context.evaluate?, Expr.parse_quoted quotes closed]
    rfl
  have ends : unquoted (String.ofList request.snippet) = unquoted (String.ofList name) := by
    simp only [unquoted, written, String.toList_ofList, List.filter_cons, List.filter_append,
      List.filter_nil, quotes, Bool.not_true, Bool.false_eq_true, if_false, List.append_nil]
  rw [Request.snippetName, value]
  cases caller.get? (String.ofList request.snippet) with
  | none => rfl
  | some held =>
    cases held with
    | string text => rfl
    | _ => exact ends

/-- The snippet that is named is called, if no variable is written like it. -/
theorem Names.snippetName (names : request.Names name) {caller : Context}
    (plain : caller.Unquoted) : request.snippetName caller = name := by
  obtain ⟨unquoted, quote, quotes, written⟩ := names
  have absent : caller.get? (String.ofList request.snippet) = none := by
    by_contra bound
    have noQuote := plain _ bound quote
    rw [written, String.toList_ofList, quotes] at noQuote
    exact Bool.noConfusion (noQuote List.mem_cons_self)
  have closed : quote ∉ name.toList := fun member => by
    have noQuote := unquoted quote member
    rw [quotes] at noQuote
    cases noQuote
  rw [snippetName_of_quoted quotes closed written, absent, String.ofList_toList]
  exact (unquoted_eq_self_iff name).mpr unquoted

end Request

/-! ### Chains of snippets -/

/-- A template renders a snippet that renders a snippet, and so on, as many times as the
number says; in the last one of them no call stands. Each of the others calls the next one
once it is rendered, whatever it is given, and does nothing else that can fail. -/
inductive Chain (registry : Registry) (served : String → Answer) : Template → Nat → Prop where
  | last {template : Template} (noCalls : template.requests = []) :
      Chain registry served template 0
  | link {before after next : Template} {request : Request} {name content : String} {count : Nat}
      (noneBefore : before.requests = []) (noneAfter : after.requests = [])
      (plain : ∀ name ∈ before.assigned, Unquoted name) (gives : request.GivesUnquoted)
      (names : request.Names name) (renders : ∀ caller, request.bindings caller ≠ [])
      (found : served name = .ok (some content))
      (parsed : Template.parse registry content.toList = .ok next)
      (rest : Chain registry served next count) :
      Chain registry served (before ++ .call request :: after) (count + 1)

namespace Context.Unquoted

/-- A context of a snippet has the names that the call gives. -/
theorem given {request : Request} (gives : request.GivesUnquoted) {caller : Context}
    {bound : List (String × Value)} (member : bound ∈ request.bindings caller) (depth : Nat) :
    Context.Unquoted ⟨Dict.ofList bound, [], depth⟩ := by
  intro name found
  have looked : Context.get? ⟨Dict.ofList bound, [], depth⟩ name = Dict.last? name bound := by
    simp only [Context.get?, Context.scopes, List.findSome?_cons, List.findSome?_nil,
      Dict.get?_ofList]
    cases Dict.last? name bound <;> rfl
  rw [looked] at found
  obtain ⟨v, last⟩ := Option.ne_none_iff_exists'.mp found
  exact gives.bindings member (Dict.mem_of_last? last)

/-- Names without quotes can be assigned. -/
theorem confined {names : List String} {run last : Run σ}
    (start : run.context.Unquoted) (confined : Confined names run last)
    (plain : ∀ name ∈ names, Stencil.Unquoted name) : last.context.Unquoted := by
  intro name found
  by_cases assigned : name ∈ names
  · exact plain name assigned
  · apply start
    simpa only [Context.get?, Context.scopes, List.findSome?_cons, confined.outer,
      confined.unassigned name assigned] using found

end Context.Unquoted

/-- Without calls a template does not fail, keeps the store and the depth. -/
theorem Template.render_of_noCalls (engine : Engine σ) {template : Template}
    (noCalls : template.requests = []) (run : Run σ) :
    (template.render engine).failure? run = none ∧
      ((template.render engine).after run).store = run.store :=
  renderAll_harmless noCalls _ run

/-- Between nodes without calls a call decides alone whether a template fails. -/
theorem Template.failure_around (engine : Engine σ) {before after : Template}
    (noneBefore : before.requests = []) (noneAfter : after.requests = []) (request : Request)
    (run : Run σ) :
    (Template.render engine (before ++ .call request :: after)).failure? run =
      (Template.render engine [.call request]).failure? ((before.render engine).after run) := by
  let middle : Run σ := (before.render engine).after run
  have inTurn := render_in_turn engine
    (fun call => renderAll_append call before (.call request :: after)) run
  have inTurnAfter : Template.render engine (.call request :: after) middle =
      (Template.render engine [.call request] >>= fun _ => after.render engine) middle :=
    render_in_turn engine (fun call => renderAll_append call [.call request] after) middle
  have beforeEnds := (render_of_noCalls engine noneBefore run).1
  have afterEnds := (render_of_noCalls engine noneAfter
    ((Template.render engine [.call request]).after middle)).1
  calc
    _ = (before.render engine >>= fun _ =>
          Template.render engine (.call request :: after)).failure? run := by
      simp only [failure?, inTurn]
    _ = (Template.render engine (.call request :: after)).failure? middle := by
      rw [failure_of_bind, beforeEnds, Option.none_or]
    _ = (Template.render engine [.call request] >>= fun _ => after.render engine).failure?
          middle := by
      simp only [failure?, inTurnAfter]
    _ = _ := by rw [failure_of_bind, afterEnds, Option.or_none]

/-- A call above the limit fails as its snippet does with each of its bindings, if there are
some and it fails in the same way with all of them. -/
theorem Template.failure_call {engine : Engine σ} {served : String → Answer} {request : Request}
    {content : String} {template : Template} {failure : Option Error} {run : Run σ}
    (shallow : run.context.depth < deepestCall) (stored : run.store.Serves engine.source served)
    (found : served (request.snippetName run.context) = .ok (some content))
    (parsed : Template.parse engine.registry content.toList = .ok template)
    (renders : request.bindings run.context ≠ [])
    (each : ∀ bound ∈ request.bindings run.context, ∀ out store,
      store.Serves engine.source served → (template.render engine).failure?
        ⟨⟨Dict.ofList bound, [], run.context.depth + 1⟩, out, store⟩ = failure) :
    (Template.render engine [.call request]).failure? run = failure := by
  have answer := (stored.lookup_eq (request.snippetName run.context)).trans found
  have performed : Template.render engine [.call request] run =
      (request.bindings run.context).forM
        (fun bound => inContext ⟨Dict.ofList bound, [], run.context.depth + 1⟩
          (template.render engine))
        { run with store :=
            (run.store.lookup engine.source (request.snippetName run.context)).2 } := by
    rw [render_call engine request shallow, Request.perform_eq,
      ← Engine.renderContent_of_parse parsed]
    simp only [bind, EStateM.bind, requireSnippet_eq, answer]
  rw [failure?, performed]
  refine failure_forM (·.Serves engine.source served) renders
    (fun bound member other serves => ⟨?_, ?_⟩) (stored.lookup _)
  · rw [failure_inContext]
    exact each bound member other.out other.store serves
  · rw [after_inContext]
    exact render_keeps engine (·.Serves engine.source served) (fun name kept => kept.lookup name)
      template serves

/-- A chain is rendered if the levels that are left are as many as it needs, and otherwise
it fails at the limit. -/
theorem Chain.failure_eq {engine : Engine σ} {served : String → Answer} {template : Template}
    {count : Nat} (chain : Chain engine.registry served template count) {run : Run σ}
    (plain : run.context.Unquoted) (stored : run.store.Serves engine.source served)
    (start : run.context.depth ≤ deepestCall) :
    (template.render engine).failure? run =
      if run.context.depth + count ≤ deepestCall then none else some .nestingTooDeep := by
  induction chain generalizing run with
  | last noCalls =>
    rw [if_pos (Nat.add_zero _ ▸ start)]
    exact (Template.render_of_noCalls engine noCalls run).1
  | @link before after next request name content count noneBefore noneAfter assigned gives names
      renders found parsed rest inductionHypothesis =>
    have sameStore := (Template.render_of_noCalls engine noneBefore run).2
    have confined := template_confined engine before run
    have depth := confined.depth
    rw [Template.failure_around engine noneBefore noneAfter]
    revert sameStore confined depth
    generalize (before.render engine).after run = middle
    intro sameStore confined depth
    have middlePlain : middle.context.Unquoted := plain.confined confined assigned
    by_cases shallow : middle.context.depth < deepestCall
    · have named := names.snippetName middlePlain
      refine Template.failure_call shallow (sameStore ▸ stored) (named ▸ found) parsed
        (renders middle.context) fun bound member out store served => ?_
      let start : Run σ := ⟨⟨Dict.ofList bound, [], middle.context.depth + 1⟩, out, store⟩
      have plainStart : start.context.Unquoted := .given gives member _
      have deeper : start.context.depth = run.context.depth + 1 := congrArg Nat.succ depth
      have ended := inductionHypothesis plainStart served shallow
      rw [ended, deeper, Nat.add_assoc, Nat.add_comm 1]
    · rw [failure?, Template.render_call_of_limit engine request (Nat.le_of_not_lt shallow),
        if_neg (by omega)]

/-! ### Smaller depths -/

/-- Contexts with the same scopes are the same but for the depth. -/
theorem Context.eq_of_scopes {context other : Context} (scopes : View.scopes.holds context other) :
    other = { context with depth := other.depth } := by
  obtain ⟨inner, outer, depth⟩ := context
  obtain ⟨_, _, _⟩ := other
  obtain ⟨rfl, rfl⟩ := scopes
  rfl

/-- A rendering that does not come upon the limit is the same at a smaller depth. -/
theorem Template.render_shallower (engine : Engine σ) (template : Template) (run : Run σ)
    {depth : Nat} (shallower : depth ≤ run.context.depth)
    (within : (template.render engine).failure? run ≠ some .nestingTooDeep) :
    let other : Run σ := { run with context := { run.context with depth := depth } }
    let ended := (template.render engine).after run
    (template.render engine).failure? other = (template.render engine).failure? run ∧
      (template.render engine).after other =
        { ended with context := { ended.context with depth := depth } } := by
  intro other ended
  have matched : Matched (Eq .nestingTooDeep)
      (Alongside (Pairing.same engine).stores View.scopes run other)
      (template.render engine run) (template.render engine other) :=
    (Pairing.same engine).render_matched template (View.scopes_sees _) ⟨rfl, rfl⟩ rfl
      (.inr ⟨rfl, shallower⟩)
  obtain ⟨failure, alongside⟩ := matched.ended fun e failed excused => within (excused ▸ failed)
  obtain ⟨text, leftOut, rightOut⟩ := alongside.out
  have depths : ((template.render engine).after other).context.depth = depth :=
    (template_confined engine template other).depth
  refine ⟨failure.symm, ?_⟩
  have context := Context.eq_of_scopes alongside.context
  rw [depths] at context
  have out : ((template.render engine).after other).out = ended.out := rightOut.trans leftOut.symm
  let expected : Run σ := { ended with context := { ended.context with depth := depth } }
  have store : ((template.render engine).after other).store = expected.store :=
    alongside.store.symm
  exact Run.eq_of_written context store out

/-- A rendering fails with the error of the limit exactly if it executes a call at the limit,
or one for which the source itself answers with this error. -/
theorem Template.failure_eq_limit (engine : Engine σ) (template : Template) {run : Run σ}
    (start : run.context.depth ≤ deepestCall) :
    (template.render engine).failure? run = some .nestingTooDeep ↔
      ∃ call ∈ template.executions engine run, call.run.context.depth = deepestCall ∨
        (call.run.store.lookup engine.source
          (call.request.snippetName call.run.context)).1 = .error .nestingTooDeep := by
  obtain ⟨account, bounded⟩ :=
    template.executions_account engine (fun _ => True) (fun _ => id) run trivial
  constructor
  · intro failed
    rw [failed] at account
    obtain ⟨earlier, call, executed, refused, -⟩ := account.of_failure
    have member : call ∈ template.executions engine run := by
      rw [executed]
      exact List.mem_append_right earlier List.mem_cons_self
    refine ⟨call, member, ?_⟩
    unfold Execution.refusal? at refused
    split at refused
    · next noneLeft =>
      have depth := (bounded call member).1
      unfold Context.levelsLeft at noneLeft
      exact .inl (by omega)
    · rcases Request.of_refusal refused with answer | ⟨-, unknown⟩ | ⟨_, _, -, -, malformed⟩
      · exact .inr answer
      · cases unknown
      · cases malformed
  · rintro ⟨call, member, reason⟩
    apply account.failure_of_refused member
    unfold Execution.refusal?
    split
    · rfl
    · next someLeft =>
      rcases reason with limit | answer
      · exact absurd (Nat.sub_eq_zero_of_le (Nat.le_of_eq limit.symm)) someLeft
      · simp only [Request.refusal?, answer]

/-- The limit of nesting is exact. From a run that is not nested more deeply than that, calls
are executed at most at the limit, and no context is made beyond it: a call at the limit is
refused and does nothing, and above the limit a call renders its snippet one level deeper.
So a rendering fails with the error of the limit exactly if a call is executed at the limit,
unless the source itself answers with this error. A chain of snippets is rendered exactly if
it is not longer than the limit, and fails there otherwise. And the limit is all that can be
told of the depth: a rendering that does not fail with its error is the same at every smaller
depth. Here the executed calls are those that are noted in a record, without which the
rendering is the same. -/
theorem nesting_limit_exact (engine : Engine σ) :
    deepestCall = 100 ∧
    Error.nestingTooDeep.message = "runtime error: snippet nesting exceeds 100 levels" ∧
    (∀ (template : Template) (run : Run σ), run.context.depth ≤ deepestCall →
      forgetting (template.record engine run.unrecorded) = template.render engine run ∧
      (∀ call ∈ template.executions engine run, call.run.context.depth ≤ deepestCall) ∧
      ((template.render engine).failure? run = some .nestingTooDeep ↔
        ∃ call ∈ template.executions engine run, call.run.context.depth = deepestCall ∨
          (call.run.store.lookup engine.source
            (call.request.snippetName call.run.context)).1 = .error .nestingTooDeep)) ∧
    (∀ (request : Request) (run : Run σ),
      (deepestCall ≤ run.context.depth →
        Template.render engine [.call request] run = .error .nestingTooDeep run) ∧
      (run.context.depth < deepestCall →
        Template.render engine [.call request] run =
          request.perform engine (Template.render engine) run ∧
        ∀ context ∈ request.contexts run.context,
          context.depth = run.context.depth + 1 ∧ context.depth ≤ deepestCall)) ∧
    (∀ (served : String → Answer) (template : Template) (count : Nat) (outermost : Scope)
      (out : String) (store : Store σ), Chain engine.registry served template count →
      store.Serves engine.source served → (Context.top outermost).Unquoted →
      let ended := (template.render engine).failure? ⟨.top outermost, out, store⟩
      (ended = none ↔ count ≤ 100) ∧ (ended = some .nestingTooDeep ↔ 100 < count)) ∧
    (∀ (template : Template) (run : Run σ) (depth : Nat), depth ≤ run.context.depth →
      run.context.depth ≤ deepestCall →
      (template.render engine).failure? run ≠ some .nestingTooDeep →
      let other : Run σ := { run with context := { run.context with depth := depth } }
      let ended := (template.render engine).after run
      (template.render engine).failure? other = (template.render engine).failure? run ∧
        (template.render engine).after other =
          { ended with context := { ended.context with depth := depth } }) := by
  refine ⟨rfl, by decide, fun template run start => ?_, fun request run => ⟨?_, fun shallow => ?_⟩,
    fun served template count outermost out store chain serves plain => ?_,
    fun template run depth shallower _ within => template.render_shallower engine run shallower
      within⟩
  · obtain ⟨-, bounded⟩ :=
      template.executions_account engine (fun _ => True) (fun _ => id) run trivial
    refine ⟨template.erases_record engine run.unrecorded, fun call member => ?_,
      template.failure_eq_limit engine start⟩
    exact (bounded call member).1.trans (Nat.max_le.mpr ⟨start, Nat.le_refl _⟩)
  · exact Template.render_call_of_limit engine request
  · refine ⟨Template.render_call engine request shallow, fun context member => ?_⟩
    rw [Request.contexts_eq] at member
    obtain ⟨bound, -, rfl⟩ := List.mem_map.mp member
    exact ⟨rfl, shallow⟩
  · let start : Run σ := ⟨.top outermost, out, store⟩
    have ended : (template.render engine).failure? start =
        if 0 + count ≤ 100 then none else some .nestingTooDeep :=
      chain.failure_eq plain serves (Nat.zero_le deepestCall)
    rw [ended, Nat.zero_add]
    by_cases fits : count ≤ 100
    · simp only [fits, if_true, reduceCtorEq, false_iff, true_and]
      exact Nat.not_lt_of_le fits
    · simp only [fits, if_false, reduceCtorEq, true_iff, true_and]
      exact Nat.lt_of_not_le fits

/-! ### A chain of any length -/

namespace Request

open Markup

/-- The source of a call that hands nothing to its snippet. -/
def plainSource (snippet : List Char) : List Char := tagSource (Template.tagText "render" snippet)

/-- A call that hands nothing to its snippet. -/
def plain (snippet : List Char) : Request := ⟨snippet, .nothing, none, []⟩

/-- Such a call is read from its source. -/
theorem parse_plainSource {registry : Registry} (calls : Dict.get? "render" registry = some .call)
    {snippet : List Char} (fragment : IsFragment snippet) (written : Inner snippet) :
    Template.parse registry (plainSource snippet) = .ok [.call (plain snippet)] := by
  let call : WrittenCall := ⟨snippet, fragment, none, none, [], none⟩
  have text : call.text = snippet := List.append_nil snippet
  have read : read? call.text = some (plain snippet) := call.read?_text
  rw [text] at read
  exact Iteration.parse_callTag calls written read

end Request

/-- A name of so many strokes in quotes. -/
def strokes (count : Nat) : List Char := '"' :: (List.replicate count 'i' ++ ['"'])

/-- Snippets of all numbers of strokes. Each calls the one with a stroke less. -/
def strokeAnswer (name : String) : Answer :=
  .ok (some (match name.toList with
    | [] => "end"
    | _ :: fewer => String.ofList (Request.plainSource (strokes fewer.length))))

/-- Strokes in quotes can be written in a tag. -/
theorem strokes_written (count : Nat) :
    Markup.IsFragment (strokes count) ∧ Inner (strokes count) := by
  have plain {c : Char} (different : c ≠ 'i') : c ∉ List.replicate count 'i' := fun member =>
    different (List.eq_of_mem_replicate member)
  refine ⟨Markup.isFragment_quoted (by decide) (plain (by decide)), List.cons_ne_nil _ _, ?_,
    Iteration.unclosed_quoted (by decide) (unclosed_of_not_mem (plain (by decide)))⟩
  constructor
  · rintro _ ⟨⟩
    decide
  · intro c last
    rw [strokes, ← List.cons_append, List.getLast?_concat] at last
    cases last
    decide

/-- A call of the snippet with so many strokes starts a chain with one more snippet. -/
theorem strokes_chain (count : Nat) :
    Chain .standard strokeAnswer [.call (.plain (strokes count))] (count + 1) := by
  have calls : Dict.get? "render" Registry.standard = some .call := by decide +kernel
  have names (count : Nat) : (Request.plain (strokes count)).Names
      (String.ofList (List.replicate count 'i')) := by
    constructor
    · intro c member
      rw [String.toList_ofList] at member
      rw [List.eq_of_mem_replicate member]
      decide
    · exact ⟨'"', by decide, by rw [String.toList_ofList]; rfl⟩
  have gives (count : Nat) : (Request.plain (strokes count)).GivesUnquoted := by
    constructor
    · rintro _ ⟨⟩
    · rintro _ ⟨⟩
  have unassigned : ∀ name ∈ Template.assigned [], Unquoted name := by rintro _ ⟨⟩
  have renders (count : Nat) (caller : Context) :
      (Request.plain (strokes count)).bindings caller ≠ [] := List.cons_ne_nil _ _
  induction count with
  | zero =>
    have parsed : Template.parse .standard "end".toList = .ok [.text "end"] := by cbv
    show Chain .standard strokeAnswer ([] ++ .call (.plain (strokes 0)) :: []) 1
    exact .link rfl rfl unassigned (gives 0) (names 0) (renders 0) rfl parsed (.last rfl)
  | succ count inductionHypothesis =>
    obtain ⟨fragment, written⟩ := strokes_written count
    have found : strokeAnswer (String.ofList (List.replicate (count + 1) 'i')) =
        .ok (some (String.ofList (Request.plainSource (strokes count)))) := by
      simp only [strokeAnswer, String.toList_ofList, List.replicate_succ, List.length_replicate]
    have parsed : Template.parse .standard
        (String.ofList (Request.plainSource (strokes count))).toList =
          .ok [.call (.plain (strokes count))] := by
      rw [String.toList_ofList]
      exact Request.parse_plainSource calls fragment written
    show Chain .standard strokeAnswer ([] ++ .call (.plain (strokes (count + 1))) :: []) _
    exact .link rfl rfl unassigned (gives _) (names _) (renders _) found parsed inductionHypothesis

/-- Of two chains that only differ in their first snippet, a hundred snippets are rendered, and
a hundred and one are not. -/
theorem hundred_strokes :
    let engine : Engine (List String) := ⟨.standard, .recorded strokeAnswer⟩
    let start : Run (List String) := ⟨.top [("a", .null)], "o", .empty []⟩
    (Template.render engine [.call (.plain (strokes 99))]).failure? start = none ∧
      (Template.render engine [.call (.plain (strokes 100))]).failure? start =
        some .nestingTooDeep := by
  intro engine start
  have serves : (Store.empty []).Serves engine.source strokeAnswer :=
    ⟨strokeAnswer, Source.recorded_steady strokeAnswer [], rfl⟩
  have plain : (Context.top [("a", .null)]).Unquoted := by
    intro name bound
    have named : name = "a" := by
      by_contra other
      exact bound (by simp [Context.top, Context.get?, Context.scopes, Dict.get?, Ne.symm other])
    rw [named]
    exact (Markup.isName_of_identifier? (by decide)).unquoted
  obtain ⟨-, -, -, -, chains, -⟩ := nesting_limit_exact engine
  obtain ⟨fits, -⟩ :=
    chains strokeAnswer _ 100 [("a", .null)] "o" (.empty []) (strokes_chain 99) serves plain
  obtain ⟨-, long⟩ :=
    chains strokeAnswer _ 101 [("a", .null)] "o" (.empty []) (strokes_chain 100) serves plain
  exact ⟨fits.mpr (Nat.le_refl 100), long.mpr (Nat.lt_succ_self 100)⟩

end Stencil
