import Stencil.Environment

/-!
# Rendering steps and what they keep

A rendering step ends in a run whether it succeeds or fails. A relation between runs
is kept by a step if it holds from every run to the one that the step ends in, so a
statement about what is kept covers failures at any point.

The main statements say that steps in turn keep what each of them keeps.
-/

namespace Stencil

variable {σ α β : Type}

/-- The elements that a loop runs over, in its order. -/
def LoopHead.elements (head : LoopHead) (bindings : Bindings) : List Value :=
  let items := (head.collection.eval bindings).elements?.getD []
  if head.reversed then items.reverse else items

namespace Rendering

/-- The run in which a step ends, also if it fails. -/
def after (step : Rendering σ α) (run : Run σ) : Run σ :=
  match step run with
  | .ok _ ended => ended
  | .error _ ended => ended

/-- The error that a step fails with. -/
def failure? (step : Rendering σ α) (run : Run σ) : Option Error :=
  match step run with
  | .ok _ _ => none
  | .error e _ => some e

/-- An outcome with the run at its end changed. -/
def ending (change : Run σ → Run σ) :
    EStateM.Result Error (Run σ) α → EStateM.Result Error (Run σ) α
  | .ok result ended => .ok result (change ended)
  | .error e ended => .error e (change ended)

/-- A step keeps a relation that holds from every run to the one it ends in. -/
def Keeps (related : Run σ → Run σ → Prop) (step : Rendering σ α) : Prop :=
  ∀ run, related run (step.after run)

/-- What is kept by every step is kept by steps in turn. The second step starts in the
run in which the first one ended, and only if that one succeeded. -/
theorem keeps_bind {related : Run σ → Run σ → Prop} {step : Rendering σ α}
    {next : α → Rendering σ β}
    (trans : ∀ {first middle last}, related first middle → related middle last →
      related first last)
    (kept : Keeps related step) (keptNext : ∀ result, Keeps related (next result)) :
    Keeps related (step >>= next) := by
  intro run
  have first := kept run
  simp only [after, bind, EStateM.bind] at first ⊢
  cases ended : step run with
  | ok result middle =>
    simp only [ended] at first ⊢
    exact trans first (keptNext result middle)
  | error e middle => simpa only [ended] using first

/-- Steps for each element of a list keep what the step for every element keeps. -/
theorem keeps_forM {related : Run σ → Run σ → Prop} {step : α → Rendering σ Unit}
    (refl : ∀ run, related run run)
    (trans : ∀ {first middle last}, related first middle → related middle last →
      related first last)
    (items : List α) (kept : ∀ item ∈ items, Keeps related (step item)) :
    Keeps related (items.forM step) := by
  induction items with
  | nil => exact refl
  | cons item items inductionHypothesis =>
    have keptRest : Keeps related (items.forM step) :=
      inductionHypothesis fun other member => kept other (List.mem_cons_of_mem item member)
    exact keeps_bind trans (kept item List.mem_cons_self) fun _ => keptRest

/-- The outcome of a step that fails is its error and the run in which it ends. -/
theorem eq_error_of_failure {step : Rendering σ α} {run : Run σ} {e : Error}
    (failed : step.failure? run = some e) : step run = .error e (step.after run) := by
  simp only [failure?, after] at failed ⊢
  cases ended : step run with
  | ok result last => simp only [ended, reduceCtorEq] at failed
  | error cause last =>
    simp only [ended, Option.some.injEq] at failed
    rw [failed]

/-- The outcome of a step that succeeds is the run in which it ends. -/
theorem eq_ok_of_success {step : Rendering σ Unit} {run : Run σ}
    (succeeded : step.failure? run = none) : step run = .ok () (step.after run) := by
  simp only [failure?, after] at succeeded ⊢
  cases ended : step run with
  | ok result last => rfl
  | error cause last => simp only [ended, reduceCtorEq] at succeeded

/-- How a step ended is told by its outcome. -/
theorem ended_of_ok {step : Rendering σ α} {run last : Run σ} {result : α}
    (outcome : step run = .ok result last) : step.failure? run = none ∧ step.after run = last := by
  simp only [failure?, after, outcome, and_self]

theorem ended_of_error {step : Rendering σ α} {run last : Run σ} {e : Error}
    (outcome : step run = .error e last) :
    step.failure? run = some e ∧ step.after run = last := by
  simp only [failure?, after, outcome, and_self]

/-- A step that fails is the last one. -/
theorem bind_of_failure {step : Rendering σ α} {run : Run σ} {e : Error}
    (next : α → Rendering σ β) (failed : step.failure? run = some e) :
    (step >>= next) run = .error e (step.after run) := by
  simp only [bind, EStateM.bind, eq_error_of_failure failed]

/-- After a step that succeeds the next one starts where the first one ended. -/
theorem bind_of_success {step : Rendering σ Unit} {run : Run σ} (next : Rendering σ α)
    (succeeded : step.failure? run = none) :
    (step >>= fun _ => next) run = next (step.after run) := by
  simp only [bind, EStateM.bind, eq_ok_of_success succeeded]

/-- Steps in turn fail if the first one fails, or else the second one after it. -/
theorem failure_of_bind (step next : Rendering σ Unit) (run : Run σ) :
    (step >>= fun _ => next).failure? run =
      (step.failure? run).or (next.failure? (step.after run)) := by
  cases failed : step.failure? run with
  | some e => rw [failure?, bind_of_failure _ failed, Option.some_or]
  | none => rw [failure?, bind_of_success _ failed, Option.none_or, failure?]

/-- A template of one node is rendered like that node. -/
theorem renderAll_single (call : Request → Rendering σ Unit) (node : Node) :
    Node.renderAll call [node] = node.render call := by
  simp only [Node.renderAll]
  exact bind_pure_unit

/-- A template of one call performs that call. -/
theorem renderAll_call (call : Request → Rendering σ Unit) (request : Request) :
    Node.renderAll call [.call request] = call request := by
  rw [renderAll_single, Node.render]

/-! ### Where the single steps end -/

/-- Finding the elements of a loop changes nothing. -/
theorem elementsOf_eq (head : LoopHead) (run : Run σ) :
    elementsOf head run = .ok (head.elements run.context.get?) run := rfl

/-- A loop without another part runs over its elements, also if there are none. -/
theorem loop_eq_forEach (call : Request → Rendering σ Unit) (head : LoopHead)
    (body : List Node) (run : Run σ) :
    Node.render call (.loop head body []) run =
      forEach head.item (head.elements run.context.get?) (Node.renderAll call body) run := by
  simp only [Node.render, bind, EStateM.bind, elementsOf_eq]
  cases head.elements run.context.get? <;> rfl

/-- A captured step ends like the step itself, but for the output. -/
theorem after_captured (body : Rendering σ Unit) (run : Run σ) :
    (captured body).after run = { body.after { run with out := "" } with out := run.out } := by
  simp only [after, captured]
  cases body { run with out := "" } <;> rfl

/-- A captured step fails if the step does. -/
theorem failure_captured (body : Rendering σ Unit) (run : Run σ) :
    (captured body).failure? run = body.failure? { run with out := "" } := by
  simp only [failure?, captured]
  cases body { run with out := "" } <;> rfl

/-- A step with a scope of its own opens the scope first and closes it in the end. -/
theorem inScope_eq (body : Rendering σ α) (run : Run σ) :
    inScope body run =
      ending (fun last => { last with context := last.context.pop })
        (body { run with context := run.context.push }) := by
  simp only [inScope]
  cases body { run with context := run.context.push } <;> rfl

/-- A step in another context returns to the context in which it started. -/
theorem inContext_eq (context : Context) (body : Rendering σ α) (run : Run σ) :
    inContext context body run =
      ending (fun last => { last with context := run.context })
        (body { run with context := context }) := by
  simp only [inContext]
  cases body { run with context := context } <;> rfl

theorem after_inScope (body : Rendering σ α) (run : Run σ) :
    (inScope body).after run =
      { body.after { run with context := run.context.push } with
        context := (body.after { run with context := run.context.push }).context.pop } := by
  simp only [after, inScope_eq]
  cases body { run with context := run.context.push } <;> rfl

theorem failure_inScope (body : Rendering σ α) (run : Run σ) :
    (inScope body).failure? run = body.failure? { run with context := run.context.push } := by
  simp only [failure?, inScope_eq]
  cases body { run with context := run.context.push } <;> rfl

theorem after_inContext (context : Context) (body : Rendering σ α) (run : Run σ) :
    (inContext context body).after run =
      { body.after { run with context := context } with context := run.context } := by
  simp only [after, inContext_eq]
  cases body { run with context := context } <;> rfl

/-- A step in another context fails if it fails there. -/
theorem failure_inContext (context : Context) (body : Rendering σ α) (run : Run σ) :
    (inContext context body).failure? run = body.failure? { run with context := context } := by
  simp only [failure?, inContext_eq]
  cases body { run with context := context } <;> rfl

/-- Asking for a snippet concerns the store alone, whatever the answer is. -/
theorem after_requireSnippet (source : Source σ) (name : String) (run : Run σ) :
    (requireSnippet source name).after run =
      { run with store := (run.store.lookup source name).2 } := by
  simp only [after, requireSnippet]
  rcases run.store.lookup source name with ⟨_ | _ | _, _⟩ <;> rfl

end Rendering

/-- A template is rendered with the levels of calls that are left where it starts. -/
theorem Template.render_eq (engine : Engine σ) (template : Template) (run : Run σ) :
    template.render engine run =
      Node.renderAll (Request.performWithin engine run.context.levelsLeft) template run := rfl

namespace Environment

/-- What the templates of an environment are read and found with. -/
def engine (env : Environment σ) (source : Source σ) : Engine σ := ⟨env.tags, source⟩

/-- The outcome of a rendering is the error that it fails with or else its output, and
only the store of the environment is changed. -/
theorem render_of_scope {env : Environment σ} {source : Source σ} {assigns : Value}
    {outermost : Scope} (given : scope assigns = .ok outermost) (template : Template) :
    env.render source template assigns =
      let rendering := template.render (env.engine source)
      let start : Run σ := ⟨.top outermost, "", env.store⟩
      (match rendering.failure? start with
        | none => .ok (rendering.after start).out
        | some e => .error e,
        { env with store := (rendering.after start).store }) := by
  simp only [render, given, run, engine, Rendering.failure?, Rendering.after]
  cases template.render ⟨env.tags, source⟩ ⟨.top outermost, "", env.store⟩ <;> rfl

/-- Without a scope for its variables nothing is rendered. -/
theorem render_of_no_scope {env : Environment σ} {source : Source σ} {assigns : Value} {e : Error}
    (refused : scope assigns = .error e) (template : Template) :
    env.render source template assigns = (.error e, env) := by
  simp only [render, refused]

end Environment

end Stencil
