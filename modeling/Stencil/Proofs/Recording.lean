import Mathlib
import Stencil.Proofs.Composition
import Stencil.Proofs.History

/-!
# The calls that a rendering executes

A rendering is repeated with a record beside the state of the source, in which every call
that is executed is noted with the run from which it is. Nothing reads the record, so what
is left when it is forgotten is the rendering itself.

A call that is executed can be refused: there is no level left, the snippet is not found,
or it cannot be read. Then nothing is executed any more. So the record tells why a
rendering failed: exactly the last call in it was refused, with the error that comes up in
the end. A rendering that succeeded had no call refused.
-/

namespace Stencil

variable {σ τ α β : Type}

/-- A source that carries a record, which it does not read. -/
def Source.beside (source : Source σ) (τ : Type) : Source (σ × τ) :=
  ⟨fun name (state, record) =>
    let (answer, next) := source.ask name state
    (answer, next, record)⟩

/-- A run without the record beside the state of its source. -/
def Run.forget (run : Run (σ × τ)) : Run σ :=
  { run with store := run.store.withSource run.store.source.1 }

/-- A call that is executed, and the run from which it is. -/
structure Execution (σ : Type) where
  request : Request
  run : Run σ

/-- A run with an empty record. -/
def Run.unrecorded (run : Run σ) : Run (σ × List (Execution σ)) :=
  { run with store := run.store.withSource (run.store.source, []) }

/-- A run with one more call in its record. -/
def Run.noted (run : Run (σ × List (Execution σ))) (request : Request) :
    Run (σ × List (Execution σ)) :=
  let (state, record) := run.store.source
  { run with store := run.store.withSource (state, record ++ [⟨request, run.forget⟩]) }

/-- A lookup finds the same and carries the record along. -/
theorem Store.lookup_beside (source : Source σ) (store : Store (σ × τ)) (name : String) :
    store.lookup (source.beside τ) name =
      (((store.withSource store.source.1).lookup source name).1,
        ((store.withSource store.source.1).lookup source name).2.withSource
          (((store.withSource store.source.1).lookup source name).2.source, store.source.2)) := by
  cases held : store.held name with
  | some content =>
    have heldAlone : (store.withSource store.source.1).held name = some content := held
    rw [lookup_held held, lookup_held heldAlone]
    rfl
  | none =>
    have missing : (store.withSource store.source.1).held name = none := held
    rw [lookup_missing held, lookup_missing missing]
    simp only [Source.beside, withSource]
    rcases (source.ask name store.source.1).1 with _ | _ | _ <;> rfl

namespace Rendering

/-- An outcome without the record. -/
def forgetting : EStateM.Result Error (Run (σ × τ)) α → EStateM.Result Error (Run σ) α
  | .ok result ended => .ok result ended.forget
  | .error e ended => .error e ended.forget

/-- Notes that a call is executed now. -/
def note (request : Request) : Rendering (σ × List (Execution σ)) Unit := modify (·.noted request)

end Rendering

/-- An engine whose source carries a record of the calls that are executed. -/
def Engine.recording (engine : Engine σ) : Engine (σ × List (Execution σ)) :=
  ⟨engine.registry, engine.source.beside _⟩

open Rendering

/-- Notes a call and performs it with the given number of levels left. -/
def Request.recordWithin (engine : Engine σ) :
    (levels : Nat) → Request → Rendering (σ × List (Execution σ)) Unit
  | 0, request => do
    note request
    throw .nestingTooDeep
  | levels + 1, request => do
    note request
    request.perform engine.recording (Node.renderAll (Request.recordWithin engine levels))

namespace Template

/-- Renders a template and records the calls. -/
def record (engine : Engine σ) (template : Template) :
    Rendering (σ × List (Execution σ)) Unit := do
  let levels := (← get).context.levelsLeft
  Node.renderAll (Request.recordWithin engine levels) template

/-- The calls that are executed when a template is rendered from a run, in order, those in
snippets included. -/
def executions (engine : Engine σ) (template : Template) (run : Run σ) : List (Execution σ) :=
  ((template.record engine).after run.unrecorded).store.source.2

end Template

/-! ### Calls that are refused -/

/-- The error with which a call is refused after the levels were counted: its snippet is
not found, or it is to be rendered and cannot be read. -/
def Request.refusal? (engine : Engine σ) (request : Request) (run : Run σ) : Option Error :=
  let name := request.snippetName run.context
  match (run.store.lookup engine.source name).1 with
  | .error e => some e
  | .ok none => some (.unknownSnippet name)
  | .ok (some content) =>
    match request.bindings run.context, Template.parse engine.registry content.toList with
    | _ :: _, .error mistake => some (.malformed mistake)
    | _, _ => none

/-- The error with which the call is refused. -/
def Execution.refusal? (engine : Engine σ) (execution : Execution σ) : Option Error :=
  if execution.run.context.levelsLeft = 0 then some .nestingTooDeep
  else execution.request.refusal? engine execution.run

section

variable {engine : Engine σ} {request : Request} {run : Run σ}

/-- The answer to a lookup decides how asking for a snippet ends. -/
theorem Rendering.requireSnippet_eq (source : Source σ) (name : String) (run : Run σ) :
    requireSnippet source name run =
      match (run.store.lookup source name).1 with
      | .ok (some content) => .ok content { run with store := (run.store.lookup source name).2 }
      | .ok none =>
        .error (.unknownSnippet name) { run with store := (run.store.lookup source name).2 }
      | .error e => .error e { run with store := (run.store.lookup source name).2 } := by
  unfold requireSnippet
  rcases run.store.lookup source name with ⟨_ | _ | _, _⟩ <;> rfl

/-- A content that can be read is rendered by its template. -/
theorem Engine.renderContent_of_parse {content : String} {template : Template}
    (parsed : Template.parse engine.registry content.toList = .ok template)
    (render : Template → Rendering σ Unit) (depth : Nat) :
    engine.renderContent render content depth =
      fun bound => inContext ⟨Dict.ofList bound, [], depth⟩ (render template) := by
  funext bound
  simp only [renderContent, parsed]
  rfl

/-- A content that cannot be read is not rendered. -/
theorem Engine.renderContent_of_mistake {content : String} {mistake : SyntaxError}
    (unreadable : Template.parse engine.registry content.toList = .error mistake)
    (render : Template → Rendering σ Unit) (depth : Nat) :
    engine.renderContent render content depth = fun _ => throw (.malformed mistake) := by
  funext bound
  simp only [renderContent, unreadable]
  rfl

/-- A call is refused for one of three reasons: its source fails, its snippet is not found, or
the content cannot be read. -/
theorem Request.of_refusal {e : Error} (refused : request.refusal? engine run = some e) :
    let name := request.snippetName run.context
    let answer := (run.store.lookup engine.source name).1
    answer = .error e ∨ (answer = .ok none ∧ e = .unknownSnippet name) ∨
      ∃ content mistake, answer = .ok (some content) ∧
        Template.parse engine.registry content.toList = .error mistake ∧
          e = .malformed mistake := by
  intro name answer
  simp only [refusal?] at refused
  split at refused
  · next cause found =>
    cases refused
    exact .inl found
  · next found =>
    cases refused
    exact .inr (.inl ⟨found, rfl⟩)
  · next content found =>
    split at refused
    · next mistake bindings unreadable =>
      cases refused
      exact .inr (.inr ⟨content, mistake, found, unreadable, rfl⟩)
    · cases refused

/-- A call that is refused only changes the store, by looking its snippet up. -/
theorem Request.perform_of_refusal {e : Error} (refused : request.refusal? engine run = some e)
    (render : Template → Rendering σ Unit) :
    request.perform engine render run =
      .error e { run with
        store := (run.store.lookup engine.source (request.snippetName run.context)).2 } := by
  rw [Request.perform_eq]
  simp only [refusal?] at refused
  rcases answer : (run.store.lookup engine.source (request.snippetName run.context)).1 with
    cause | _ | content
  · rw [answer] at refused
    cases refused
    simp only [bind, EStateM.bind, requireSnippet_eq, answer]
  · rw [answer] at refused
    cases refused
    simp only [bind, EStateM.bind, requireSnippet_eq, answer]
  · simp only [answer] at refused
    simp only [bind, EStateM.bind, requireSnippet_eq, answer]
    split at refused
    · next bound more mistake bindings unreadable =>
      cases refused
      rw [bindings, Engine.renderContent_of_mistake unreadable]
      rfl
    · cases refused

/-- A call that is not refused renders the template of its snippet, once for each of its
bindings. -/
theorem Request.perform_of_no_refusal (accepted : request.refusal? engine run = none) :
    ∃ template : Template, ∀ render : Template → Rendering σ Unit,
      request.perform engine render run =
        (request.bindings run.context).forM
          (fun bound => inContext ⟨Dict.ofList bound, [], run.context.depth + 1⟩ (render template))
          { run with
            store := (run.store.lookup engine.source (request.snippetName run.context)).2 } := by
  simp only [refusal?] at accepted
  rcases answer : (run.store.lookup engine.source (request.snippetName run.context)).1 with
    cause | _ | content
  · simp only [answer, reduceCtorEq] at accepted
  · simp only [answer, reduceCtorEq] at accepted
  · simp only [answer] at accepted
    simp only [Request.perform_eq, bind, EStateM.bind, requireSnippet_eq, answer]
    cases parsed : Template.parse engine.registry content.toList with
    | ok template =>
      refine ⟨template, fun render => ?_⟩
      rw [Engine.renderContent_of_parse parsed]
    | error mistake =>
      -- Then nothing is rendered, so any template will do.
      cases bindings : request.bindings run.context with
      | nil => exact ⟨[], fun render => rfl⟩
      | cons bound more => simp only [bindings, parsed, reduceCtorEq] at accepted

end

/-! ### The record can be forgotten -/

namespace Rendering

/-- A step does what another one does, but for the record. -/
def Erases (step : Rendering (σ × τ) α) (other : Rendering σ α) : Prop :=
  ∀ run, forgetting (step run) = other run.forget

theorem erases_bind {step : Rendering (σ × τ) α} {other : Rendering σ α}
    {next : α → Rendering (σ × τ) β} {otherNext : α → Rendering σ β} (first : Erases step other)
    (second : ∀ result, Erases (next result) (otherNext result)) :
    Erases (step >>= next) (other >>= otherNext) := by
  intro run
  simp only [bind, EStateM.bind, ← first run]
  cases step run with
  | ok result middle => exact second result middle
  | error e middle => rfl

theorem erases_captured {body : Rendering (σ × τ) Unit} {other : Rendering σ Unit}
    (erases : Erases body other) : Erases (captured body) (captured other) := by
  intro run
  have inside : forgetting (body { run with out := "" }) = other { run.forget with out := "" } :=
    erases { run with out := "" }
  simp only [captured, ← inside]
  cases body { run with out := "" } <;> rfl

theorem erases_inScope {body : Rendering (σ × τ) α} {other : Rendering σ α}
    (erases : Erases body other) : Erases (inScope body) (inScope other) := by
  intro run
  have inside : forgetting (body { run with context := run.context.push }) =
      other { run.forget with context := run.context.push } :=
    erases { run with context := run.context.push }
  have context : run.forget.context = run.context := rfl
  simp only [inScope, context, ← inside]
  cases body { run with context := run.context.push } <;> rfl

theorem erases_inContext {body : Rendering (σ × τ) α} {other : Rendering σ α}
    (erases : Erases body other) (context : Context) :
    Erases (inContext context body) (inContext context other) := by
  intro run
  have inside : forgetting (body { run with context := context }) =
      other { run.forget with context := context } := erases { run with context := context }
  simp only [inContext, ← inside]
  cases body { run with context := context } <;> rfl

/-- Everything besides calls is the same with a record as without. -/
theorem erases_compositional :
    Compositional fun _ (step : Rendering (σ × τ) _) (other : Rendering σ _) =>
      Erases step other where
  pure _ _ := rfl
  bind := erases_bind
  write _ _ := rfl
  setVariable _ _ _ := rfl
  valueOf _ _ := rfl
  test _ _ := rfl
  captured := erases_captured
  inScope := erases_inScope

theorem erases_requireSnippet (source : Source σ) (name : String) :
    Erases (requireSnippet (source.beside τ) name) (requireSnippet source name) := by
  intro run
  simp only [requireSnippet, Store.lookup_beside, Run.forget]
  rcases (run.store.withSource run.store.source.1).lookup source name with ⟨_ | _ | _, _⟩ <;> rfl

theorem erases_readable (template : Except SyntaxError Template) :
    Erases (readable template : Rendering (σ × τ) Template) (readable template) := by
  intro run
  cases template <;> rfl

variable {engine : Engine σ}

/-- A call does the same with a record if its snippet does. -/
theorem erases_perform {render : Template → Rendering (σ × List (Execution σ)) Unit}
    {other : Template → Rendering σ Unit} (rendered : ∀ template, Erases (render template)
      (other template)) (request : Request) :
    Erases (request.perform engine.recording render) (request.perform engine other) := by
  intro run
  rw [Request.perform_eq, Request.perform_eq]
  refine erases_bind (erases_requireSnippet engine.source _) (fun content => ?_) run
  apply erases_compositional.forM
  intro bound _
  apply erases_bind (erases_readable _)
  exact fun nodes => erases_inContext (rendered nodes) _

/-- A recorded call does what the call does. -/
theorem erases_recordWithin (levels : Nat) (request : Request) :
    Erases (request.recordWithin engine levels) (request.performWithin engine levels) := by
  induction levels generalizing request with
  | zero => exact fun run => rfl
  | succ levels inductionHypothesis =>
    have rendered (template : Template) :=
      erases_compositional.nodes template fun nested _ => inductionHypothesis nested
    exact fun run => erases_perform rendered request (run.noted request)

/-- A step fails with a record as without. -/
theorem Erases.failure_eq {step : Rendering (σ × τ) α} {other : Rendering σ α}
    (erases : Erases step other) (run : Run (σ × τ)) :
    step.failure? run = other.failure? run.forget := by
  simp only [failure?, ← erases run]
  cases step run <;> rfl

end Rendering

/-- Rendering with a record is rendering. -/
theorem Template.erases_record (engine : Engine σ) (template : Template) :
    Erases (template.record engine) (template.render engine) := fun run =>
  erases_compositional.nodes template (fun request _ =>
    erases_recordWithin run.context.levelsLeft request) run

/-! ### The record tells how the rendering ended -/

namespace Execution

/-- Executed calls account for the end of a rendering: none was refused, or the last one
was, with the error that the rendering ends in. -/
inductive Account (engine : Engine σ) : List (Execution σ) → Option Error → Prop where
  | nothing : Account engine [] none
  | refused {call : Execution σ} {e : Error} (refusal : call.refusal? engine = some e) :
      Account engine [call] (some e)
  | accepted {call : Execution σ} {calls : List (Execution σ)} {failure : Option Error}
      (refusal : call.refusal? engine = none) (rest : Account engine calls failure) :
      Account engine (call :: calls) failure

variable {engine : Engine σ} {calls more : List (Execution σ)} {failure : Option Error}

/-- Calls of a step that succeeded, and then those of the next step. -/
theorem Account.append (first : Account engine calls none) (second : Account engine more failure) :
    Account engine (calls ++ more) failure := by
  induction calls with
  | nil => exact second
  | cons call calls inductionHypothesis =>
    cases first with
    | accepted refusal rest => exact .accepted refusal (inductionHypothesis rest)

/-- Exactly the last call of a rendering that failed was refused. -/
theorem Account.of_failure {e : Error} (account : Account engine calls (some e)) :
    ∃ earlier call, calls = earlier ++ [call] ∧ call.refusal? engine = some e ∧
      ∀ passed ∈ earlier, passed.refusal? engine = none := by
  induction calls with
  | nil => cases account
  | cons first calls inductionHypothesis =>
    cases account with
    | refused refusal => exact ⟨[], first, rfl, refusal, fun _ member => by cases member⟩
    | accepted refusal rest =>
      obtain ⟨earlier, call, rfl, refused, passed⟩ := inductionHypothesis rest
      refine ⟨first :: earlier, call, rfl, refused, fun other member => ?_⟩
      rcases List.mem_cons.mp member with rfl | member
      · exact refusal
      · exact passed other member

/-- A call that was refused made the rendering fail. -/
theorem Account.failure_of_refused (account : Account engine calls failure) {call : Execution σ}
    (member : call ∈ calls) {e : Error} (refused : call.refusal? engine = some e) :
    failure = some e := by
  induction account with
  | nothing => cases member
  | refused refusal =>
    obtain rfl := List.mem_singleton.mp member
    exact refusal.symm.trans refused
  | accepted refusal rest inductionHypothesis =>
    rcases List.mem_cons.mp member with rfl | member
    · rw [refusal] at refused
      cases refused
    · exact inductionHypothesis member

end Execution

/-- Closing a scope does not change the depth. -/
theorem Context.depth_pop (context : Context) : context.pop.depth = context.depth := by
  obtain ⟨inner, outer, depth⟩ := context
  cases outer <;> rfl

namespace Rendering

variable {engine : Engine σ} {kept : Store σ → Prop}

/-- What a step leaves behind that ends in this way: the depth is the same, and the calls
that it adds to the record account for its end. They are executed no deeper than calls
may be, and with stores that are kept. -/
structure Trail (engine : Engine σ) (kept : Store σ → Prop) (failure : Option Error)
    (start last : Run (σ × List (Execution σ))) : Prop where
  depth : last.context.depth = start.context.depth
  store : kept last.forget.store
  record : ∃ calls, last.store.source.2 = start.store.source.2 ++ calls ∧
    Execution.Account engine calls failure ∧
    ∀ call ∈ calls, call.run.context.depth ≤ max start.context.depth deepestCall ∧
      kept call.run.store

/-- A step leaves a trail from all runs of a depth. -/
def Follows (engine : Engine σ) (kept : Store σ → Prop) (depth : Nat)
    (step : Rendering (σ × List (Execution σ)) α) : Prop :=
  ∀ run, run.context.depth = depth → kept run.forget.store →
    Trail engine kept (step.failure? run) run (step.after run)

/-- A step that executes no call and keeps the depth and the store leaves a trail. -/
theorem Trail.quiet {start last : Run (σ × List (Execution σ))}
    (depth : last.context.depth = start.context.depth) (store : last.store = start.store)
    (stored : kept start.forget.store) : Trail engine kept none start last where
  depth := depth
  store := by simpa only [Run.forget, store] using stored
  record := ⟨[], by rw [store, List.append_nil], .nothing, fun _ member => by cases member⟩

/-- The trails of two steps in turn. -/
theorem Trail.trans {failure : Option Error} {start middle last : Run (σ × List (Execution σ))}
    (first : Trail engine kept none start middle) (second : Trail engine kept failure middle last) :
    Trail engine kept failure start last := by
  obtain ⟨calls, recorded, account, bounded⟩ := first.record
  obtain ⟨more, recordedMore, accountMore, boundedMore⟩ := second.record
  refine ⟨second.depth.trans first.depth, second.store, calls ++ more, ?_,
    account.append accountMore, fun call member => ?_⟩
  · rw [recordedMore, recorded, List.append_assoc]
  · rcases List.mem_append.mp member with member | member
    · exact bounded call member
    · rw [← first.depth]
      exact boundedMore call member

theorem follows_bind {depth : Nat} {step : Rendering (σ × List (Execution σ)) α}
    {next : α → Rendering (σ × List (Execution σ)) β} (first : Follows engine kept depth step)
    (second : ∀ result, Follows engine kept depth (next result)) :
    Follows engine kept depth (step >>= next) := by
  intro run start stored
  have trail := first run start stored
  simp only [failure?, after, bind, EStateM.bind] at trail ⊢
  cases ended : step run with
  | ok result middle =>
    simp only [ended] at trail ⊢
    exact trail.trans (second result middle (trail.depth.trans start) trail.store)
  | error e middle => simpa only [ended] using trail

theorem follows_captured {depth : Nat} {body : Rendering (σ × List (Execution σ)) Unit}
    (follows : Follows engine kept depth body) : Follows engine kept depth (captured body) := by
  intro run start stored
  have trail := follows { run with out := "" } start stored
  simp only [failure?, after, captured] at trail ⊢
  cases ended : body { run with out := "" } with
  | ok result last =>
    simp only [ended] at trail ⊢
    exact ⟨trail.depth, trail.store, trail.record⟩
  | error e last =>
    simp only [ended] at trail ⊢
    exact ⟨trail.depth, trail.store, trail.record⟩

theorem follows_inScope {depth : Nat} {body : Rendering (σ × List (Execution σ)) α}
    (follows : Follows engine kept depth body) : Follows engine kept depth (inScope body) := by
  intro run start stored
  have trail := follows { run with context := run.context.push } start stored
  simp only [failure?, after, inScope] at trail ⊢
  cases ended : body { run with context := run.context.push } with
  | ok result last =>
    simp only [ended] at trail ⊢
    exact ⟨last.context.depth_pop.trans trail.depth, trail.store, trail.record⟩
  | error e last =>
    simp only [ended] at trail ⊢
    exact ⟨last.context.depth_pop.trans trail.depth, trail.store, trail.record⟩

/-- A step one call deeper. -/
theorem follows_inContext {depth : Nat} {context : Context}
    {body : Rendering (σ × List (Execution σ)) α} (shallow : depth < deepestCall)
    (deeper : context.depth = depth + 1) (follows : Follows engine kept (depth + 1) body) :
    Follows engine kept depth (inContext context body) := by
  intro run start stored
  have trail := follows { run with context := context } deeper stored
  have bound : max context.depth deepestCall ≤ max run.context.depth deepestCall := by omega
  obtain ⟨calls, recorded, account, bounded⟩ := trail.record
  have record (call : Execution σ) (member : call ∈ calls) :
      call.run.context.depth ≤ max run.context.depth deepestCall ∧ kept call.run.store :=
    ⟨(bounded call member).1.trans bound, (bounded call member).2⟩
  have stored := trail.store
  simp only [failure?, after, inContext] at recorded account stored ⊢
  cases ended : body { run with context := context } with
  | ok result last =>
    simp only [ended] at recorded account stored ⊢
    exact ⟨rfl, stored, calls, recorded, account, record⟩
  | error e last =>
    simp only [ended] at recorded account stored ⊢
    exact ⟨rfl, stored, calls, recorded, account, record⟩

theorem follows_compositional (depth : Nat) :
    Compositional fun _ (step : Rendering (σ × List (Execution σ)) _)
      (_ : Rendering (σ × List (Execution σ)) _) => Follows engine kept depth step where
  pure _ _ _ := .quiet rfl rfl
  bind := follows_bind
  write _ _ _ := .quiet rfl rfl
  setVariable _ _ _ _ := .quiet rfl rfl
  valueOf _ _ _ := .quiet rfl rfl
  test _ _ _ := .quiet rfl rfl
  captured := follows_captured
  inScope := follows_inScope

variable {request : Request} {run : Run (σ × List (Execution σ))}

/-- A call is refused with a record as without. -/
theorem refusal?_recording (request : Request) (run : Run (σ × List (Execution σ))) :
    request.refusal? engine.recording run = request.refusal? engine run.forget := by
  simp only [Request.refusal?, Engine.recording, Store.lookup_beside]
  rfl

/-- The trail of a call that is refused. -/
theorem Trail.refused {last : Run (σ × List (Execution σ))} {e : Error}
    (refusal : Execution.refusal? engine ⟨request, run.forget⟩ = some e)
    (stored : kept run.forget.store) (context : last.context = run.context)
    (later : kept last.forget.store)
    (record : last.store.source.2 = (run.noted request).store.source.2) :
    Trail engine kept (some e) run last where
  depth := by rw [context]
  store := later
  record := by
    refine ⟨[⟨request, run.forget⟩], record, .refused refusal, fun call member => ?_⟩
    obtain rfl := List.mem_singleton.mp member
    exact ⟨Nat.le_max_left _ _, stored⟩

/-- The trail of a call that is not refused goes on in its snippet. -/
theorem Trail.accepted {last : Run (σ × List (Execution σ))} {failure : Option Error}
    (refusal : Execution.refusal? engine ⟨request, run.forget⟩ = none)
    (stored : kept run.forget.store) (rest : Trail engine kept failure (run.noted request) last) :
    Trail engine kept failure run last := by
  obtain ⟨calls, recorded, account, bounded⟩ := rest.record
  refine ⟨rest.depth, rest.store, ⟨request, run.forget⟩ :: calls, ?_, .accepted refusal account,
    fun call member => ?_⟩
  · rw [recorded]
    exact List.append_assoc _ _ _
  · rcases List.mem_cons.mp member with rfl | member
    · exact ⟨Nat.le_max_left _ _, stored⟩
    · exact bounded call member

/-- A lookup does to the store what it does without a record, and does not change the
record. -/
theorem looked_up (engine : Engine σ) (run : Run (σ × List (Execution σ))) (name : String) :
    let last := { run with store := (run.store.lookup engine.recording.source name).2 }
    last.forget.store = (run.forget.store.lookup engine.source name).2 ∧
      last.store.source.2 = run.store.source.2 := by
  simp only [Engine.recording, Store.lookup_beside]
  exact ⟨rfl, rfl⟩

/-- Recorded calls leave trails, with the levels left that belong to the depth. -/
theorem follows_recordWithin
    (later : ∀ {store} name, kept store → kept (store.lookup engine.source name).2)
    {levels depth : Nat} (left : deepestCall - depth = levels) (request : Request) :
    Follows engine kept depth (request.recordWithin engine levels) := by
  induction levels generalizing depth request with
  | zero =>
    intro run start stored
    have refusal : Execution.refusal? engine ⟨request, run.forget⟩ = some .nestingTooDeep :=
      if_pos ((congrArg (deepestCall - ·) start).trans left)
    exact .refused refusal stored rfl stored rfl
  | succ levels inductionHypothesis =>
    intro run start stored
    have some_left : run.forget.context.levelsLeft ≠ 0 := by
      have depths : run.forget.context.depth = depth := start
      simp only [Context.levelsLeft, depths, left]
      exact Nat.succ_ne_zero levels
    have same : Execution.refusal? engine ⟨request, run.forget⟩ =
        request.refusal? engine run.forget := if_neg some_left
    have performed : request.recordWithin engine (levels + 1) run =
        request.perform engine.recording (Node.renderAll (Request.recordWithin engine levels))
          (run.noted request) := rfl
    obtain ⟨looked, unread⟩ :=
      looked_up engine (run.noted request) (request.snippetName run.context)
    cases refusal : request.refusal? engine run.forget with
    | some e =>
      have ended := Request.perform_of_refusal
        ((refusal?_recording request (run.noted request)).trans refusal)
        (Node.renderAll (Request.recordWithin engine levels))
      simp only [failure?, after, performed, ended]
      exact .refused (same.trans refusal) stored rfl (looked ▸ later _ stored) unread
    | none =>
      obtain ⟨template, renders⟩ := Request.perform_of_no_refusal
        ((refusal?_recording request (run.noted request)).trans refusal)
      have inside : Follows engine kept (depth + 1)
          (Node.renderAll (Request.recordWithin engine levels) template) :=
        (follows_compositional (depth + 1)).nodes_alone template fun nested _ =>
          inductionHypothesis (by omega) nested
      have each (bound : List (String × Value)) : Follows engine kept depth
          (inContext ⟨Dict.ofList bound, [], run.context.depth + 1⟩
            (Node.renderAll (Request.recordWithin engine levels) template)) :=
        follows_inContext (by omega) (congrArg Nat.succ start) inside
      have trail := (follows_compositional depth).forM_alone (request.bindings run.context)
        (fun bound _ => each bound)
        { run.noted request with store := ((run.noted request).store.lookup
            engine.recording.source (request.snippetName run.context)).2 }
        start (looked ▸ later _ stored)
      simp only [failure?, after, performed, renders]
      obtain ⟨calls, recorded, account, bounded⟩ := trail.record
      exact .accepted (same.trans refusal) stored
        ⟨trail.depth, trail.store, calls, recorded.trans (by rw [unread]), account, bounded⟩

end Rendering

open Rendering

namespace Template

/-- The calls that are executed when a template is rendered tell how the rendering ends. They
are executed no deeper than calls may be, and with stores that lookups make of the first
one. -/
theorem executions_account (engine : Engine σ) (kept : Store σ → Prop)
    (later : ∀ {store} name, kept store → kept (store.lookup engine.source name).2)
    (template : Template) (run : Run σ) (stored : kept run.store) :
    Execution.Account engine (template.executions engine run)
        ((template.render engine).failure? run) ∧
      ∀ call ∈ template.executions engine run,
        call.run.context.depth ≤ max run.context.depth deepestCall ∧ kept call.run.store := by
  have follows : Follows engine kept run.context.depth
      (Node.renderAll (Request.recordWithin engine run.context.levelsLeft) template) :=
    (follows_compositional run.context.depth).nodes_alone template fun request _ =>
      follows_recordWithin (fun name => later name) rfl request
  have trail : Trail engine kept ((template.record engine).failure? run.unrecorded) run.unrecorded
      ((template.record engine).after run.unrecorded) := follows run.unrecorded rfl stored
  obtain ⟨calls, recorded, account, bounded⟩ := trail.record
  have executed : template.executions engine run = calls := recorded
  have ended : (template.record engine).failure? run.unrecorded =
      (template.render engine).failure? run :=
    (template.erases_record engine).failure_eq run.unrecorded
  rw [executed, ← ended]
  exact ⟨account, bounded⟩

end Template

end Stencil
