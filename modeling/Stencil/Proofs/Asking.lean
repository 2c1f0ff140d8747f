import Stencil.Proofs.Recording

/-!
# What a rendering asks the source for

The source behind a store is asked by calls alone: by each call that is executed with a level left
and whose snippet the store does not hold, for the name of that snippet. So the record of the
executed calls tells, in order, what the source was asked for, and with that the state in which it
is left, also if the rendering fails.
-/

namespace Stencil

variable {σ α : Type}

/-- The name for which an executed call asks the source, if it asks. -/
def Execution.asked? (execution : Execution σ) : Option String :=
  let name := execution.request.snippetName execution.run.context
  if execution.run.context.levelsLeft = 0 ∨ (execution.run.store.held name).isSome then none
  else some name

/-- A lookup asks the source for a name that the store does not hold, and for nothing else. -/
theorem Store.source_lookup (source : Source σ) (store : Store σ) (name : String) :
    (store.lookup source name).2.source =
      if (store.held name).isSome then store.source else (source.ask name store.source).2 := by
  cases holds : store.held name with
  | some content =>
    rw [lookup_held holds]
    rfl
  | none =>
    rw [lookup_missing holds]
    rfl

namespace Rendering

variable {engine : Engine σ} {source : Source σ} {first : σ} {depth : Nat}
  {start middle last : Run (σ × List (Execution σ))}

/-- The source is in the state to which asking it for the names of the recorded calls leads. -/
def Told (source : Source σ) (first : σ) (run : Run (σ × List (Execution σ))) : Prop :=
  run.store.source.1 = source.afterAsking (run.store.source.2.filterMap Execution.asked?) first

/-- What a step leaves behind: the depth is the same, the record is only extended, and it still
tells what the source was asked for. -/
structure Tells (source : Source σ) (first : σ) (start last : Run (σ × List (Execution σ))) :
    Prop where
  depth : last.context.depth = start.context.depth
  record : start.store.source.2 <+: last.store.source.2
  told : Told source first start → Told source first last

/-- The same, if the step starts at a certain depth. -/
def TellsAt (source : Source σ) (first : σ) (depth : Nat)
    (start last : Run (σ × List (Execution σ))) : Prop :=
  start.context.depth = depth → Tells source first start last

/-- A step that keeps the depth and the store tells as much as before. -/
theorem Tells.quiet (depth : last.context.depth = start.context.depth)
    (store : last.store = start.store) : Tells source first start last :=
  ⟨depth, by rw [store], by rw [Told, Told, store]; exact id⟩

theorem Tells.trans (left : Tells source first start middle)
    (right : Tells source first middle last) : Tells source first start last :=
  ⟨right.depth.trans left.depth, left.record.trans right.record, fun told =>
    right.told (left.told told)⟩

theorem TellsAt.trans (left : TellsAt source first depth start middle)
    (right : TellsAt source first depth middle last) : TellsAt source first depth start last :=
  fun level => (left level).trans (right ((left level).depth.trans level))

/-- Nothing besides calls touches the record or the source. -/
theorem tells_compositional (source : Source σ) (first : σ) (depth : Nat) :
    Compositional fun _ (step : Rendering (σ × List (Execution σ)) _)
      (_ : Rendering (σ × List (Execution σ)) _) => Keeps (TellsAt source first depth) step where
  pure _ _ _ := .quiet rfl rfl
  bind := keeps_bind .trans
  write _ _ _ := .quiet rfl rfl
  setVariable _ _ _ _ := .quiet rfl rfl
  valueOf _ _ _ := .quiet rfl rfl
  test _ _ _ := .quiet rfl rfl
  captured kept run level := by
    have inside := kept { run with out := "" } level
    rw [after_captured]
    exact ⟨inside.depth, inside.record, inside.told⟩
  inScope kept run level := by
    have inside := kept { run with context := run.context.push } level
    rw [after_inScope]
    exact ⟨(Context.depth_pop _).trans inside.depth, inside.record, inside.told⟩

/-- A step one call deeper. -/
theorem tells_inContext {context : Context} {body : Rendering (σ × List (Execution σ)) α}
    (deeper : context.depth = depth + 1)
    (kept : Keeps (TellsAt source first (depth + 1)) body) :
    Keeps (TellsAt source first depth) (inContext context body) := by
  intro run level
  have inside := kept { run with context := context } deeper
  rw [after_inContext]
  exact ⟨rfl, inside.record, inside.told⟩

/-- What a call leaves behind that was noted first. -/
structure TellsCall (source : Source σ) (first : σ) (request : Request)
    (start last : Run (σ × List (Execution σ))) : Prop extends Tells source first start last where
  noted : (start.noted request).store.source.2 <+: last.store.source.2

/-- A call at the limit asks for nothing. -/
theorem tells_limit (request : Request) {run : Run (σ × List (Execution σ))}
    (limit : run.context.levelsLeft = 0) :
    TellsCall source first request run (run.noted request) := by
  have asked : Execution.asked? ⟨request, run.forget⟩ = none := if_pos (.inl limit)
  have recorded : (run.noted request).store.source =
      (run.store.source.1, run.store.source.2 ++ [⟨request, run.forget⟩]) := rfl
  refine ⟨⟨rfl, List.prefix_append _ _, fun told => ?_⟩, List.prefix_rfl⟩
  rw [Told, recorded, List.filterMap_append, List.filterMap_cons, asked, List.filterMap_nil,
    List.append_nil]
  exact told

/-- Any other call asks for what its lookup asks for. -/
theorem tells_lookup (request : Request) {run : Run (σ × List (Execution σ))}
    (left : run.context.levelsLeft ≠ 0) :
    TellsCall engine.source first request run { run.noted request with
      store := ((run.noted request).store.lookup engine.recording.source
        (request.snippetName run.context)).2 } := by
  have asked : Execution.asked? ⟨request, run.forget⟩ =
      if (run.store.held (request.snippetName run.context)).isSome then none
      else some (request.snippetName run.context) := by
    have context : run.forget.context = run.context := rfl
    have held (name : String) : run.forget.store.held name = run.store.held name := rfl
    simp only [Execution.asked?, context, held, left, false_or]
  have looked : ((run.noted request).store.lookup engine.recording.source
      (request.snippetName run.context)).2.source =
        (if (run.store.held (request.snippetName run.context)).isSome then run.store.source.1
          else (engine.source.ask (request.snippetName run.context) run.store.source.1).2,
          run.store.source.2 ++ [⟨request, run.forget⟩]) := by
    simp only [Engine.recording, Store.lookup_beside]
    exact Prod.ext (Store.source_lookup engine.source _ _) rfl
  refine ⟨⟨rfl, by rw [looked]; exact List.prefix_append _ _, fun told => ?_⟩,
    by rw [looked]; exact List.prefix_rfl⟩
  rw [Told, looked, List.filterMap_append, List.filterMap_cons, asked]
  split
  · rw [List.filterMap_nil, List.append_nil]
    exact told
  · rw [List.filterMap_nil, Source.afterAsking, List.foldl_append]
    exact congrArg (fun state => (engine.source.ask _ state).2) told

/-- Recorded calls tell what they ask for, with the levels left that belong to the depth. -/
theorem recordWithin_tells {levels : Nat} (left : deepestCall - depth = levels) (request : Request)
    (run : Run (σ × List (Execution σ))) (level : run.context.depth = depth) :
    TellsCall engine.source first request run
      ((request.recordWithin engine levels).after run) := by
  induction levels generalizing depth request run with
  | zero => exact tells_limit request ((congrArg (deepestCall - ·) level).trans left)
  | succ levels inductionHypothesis =>
    have someLeft : run.context.levelsLeft ≠ 0 := by
      simp only [Context.levelsLeft, level, left]
      exact Nat.succ_ne_zero levels
    have looked : TellsCall engine.source first request run _ := tells_lookup request someLeft
    have performed : (request.recordWithin engine (levels + 1)).after run =
        (request.perform engine.recording
          (Node.renderAll (Request.recordWithin engine levels))).after (run.noted request) := rfl
    rw [performed]
    cases refusal : request.refusal? engine.recording (run.noted request) with
    | some e =>
      have ended := Request.perform_of_refusal refusal
        (Node.renderAll (Request.recordWithin engine levels))
      rw [(ended_of_error ended).2]
      exact looked
    | none =>
      obtain ⟨template, renders⟩ := Request.perform_of_no_refusal refusal
      have inside : Keeps (TellsAt engine.source first (depth + 1))
          (Node.renderAll (Request.recordWithin engine levels) template) :=
        (tells_compositional engine.source first (depth + 1)).nodes_alone template
          fun nested _ later deeper => (inductionHypothesis (by omega) nested later deeper).toTells
      have each : Keeps (TellsAt engine.source first depth)
          ((request.bindings run.context).forM fun bound =>
            inContext ⟨Dict.ofList bound, [], run.context.depth + 1⟩
              (Node.renderAll (Request.recordWithin engine levels) template)) :=
        (tells_compositional engine.source first depth).forM_alone _ fun bound _ =>
          tells_inContext (congrArg Nat.succ level) inside
      have rest := each _ (looked.depth.trans level)
      simp only [after, renders] at rest ⊢
      exact ⟨looked.toTells.trans rest, looked.noted.trans rest.record⟩

/-- A step with a record ends where the step without it ends, but for the record. -/
theorem Erases.after_eq {τ : Type} {step : Rendering (σ × τ) α} {other : Rendering σ α}
    (erases : Erases step other) (run : Run (σ × τ)) :
    (step.after run).forget = other.after run.forget := by
  simp only [after, ← erases run]
  cases step run <;> rfl

end Rendering

open Rendering

namespace Template

/-- What the record tells of a rendering as a whole. -/
theorem record_tells (engine : Engine σ) (template : Template) (run : Run σ) :
    Tells engine.source run.store.source run.unrecorded
      ((template.record engine).after run.unrecorded) := by
  have tells : Keeps (TellsAt engine.source run.store.source run.context.depth)
      (Node.renderAll (Request.recordWithin engine run.context.levelsLeft) template) :=
    (tells_compositional engine.source run.store.source run.context.depth).nodes_alone template
      fun request _ later level => (recordWithin_tells rfl request later level).toTells
  exact tells run.unrecorded rfl

/-- A rendering asks the source for the names for which its calls ask, in their order, and for
nothing else, also if it fails. -/
theorem source_after (engine : Engine σ) (template : Template) (run : Run σ) :
    ((template.render engine).after run).store.source =
      engine.source.afterAsking ((template.executions engine run).filterMap Execution.asked?)
        run.store.source := by
  have ended := (template.erases_record engine).after_eq run.unrecorded
  have start : run.unrecorded.forget = run := rfl
  rw [start] at ended
  rw [← ended]
  exact (record_tells engine template run).told rfl

/-- A call that stands alone is the first one that is executed. -/
theorem executions_call (engine : Engine σ) (request : Request) (run : Run σ) :
    ∃ later, Template.executions engine [.call request] run = ⟨request, run⟩ :: later := by
  have single : Template.record engine [.call request] run.unrecorded =
      request.recordWithin engine run.context.levelsLeft run.unrecorded :=
    congrFun (renderAll_call (Request.recordWithin engine run.context.levelsLeft) request) _
  have tells : TellsCall engine.source run.store.source request run.unrecorded
      ((request.recordWithin engine run.context.levelsLeft).after run.unrecorded) :=
    recordWithin_tells rfl request run.unrecorded rfl
  obtain ⟨later, whole⟩ := tells.noted
  refine ⟨later, ?_⟩
  rw [executions, after, single]
  exact whole.symm

end Template

end Stencil
