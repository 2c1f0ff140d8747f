import Stencil.Proofs.Caching
import Stencil.Proofs.Recording

/-!
# Where the errors of a rendering come from

Nothing in a template can fail but its calls, whatever the variables are: an expression
that makes no sense is null, and a loop over no collection runs not once. So an error comes
from a call that was executed, and it is the one that this call was refused with, whatever
stands around the call.

If the source gives fixed answers, and all that is cached is such an answer, the errors can
be told from the store in which the rendering starts.
-/

namespace Stencil

variable {σ : Type}

/-- Where an error can come from: the limit of nesting, a name that is neither registered nor
cached, for which the source finds nothing or fails, or a content that the store serves and
that cannot be read. -/
inductive Origin (env : Environment σ) (source : Source σ) (answer : String → Answer) :
    Error → Prop where
  | limit : Origin env source answer .nestingTooDeep
  | unknown {name : String} (unregistered : Dict.get? name env.store.registered = none)
      (uncached : Dict.get? name env.store.cached = none) (unfound : answer name = .ok none) :
      Origin env source answer (.unknownSnippet name)
  | source {name : String} {e : Error}
      (unregistered : Dict.get? name env.store.registered = none)
      (uncached : Dict.get? name env.store.cached = none) (failed : answer name = .error e) :
      Origin env source answer e
  | malformed {name content : String} {mistake : SyntaxError}
      (served : (env.store.lookup source name).1 = .ok (some content))
      (unreadable : env.parse content = .error (.malformed mistake)) :
      Origin env source answer (.malformed mistake)

namespace Store

variable {source : Source σ} {answer : String → Answer} {before store : Store σ}

/-- What a store gives after some lookups, it gave before. -/
theorem Grown.lookup_eq (faithful : before.Faithful source answer)
    (grown : Grown source answer before store) (name : String) :
    (store.lookup source name).1 = (before.lookup source name).1 := by
  rw [grown.faithful.lookup_eq, faithful.lookup_eq, grown.registered]

/-- An answer without a content was not held by the store. -/
theorem Faithful.of_no_content (faithful : store.Faithful source answer) {name : String}
    {given : Answer} (looked : (store.lookup source name).1 = given)
    (noContent : ∀ content, given ≠ .ok (some content)) :
    Dict.get? name store.registered = none ∧ Dict.get? name store.cached = none ∧
      answer name = given := by
  rw [faithful.lookup_eq] at looked
  cases registered : Dict.get? name store.registered with
  | some content =>
    rw [registered] at looked
    exact absurd looked.symm (noContent content)
  | none =>
    rw [registered] at looked
    refine ⟨rfl, ?_, looked⟩
    by_contra held
    obtain ⟨content, cached⟩ := Option.ne_none_iff_exists'.mp held
    exact noContent content (looked.symm.trans (faithful.cached name content cached))

end Store

open Rendering

/-- The error that an executed call is refused with has an origin in the store in which the
rendering started. -/
theorem Origin.of_refusal {env : Environment σ} {source : Source σ} {answer : String → Answer}
    (faithful : env.store.Faithful source answer) {call : Execution σ} {e : Error}
    (grown : env.store.Grown source answer call.run.store)
    (refused : call.refusal? (env.engine source) = some e) : Origin env source answer e := by
  unfold Execution.refusal? at refused
  split at refused
  · cases refused
    exact .limit
  · have sameAnswer := Store.Grown.lookup_eq faithful grown
    rcases Request.of_refusal refused with failed | ⟨unfound, rfl⟩ |
      ⟨content, mistake, served, unreadable, rfl⟩
    · obtain ⟨unregistered, uncached, answered⟩ :=
        faithful.of_no_content ((sameAnswer _).symm.trans failed) (fun _ found => by cases found)
      exact .source unregistered uncached answered
    · obtain ⟨unregistered, uncached, answered⟩ :=
        faithful.of_no_content ((sameAnswer _).symm.trans unfound) (fun _ found => by cases found)
      exact .unknown unregistered uncached answered
    · have parsed : env.parse content = .error (.malformed mistake) := by
        have mistaken : Template.parse env.tags content.toList = .error mistake := unreadable
        rw [Environment.parse, mistaken]
        rfl
      exact .malformed ((sameAnswer _).symm.trans served) parsed

/-- Every error of a rendering comes from a call. If a template fails, in whatever context,
then the last call that was executed, and no call before it, was refused with the error that
comes up in the end. That error is the one of the limit, or says that there is no snippet of a
name that is neither registered nor cached nor found by the source, or is the error of the
source for such a name, or is the mistake in a content that the store serves, just as reading
that content gives it. So a template in which no call stands, at whatever place, never
fails: all that can be wrong then is that the assigns are no object, before anything is
rendered. Here the executed calls are those that are noted in a record, without which the
rendering is the same. -/
theorem failures_have_origins (env : Environment σ) (source : Source σ)
    {answer : String → Answer} (faithful : env.store.Faithful source answer)
    (template : Template) (context : Context) (out : String) :
    let engine := env.engine source
    let start : Run σ := ⟨context, out, env.store⟩
    let calls := template.executions engine start
    (∀ e, (template.render engine).failure? start = some e →
      Origin env source answer e ∧
        ∃ earlier call, calls = earlier ++ [call] ∧ call.refusal? engine = some e ∧
          ∀ passed ∈ earlier, passed.refusal? engine = none) ∧
    forgetting (template.record engine start.unrecorded) = template.render engine start ∧
    (template.requests = [] → (template.render engine).failure? start = none ∧
      ∀ assigns e, (env.render source template assigns).1 = .error e →
        Environment.scope assigns = .error e) := by
  intro engine start calls
  refine ⟨fun e failed => ?_, template.erases_record engine start.unrecorded, fun noCalls => ?_⟩
  · obtain ⟨account, bounded⟩ := template.executions_account engine
      (env.store.Grown source answer) (fun name grown => grown.lookup name) start (.refl faithful)
    rw [failed] at account
    obtain ⟨earlier, call, executed, refused, passed⟩ := account.of_failure
    have member : call ∈ calls := by
      rw [show calls = earlier ++ [call] from executed]
      exact List.mem_append_right earlier List.mem_cons_self
    exact ⟨.of_refusal faithful (bounded call member).2 refused, earlier, call, executed, refused,
      passed⟩
  · have succeeds (run : Run σ) : (template.render engine).failure? run = none :=
      (renderAll_harmless noCalls _ run).1
    refine ⟨succeeds start, fun assigns e failed => ?_⟩
    cases given : Environment.scope assigns with
    | error cause =>
      rw [Environment.render_of_no_scope given] at failed
      exact congrArg Except.error (Except.error.inj failed)
    | ok outermost =>
      rw [Environment.render_of_scope given] at failed
      simp only [engine, succeeds, reduceCtorEq] at failed

/-- The second element of a loop in a capture names a snippet from the source, which calls a
registered one that cannot be read. The mistake comes up in the end, through the snippet, the
loop and the capture. -/
theorem broken_mark_has_origin :
    let answer : String → Answer := fun name =>
      .ok (if name = "row" then some "\x7b% render 'mark' %\x7d" else none)
    let env : Environment (List String) :=
      ((Environment.new .default []).registerSnippet "dot" ".").registerSnippet "mark"
        "\x7b\x7b 1 + 2 \x7d\x7d"
    let template : Template := [.capture "x" [.loop ⟨"item", .var "names", false⟩
      [.call ⟨"item".toList, .nothing, none, []⟩] []]]
    let context : Context := .top [("names", .array [.string "dot", .string "row"])]
    let source := Source.recorded answer
    let mistake : SyntaxError := .afterExpression "+ 2" "1 + 2"
    env.store.Faithful source answer ∧
      (template.render (env.engine source)).failure? ⟨context, "", env.store⟩ =
        some (.malformed mistake) ∧
      Origin env source answer (.malformed mistake) ∧
      ∃ earlier call, template.executions (env.engine source) ⟨context, "", env.store⟩ =
          earlier ++ [call] ∧
        call.refusal? (env.engine source) = some (.malformed mistake) := by
  intro answer env template context source mistake
  have faithful : env.store.Faithful source answer :=
    Store.faithful_of_uncached (Source.recorded_steady answer []) rfl
  have failed : (template.render (env.engine source)).failure? ⟨context, "", env.store⟩ =
      some (.malformed mistake) := by decide +kernel
  obtain ⟨origin, -⟩ := failures_have_origins env source faithful template context ""
  obtain ⟨known, earlier, call, executed, refused, -⟩ := origin (.malformed mistake) failed
  exact ⟨faithful, failed, known, earlier, call, executed, refused⟩

end Stencil
