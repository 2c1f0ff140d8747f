import Mathlib
import Stencil.Proofs.Serving

/-!
# What a store has cached

What a store has cached cannot be observed by rendering, as long as the source gives
fixed answers and all that is cached is such an answer. Every lookup keeps it so and
loses nothing that was cached before, also in a rendering that fails later.

So the outcome of a rendering does not depend on what was done with an environment
before, but for the snippets that were registered.
-/

namespace Stencil

variable {σ : Type}

namespace Store

/-- The source behind a store gives fixed answers, and everything cached is one of
them. -/
structure Faithful (store : Store σ) (source : Source σ) (answer : String → Answer) : Prop where
  steady : source.Steady answer store.source
  cached : ∀ name content, Dict.get? name store.cached = some content →
    answer name = .ok (some content)

/-- What a store can become by lookups: the registered snippets are the same, nothing
that was cached is lost, and it is faithful. -/
structure Grown (source : Source σ) (answer : String → Answer) (before after : Store σ) :
    Prop where
  registered : after.registered = before.registered
  cached : ∀ name content, Dict.get? name before.cached = some content →
    Dict.get? name after.cached = some content
  faithful : after.Faithful source answer

variable {source : Source σ} {answer : String → Answer} {store before : Store σ}

/-- A store holds nothing when it is new. -/
theorem faithful_of_uncached (steady : source.Steady answer store.source)
    (uncached : store.cached = []) : store.Faithful source answer := by
  refine ⟨steady, fun name content found => ?_⟩
  rw [uncached] at found
  cases found

theorem Grown.refl (faithful : store.Faithful source answer) : Grown source answer store store :=
  ⟨rfl, fun _ _ found => found, faithful⟩

/-- Keeping an answer of the source keeps a store faithful. -/
theorem Faithful.keep (faithful : store.Faithful source answer) (name : String) :
    ∀ asked content, Dict.get? asked (store.keep name (answer name)).cached = some content →
      answer asked = .ok (some content) := by
  intro asked content found
  rcases given : answer name with e | _ | kept
  · rw [given] at found
    exact faithful.cached asked content found
  · rw [given] at found
    exact faithful.cached asked content found
  · simp only [given, Store.keep, Dict.get?_insert] at found
    by_cases same : name = asked
    · subst same
      simp only [if_true, Option.some.injEq] at found
      rw [given, found]
    · simp only [same, if_false] at found
      exact faithful.cached asked content found

/-- Keeping an answer for a name for which nothing is cached loses nothing. -/
theorem cached_keep {name : String} (uncached : Dict.get? name store.cached = none)
    (given : Answer) (asked content : String)
    (found : Dict.get? asked store.cached = some content) :
    Dict.get? asked (store.keep name given).cached = some content := by
  rcases given with e | _ | kept
  · exact found
  · exact found
  · have different : name ≠ asked := by
      rintro rfl
      rw [uncached] at found
      cases found
    simpa only [Store.keep, Dict.get?_insert_of_ne name asked kept _ different] using found

theorem registered_keep (name : String) (given : Answer) :
    (store.keep name given).registered = store.registered := by
  rcases given with e | _ | kept <;> rfl

/-- A lookup keeps a store faithful and loses nothing. -/
theorem Grown.lookup (grown : Grown source answer before store) (name : String) :
    Grown source answer before (store.lookup source name).2 := by
  cases found : store.held name with
  | some content =>
    rw [lookup_held found]
    exact grown
  | none =>
    obtain ⟨-, uncached⟩ := Option.or_eq_none_iff.mp found
    have faithful := grown.faithful
    rw [lookup_missing found, faithful.steady.ask_eq]
    exact {
      registered := (registered_keep name _).trans grown.registered
      cached := fun asked content held =>
        cached_keep uncached _ asked content (grown.cached asked content held)
      faithful := ⟨faithful.steady.ask name, faithful.keep name⟩ }

/-- What a faithful store serves: the registered snippets and else the answers of the
source, whatever is cached. -/
theorem Faithful.lookup_eq (faithful : store.Faithful source answer) (name : String) :
    (store.lookup source name).1 =
      match Dict.get? name store.registered with
      | some content => .ok (some content)
      | none => answer name := by
  rw [Serves.lookup_eq ⟨answer, faithful.steady, rfl⟩, overlay, held]
  cases Dict.get? name store.registered with
  | some content => rfl
  | none =>
    cases found : Dict.get? name store.cached with
    | some content => exact (faithful.cached name content found).symm
    | none => rfl

end Store

/-- Two stores with the same registered snippets, and what lookups make of them. -/
def Pairing.grown (engine : Engine σ) (answer : String → Answer) {left right : Store σ}
    (registered : ∀ name, Dict.get? name left.registered = Dict.get? name right.registered) :
    Pairing engine where
  stores leftLater rightLater :=
    left.Grown engine.source answer leftLater ∧ right.Grown engine.source answer rightLater
  answer name both := by
    rw [both.1.faithful.lookup_eq, both.2.faithful.lookup_eq, both.1.registered,
      both.2.registered, registered]
  later name both := ⟨both.1.lookup name, both.2.lookup name⟩

open Rendering

/-- From two faithful stores with the same registered snippets a template is rendered
with the same outcome, and lookups are all that happens to the stores. -/
theorem render_grown (engine : Engine σ) {answer : String → Answer} {left right : Store σ}
    (leftFaithful : left.Faithful engine.source answer)
    (rightFaithful : right.Faithful engine.source answer)
    (registered : ∀ name, Dict.get? name left.registered = Dict.get? name right.registered)
    (template : Template) (context : Context) (out : String) :
    let leftEnd := (template.render engine).after ⟨context, out, left⟩
    let rightEnd := (template.render engine).after ⟨context, out, right⟩
    (template.render engine).failure? ⟨context, out, left⟩ =
        (template.render engine).failure? ⟨context, out, right⟩ ∧
      leftEnd.out = rightEnd.out ∧ leftEnd.context = rightEnd.context ∧
      left.Grown engine.source answer leftEnd.store ∧
      right.Grown engine.source answer rightEnd.store := by
  have matched : Matched (fun _ => False)
      (Alongside (Pairing.grown engine answer registered).stores View.same ⟨context, out, left⟩
        ⟨context, out, right⟩)
      (template.render engine ⟨context, out, left⟩)
      (template.render engine ⟨context, out, right⟩) :=
    (Pairing.grown engine answer registered).render_matched template (View.same_sees _) rfl
      ⟨.refl leftFaithful, .refl rightFaithful⟩ (.inl rfl)
  obtain ⟨failure, ended⟩ := matched.ended fun _ _ => not_false
  obtain ⟨text, leftOut, rightOut⟩ := ended.out
  exact ⟨failure, leftOut.trans rightOut.symm, ended.context, ended.store⟩

/-- Something that is done with an environment. -/
inductive Action where
  | register (name content : String)
  | lookup (name : String)
  | render (template : Template) (assigns : Value)

/-- The registered snippets after an action. -/
def Action.registered (held : Dict String) : Action → Dict String
  | .register name content => Dict.insert name content held
  | .lookup _ => held
  | .render _ _ => held

namespace Environment

/-- The environment after an action, whether that failed or not. -/
def perform (source : Source σ) (env : Environment σ) : Action → Environment σ
  | .register name content => env.registerSnippet name content
  | .lookup name => (env.lookup source name).2
  | .render template assigns => (env.render source template assigns).2

/-- The environment after some actions in turn. -/
def performAll (source : Source σ) (env : Environment σ) (history : List Action) : Environment σ :=
  history.foldl (perform source) env

/-- What is known of an environment whatever was done with it: its tags, its registered
snippets, and that its store is faithful. -/
structure Known (source : Source σ) (answer : String → Answer) (tags : Registry)
    (registered : Dict String) (env : Environment σ) : Prop where
  tags : env.tags = tags
  registered : env.store.registered = registered
  faithful : env.store.Faithful source answer

variable {source : Source σ} {answer : String → Answer} {tags : Registry}
  {registered : Dict String} {env other : Environment σ}

/-- A rendering does lookups, also if it fails. -/
theorem render_known (known : env.Known source answer tags registered) (template : Template)
    (assigns : Value) :
    (env.render source template assigns).2.Known source answer tags registered := by
  cases given : scope assigns with
  | error e => rwa [render_of_no_scope given]
  | ok outermost =>
    obtain ⟨-, -, -, grown, -⟩ := render_grown (env.engine source) known.faithful known.faithful
      (fun _ => rfl) template (.top outermost) ""
    rw [render_of_scope given]
    exact ⟨known.tags, grown.registered.trans known.registered, grown.faithful⟩

/-- An action can register a snippet, and changes nothing else that is known. -/
theorem perform_known (known : env.Known source answer tags registered) (action : Action) :
    (env.perform source action).Known source answer tags (action.registered registered) := by
  cases action with
  | register name content =>
    exact ⟨known.tags, congrArg (Dict.insert name content) known.registered,
      known.faithful.steady, known.faithful.cached⟩
  | lookup name =>
    have grown := (Store.Grown.refl known.faithful).lookup name
    exact ⟨known.tags, grown.registered.trans known.registered, grown.faithful⟩
  | render template assigns => exact render_known known template assigns

/-- After a history exactly its registrations are known in addition. -/
theorem performAll_known (known : env.Known source answer tags registered)
    (history : List Action) :
    (env.performAll source history).Known source answer tags
      (history.foldl Action.registered registered) := by
  induction history generalizing env registered with
  | nil => exact known
  | cons action history inductionHypothesis =>
    exact inductionHypothesis (perform_known known action)

/-- The outcome of a rendering depends on nothing but the tags and what is registered. -/
theorem render_outcome_eq {otherRegistered : Dict String}
    (known : env.Known source answer tags registered)
    (otherKnown : other.Known source answer tags otherRegistered)
    (same : ∀ name, Dict.get? name registered = Dict.get? name otherRegistered)
    (template : Template) (assigns : Value) :
    (env.render source template assigns).1 = (other.render source template assigns).1 := by
  cases given : scope assigns with
  | error e => rw [render_of_no_scope given, render_of_no_scope given]
  | ok outermost =>
    have engines : other.engine source = env.engine source := by
      simp only [engine, known.tags, otherKnown.tags]
    have sameStored (name : String) : Dict.get? name env.store.registered =
        Dict.get? name other.store.registered := by
      rw [known.registered, otherKnown.registered, same]
    obtain ⟨failure, out, -⟩ := render_grown (env.engine source) known.faithful
      otherKnown.faithful sameStored template (.top outermost) ""
    rw [render_of_scope given, render_of_scope given, engines]
    simp only [failure, out]

end Environment

/-- What a store has cached cannot be observed. If the source gives fixed answers and all
that is cached is such an answer, then from two stores with the same registered snippets a
template is rendered with the same error if any, the same output and the same bindings in
the end; each store then still caches answers of the source only, has lost none of them,
and has the same registered snippets as before. So after any renderings, lookups and
registrations the outcome of a rendering depends on the registered snippets alone, and
it is the same again right afterwards. -/
theorem cache_unobservable (source : Source σ) (answer : String → Answer)
    (env other : Environment σ) (tags : env.tags = other.tags)
    (faithful : env.store.Faithful source answer)
    (otherFaithful : other.store.Faithful source answer) :
    (∀ (template : Template) (context : Context) (out : String),
      (∀ name, Dict.get? name env.store.registered = Dict.get? name other.store.registered) →
      let rendering := template.render (env.engine source)
      let start : Run σ := ⟨context, out, env.store⟩
      let otherStart : Run σ := ⟨context, out, other.store⟩
      rendering.failure? start = rendering.failure? otherStart ∧
        (rendering.after start).out = (rendering.after otherStart).out ∧
        (rendering.after start).context = (rendering.after otherStart).context ∧
        env.store.Grown source answer (rendering.after start).store ∧
        other.store.Grown source answer (rendering.after otherStart).store) ∧
      (∀ (history otherHistory : List Action) (template : Template) (assigns : Value),
        (∀ name, Dict.get? name (history.foldl Action.registered env.store.registered) =
          Dict.get? name (otherHistory.foldl Action.registered other.store.registered)) →
        ((env.performAll source history).render source template assigns).1 =
          ((other.performAll source otherHistory).render source template assigns).1) ∧
      (∀ (history : List Action) (template : Template) (assigns : Value),
        let first := (env.performAll source history).render source template assigns
        (first.2.render source template assigns).1 = first.1) := by
  have known : env.Known source answer env.tags env.store.registered := ⟨rfl, rfl, faithful⟩
  have otherKnown : other.Known source answer env.tags other.store.registered :=
    ⟨tags.symm, rfl, otherFaithful⟩
  refine ⟨fun template context out registered => ?_,
    fun history otherHistory template assigns registered => ?_,
    fun history template assigns => ?_⟩
  · exact render_grown (env.engine source) faithful otherFaithful registered template context out
  · exact Environment.render_outcome_eq (Environment.performAll_known known history)
      (Environment.performAll_known otherKnown otherHistory) registered template assigns
  · have before := Environment.performAll_known known history
    exact Environment.render_outcome_eq (Environment.render_known before template assigns) before
      (fun _ => rfl) template assigns

/-- A rendering that fails inside of a snippet from the source has cached that snippet. The
next one succeeds, as it does with the snippet cached from the start. -/
theorem row_cache_unobservable :
    let row := "row\x7b% render 'mark' %\x7d"
    let answer : String → Answer := fun name => .ok (if name = "row" then some row else none)
    let source := Source.recorded answer
    let template : Template := [.call ⟨"'row'".toList, .nothing, none, []⟩]
    let env : Environment (List String) := .new .default []
    let other : Environment (List String) := { env with store := ⟨[], [("row", row)], ["row"]⟩ }
    let history : List Action := [.render template .null, .lookup "lost", .register "mark" "!"]
    let otherHistory : List Action := [.register "mark" "!"]
    env.store.Faithful source answer ∧ other.store.Faithful source answer ∧
      (env.render source template .null).1 = .error (.unknownSnippet "mark") ∧
      ((env.performAll source history).render source template .null).1 =
        ((other.performAll source otherHistory).render source template .null).1 ∧
      ((env.performAll source history).render source template .null).1 = .ok "row!" := by
  intro row answer source template env other history otherHistory
  have faithful : env.store.Faithful source answer :=
    Store.faithful_of_uncached (Source.recorded_steady answer []) rfl
  have otherFaithful : other.store.Faithful source answer := by
    refine ⟨Source.recorded_steady answer ["row"], fun name content found => ?_⟩
    have asked : name = "row" ∧ content = row := by
      simpa [other, Dict.get?, eq_comm] using found
    obtain ⟨rfl, rfl⟩ := asked
    rfl
  obtain ⟨-, outcomes, -⟩ := cache_unobservable source answer env other rfl faithful otherFaithful
  refine ⟨faithful, otherFaithful, ?_, outcomes history otherHistory template .null fun _ => rfl,
    ?_⟩
  · cbv
  · cbv

end Stencil
