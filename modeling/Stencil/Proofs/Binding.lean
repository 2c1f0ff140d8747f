import Mathlib.Data.List.Forall2
import Stencil.Proofs.Reading
import Stencil.Render

/-!
# What a called snippet is given

Each rendering of a snippet starts from a list of bindings, of which a later one
overrides an earlier one of the same name: the value or the element, in an iteration
then the position, and then the parameters. These bindings are all that its context
holds, so the renderings of one call differ in their bindings alone.

What the fragments of a call denote is said by relations between the caller's context, a
fragment and a value. The first of the main statements is that these are the values that
a call finds.
-/

namespace Stencil

/-- What is told about a place in a collection of so many elements. -/
def Position.told (index count : Nat) : Value :=
  .object [
    ("first", .bool (index = 0)),
    ("index", .ofNat (index + 1)),
    ("index0", .ofNat index),
    ("last", .bool (index + 1 = count)),
    ("length", .ofNat count),
    ("rindex", .ofNat (count - index)),
    ("rindex0", .ofNat (count - index - 1))]

/-- The position that an element is located at tells the place of the element. -/
theorem Position.toValue_eq_told {index count : Nat} (inside : index < count) :
    (⟨index, count - 1 - index⟩ : Position).toValue = Position.told index count := by
  have last : count - 1 - index = 0 ↔ index + 1 = count := by omega
  have length : index + (count - 1 - index) + 1 = count := by omega
  have rest : count - 1 - index + 1 = count - index := by omega
  have final : count - 1 - index = count - index - 1 := by omega
  simp only [toValue, told, Position.length, last, length, rest]
  rw [final]

/-! ### What fragments denote -/

/-- The value of a fragment is that of the expression that it spells, and null if it spells
none. -/
inductive Context.Evaluates (context : Context) (fragment : List Char) : Value → Prop where
  | spelled {e : Expr} (parsed : Expr.parse fragment = .ok e) :
      Evaluates context fragment (e.eval context.get?)
  | unspelled {cause : SyntaxError} (parsed : Expr.parse fragment = .error cause) :
      Evaluates context fragment .null

/-- A fragment is no variable of the caller, or one that is null. -/
def Context.Lacks (caller : Context) (fragment : List Char) : Prop :=
  ∀ v, caller.get? (String.ofList fragment) = some v → v = .null

/-- A parameter is resolved to the variable of its name, to the value of its expression if
there is no such variable or it is null, or to its own text if that value is null too. -/
inductive Request.Resolves (caller : Context) (fragment : List Char) : Value → Prop where
  | ofVariable {v : Value} (bound : caller.get? (String.ofList fragment) = some v)
      (present : v ≠ .null) : Resolves caller fragment v
  | ofExpression {v : Value} (lacks : caller.Lacks fragment) (value : caller.Evaluates fragment v)
      (present : v ≠ .null) : Resolves caller fragment v
  | ofText (lacks : caller.Lacks fragment) (value : caller.Evaluates fragment .null) :
      Resolves caller fragment (.string (String.ofList fragment))

/-- Parameters have the values that they are resolved to, in the order of the request. -/
def Request.Gives (request : Request) (caller : Context) (given : List (String × Value)) : Prop :=
  List.Forall₂ (fun parameter entry => entry.1 = parameter.1 ∧ Resolves caller parameter.2 entry.2)
    request.parameters given

theorem Value.not_isNull_iff {v : Value} : (!v.isNull) = true ↔ v ≠ .null := by
  cases v <;> simp only [isNull, Bool.not_true, Bool.not_false, reduceCtorEq, ne_eq,
    not_true_eq_false, not_false_eq_true]

/-- An expression that is handed over has its value, also if that is null. -/
theorem Request.targetValue_of_parse {fragment : List Char} {e : Expr}
    (parsed : Expr.parse fragment = .ok e) (caller : Context) :
    Request.targetValue caller fragment = e.eval caller.get? := by
  simp only [Request.targetValue, Context.evaluate?, parsed, Option.filter_some]
  cases e.eval caller.get? <;> rfl

/-- The value of a fragment is the one that a call hands over. -/
theorem Context.evaluates_iff {caller : Context} {fragment : List Char} {v : Value} :
    caller.Evaluates fragment v ↔ v = Request.targetValue caller fragment := by
  constructor
  · rintro (parsed | parsed)
    · exact (Request.targetValue_of_parse parsed caller).symm
    · simp only [Request.targetValue, evaluate?, parsed, Option.getD_none]
  · rintro rfl
    cases parsed : Expr.parse fragment with
    | ok e =>
      rw [Request.targetValue_of_parse parsed]
      exact .spelled parsed
    | error cause =>
      simp only [Request.targetValue, evaluate?, parsed, Option.getD_none]
      exact .unspelled parsed

/-- A fragment has one value only. -/
theorem Context.Evaluates.unique {caller : Context} {fragment : List Char} {v w : Value}
    (value : caller.Evaluates fragment v) (other : caller.Evaluates fragment w) : v = w :=
  (evaluates_iff.mp value).trans (evaluates_iff.mp other).symm

/-- A value that is found for a fragment is not null. -/
theorem Context.ne_null_of_evaluate? {caller : Context} {fragment : List Char} {v : Value}
    (found : caller.evaluate? fragment = some v) : v ≠ .null := by
  unfold evaluate? at found
  split at found
  · cases found
  · exact Value.not_isNull_iff.mp (Option.filter_eq_some_iff.mp found).2

namespace Request

/-- A parameter is resolved to the value that a call finds for it. -/
theorem resolves_parameterValue (caller : Context) (fragment : List Char) :
    Resolves caller fragment (parameterValue caller fragment) := by
  unfold parameterValue
  dsimp only
  cases found : (caller.get? (String.ofList fragment)).filter fun v => !v.isNull with
  | some v =>
    obtain ⟨bound, present⟩ := Option.filter_eq_some_iff.mp found
    exact .ofVariable bound (Value.not_isNull_iff.mp present)
  | none =>
    have lacks : caller.Lacks fragment := by
      intro v bound
      by_contra present
      exact Option.filter_eq_none_iff.mp found v bound (Value.not_isNull_iff.mpr present)
    have value : caller.Evaluates fragment ((caller.evaluate? fragment).getD .null) :=
      Context.evaluates_iff.mpr rfl
    cases evaluated : caller.evaluate? fragment with
    | some v =>
      rw [evaluated] at value
      exact .ofExpression lacks value (Context.ne_null_of_evaluate? evaluated)
    | none =>
      rw [evaluated] at value
      exact .ofText lacks value

/-- A parameter is resolved to one value only. -/
theorem Resolves.unique {caller : Context} {fragment : List Char} {v w : Value}
    (resolved : Resolves caller fragment v) (other : Resolves caller fragment w) : v = w := by
  cases resolved with
  | ofVariable bound present =>
    cases other with
    | ofVariable boundToo _ => exact Option.some.inj (bound.symm.trans boundToo)
    | ofExpression lacks => exact absurd (lacks v bound) present
    | ofText lacks => exact absurd (lacks v bound) present
  | ofExpression lacks value present =>
    cases other with
    | ofVariable bound present => exact absurd (lacks w bound) present
    | ofExpression _ valueToo => exact value.unique valueToo
    | ofText _ null => exact absurd (value.unique null) present
  | ofText lacks null =>
    cases other with
    | ofVariable bound present => exact absurd (lacks w bound) present
    | ofExpression _ value present => exact absurd (value.unique null) present
    | ofText => rfl

/-- The parameters with their values, which are resolved in the caller's context. -/
def arguments (request : Request) (caller : Context) : List (String × Value) :=
  request.parameters.map fun (key, fragment) => (key, parameterValue caller fragment)

/-- The values that a call finds for its parameters are those that they are resolved to. -/
theorem gives_iff {request : Request} {caller : Context} {given : List (String × Value)} :
    request.Gives caller given ↔ given = request.arguments caller := by
  constructor
  · intro gives
    have found : List.Forall₂
        (fun parameter entry => (parameter.1, parameterValue caller parameter.2) = entry)
        request.parameters given := by
      refine gives.imp fun parameter entry matched => ?_
      obtain ⟨key, resolved⟩ := matched
      exact Prod.ext key.symm ((resolves_parameterValue caller parameter.2).unique resolved)
    rw [← List.forall₂_map_left_iff, List.forall₂_eq_eq_eq] at found
    exact found.symm
  · rintro rfl
    refine List.forall₂_map_right_iff.mpr (List.forall₂_same.mpr fun parameter _ => ?_)
    exact ⟨rfl, resolves_parameterValue caller parameter.2⟩

/-- The bindings of each rendering that a call asks for, in order. -/
def bindings (request : Request) (caller : Context) : List (List (String × Value)) :=
  match request.target with
  | .nothing => [request.arguments caller]
  | .single fragment =>
    [(request.name.getD "object", targetValue caller fragment) :: request.arguments caller]
  | .each fragment =>
    let items := (targetValue caller fragment).elements?.getD []
    items.zipIdx.map fun (item, index) =>
      (request.name.getD "item", item) :: ("forloop", Position.told index items.length) ::
        request.arguments caller

/-- Binding in turn touches the innermost scope only, where the last binding of a name
wins. -/
theorem foldl_set (bound : List (String × Value)) (context : Context) :
    bound.foldl (fun context entry => context.set entry.1 entry.2) context =
      { context with
        inner :=
          bound.foldl (fun held entry => Dict.insert entry.1 entry.2 held) context.inner } := by
  induction bound generalizing context with
  | nil => rfl
  | cons entry bound inductionHypothesis =>
    simp only [List.foldl_cons, inductionHypothesis]
    rfl

/-- The parameters are bound after whatever a snippet's context holds already. -/
theorem bindParameters_child (request : Request) (caller : Context)
    (given : List (String × Value)) :
    request.bindParameters caller
        (given.foldl (fun context entry => context.set entry.1 entry.2) caller.child) =
      ⟨Dict.ofList (given ++ request.arguments caller), [], caller.depth + 1⟩ := by
  have folded : request.bindParameters caller
        (given.foldl (fun context entry => context.set entry.1 entry.2) caller.child) =
      (given ++ request.arguments caller).foldl
        (fun context entry => context.set entry.1 entry.2) caller.child := by
    simp only [bindParameters, arguments, List.foldl_append, List.foldl_map]
  rw [folded, foldl_set]
  rfl

/-- The contexts of the renderings hold the bindings of each, one call deeper than the
caller, and nothing else. -/
theorem contexts_eq (request : Request) (caller : Context) :
    request.contexts caller =
      (request.bindings caller).map fun bound => ⟨Dict.ofList bound, [], caller.depth + 1⟩ := by
  cases target : request.target with
  | nothing =>
    simp only [contexts, bindings, target, List.map_cons, List.map_nil]
    exact congrArg (fun context => [context]) (bindParameters_child request caller [])
  | single fragment =>
    have name : request.boundName = request.name.getD "object" := by
      simp only [boundName, target]
      cases request.name <;> rfl
    simp only [contexts, bindings, target, List.map_cons, List.map_nil, ← name]
    exact congrArg (fun context => [context])
      (bindParameters_child request caller [(request.boundName, targetValue caller fragment)])
  | each fragment =>
    have name : request.boundName = request.name.getD "item" := by
      simp only [boundName, target]
      cases request.name <;> rfl
    simp only [contexts, bindings, target, ← name]
    cases (targetValue caller fragment).elements? with
    | none => rfl
    | some items =>
      simp only [Position.locate, Option.getD_some, List.map_map]
      apply List.map_congr_left
      rintro ⟨item, index⟩ member
      have inside : index < items.length := List.snd_lt_of_mem_zipIdx member
      simp only [Function.comp_apply, ← Position.toValue_eq_told inside]
      exact bindParameters_child request caller
        [(request.boundName, item), (Position.boundName, Position.toValue _)]

/-- What a snippet is given is the same in all contexts that agree on what the call
reads. -/
theorem bindings_congr {left right : Context} (request : Request)
    (agree : Bindings.AgreeOn request.reads left.get? right.get?) :
    request.bindings left = request.bindings right := by
  have arguments : request.arguments left = request.arguments right := by
    apply List.map_congr_left
    intro parameter member
    have read : Bindings.AgreeOn (wordReads parameter.2) left.get? right.get? := fun name reads =>
      agree.right.right name (List.mem_flatMap.mpr ⟨parameter, member, reads⟩)
    exact congrArg (Prod.mk parameter.1) (parameterValue_congr parameter.2 read)
  have handed : Bindings.AgreeOn request.target.reads left.get? right.get? := agree.right.left
  unfold bindings
  cases target : request.target with
  | nothing => simp only [arguments]
  | single fragment =>
    rw [target] at handed
    simp only [arguments, targetValue_congr fragment handed]
  | each fragment =>
    rw [target] at handed
    simp only [arguments, targetValue_congr fragment handed]

end Request

open Rendering

variable {σ : Type}

/-- Renders the content of a snippet, or reports the mistake in it, in a context with the
given bindings and depth. -/
def Engine.renderContent (engine : Engine σ) (render : Template → Rendering σ Unit)
    (content : String) (depth : Nat) (bound : List (String × Value)) : Rendering σ Unit := do
  let nodes ← readable (Template.parse engine.registry content.toList)
  inContext ⟨Dict.ofList bound, [], depth⟩ (render nodes)

/-- A call finds its snippet and renders it once for each of its bindings. -/
theorem Request.perform_eq (engine : Engine σ) (render : Template → Rendering σ Unit)
    (request : Request) (run : Run σ) :
    request.perform engine render run =
      (do
        let content ← requireSnippet engine.source (request.snippetName run.context)
        (request.bindings run.context).forM
          (engine.renderContent render content (run.context.depth + 1)) :
        Rendering σ Unit) run := by
  have each (content : String) (bindings : List (List (String × Value))) :
      ((bindings.map fun bound =>
        (⟨Dict.ofList bound, [], run.context.depth + 1⟩ : Context)).forM fun context => do
          let nodes ← readable (Template.parse engine.registry content.toList)
          inContext context (render nodes)) =
        bindings.forM (engine.renderContent render content (run.context.depth + 1)) :=
    List.forM_map
  simp only [← each, ← contexts_eq]
  rfl

end Stencil
