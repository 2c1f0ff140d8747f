import Stencil.Snippet.Call
import Stencil.Template.Basic

/-!
# The variables that a template reads

The value of an expression depends on the roots of its paths alone, those inside of
brackets included. A call reads its snippet and its parameters also as the names of
variables, as they are written; the value it hands over is read as an expression
only. What a called snippet reads is no part of this.

The main statements say that two contexts in which these variables have the same
values give the same value, the same name of a snippet and the same bindings of it.
-/

namespace Stencil

/-- Two lookups find the same for some names. -/
def Bindings.AgreeOn (names : List String) (left right : Bindings) : Prop :=
  ∀ name ∈ names, left name = right name

theorem Bindings.AgreeOn.left {names more : List String} {left right : Bindings}
    (agree : AgreeOn (names ++ more) left right) : AgreeOn names left right := fun name member =>
  agree name (List.mem_append_left more member)

theorem Bindings.AgreeOn.right {names more : List String} {left right : Bindings}
    (agree : AgreeOn (names ++ more) left right) : AgreeOn more left right := fun name member =>
  agree name (List.mem_append_right names member)

/-- The roots of the paths in an expression. -/
def Expr.reads : Expr → List String
  | .literal _ => []
  | .range first last => first.reads ++ last.reads
  | .var name => [name]
  | .member e _ => e.reads
  | .element e index => e.reads ++ index.reads

/-- The roots of the paths in a condition. -/
def Condition.reads : Condition → List String
  | .truthy e => e.reads
  | .compare left _ right => left.reads ++ right.reads
  | .and left right => left.reads ++ right.reads
  | .or left right => left.reads ++ right.reads

/-- The roots of the paths in the expression that a fragment spells, if it spells one. -/
def Request.fragmentReads (fragment : List Char) : List String :=
  match Expr.parse fragment with
  | .error _ => []
  | .ok e => e.reads

/-- What is read of a fragment that can also be the name of a variable. -/
def Request.wordReads (fragment : List Char) : List String :=
  String.ofList fragment :: fragmentReads fragment

/-- The variables that decide what a call hands over. -/
def Target.reads : Target → List String
  | .nothing => []
  | .single fragment => Request.fragmentReads fragment
  | .each fragment => Request.fragmentReads fragment

/-- The variables that a call reads in the context of its caller. -/
def Request.reads (request : Request) : List String :=
  wordReads request.snippet ++ (request.target.reads ++
    request.parameters.flatMap fun parameter => wordReads parameter.2)

mutual

/-- The variables that a node reads, what it calls apart. -/
def Node.reads : Node → List String
  | .text _ => []
  | .output e => e.reads
  | .assign _ e => e.reads
  | .capture _ body => Node.readsAll body
  | .loop head body empty => head.collection.reads ++ (Node.readsAll body ++ Node.readsAll empty)
  | .branches arms otherwise _ => Node.readsArms arms ++ Node.readsAll otherwise
  | .call request => request.reads

/-- The variables that nodes read, what they call apart. -/
def Node.readsAll : List Node → List String
  | [] => []
  | node :: nodes => node.reads ++ Node.readsAll nodes

/-- The variables that the conditions and the bodies of arms read, what they call apart. -/
def Node.readsArms : Arms → List String
  | [] => []
  | (condition, body) :: arms => condition.reads ++ (Node.readsAll body ++ Node.readsArms arms)

end

/-- The variables that a template reads, what it calls apart. -/
def Template.reads (template : Template) : List String := Node.readsAll template

/-- An expression has one value for all lookups that agree on its roots. -/
theorem Expr.eval_congr {left right : Bindings} (e : Expr)
    (agree : Bindings.AgreeOn e.reads left right) : e.eval left = e.eval right := by
  induction e with
  | literal v => rfl
  | range first last firstHypothesis lastHypothesis =>
    simp only [eval, firstHypothesis agree.left, lastHypothesis agree.right]
  | var name => simp only [eval, agree name List.mem_cons_self]
  | member e key inductionHypothesis => simp only [eval, inductionHypothesis agree]
  | element e index hypothesis indexHypothesis =>
    simp only [eval, hypothesis agree.left, indexHypothesis agree.right]

/-- A condition has one truth for all lookups that agree on its roots. -/
theorem Condition.eval_congr {left right : Bindings} (condition : Condition)
    (agree : Bindings.AgreeOn condition.reads left right) :
    condition.eval left = condition.eval right := by
  induction condition with
  | truthy e => simp only [eval, e.eval_congr agree]
  | compare first op second =>
    simp only [eval, first.eval_congr agree.left, second.eval_congr agree.right]
  | and first second firstHypothesis secondHypothesis =>
    simp only [eval, firstHypothesis agree.left, secondHypothesis agree.right]
  | or first second firstHypothesis secondHypothesis =>
    simp only [eval, firstHypothesis agree.left, secondHypothesis agree.right]

namespace Request

variable {left right : Context}

/-- A fragment has one value in all contexts that agree on what it reads. -/
theorem evaluate?_congr (fragment : List Char)
    (agree : Bindings.AgreeOn (fragmentReads fragment) left.get? right.get?) :
    left.evaluate? fragment = right.evaluate? fragment := by
  unfold fragmentReads at agree
  unfold Context.evaluate?
  cases parsed : Expr.parse fragment with
  | error cause => rfl
  | ok e =>
    simp only [parsed] at agree
    simp only [e.eval_congr agree]

theorem targetValue_congr (fragment : List Char)
    (agree : Bindings.AgreeOn (fragmentReads fragment) left.get? right.get?) :
    targetValue left fragment = targetValue right fragment := by
  simp only [targetValue, evaluate?_congr fragment agree]

theorem parameterValue_congr (fragment : List Char)
    (agree : Bindings.AgreeOn (wordReads fragment) left.get? right.get?) :
    parameterValue left fragment = parameterValue right fragment := by
  have word := agree _ List.mem_cons_self
  have value := evaluate?_congr fragment fun name member =>
    agree name (List.mem_cons_of_mem _ member)
  simp only [parameterValue, word, value]

/-- The name of the snippet depends on how it is written and on the variables that are read
for it, and not on the rest of the call. -/
theorem snippetName_eq {request other : Request}
    (same : request.snippet = other.snippet)
    (agree : Bindings.AgreeOn (wordReads request.snippet) left.get? right.get?) :
    request.snippetName left = other.snippetName right := by
  have word := agree _ List.mem_cons_self
  have value := evaluate?_congr request.snippet fun name member =>
    agree name (List.mem_cons_of_mem _ member)
  simp only [snippetName, word, value, ← same]

/-- The snippet that is called is the same in all contexts that agree on what the call
reads. -/
theorem snippetName_congr (request : Request)
    (agree : Bindings.AgreeOn request.reads left.get? right.get?) :
    request.snippetName left = request.snippetName right :=
  snippetName_eq rfl agree.left

end Request

end Stencil
