import Stencil.Proofs.Steps

/-!
# What holds of all nodes because it holds of their steps

A node is rendered by a few single steps, by steps in turn, by captured steps and by steps
in a scope of their own, and everything else that happens in a node is a call. So what
holds of the single steps and is kept by putting steps together holds of every template,
if it holds of the calls that stand in the template.

What is shown in this way can relate two renderings, also before sources of two kinds; what
concerns one rendering alone does not look at the other one. So a template in which no call
stands never fails, since none of the single steps does.
-/

namespace Stencil

variable {σ τ α β : Type}

mutual

/-- The calls that stand in a node, at any depth. -/
def Node.requests : Node → List Request
  | .text _ => []
  | .output _ => []
  | .assign _ _ => []
  | .capture _ body => Node.requestsAll body
  | .loop _ body empty => Node.requestsAll body ++ Node.requestsAll empty
  | .branches arms otherwise _ => Node.requestsArms arms ++ Node.requestsAll otherwise
  | .call request => [request]

/-- The calls that stand in nodes, at any depth. -/
def Node.requestsAll : List Node → List Request
  | [] => []
  | node :: nodes => node.requests ++ Node.requestsAll nodes

/-- The calls that stand in the bodies of arms, at any depth. -/
def Node.requestsArms : Arms → List Request
  | [] => []
  | (_, body) :: arms => Node.requestsAll body ++ Node.requestsArms arms

end

/-- The calls that stand in a template, at any depth. -/
def Template.requests (template : Template) : List Request := Node.requestsAll template

namespace Rendering

/-- A relation between steps on two sides that holds of the single steps of nodes and is
kept by the ways in which nodes put steps together. -/
structure Compositional (related : (α : Type) → Rendering σ α → Rendering τ α → Prop) : Prop where
  pure : ∀ {α : Type} (result : α), related α (pure result) (pure result)
  bind : ∀ {α β : Type} {step : Rendering σ α} {other : Rendering τ α}
    {next : α → Rendering σ β} {otherNext : α → Rendering τ β}, related α step other →
    (∀ result, related β (next result) (otherNext result)) →
    related β (step >>= next) (other >>= otherNext)
  write : ∀ text, related Unit (write text) (write text)
  setVariable : ∀ name v, related Unit (setVariable name v) (setVariable name v)
  valueOf : ∀ e, related Value (valueOf e) (valueOf e)
  test : ∀ condition, related Bool (test condition) (test condition)
  captured : ∀ {body : Rendering σ Unit} {other : Rendering τ Unit}, related Unit body other →
    related String (captured body) (captured other)
  inScope : ∀ {α : Type} {body : Rendering σ α} {other : Rendering τ α}, related α body other →
    related α (inScope body) (inScope other)

namespace Compositional

variable {related : (α : Type) → Rendering σ α → Rendering τ α → Prop}
  (composed : Compositional related)

include composed

/-- Steps for the elements of a list are related if they are related for each element. -/
theorem forM (items : List β) {step : β → Rendering σ Unit} {other : β → Rendering τ Unit}
    (each : ∀ item ∈ items, related Unit (step item) (other item)) :
    related Unit (items.forM step) (items.forM other) := by
  induction items with
  | nil => exact composed.pure ()
  | cons item items inductionHypothesis =>
    have rest := inductionHypothesis fun later member =>
      each later (List.mem_cons_of_mem item member)
    exact composed.bind (each item List.mem_cons_self) fun _ => rest

/-- Loops are related if their bodies are. -/
theorem forEach (name : String) (items : List Value) {body : Rendering σ Unit}
    {other : Rendering τ Unit} (inside : related Unit body other) :
    related Unit (forEach name items body) (forEach name items other) := by
  apply composed.inScope
  apply composed.forM
  intro ⟨position, item⟩ _
  apply composed.bind (composed.setVariable name item)
  intro _
  exact composed.bind (composed.setVariable Position.boundName position.toValue) fun _ => inside

variable {call : Request → Rendering σ Unit} {otherCall : Request → Rendering τ Unit}

mutual

/-- The renderings of a node are related if the calls in it are. -/
theorem node (node : Node)
    (called : ∀ request ∈ node.requests, related Unit (call request) (otherCall request)) :
    related Unit (node.render call) (node.render otherCall) := by
  cases node with
  | text content =>
    simp only [Node.render]
    exact composed.write content
  | output e =>
    simp only [Node.render]
    exact composed.bind (composed.valueOf e) fun v => composed.write v.display
  | assign name e =>
    simp only [Node.render]
    exact composed.bind (composed.valueOf e) fun v => composed.setVariable name v
  | capture name body =>
    simp only [Node.render]
    exact composed.bind (composed.captured (nodes body called)) fun text =>
      composed.setVariable name (.string text)
  | loop head body empty =>
    have bodies := nodes body fun request member => called request (List.mem_append_left _ member)
    have others := nodes empty fun request member =>
      called request (List.mem_append_right _ member)
    simp only [Node.render, elementsOf]
    apply composed.bind (composed.bind (composed.valueOf head.collection) fun v => composed.pure _)
    intro items
    cases items with
    | nil => exact others
    | cons item items => exact composed.forEach head.item (item :: items) bodies
  | branches arms otherwise negateFirst =>
    have others := nodes otherwise fun request member =>
      called request (List.mem_append_right _ member)
    simp only [Node.render]
    exact Compositional.arms arms negateFirst others fun request member =>
      called request (List.mem_append_left _ member)
  | call request =>
    simp only [Node.render]
    exact called request List.mem_cons_self

/-- The renderings of nodes are related if the calls in them are. -/
theorem nodes (nodes : List Node)
    (called : ∀ request ∈ Node.requestsAll nodes,
      related Unit (call request) (otherCall request)) :
    related Unit (Node.renderAll call nodes) (Node.renderAll otherCall nodes) := by
  cases nodes with
  | nil => exact composed.pure ()
  | cons first rest =>
    simp only [Node.renderAll]
    apply composed.bind
    · exact node first fun request member => called request (List.mem_append_left _ member)
    · intro _
      exact Compositional.nodes rest fun request member =>
        called request (List.mem_append_right _ member)

/-- The renderings of arms are related if the calls in their bodies are, and what is done if none
of them applies. -/
theorem arms (arms : Arms) (negated : Bool) {otherwise : Rendering σ Unit}
    {others : Rendering τ Unit} (otherwiseRelated : related Unit otherwise others)
    (called : ∀ request ∈ Node.requestsArms arms,
      related Unit (call request) (otherCall request)) :
    related Unit (Node.renderFirst call otherwise negated arms)
      (Node.renderFirst otherCall others negated arms) := by
  match arms with
  | [] => exact otherwiseRelated
  | (condition, body) :: later =>
    simp only [Node.renderFirst]
    apply composed.bind (composed.test condition)
    intro decided
    split
    · exact Compositional.nodes body fun request member =>
        called request (List.mem_append_left _ member)
    · exact Compositional.arms later false otherwiseRelated fun request member =>
        called request (List.mem_append_right _ member)

end

/-! What holds of steps on one side is related to the steps themselves. -/

variable {held : (α : Type) → Rendering σ α → Prop}

omit composed

/-- Steps for the elements of a list have what the step for each element has. -/
theorem forM_alone (composed : Compositional fun α (step : Rendering σ α) (_ : Rendering σ α) =>
    held α step) (items : List β) {step : β → Rendering σ Unit}
    (each : ∀ item ∈ items, held Unit (step item)) : held Unit (items.forM step) :=
  @forM σ σ β _ composed items step step each

/-- Nodes have what the calls in them have. -/
theorem nodes_alone (composed : Compositional fun α (step : Rendering σ α) (_ : Rendering σ α) =>
    held α step) (nodes : List Node)
    (called : ∀ request ∈ Node.requestsAll nodes, held Unit (call request)) :
    held Unit (Node.renderAll call nodes) :=
  @Compositional.nodes σ σ _ composed call call nodes called

end Compositional

/-! ### Templates without calls -/

/-- A step that succeeds and does not touch the store. -/
def Harmless (step : Rendering σ α) : Prop :=
  ∀ run, step.failure? run = none ∧ (step.after run).store = run.store

theorem harmless_bind {step : Rendering σ α} {next : α → Rendering σ β} (first : Harmless step)
    (second : ∀ result, Harmless (next result)) : Harmless (step >>= next) := by
  intro run
  have harmless := first run
  simp only [failure?, after, bind, EStateM.bind] at harmless ⊢
  cases ended : step run with
  | ok result middle =>
    simp only [ended] at harmless ⊢
    obtain ⟨succeeds, same⟩ := second result middle
    exact ⟨succeeds, same.trans harmless.2⟩
  | error e middle =>
    simp only [ended, reduceCtorEq, false_and] at harmless

/-- What is captured stays harmless: only the output is another one. -/
theorem harmless_captured {body : Rendering σ Unit} (harmless : Harmless body) :
    Harmless (captured body) := by
  intro run
  rw [failure_captured, after_captured]
  exact harmless { run with out := "" }

theorem harmless_inScope {body : Rendering σ α} (harmless : Harmless body) :
    Harmless (inScope body) := by
  intro run
  rw [failure_inScope, after_inScope]
  exact harmless { run with context := run.context.push }

/-- Nothing that nodes are made of besides calls can fail or touch the store. -/
theorem harmless_compositional :
    Compositional fun α (step : Rendering σ α) (_ : Rendering σ α) => Harmless step where
  pure _ _ := ⟨rfl, rfl⟩
  bind := harmless_bind
  write _ _ := ⟨rfl, rfl⟩
  setVariable _ _ _ := ⟨rfl, rfl⟩
  valueOf _ _ := ⟨rfl, rfl⟩
  test _ _ := ⟨rfl, rfl⟩
  captured := harmless_captured
  inScope := harmless_inScope

/-- Nodes without calls are rendered without failure, whatever the variables are. -/
theorem renderAll_harmless {nodes : List Node} (noCalls : Node.requestsAll nodes = [])
    (call : Request → Rendering σ Unit) : Harmless (Node.renderAll call nodes) := by
  have called : ∀ request ∈ Node.requestsAll nodes, Harmless (call request) := by
    intro request member
    rw [noCalls] at member
    cases member
  exact harmless_compositional.nodes_alone nodes called

end Rendering

end Stencil
