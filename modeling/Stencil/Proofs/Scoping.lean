import Stencil.Proofs.Steps

/-!
# What rendering changes in a context

A template binds variables in the innermost scope only, and of these only the names
it assigns or captures outside the bodies of its loops. A loop that runs binds in a
scope of its own, which is closed again, and a snippet is rendered in a context of
its own, so neither leaves anything behind. All of this holds also of a rendering
that fails, at any depth.

The proof follows the nodes of a template for a call that leaves the context alone,
and then the levels of calls.
-/

namespace Stencil

variable {σ α : Type}

mutual

/-- The variables that a node binds in the scope in which it is rendered. -/
def Node.assigned : Node → List String
  | .text _ => []
  | .output _ => []
  | .assign name _ => [name]
  | .capture name body => name :: Node.assignedAll body
  | .loop _ _ empty => Node.assignedAll empty
  | .branches arms otherwise _ => Node.assignedArms arms ++ Node.assignedAll otherwise
  | .call _ => []

/-- The variables that nodes bind in the scope in which they are rendered. -/
def Node.assignedAll : List Node → List String
  | [] => []
  | node :: nodes => node.assigned ++ Node.assignedAll nodes

/-- The variables that the bodies of arms bind in the scope in which they are rendered. -/
def Node.assignedArms : Arms → List String
  | [] => []
  | (_, body) :: arms => Node.assignedAll body ++ Node.assignedArms arms

end

/-- The variables that a template binds in the scope in which it is rendered. -/
def Template.assigned (template : Template) : List String := Node.assignedAll template

namespace Rendering

/-- The context stays as it was, and text is only appended. -/
structure Sealed (before after : Run σ) : Prop where
  context : after.context = before.context
  appended : ∃ text, after.out = before.out ++ text

/-- Only some variables are bound, in the innermost scope, which loses no key; the
other scopes and the depth stay as they were, and text is only appended. -/
structure Confined (names : List String) (before after : Run σ) : Prop where
  depth : after.context.depth = before.context.depth
  outer : after.context.outer = before.context.outer
  bound : ∀ name, Dict.contains name before.context.inner →
    Dict.contains name after.context.inner
  unassigned : ∀ name, name ∉ names →
    Dict.get? name after.context.inner = Dict.get? name before.context.inner
  appended : ∃ text, after.out = before.out ++ text

/-- Texts that are appended in turn are appended together. -/
theorem appended_trans {first middle last : String}
    (left : ∃ text, middle = first ++ text) (right : ∃ text, last = middle ++ text) :
    ∃ text, last = first ++ text := by
  obtain ⟨text, rfl⟩ := left
  obtain ⟨more, rfl⟩ := right
  exact ⟨text ++ more, String.append_assoc⟩

theorem Sealed.refl (run : Run σ) : Sealed run run := ⟨rfl, "", String.append_empty.symm⟩

theorem Sealed.trans {first middle last : Run σ} (left : Sealed first middle)
    (right : Sealed middle last) : Sealed first last :=
  ⟨right.context.trans left.context, appended_trans left.appended right.appended⟩

/-- A context that stays as it was is confined to any names. -/
theorem Sealed.confined {before after : Run σ} (names : List String)
    (same : Sealed before after) : Confined names before after where
  depth := by rw [same.context]
  outer := by rw [same.context]
  bound name held := by rwa [same.context]
  unassigned name _ := by rw [same.context]
  appended := same.appended

theorem Confined.refl (names : List String) (run : Run σ) : Confined names run run :=
  (Sealed.refl run).confined names

theorem Confined.trans {names : List String} {first middle last : Run σ}
    (left : Confined names first middle) (right : Confined names middle last) :
    Confined names first last where
  depth := right.depth.trans left.depth
  outer := right.outer.trans left.outer
  bound name held := right.bound name (left.bound name held)
  unassigned name absent := (right.unassigned name absent).trans (left.unassigned name absent)
  appended := appended_trans left.appended right.appended

/-- More names confine less. -/
theorem Confined.mono {names more : List String} {before after : Run σ}
    (confined : Confined names before after) (included : names ⊆ more) :
    Confined more before after :=
  { confined with
    unassigned := fun name absent =>
      confined.unassigned name fun member => absent (included member) }

/-- A step that is sealed is confined to any names. -/
theorem keeps_confined {step : Rendering σ α} (names : List String) (kept : Keeps Sealed step) :
    Keeps (Confined names) step := fun run => (kept run).confined names

/-- Sealed steps in turn are sealed. -/
theorem sealed_bind {β : Type} {step : Rendering σ α} {next : α → Rendering σ β}
    (kept : Keeps Sealed step) (keptNext : ∀ result, Keeps Sealed (next result)) :
    Keeps Sealed (step >>= next) :=
  keeps_bind Sealed.trans kept keptNext

/-- Confined steps in turn are confined. -/
theorem confined_bind {β : Type} {names : List String} {step : Rendering σ α}
    {next : α → Rendering σ β} (kept : Keeps (Confined names) step)
    (keptNext : ∀ result, Keeps (Confined names) (next result)) :
    Keeps (Confined names) (step >>= next) :=
  keeps_bind Confined.trans kept keptNext

/-! ### Single steps -/

theorem write_sealed (text : String) : Keeps Sealed (write text : Rendering σ Unit) := fun _ =>
  ⟨rfl, text, rfl⟩

theorem valueOf_sealed (e : Expr) : Keeps Sealed (valueOf e : Rendering σ Value) := Sealed.refl

theorem test_sealed (condition : Condition) :
    Keeps Sealed (test condition : Rendering σ Bool) := Sealed.refl

theorem elementsOf_sealed (head : LoopHead) :
    Keeps Sealed (elementsOf head : Rendering σ (List Value)) := Sealed.refl

theorem readable_sealed (template : Except SyntaxError Template) :
    Keeps Sealed (readable template : Rendering σ Template) := by
  intro run
  cases template <;> exact Sealed.refl run

theorem requireSnippet_sealed (source : Source σ) (name : String) :
    Keeps Sealed (requireSnippet source name) := by
  intro run
  rw [after_requireSnippet]
  exact ⟨rfl, "", String.append_empty.symm⟩

/-- A binding touches its own name in the innermost scope, and that name is bound
afterwards. -/
theorem setVariable_confined {names : List String} {name : String} (member : name ∈ names)
    (v : Value) : Keeps (Confined names) (setVariable name v : Rendering σ Unit) := by
  intro run
  refine ⟨rfl, rfl, ?_, ?_, "", String.append_empty.symm⟩
  · intro other held
    show Dict.contains other (Dict.insert name v run.context.inner) = true
    simp only [Dict.contains, Dict.get?_insert] at held ⊢
    split
    · rfl
    · exact held
  · intro other absent
    exact Dict.get?_insert_of_ne name other v _ fun same => absent (same ▸ member)

/-- What is captured goes to an output of its own. -/
theorem captured_confined {names : List String} {body : Rendering σ Unit}
    (kept : Keeps (Confined names) body) : Keeps (Confined names) (captured body) := by
  intro run
  have inside : Confined names { run with out := "" } (body.after { run with out := "" }) :=
    kept { run with out := "" }
  rw [after_captured]
  exact { inside with appended := ⟨"", String.append_empty.symm⟩ }

/-- Closing the scope that was opened restores the context: the scopes around it and
the depth were not changed. -/
theorem pop_eq_of_confined {names : List String} {run last : Run σ}
    (inside : Confined names { run with context := run.context.push } last) :
    last.context.pop = run.context := by
  have outer : last.context.outer = run.context.inner :: run.context.outer := inside.outer
  have depth : last.context.depth = run.context.depth := inside.depth
  simp only [Context.pop, outer, depth]

/-- A step with a scope of its own leaves the context as it was. -/
theorem inScope_sealed {names : List String} {body : Rendering σ α}
    (kept : Keeps (Confined names) body) : Keeps Sealed (inScope body) := by
  intro run
  have inside := kept { run with context := run.context.push }
  rw [after_inScope]
  exact ⟨pop_eq_of_confined inside, inside.appended⟩

/-- A step in another context leaves the current one as it was. -/
theorem inContext_sealed {names : List String} {body : Rendering σ α} (context : Context)
    (kept : Keeps (Confined names) body) : Keeps Sealed (inContext context body) := by
  intro run
  have inside := kept { run with context := context }
  rw [after_inContext]
  exact ⟨rfl, inside.appended⟩

/-- A loop binds its element, its position and what its body binds, all in its own
scope. -/
theorem forEach_sealed {names : List String} {body : Rendering σ Unit} (name : String)
    (items : List Value) (kept : Keeps (Confined names) body) :
    Keeps Sealed (forEach name items body) := by
  have included : names ⊆ name :: Position.boundName :: names := fun _ member =>
    List.mem_cons_of_mem name (List.mem_cons_of_mem Position.boundName member)
  have bodyKept : Keeps (Confined (name :: Position.boundName :: names)) body := fun run =>
    (kept run).mono included
  refine inScope_sealed (?_ : Keeps (Confined (name :: Position.boundName :: names)) _)
  apply keeps_forM (Confined.refl _) Confined.trans
  intro ⟨position, item⟩ _
  apply confined_bind (setVariable_confined List.mem_cons_self item)
  intro _
  exact confined_bind
    (setVariable_confined (List.mem_cons_of_mem name List.mem_cons_self) position.toValue)
    fun _ => bodyKept

/-! ### Nodes, calls and templates -/

/-- A loop that finds elements leaves the context as it was; otherwise its other part
is rendered in the current scope. -/
theorem loop_confined {names : List String} {call : Request → Rendering σ Unit}
    (head : LoopHead) (body empty : List Node)
    (bodyKept : Keeps (Confined (Node.assignedAll body)) (Node.renderAll call body))
    (emptyKept : Keeps (Confined names) (Node.renderAll call empty)) :
    Keeps (Confined names) (Node.render call (.loop head body empty)) := by
  simp only [Node.render]
  apply confined_bind (keeps_confined names (elementsOf_sealed head))
  intro items
  cases items with
  | nil => exact emptyKept
  | cons item items => exact keeps_confined names (forEach_sealed head.item _ bodyKept)

mutual

/-- A node binds only the names it assigns, if calls leave the context alone. -/
theorem node_confined {call : Request → Rendering σ Unit}
    (called : ∀ request, Keeps Sealed (call request)) (node : Node) :
    Keeps (Confined node.assigned) (node.render call) := by
  cases node with
  | text content =>
    simp only [Node.render]
    exact keeps_confined _ (write_sealed content)
  | output e =>
    simp only [Node.render]
    exact confined_bind (keeps_confined _ (valueOf_sealed e)) fun v =>
      keeps_confined _ (write_sealed v.display)
  | assign name e =>
    simp only [Node.render, Node.assigned]
    exact confined_bind (keeps_confined _ (valueOf_sealed e)) fun v =>
      setVariable_confined List.mem_cons_self v
  | capture name body =>
    have bodyKept := nodes_confined called body
    have included : Node.assignedAll body ⊆ name :: Node.assignedAll body :=
      fun _ member => List.mem_cons_of_mem name member
    simp only [Node.render, Node.assigned]
    exact confined_bind (captured_confined fun run => (bodyKept run).mono included) fun text =>
      setVariable_confined List.mem_cons_self (.string text)
  | loop head body empty =>
    exact loop_confined head body empty (nodes_confined called body) (nodes_confined called empty)
  | branches arms otherwise negateFirst =>
    have otherwiseKept := nodes_confined called otherwise
    simp only [Node.render, Node.assigned]
    exact arms_confined called arms otherwiseKept negateFirst
  | call request =>
    simp only [Node.render]
    exact keeps_confined _ (called request)

/-- Nodes bind only the names that they assign, if calls leave the context alone. -/
theorem nodes_confined {call : Request → Rendering σ Unit}
    (called : ∀ request, Keeps Sealed (call request)) (nodes : List Node) :
    Keeps (Confined (Node.assignedAll nodes)) (Node.renderAll call nodes) := by
  cases nodes with
  | nil => exact Confined.refl _
  | cons node nodes =>
    have first := node_confined called node
    have rest := nodes_confined called nodes
    simp only [Node.renderAll, Node.assignedAll]
    exact confined_bind (fun run => (first run).mono fun _ => List.mem_append_left _) fun _ run =>
      (rest run).mono fun _ => List.mem_append_right _

/-- Arms bind only the names that their bodies assign, and those that are bound if none of them
applies. -/
theorem arms_confined {call : Request → Rendering σ Unit}
    (called : ∀ request, Keeps Sealed (call request)) (arms : Arms) {names : List String}
    {otherwise : Rendering σ Unit} (otherwiseKept : Keeps (Confined names) otherwise)
    (negated : Bool) :
    Keeps (Confined (Node.assignedArms arms ++ names))
      (Node.renderFirst call otherwise negated arms) := by
  match arms with
  | [] => exact otherwiseKept
  | (condition, body) :: arms =>
    have bodyKept := nodes_confined called body
    have armsKept := arms_confined called arms otherwiseKept false
    simp only [Node.renderFirst, Node.assignedArms, List.append_assoc]
    apply confined_bind (keeps_confined _ (test_sealed condition))
    intro decided
    split
    · exact fun run => (bodyKept run).mono fun _ => List.mem_append_left _
    · exact fun run => (armsKept run).mono fun _ => List.mem_append_right _

end

/-- A loop that finds elements leaves the context as it was. -/
theorem loop_sealed {call : Request → Rendering σ Unit}
    (called : ∀ request, Keeps Sealed (call request)) (head : LoopHead) (body empty : List Node)
    (run : Run σ) (nonempty : (head.collection.eval run.context.get?).elements?.getD [] ≠ []) :
    Sealed run ((Node.render call (.loop head body empty)).after run) := by
  have found : head.elements run.context.get? ≠ [] := by
    unfold LoopHead.elements
    split <;> simpa using nonempty
  obtain ⟨item, items, elements⟩ := List.exists_cons_of_ne_nil found
  have looped := forEach_sealed head.item (item :: items) (nodes_confined called body) run
  simpa only [Node.render, after, bind, EStateM.bind, elementsOf_eq, elements] using looped

/-- A call renders its snippet in contexts of its own. -/
theorem perform_sealed (engine : Engine σ) {render : Template → Rendering σ Unit}
    (rendered : ∀ template, Keeps (Confined (Template.assigned template)) (render template))
    (request : Request) : Keeps Sealed (request.perform engine render) := by
  intro run
  have found := requireSnippet_sealed engine.source (request.snippetName run.context)
  refine sealed_bind found (fun content => ?_) run
  apply keeps_forM Sealed.refl Sealed.trans
  intro context _
  apply sealed_bind (readable_sealed _)
  exact fun nodes => inContext_sealed context (rendered nodes)

/-- Calls leave the context alone at every level, also where no level is left. -/
theorem performWithin_sealed (engine : Engine σ) (levels : Nat) (request : Request) :
    Keeps Sealed (request.performWithin engine levels) := by
  induction levels generalizing request with
  | zero => exact Sealed.refl
  | succ levels inductionHypothesis =>
    exact perform_sealed engine (nodes_confined inductionHypothesis) request

/-- A template binds only the names that it assigns. -/
theorem template_confined (engine : Engine σ) (template : Template) :
    Keeps (Confined template.assigned) (template.render engine) := fun run =>
  nodes_confined (performWithin_sealed engine run.context.levelsLeft) template run

end Rendering

open Rendering

/-- Rendering a template, whether it succeeds or fails, keeps the number of scopes, the
depth and all scopes but the innermost one. That one loses no key, and only names that
the template assigns or captures outside the bodies of its loops can be bound anew; and
the output is only extended. A loop over at least one element and a call leave the
context exactly as it was. -/
theorem render_scoped (engine : Engine σ) (template : Template) (run : Run σ) :
    let ended := (template.render engine).after run
    ended.context.scopes.length = run.context.scopes.length ∧
      ended.context.depth = run.context.depth ∧
      ended.context.scopes.tail = run.context.scopes.tail ∧
      (∀ name, Dict.contains name run.context.inner → Dict.contains name ended.context.inner) ∧
      (∀ name, name ∉ template.assigned →
        Dict.get? name ended.context.inner = Dict.get? name run.context.inner) ∧
      (∃ text, ended.out = run.out ++ text) ∧
      (∀ head body empty, template = [.loop head body empty] →
        (head.collection.eval run.context.get?).elements?.getD [] ≠ [] →
        ended.context = run.context) ∧
      (∀ request, template = [.call request] → ended.context = run.context) := by
  intro ended
  have confined : Confined template.assigned run ended := template_confined engine template run
  have outer : ended.context.scopes.tail = run.context.scopes.tail := confined.outer
  have called := performWithin_sealed engine run.context.levelsLeft
  refine ⟨?_, confined.depth, outer, confined.bound, confined.unassigned, confined.appended,
    ?_, ?_⟩
  · simp only [Context.scopes, List.length_cons, confined.outer]
  · rintro head body empty rfl nonempty
    have looped : Sealed run ((Template.render engine [.loop head body empty]).after run) := by
      simp only [after, Template.render_eq, renderAll_single]
      exact loop_sealed called head body empty run nonempty
    exact looped.context
  · rintro request rfl
    have performed : Sealed run ((Template.render engine [.call request]).after run) := by
      simp only [after, Template.render_eq, renderAll_call]
      exact called request run
    exact performed.context

/-- A loop that assigns and then fails in its second iteration, on a snippet that there is
not, leaves nothing behind but its output. -/
theorem failing_loop_scoped :
    let engine : Engine Unit := ⟨.standard, .none⟩
    let body : Template := [.output (.var "item"), .assign "seen" (.var "item"),
      .call ⟨"item".toList, .nothing, none, []⟩]
    let template : Template := [.loop ⟨"item", .var "list", false⟩ body []]
    let run : Run Unit :=
      ⟨⟨[("list", .array [.string "a", .string "b"])], [[("seen", .null)]], 0⟩, "o",
        ⟨[("a", "!")], [], ()⟩⟩
    (template.render engine).failure? run = some (.unknownSnippet "b") ∧
      ((template.render engine).after run).out = "oa!b" ∧
      ((template.render engine).after run).context = run.context := by
  intro engine body template run
  obtain ⟨-, -, -, -, -, -, looped, -⟩ := render_scoped engine template run
  refine ⟨by decide +kernel, by decide +kernel, ?_⟩
  exact looped ⟨"item", .var "list", false⟩ body [] rfl (List.cons_ne_nil _ _)

end Stencil
