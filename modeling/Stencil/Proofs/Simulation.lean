import Stencil.Proofs.Binding
import Stencil.Proofs.Steps

/-!
# Two renderings side by side

Two renderings of one template are compared from runs whose contexts and stores
correspond. Steps are alike if from all such runs they succeed with the same result
or fail with the same error, append the same text, and end in runs that correspond
again. What stood in the outputs before does not matter.

Some errors of the left rendering can be excused: the right one may then do anything.
A rendering that is nested more deeply needs this, since it can come upon the limit
of nesting where the other one does not.

The main statements say that a template is rendered alike whenever the variables it
reads have the same values on both sides, and that all called snippets are then
rendered alike whatever they read.
-/

namespace Stencil

variable {σ α β : Type}

/-- How the contexts on two sides correspond. Binding the same on both sides, and
opening and closing scopes on both sides, keeps the correspondence. -/
structure View where
  holds : Context → Context → Prop
  set : ∀ {left right} name v, holds left right → holds (left.set name v) (right.set name v)
  push : ∀ {left right}, holds left right → holds left.push right.push
  pop : ∀ {left right}, holds left right → holds left.pop right.pop

namespace View

/-- The contexts are the same. -/
def same : View where
  holds left right := left = right
  set _ _ equal := equal ▸ rfl
  push equal := equal ▸ rfl
  pop equal := equal ▸ rfl

/-- The contexts have the same scopes, at depths that may differ. -/
def scopes : View where
  holds left right := left.inner = right.inner ∧ left.outer = right.outer
  set name v equal := ⟨congrArg (Dict.insert name v) equal.1, equal.2⟩
  push equal := ⟨rfl, by simp only [Context.push, equal.1, equal.2]⟩
  pop := by
    rintro ⟨inner, outer, depth⟩ ⟨_, _, other⟩ ⟨rfl, rfl⟩
    cases outer <;> exact ⟨rfl, rfl⟩

/-- Corresponding contexts agree on some variables. -/
def Sees (view : View) (names : List String) : Prop :=
  ∀ left right, view.holds left right → Bindings.AgreeOn names left.get? right.get?

theorem Sees.left {view : View} {names more : List String} (sees : view.Sees (names ++ more)) :
    view.Sees names := fun left right related => (sees left right related).left

theorem Sees.right {view : View} {names more : List String} (sees : view.Sees (names ++ more)) :
    view.Sees more := fun left right related => (sees left right related).right

theorem same_sees (names : List String) : same.Sees names := by
  rintro left _ rfl name _
  rfl

/-- A lookup finds the same in the same scopes. -/
theorem scopes_sees (names : List String) : scopes.Sees names := by
  intro left right equal name _
  simp only [Context.get?, Context.scopes, equal.1, equal.2]

end View

namespace Rendering

/-- Two runs correspond after the same text was appended on both sides. -/
structure Alongside (stores : Store σ → Store σ → Prop) (view : View)
    (left right leftEnd rightEnd : Run σ) : Prop where
  context : view.holds leftEnd.context rightEnd.context
  store : stores leftEnd.store rightEnd.store
  out : ∃ text, leftEnd.out = left.out ++ text ∧ rightEnd.out = right.out ++ text

/-- The outcomes of two steps match: the same result or the same error, in related
runs, unless the left error is excused. -/
inductive Matched (excused : Error → Prop) (related : Run σ → Run σ → Prop) :
    EStateM.Result Error (Run σ) α → EStateM.Result Error (Run σ) α → Prop where
  | ok (result : α) {left right : Run σ} (ended : related left right) :
      Matched excused related (.ok result left) (.ok result right)
  | error (e : Error) {left right : Run σ} (ended : related left right) :
      Matched excused related (.error e left) (.error e right)
  | excused {e : Error} {left : Run σ} {outcome : EStateM.Result Error (Run σ) α}
      (excuse : excused e) : Matched excused related (.error e left) outcome

/-- Steps are alike if their outcomes match from all corresponding runs. -/
def Alike (excused : Error → Prop) (stores : Store σ → Store σ → Prop) (view : View)
    (step other : Rendering σ α) : Prop :=
  ∀ left right, view.holds left.context right.context → stores left.store right.store →
    Matched excused (Alongside stores view left right) (step left) (other right)

variable {excused : Error → Prop} {stores : Store σ → Store σ → Prop} {view : View}

/-- Texts that are appended alike in turn are appended alike together. -/
theorem Alongside.trans {left leftMiddle leftEnd right rightMiddle rightEnd : Run σ}
    (first : Alongside stores view left right leftMiddle rightMiddle)
    (second : Alongside stores view leftMiddle rightMiddle leftEnd rightEnd) :
    Alongside stores view left right leftEnd rightEnd := by
  obtain ⟨text, leftOut, rightOut⟩ := first.out
  obtain ⟨more, leftMore, rightMore⟩ := second.out
  refine ⟨second.context, second.store, text ++ more, ?_, ?_⟩
  · rw [leftMore, leftOut, String.append_assoc]
  · rw [rightMore, rightOut, String.append_assoc]

/-- Steps that append nothing end alongside if the contexts and stores correspond. -/
theorem Alongside.quiet {left leftEnd right rightEnd : Run σ}
    (contexts : view.holds leftEnd.context rightEnd.context)
    (stored : stores leftEnd.store rightEnd.store) (leftOut : leftEnd.out = left.out)
    (rightOut : rightEnd.out = right.out) :
    Alongside stores view left right leftEnd rightEnd where
  context := contexts
  store := stored
  out := ⟨"", leftOut.trans String.append_empty.symm, rightOut.trans String.append_empty.symm⟩

/-- Outcomes that match in related runs match in runs related more loosely. -/
theorem Matched.mono {related looser : Run σ → Run σ → Prop}
    {outcome other : EStateM.Result Error (Run σ) α}
    (matched : Matched excused related outcome other)
    (loosen : ∀ {left right}, related left right → looser left right) :
    Matched excused looser outcome other := by
  cases matched with
  | ok result ended => exact .ok result (loosen ended)
  | error e ended => exact .error e (loosen ended)
  | excused excuse => exact .excused excuse

/-- Outcomes that match do so also when the runs at their ends are changed. -/
theorem Matched.ending {related changed : Run σ → Run σ → Prop}
    {outcome other : EStateM.Result Error (Run σ) α} {change otherChange : Run σ → Run σ}
    (matched : Matched excused related outcome other)
    (kept : ∀ {left right}, related left right → changed (change left) (otherChange right)) :
    Matched excused changed (ending change outcome) (ending otherChange other) := by
  cases matched with
  | ok result ended => exact .ok result (kept ended)
  | error e ended => exact .error e (kept ended)
  | excused excuse => exact .excused excuse

/-- Unless an error is excused, steps with matching outcomes fail alike and end in related
runs. -/
theorem Matched.ended {related : Run σ → Run σ → Prop} {step other : Rendering σ Unit}
    {left right : Run σ} (matched : Matched excused related (step left) (other right))
    (unexcused : ∀ e, step.failure? left = some e → ¬ excused e) :
    step.failure? left = other.failure? right ∧ related (step.after left) (other.after right) := by
  simp only [after, failure?] at unexcused ⊢
  revert matched unexcused
  generalize step left = outcome
  generalize other right = otherOutcome
  intro matched unexcused
  cases matched with
  | ok result ended => exact ⟨rfl, ended⟩
  | error e ended => exact ⟨rfl, ended⟩
  | excused excuse => exact absurd excuse (unexcused _ rfl)

/-- Steps for the elements of a list match if those for each element match in related
runs. -/
theorem Matched.forM {excused : Error → Prop} {related : Run σ → Run σ → Prop}
    {step other : α → Rendering σ Unit} (items : List α)
    (each : ∀ item left right, related left right →
      Matched excused related (step item left) (other item right))
    {left right : Run σ} (start : related left right) :
    Matched excused related (items.forM step left) (items.forM other right) := by
  induction items generalizing left right with
  | nil => exact .ok () start
  | cons item items inductionHypothesis =>
    have first := each item left right start
    change Matched excused related ((step item >>= fun _ => items.forM step) left)
      ((other item >>= fun _ => items.forM other) right)
    simp only [bind, EStateM.bind]
    revert first
    generalize step item left = outcome
    generalize other item right = otherOutcome
    intro first
    cases first with
    | ok result ended => exact inductionHypothesis ended
    | error e ended => exact .error e ended
    | excused excuse => exact .excused excuse

/-- An outcome matches itself with the run at its end changed. -/
theorem matched_ending {excused : Error → Prop} {related : Run σ → Run σ → Prop}
    {step : Rendering σ α} {run : Run σ} {change : Run σ → Run σ}
    (ended : related (step.after run) (change (step.after run))) :
    Matched excused related (step run) (ending change (step run)) := by
  revert ended
  simp only [after]
  cases step run with
  | ok result last => exact .ok result
  | error e last => exact .error e

/-- Outcomes match after the run at the end of the right one is changed. -/
theorem Matched.ending_right {excused : Error → Prop} {related changed : Run σ → Run σ → Prop}
    {outcome other : EStateM.Result Error (Run σ) α} {change : Run σ → Run σ}
    (matched : Matched excused related outcome other)
    (kept : ∀ {left right}, related left right → changed left (change right)) :
    Matched excused changed outcome (Rendering.ending change other) := by
  cases matched with
  | ok result ended => exact .ok result (kept ended)
  | error e ended => exact .error e (kept ended)
  | excused excuse => exact .excused excuse

/-- Steps that change nothing are alike if they have the same result. -/
theorem alike_pure (result : α) :
    Alike excused stores view (pure result) (pure result) :=
  fun _ _ contexts stored => .ok result (.quiet contexts stored rfl rfl)

/-- Alike steps in turn are alike. -/
theorem alike_bind {step other : Rendering σ α} {next otherNext : α → Rendering σ β}
    (first : Alike excused stores view step other)
    (second : ∀ result, Alike excused stores view (next result) (otherNext result)) :
    Alike excused stores view (step >>= next) (other >>= otherNext) := by
  intro left right contexts stored
  have matched := first left right contexts stored
  simp only [bind, EStateM.bind]
  revert matched
  generalize step left = outcome
  generalize other right = otherOutcome
  intro matched
  cases matched with
  | ok result ended =>
    exact (second result _ _ ended.context ended.store).mono ended.trans
  | error e ended => exact .error e ended
  | excused excuse => exact .excused excuse

/-- Steps for the elements of a list are alike if they are alike for each element. -/
theorem alike_forM (items : List β) {step other : β → Rendering σ Unit}
    (each : ∀ item, Alike excused stores view (step item) (other item)) :
    Alike excused stores view (items.forM step) (items.forM other) := by
  induction items with
  | nil => exact alike_pure ()
  | cons item items inductionHypothesis =>
    exact alike_bind (each item) fun _ => inductionHypothesis

/-! ### Single steps -/

theorem write_alike (text : String) :
    Alike excused stores view (write text) (write text) :=
  fun _ _ contexts stored => .ok () ⟨contexts, stored, text, rfl, rfl⟩

theorem setVariable_alike (name : String) (v : Value) :
    Alike excused stores view (setVariable name v) (setVariable name v) :=
  fun _ _ contexts stored =>
    .ok () (.quiet (view.set name v contexts) stored rfl rfl)

/-- Expressions have the same value where their roots have. -/
theorem valueOf_alike (e : Expr) (sees : view.Sees e.reads) :
    Alike excused stores view (valueOf e) (valueOf e) := by
  intro left right contexts stored
  unfold valueOf
  rw [e.eval_congr (sees _ _ contexts)]
  exact alike_pure _ left right contexts stored

theorem test_alike (condition : Condition) (sees : view.Sees condition.reads) :
    Alike excused stores view (test condition) (test condition) := by
  intro left right contexts stored
  unfold test
  rw [condition.eval_congr (sees _ _ contexts)]
  exact alike_pure _ left right contexts stored

theorem elementsOf_alike (head : LoopHead) (sees : view.Sees head.collection.reads) :
    Alike excused stores view (elementsOf head) (elementsOf head) := by
  unfold elementsOf
  exact alike_bind (valueOf_alike head.collection sees) fun v => alike_pure _

theorem readable_alike (template : Except SyntaxError Template) :
    Alike excused stores view (readable template) (readable template) := by
  intro left right contexts stored
  cases template with
  | ok nodes => exact alike_pure nodes left right contexts stored
  | error cause => exact .error _ (.quiet contexts stored rfl rfl)

/-- Captured steps write to outputs of their own, which are empty on both sides. -/
theorem captured_alike {body other : Rendering σ Unit}
    (alike : Alike excused stores view body other) :
    Alike excused stores view (captured body) (captured other) := by
  intro left right contexts stored
  have matched := alike { left with out := "" } { right with out := "" } contexts stored
  simp only [captured]
  revert matched
  generalize body { left with out := "" } = outcome
  generalize other { right with out := "" } = otherOutcome
  intro matched
  cases matched with
  | ok result ended =>
    obtain ⟨text, leftOut, rightOut⟩ := ended.out
    simp only [leftOut, rightOut]
    exact .ok _ (.quiet ended.context ended.store rfl rfl)
  | error e ended => exact .error e (.quiet ended.context ended.store rfl rfl)
  | excused excuse => exact .excused excuse

theorem inScope_alike {body other : Rendering σ α}
    (alike : Alike excused stores view body other) :
    Alike excused stores view (inScope body) (inScope other) := by
  intro left right contexts stored
  have matched := alike { left with context := left.context.push }
    { right with context := right.context.push } (view.push contexts) stored
  rw [inScope_eq, inScope_eq]
  exact matched.ending fun ended => ⟨view.pop ended.context, ended.store, ended.out⟩

/-- Steps in contexts of their own can be compared by a view of their own. -/
theorem inContext_alike (inside : View) {leftContext rightContext : Context}
    {body other : Rendering σ α}
    (related : inside.holds leftContext rightContext)
    (alike : Alike excused stores inside body other) :
    Alike excused stores view (inContext leftContext body) (inContext rightContext other) := by
  intro left right contexts stored
  have matched := alike { left with context := leftContext } { right with context := rightContext }
    related stored
  rw [inContext_eq, inContext_eq]
  exact matched.ending fun ended => ⟨contexts, ended.store, ended.out⟩

theorem forEach_alike {body other : Rendering σ Unit} (name : String)
    (items : List Value) (alike : Alike excused stores view body other) :
    Alike excused stores view (forEach name items body) (forEach name items other) := by
  apply inScope_alike
  apply alike_forM
  intro ⟨position, item⟩
  apply alike_bind (setVariable_alike name item)
  intro _
  exact alike_bind (setVariable_alike Position.boundName position.toValue) fun _ => alike

/-! ### Nodes -/

mutual

/-- A node is rendered alike where the variables that it reads have the same values, if
calls that read the same are performed alike. -/
theorem node_alike {call otherCall : Request → Rendering σ Unit}
    (called : ∀ request, view.Sees request.reads →
      Alike excused stores view (call request) (otherCall request))
    (node : Node) (sees : view.Sees node.reads) :
    Alike excused stores view (node.render call) (node.render otherCall) := by
  cases node with
  | text content =>
    simp only [Node.render]
    exact write_alike content
  | output e =>
    simp only [Node.render]
    exact alike_bind (valueOf_alike e sees) fun v => write_alike v.display
  | assign name e =>
    simp only [Node.render]
    exact alike_bind (valueOf_alike e sees) fun v => setVariable_alike name v
  | capture name body =>
    simp only [Node.render]
    exact alike_bind (captured_alike (nodes_alike called body sees)) fun text =>
      setVariable_alike name (.string text)
  | loop head body empty =>
    have bodyAlike := nodes_alike called body sees.right.left
    have emptyAlike := nodes_alike called empty sees.right.right
    simp only [Node.render]
    apply alike_bind (elementsOf_alike head sees.left)
    intro items
    cases items with
    | nil => exact emptyAlike
    | cons item items => exact forEach_alike head.item (item :: items) bodyAlike
  | branches arms otherwise negateFirst =>
    have otherwiseAlike := nodes_alike called otherwise sees.right
    simp only [Node.render]
    exact arms_alike called arms sees.left otherwiseAlike negateFirst
  | call request =>
    simp only [Node.render]
    exact called request sees

/-- Nodes are rendered alike where the variables that they read have the same values. -/
theorem nodes_alike {call otherCall : Request → Rendering σ Unit}
    (called : ∀ request, view.Sees request.reads →
      Alike excused stores view (call request) (otherCall request))
    (nodes : List Node) (sees : view.Sees (Node.readsAll nodes)) :
    Alike excused stores view (Node.renderAll call nodes) (Node.renderAll otherCall nodes) := by
  cases nodes with
  | nil => exact alike_pure ()
  | cons node nodes =>
    simp only [Node.renderAll]
    exact alike_bind (node_alike called node sees.left) fun _ =>
      nodes_alike called nodes sees.right

/-- Arms are rendered alike where the variables that their conditions and bodies read have the
same values: the same body is rendered, or on both sides none of them. -/
theorem arms_alike {call otherCall : Request → Rendering σ Unit}
    (called : ∀ request, view.Sees request.reads →
      Alike excused stores view (call request) (otherCall request))
    (arms : Arms) (sees : view.Sees (Node.readsArms arms)) {otherwise others : Rendering σ Unit}
    (otherwiseAlike : Alike excused stores view otherwise others) (negated : Bool) :
    Alike excused stores view (Node.renderFirst call otherwise negated arms)
      (Node.renderFirst otherCall others negated arms) := by
  match arms with
  | [] => exact otherwiseAlike
  | (condition, body) :: arms =>
    have bodyAlike := nodes_alike called body sees.right.left
    simp only [Node.renderFirst]
    apply alike_bind (test_alike condition sees.left)
    intro decided
    split
    · exact bodyAlike
    · exact arms_alike called arms sees.right.right otherwiseAlike false

end

end Rendering

/-! ### Calls and templates -/

/-- Stores on two sides that answer alike, and still do so after any lookup. -/
structure Pairing (engine : Engine σ) where
  stores : Store σ → Store σ → Prop
  answer : ∀ {left right} name, stores left right →
    (left.lookup engine.source name).1 = (right.lookup engine.source name).1
  later : ∀ {left right} name, stores left right →
    stores (left.lookup engine.source name).2 (right.lookup engine.source name).2

namespace Pairing

open Rendering

variable {engine : Engine σ} (pairing : Pairing engine) {excused : Error → Prop} {view : View}

/-- Asking for a snippet is alike on both sides, also if there is none. -/
theorem requireSnippet_alike (name : String) :
    Alike excused pairing.stores view (requireSnippet engine.source name)
      (requireSnippet engine.source name) := by
  intro left right contexts stored
  have answer := pairing.answer name stored
  have later := pairing.later name stored
  simp only [requireSnippet]
  revert answer later
  generalize left.store.lookup engine.source name = found
  generalize right.store.lookup engine.source name = otherFound
  obtain ⟨leftAnswer, leftStore⟩ := found
  obtain ⟨rightAnswer, rightStore⟩ := otherFound
  rintro ⟨⟩ later
  rcases leftAnswer with e | _ | content
  · exact .error e (.quiet contexts later rfl rfl)
  · exact .error _ (.quiet contexts later rfl rfl)
  · exact .ok content (.quiet contexts later rfl rfl)

/-- The content of a snippet is rendered alike with the same bindings, at any depths. -/
theorem renderContent_alike (view : View)
    {render otherRender : Template → Rendering σ Unit}
    (rendered : ∀ template, Alike excused pairing.stores View.scopes (render template)
      (otherRender template))
    (content : String) (depth otherDepth : Nat) (bound : List (String × Value)) :
    Alike excused pairing.stores view (engine.renderContent render content depth bound)
      (engine.renderContent otherRender content otherDepth bound) := by
  unfold Engine.renderContent
  apply alike_bind (readable_alike _)
  exact fun nodes => inContext_alike View.scopes ⟨rfl, rfl⟩ (rendered nodes)

/-- A call is performed alike where the variables that it reads have the same values: it
finds the same snippet, and renders it with the same bindings. What the snippet reads
does not matter, since its contexts are the same but for their depth. -/
theorem perform_alike {render otherRender : Template → Rendering σ Unit}
    (rendered : ∀ template, Alike excused pairing.stores View.scopes (render template)
      (otherRender template))
    (request : Request) (sees : view.Sees request.reads) :
    Alike excused pairing.stores view (request.perform engine render)
      (request.perform engine otherRender) := by
  intro left right contexts stored
  have agree := sees _ _ contexts
  rw [Request.perform_eq, Request.perform_eq, request.snippetName_congr agree,
    request.bindings_congr agree]
  have each (content : String) := alike_forM (request.bindings right.context) fun bound =>
    pairing.renderContent_alike view rendered content (left.context.depth + 1)
      (right.context.depth + 1) bound
  exact alike_bind (pairing.requireSnippet_alike _) each left right contexts stored

/-- A call is performed alike with the same number of levels left, and also with fewer
levels on the left if the limit of nesting is excused there. -/
theorem performWithin_alike {levels otherLevels : Nat}
    (fewer : levels = otherLevels ∨ excused .nestingTooDeep ∧ levels ≤ otherLevels)
    (request : Request) (sees : view.Sees request.reads) :
    Alike excused pairing.stores view (request.performWithin engine levels)
      (request.performWithin engine otherLevels) := by
  induction levels generalizing view otherLevels request with
  | zero =>
    intro left right contexts stored
    rcases fewer with rfl | ⟨excuse, -⟩
    · exact .error _ (.quiet contexts stored rfl rfl)
    -- Only the left side may be out of levels here.
    · exact .excused excuse
  | succ levels inductionHypothesis =>
    have positive : 0 < otherLevels := by
      rcases fewer with rfl | ⟨-, bound⟩
      · exact Nat.succ_pos levels
      · exact Nat.lt_of_lt_of_le (Nat.succ_pos levels) bound
    obtain ⟨remaining, rfl⟩ := Nat.exists_eq_succ_of_ne_zero (Nat.ne_of_gt positive)
    have fewerRemaining : levels = remaining ∨ excused .nestingTooDeep ∧ levels ≤ remaining :=
      fewer.imp Nat.succ.inj fun ⟨excuse, bound⟩ => ⟨excuse, Nat.le_of_succ_le_succ bound⟩
    apply pairing.perform_alike _ request sees
    intro template
    apply nodes_alike _ template (View.scopes_sees _)
    exact fun nested nestedSees => inductionHypothesis fewerRemaining nested nestedSees

/-- So is a template whose calls are performed with these levels left. -/
theorem renderAll_alike {levels otherLevels : Nat}
    (fewer : levels = otherLevels ∨ excused .nestingTooDeep ∧ levels ≤ otherLevels)
    (template : Template) (sees : view.Sees template.reads) :
    Alike excused pairing.stores view
      (Node.renderAll (Request.performWithin engine levels) template)
      (Node.renderAll (Request.performWithin engine otherLevels) template) :=
  nodes_alike (fun request seen => pairing.performWithin_alike fewer request seen) template sees

/-- A template is rendered alike where the variables that it reads have the same values,
at the same depth on both sides, or at a greater one on the left if the limit of nesting
is excused there. -/
theorem render_matched (template : Template) (sees : view.Sees template.reads)
    {left right : Run σ} (contexts : view.holds left.context right.context)
    (stored : pairing.stores left.store right.store)
    (deeper : left.context.depth = right.context.depth ∨
      excused .nestingTooDeep ∧ right.context.depth ≤ left.context.depth) :
    Matched excused (Alongside pairing.stores view left right) (template.render engine left)
      (template.render engine right) := by
  have fewer : left.context.levelsLeft = right.context.levelsLeft ∨
      excused .nestingTooDeep ∧ left.context.levelsLeft ≤ right.context.levelsLeft := by
    unfold Context.levelsLeft
    refine deeper.imp (fun same => ?_) fun ⟨excuse, bound⟩ => ⟨excuse, ?_⟩
    · rw [same]
    · omega
  exact pairing.renderAll_alike fewer template sees left right contexts stored

end Pairing

end Stencil
