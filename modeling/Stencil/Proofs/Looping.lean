import Stencil.Proofs.Calls
import Stencil.Proofs.Concatenation
import Stencil.Proofs.Iteration

/-!
# Loops around calls and calls for each element

A loop whose body hands its element and its position to a snippet does what a call for
each element does, though the two iterate in different ways: the loop binds the element
in a scope inside of the caller's, and the call makes a context for each element.

The proof goes along both iterations at once. Before each element the outputs are the
same, both sides find the same content, and the variables of the caller have their values
on both sides, apart from the two that the loop binds.
-/

namespace Stencil

variable {σ : Type}

/-! ### The content of a snippet -/

namespace Rendering

variable (engine : Engine σ)

/-- The content of a snippet is rendered in the same way whatever the current context is,
which is kept. -/
theorem renderContent_elsewhere (render : Template → Rendering σ Unit) (content : String)
    (depth : Nat) (bound : List (String × Value)) (context : Context) (run : Run σ) :
    engine.renderContent render content depth bound { run with context := context } =
      ending (fun last => { last with context := context })
        (engine.renderContent render content depth bound run) := by
  simp only [Engine.renderContent, bind, EStateM.bind]
  cases Template.parse engine.registry content.toList with
  | error cause => rfl
  | ok template =>
    simp only [readable, inContext_eq]
    cases render template { run with context := ⟨Dict.ofList bound, [], depth⟩ } <;> rfl

/-- Rendering the content of a snippet leaves the context as it was. -/
theorem renderContent_sealed (levels : Nat) (content : String) (depth : Nat)
    (bound : List (String × Value)) :
    Keeps Sealed (engine.renderContent (Node.renderAll (Request.performWithin engine levels))
      content depth bound) := by
  apply sealed_bind (readable_sealed _)
  intro template
  exact inContext_sealed _ (nodes_confined (performWithin_sealed engine levels) template)

/-- What the store holds, it still holds after rendering the content of a snippet. -/
theorem held_renderContent (levels : Nat) (content : String) (depth : Nat)
    (bound : List (String × Value)) {run : Run σ} {name held : String}
    (holds : run.store.held name = some held) :
    ((engine.renderContent (Node.renderAll (Request.performWithin engine levels)) content depth
      bound).after run).store.held name = some held := by
  let pairing : Pairing engine := .keeping engine (fun store => store.held name = some held)
    fun asked holds => Store.held_lookup holds asked
  have rendered (template : Template) :
      Alike (fun _ => False) pairing.stores View.scopes
        (Node.renderAll (Request.performWithin engine levels) template)
        (Node.renderAll (Request.performWithin engine levels) template) :=
    pairing.renderAll_alike (.inl rfl) template (View.scopes_sees _)
  have matched := pairing.renderContent_alike View.same rendered content depth depth bound run run
    rfl ⟨rfl, holds⟩
  exact (matched.ended fun _ _ => id).2.store.2

end Rendering

/-! ### Both iterations at once -/

namespace Iteration

open Rendering

/-- Where the call for each element, on the left, and the loop, on the right, stand before
an element. The call has looked its snippet up once, and the loop looks it up for each
element, so the left store is the one in which the next lookup on the right ends. -/
structure Together (iteration : Iteration) (source : Source σ) (content : String)
    (caller : Context) (left right : Run σ) : Prop where
  out : left.out = right.out
  found : right.store.lookup source (iteration.call.snippetName caller) =
    (.ok (some content), left.store)
  context : left.context = caller
  depth : right.context.depth = caller.depth
  agree : iteration.AgreeOutside right.context caller

/-- What the loop does for an element. -/
def body (iteration : Iteration) (call : Request → Rendering σ Unit) (position : Position)
    (v : Value) : Rendering σ Unit := do
  setVariable iteration.item v
  setVariable Position.boundName position.toValue
  call iteration.inner

variable {iteration : Iteration} {e : Expr} (engine : Engine σ) {levels : Nat} {run : Run σ}

/-- The loop does this for each element in turn, in a scope of its own. -/
theorem render_loop (left : run.context.levelsLeft = levels + 1) :
    Template.render engine [iteration.loop e] run =
      inScope ((Position.locate ((e.eval run.context.get?).elements?.getD [])).forM
        fun (position, v) =>
          iteration.body (Request.performWithin engine (levels + 1)) position v) run := by
  rw [Template.render_eq, renderAll_single, left, Iteration.loop, loop_eq_forEach, renderAll_call]
  rfl

/-- The loop leaves the context as it was. -/
theorem render_loop_sealed (left : run.context.levelsLeft = levels + 1) :
    Sealed run ((Template.render engine [iteration.loop e]).after run) := by
  have kept := forEach_sealed iteration.item ((e.eval run.context.get?).elements?.getD [])
    (keeps_confined [] (performWithin_sealed engine (levels + 1) iteration.inner)) run
  rw [after, render_loop engine left]
  exact kept

section

variable (well : iteration.WellFormed e)

include well

/-- The call for each element finds the snippet and renders its content for each element in
turn. -/
theorem WellFormed.render_call {content : String} (left : run.context.levelsLeft = levels + 1)
    (found : (run.store.lookup engine.source (iteration.call.snippetName run.context)).1 =
      .ok (some content)) :
    Template.render engine [.call iteration.call] run =
      ((Position.locate ((e.eval run.context.get?).elements?.getD [])).forM fun (position, v) =>
        engine.renderContent (Node.renderAll (Request.performWithin engine levels)) content
          (run.context.depth + 1) (iteration.given run.context position v))
        { run with store :=
            (run.store.lookup engine.source (iteration.call.snippetName run.context)).2 } := by
  rw [Template.render_eq, renderAll_call, left, performWithin_of_found engine levels found,
    well.bindings_call]
  exact congrFun List.forM_map _

/-- The body of the loop does for an element what the call for each element does. -/
theorem WellFormed.body_matched (levels : Nat) {content : String} {caller : Context}
    (position : Position) (v : Value) {left right : Run σ}
    (together : iteration.Together engine.source content caller left right) :
    Matched (fun _ => False) (iteration.Together engine.source content caller)
      (engine.renderContent (Node.renderAll (Request.performWithin engine levels)) content
        (caller.depth + 1) (iteration.given caller position v) left)
      (iteration.body (Request.performWithin engine (levels + 1)) position v right) := by
  let inside := iteration.within right.context position v
  let rendered := engine.renderContent (Node.renderAll (Request.performWithin engine levels))
    content (caller.depth + 1)
  have agree : iteration.AgreeOutside inside caller := together.agree.within position v
  have found : right.store.lookup engine.source (iteration.inner.snippetName inside) =
      (.ok (some content), left.store) := by
    rw [well.snippetName_inner agree]
    exact together.found
  obtain ⟨bound, once, same⟩ := well.bindings_inner together.agree position v
  have start : ({ right with context := inside, store := left.store } : Run σ) =
      { left with context := inside } := by
    simp only [together.out]
  have performed : iteration.body (Request.performWithin engine (levels + 1)) position v right =
      ending (fun last => { last with context := inside })
        (rendered (iteration.given caller position v) left) := calc
    _ = iteration.inner.performWithin engine (levels + 1) { right with context := inside } := rfl
    _ = rendered bound { left with context := inside } := by
      have depth : inside.depth = caller.depth := together.depth
      have single : [bound].forM rendered = rendered bound := bind_pure_unit
      rw [performWithin_of_found engine levels (congrArg Prod.fst found), once, found, depth,
        ← start]
      exact congrFun single _
    _ = rendered (iteration.given caller position v) { left with context := inside } := by
      simp only [rendered, Engine.renderContent, same]
    _ = _ := renderContent_elsewhere engine _ content _ _ inside left
  rw [performed]
  apply matched_ending
  -- What was found is held from now on, so that the next lookup changes nothing.
  have holds := Store.held_of_lookup (congrArg Prod.fst together.found)
  rw [together.found] at holds
  exact {
    out := rfl
    found := Store.lookup_held (held_renderContent engine levels content _ _ holds)
    context := (renderContent_sealed engine levels content _ _ left).context.trans together.context
    depth := together.depth
    agree := agree }

/-- A call for each element and a loop around a call append the same, fail alike and leave
the caller's context as it was. -/
theorem WellFormed.rendered {content : String} (shallow : run.context.depth < deepestCall)
    (found : (run.store.lookup engine.source (iteration.call.snippetName run.context)).1 =
      .ok (some content)) :
    let called := Template.render engine [.call iteration.call]
    let looped := Template.render engine [iteration.loop e]
    looped.failure? run = called.failure? run ∧
      (looped.after run).out = (called.after run).out ∧
      (looped.after run).context = (called.after run).context := by
  intro called looped
  obtain ⟨levels, left⟩ : ∃ levels, run.context.levelsLeft = levels + 1 :=
    Nat.exists_eq_succ_of_ne_zero (Nat.sub_ne_zero_of_lt shallow)
  have start : iteration.Together engine.source content run.context
      { run with store :=
          (run.store.lookup engine.source (iteration.call.snippetName run.context)).2 }
      { run with context := run.context.push } := {
    out := rfl
    found := Prod.ext found rfl
    context := rfl
    depth := rfl
    agree := fun name _ _ => Context.get?_push run.context name }
  have matched : Matched (fun _ => False) (fun left right => right.out = left.out)
      (called run) (looped run) := by
    simp only [called, looped]
    rw [well.render_call engine left found, render_loop engine left, inScope_eq]
    have together := Matched.forM
      (Position.locate ((e.eval run.context.get?).elements?.getD []))
      (fun located _ _ before => well.body_matched engine levels located.1 located.2 before) start
    apply together.ending_right
    intro _ _ ended
    exact ended.out.symm
  have calledSealed : Sealed run (called.after run) := by
    have kept := performWithin_sealed engine (levels + 1) iteration.call run
    simpa only [after, called, Template.render_eq, renderAll_call, left] using kept
  obtain ⟨failure, out⟩ := matched.ended fun _ _ => id
  exact ⟨failure.symm, out,
    (render_loop_sealed engine left).context.trans calledSealed.context.symm⟩

end

end Iteration

open Markup Rendering

/-- A loop whose body hands its element and its position to a snippet, and a call of that
snippet for each element, do the same from every run at a depth at which calls are still
allowed and in which the snippet is found: they append the same text, fail with the same
error or not at all, and leave the same variables. This holds for every collection, for
those that have no elements and for values that are no collections too, and whatever the
snippet does; it may be malformed. The parameters are arbitrary fragments that do not read
what the loop binds. They may override the name of the element and the position. -/
theorem loops_agree (env : Environment σ) (source : Source σ) {iteration : Iteration} {e : Expr}
    (well : iteration.WellFormed e) (loops : Dict.get? "for" env.tags = some .loop)
    (calls : Dict.get? "render" env.tags = some .call) :
    ∃ loop each, env.parse iteration.loopSource = .ok loop ∧
      env.parse iteration.callSource = .ok each ∧
      ∀ (run : Run σ) (content : String), run.context.depth < deepestCall →
        (run.store.lookup source (iteration.call.snippetName run.context)).1 = .ok (some content) →
        let looped := loop.render (env.engine source)
        let called := each.render (env.engine source)
        looped.failure? run = called.failure? run ∧
          (looped.after run).out = (called.after run).out ∧
          (looped.after run).context = (called.after run).context :=
  ⟨[iteration.loop e], [.call iteration.call],
    env.parse_eq_ok_iff.mpr (well.parse_loopSource calls loops),
    env.parse_eq_ok_iff.mpr (well.parse_callSource calls),
    fun _ _ shallow found => well.rendered (env.engine source) shallow found⟩

/-- A string and null as the elements, with a parameter that is written as a string. -/
theorem loops_agree_rows :
    let env : Environment Unit := .new .default ()
    let loopText := "\x7b% for x in list %\x7d" ++
      "\x7b% render 'row' with x as cell, forloop: forloop, k: 'v' %\x7d\x7b% endfor %\x7d"
    let callText := "\x7b% render 'row' for list as cell, k: 'v' %\x7d"
    let row := "\x7b\x7b forloop.index \x7d\x7d\x7b\x7b cell \x7d\x7d\x7b\x7b k \x7d\x7d;"
    let run : Run Unit :=
      ⟨.top [("list", .array [.string "a", .null])], "o", ⟨[("row", row)], [], ()⟩⟩
    ∃ loop each, env.parse loopText = .ok loop ∧ env.parse callText = .ok each ∧
      ((Template.render (env.engine .none) loop).after run).out = "o1av;2v;" ∧
      ((Template.render (env.engine .none) each).after run).out = "o1av;2v;" := by
  intro env loopText callText row run
  have quotedRead : Expr.parse "'v'".toList = .ok (.literal (.string "v")) := by cbv
  have listNamed : IsName "list".toList := isName_of_identifier? (by decide)
  have well : Iteration.WellFormed ⟨'\'', "row".toList, "list".toList, "x", "cell",
      [("k", "'v'".toList)]⟩ (.var "list") := {
    quotes := by decide
    closed := by decide
    parsed := by cbv
    tight := fun c member => (listNamed.plain_of_mem (outside_subset none _ member)).1
    itemNamed := isName_of_identifier? (by decide)
    itemStarts := by
      rintro _ ⟨⟩
      decide
    itemFree := by decide
    named := isName_of_identifier? (by decide)
    written := by
      intro parameter member
      rw [List.mem_singleton.mp member]
      exact ⟨isName_of_identifier? (by decide),
        isFragment_of_fragment? (by decide : fragment? "'v'".toList = some ("'v'".toList, []))⟩
    unread := by
      intro parameter member
      rw [List.mem_singleton.mp member]
      simp only [Request.wordReads, Request.fragmentReads, quotedRead, Expr.reads]
      decide
    snippetUnclosed := unclosed_of_not_mem (by decide)
    collectionUnclosed := unclosed_of_not_mem (by decide)
    unclosed := by
      intro parameter member
      rw [List.mem_singleton.mp member]
      exact unclosed_of_not_mem (by decide) }
  obtain ⟨loop, each, parsedLoop, parsedEach, agree⟩ :=
    loops_agree env .none well (by decide) (by decide)
  rw [show Iteration.loopSource _ = loopText by decide] at parsedLoop
  rw [show Iteration.callSource _ = callText by decide] at parsedEach
  let call : Request :=
    ⟨"'row'".toList, .each "list".toList, some "cell", [("k", "'v'".toList)]⟩
  have parsedCall : env.parse callText = .ok [.call call] := by cbv
  cases parsedEach.symm.trans parsedCall
  have written : ((Template.render (env.engine .none) [.call call]).after run).out =
      "o1av;2v;" := by decide +kernel
  obtain ⟨-, out, -⟩ := agree run row (by decide) (by decide +kernel)
  exact ⟨loop, _, parsedLoop, parsedCall, out.trans written, written⟩

end Stencil
