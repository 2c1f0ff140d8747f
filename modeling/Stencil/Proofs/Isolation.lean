import Stencil.Proofs.Simulation

/-!
# Variables that a template does not read

The value of a variable that a template does not read cannot be observed by rendering
it: not in the output, not in an error, not in the store, and not in another variable.
This holds whatever the called snippets read, since none of the caller's variables
reach them.

The proof compares two renderings from contexts that differ in this variable alone.
Inside of calls the two contexts are the same.
-/

namespace Stencil

variable {σ : Type}

/-- Two contexts of the same depth and with as many scopes differ, scope by scope, in the
binding of one variable at most. -/
structure Context.AgreeExcept (hidden : String) (left right : Context) : Prop where
  depth : left.depth = right.depth
  count : left.outer.length = right.outer.length
  bindings : ∀ name, name ≠ hidden →
    left.scopes.map (Dict.get? name) = right.scopes.map (Dict.get? name)

namespace Context.AgreeExcept

variable {hidden : String} {left right : Context}

/-- Any other variable has the same value. -/
theorem get?_eq (agree : AgreeExcept hidden left right) {name : String}
    (different : name ≠ hidden) : left.get? name = right.get? name := by
  have lookup (scopes : List Scope) :
      scopes.findSome? (Dict.get? name) = (scopes.map (Dict.get? name)).findSome? id := by
    rw [List.findSome?_map, Function.id_comp]
  unfold get?
  rw [lookup, lookup, agree.bindings name different]

/-- Binding the same on both sides binds nothing else. -/
theorem set (agree : AgreeExcept hidden left right) (name : String) (v : Value) :
    AgreeExcept hidden (left.set name v) (right.set name v) where
  depth := agree.depth
  count := agree.count
  bindings other different := by
    have same := agree.bindings other different
    simp only [scopes, List.map_cons, List.cons.injEq] at same
    simp only [scopes, Context.set, List.map_cons, Dict.get?_insert, same.1, same.2]

theorem push (agree : AgreeExcept hidden left right) :
    AgreeExcept hidden left.push right.push where
  depth := agree.depth
  count := congrArg Nat.succ agree.count
  bindings name different := congrArg (none :: ·) (agree.bindings name different)

/-- As many scopes are closed on both sides. -/
theorem pop (agree : AgreeExcept hidden left right) : AgreeExcept hidden left.pop right.pop := by
  obtain ⟨inner, outer, depth⟩ := left
  obtain ⟨otherInner, otherOuter, otherDepth⟩ := right
  cases outer with
  | nil =>
    have noScopes : otherOuter = [] := List.length_eq_zero_iff.mp agree.count.symm
    subst noScopes
    exact agree
  | cons scope outer =>
    cases otherOuter with
    | nil => exact absurd agree.count (Nat.succ_ne_zero outer.length)
    | cons otherScope otherOuter =>
      refine ⟨agree.depth, Nat.succ.inj agree.count, fun name different => ?_⟩
      exact (List.cons.inj (agree.bindings name different)).2

end Context.AgreeExcept

/-- Contexts that differ in one variable at most. -/
def View.except (hidden : String) : View where
  holds := Context.AgreeExcept hidden
  set name v agree := agree.set name v
  push agree := agree.push
  pop agree := agree.pop

/-- Such contexts agree on all variables among which that one is not. -/
theorem View.except_sees {hidden : String} {names : List String} (absent : hidden ∉ names) :
    (View.except hidden).Sees names := fun _ _ agree _ member =>
  agree.get?_eq fun same => absent (same ▸ member)

/-- The same store on both sides. -/
def Pairing.same (engine : Engine σ) : Pairing engine where
  stores left right := left = right
  answer _ equal := equal ▸ rfl
  later _ equal := equal ▸ rfl

open Rendering

/-- A variable that a template does not read cannot be observed by rendering it. From
contexts that differ in this variable alone, in any of their scopes, the same text is
appended, the rendering ends in the same error if any and with the same store, and the
contexts still differ in this variable alone. The called snippets are arbitrary. -/
theorem unread_unobservable (engine : Engine σ) (template : Template) (hidden : String)
    (unread : hidden ∉ template.reads) (left right : Run σ)
    (contexts : left.context.AgreeExcept hidden right.context)
    (stores : left.store = right.store) :
    let leftEnd := (template.render engine).after left
    let rightEnd := (template.render engine).after right
    (template.render engine).failure? left = (template.render engine).failure? right ∧
      (∃ text, leftEnd.out = left.out ++ text ∧ rightEnd.out = right.out ++ text) ∧
      leftEnd.store = rightEnd.store ∧
      leftEnd.context.AgreeExcept hidden rightEnd.context := by
  have matched : Matched (fun _ => False)
      (Alongside (Pairing.same engine).stores (.except hidden) left right)
      (template.render engine left) (template.render engine right) :=
    (Pairing.same engine).render_matched template (View.except_sees unread) contexts stores
      (.inl contexts.depth)
  obtain ⟨failure, ended⟩ := matched.ended fun _ _ => not_false
  exact ⟨failure, ended.out, ended.store, ended.context⟩

/-- A snippet that prints `secret` does not get it from a caller that binds it in either
of two scopes and assigns it afterwards, but does not read it. -/
theorem secret_unobservable :
    let engine : Engine Unit := ⟨.standard, .none⟩
    let template : Template := [
      .call ⟨"'card'".toList, .nothing, none, [("title", "name".toList)]⟩,
      .output (.var "name"),
      .assign "secret" (.var "name")]
    let store : Store Unit := ⟨[("card", "[\x7b\x7b secret \x7d\x7d]")], [], ()⟩
    let left : Run Unit := ⟨⟨[("name", .string "n")], [[("secret", .bool true)]], 0⟩, "a", store⟩
    let right : Run Unit :=
      ⟨⟨[("name", .string "n"), ("secret", .bool false)], [[]], 0⟩, "b", store⟩
    "secret" ∉ template.reads ∧ left.context.AgreeExcept "secret" right.context ∧
      (template.render engine).failure? left = (template.render engine).failure? right ∧
      ∃ text, ((template.render engine).after left).out = "a" ++ text ∧
        ((template.render engine).after right).out = "b" ++ text := by
  intro engine template store left right
  have unread : "secret" ∉ template.reads := by decide +kernel
  have contexts : left.context.AgreeExcept "secret" right.context := by
    refine ⟨rfl, rfl, fun name different => ?_⟩
    simp [left, right, Context.scopes, Dict.get?, Ne.symm different]
  obtain ⟨failure, appended, -⟩ :=
    unread_unobservable engine template "secret" unread left right contexts rfl
  exact ⟨unread, contexts, failure, appended⟩

end Stencil
