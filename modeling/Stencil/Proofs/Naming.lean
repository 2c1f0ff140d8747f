import Stencil.Proofs.Calls
import Stencil.Proofs.Nesting

/-!
# Snippets named in quotes

The name of a snippet that stands in quotes passes several readings: the fragment is kept with its
quotes, it is looked up as the name of a variable, it is read as an expression, and all quotes are
taken from what was found. So the name denotes itself only if it has no quotes of the other kind,
and only if no variable is written like it, quotes included, which capturing a text makes possible.

The main statement says which snippet is called in each case, and that this one is rendered.
-/

namespace Stencil

open Rendering

variable {σ : Type}

/-- A text is bound to a variable that is written like a fragment. -/
def Context.BindsText (context : Context) (fragment : List Char) : Prop :=
  ∃ text, context.get? (String.ofList fragment) = some (.string text)

namespace Request

variable {request : Request} {quote : Char} {name : List Char}

/-- The name in quotes is called without any quotes, unless a text takes its place. -/
theorem snippetName_of_unbound (quotes : Markup.isQuote quote = true) (closed : quote ∉ name)
    (written : request.snippet = quote :: (name ++ [quote])) {caller : Context}
    (unbound : ¬caller.BindsText request.snippet) :
    request.snippetName caller = unquoted (String.ofList name) := by
  rw [snippetName_of_quoted quotes closed written]
  split
  · next text held => exact absurd ⟨text, held⟩ unbound
  · rfl

/-- A call whose snippet the store serves renders its content once for each of its bindings, one
call deeper, and asks the store for this snippet alone. -/
theorem render_of_found (engine : Engine σ) (request : Request) {content : String} {run : Run σ}
    (shallow : run.context.depth < deepestCall)
    (found : (run.store.lookup engine.source (request.snippetName run.context)).1 =
      .ok (some content)) :
    Template.render engine [.call request] run =
      (request.bindings run.context).forM
        (engine.renderContent (Template.render engine) content (run.context.depth + 1))
        { run with store :=
            (run.store.lookup engine.source (request.snippetName run.context)).2 } := by
  rw [Template.render_call engine request shallow, perform_eq]
  simp only [bind, EStateM.bind, requireSnippet_of_found found]

/-- What a snippet named in quotes denotes. Where no text is bound to a variable written like it,
it is the name without any quotes, so the name itself exactly if no other quotes stand in it; such
a text without its quotes is taken instead. When it is the name itself, the store is asked for it
and what it serves is rendered, at each depth above the limit of nesting. -/
theorem quoted_name_called (engine : Engine σ) {run : Run σ}
    (quotes : Markup.isQuote quote = true) (closed : quote ∉ name)
    (written : request.snippet = quote :: (name ++ [quote]))
    (shallow : run.context.depth < deepestCall) :
    (¬run.context.BindsText request.snippet →
      request.snippetName run.context = unquoted (String.ofList name) ∧
      (request.snippetName run.context = String.ofList name ↔
        ∀ c ∈ name, Markup.isQuote c = false)) ∧
    (∀ text, run.context.get? (String.ofList request.snippet) = some (.string text) →
      request.snippetName run.context = unquoted text) ∧
    ∀ content, request.snippetName run.context = String.ofList name →
      (run.store.lookup engine.source (String.ofList name)).1 = .ok (some content) →
      Template.render engine [.call request] run =
        (request.bindings run.context).forM
          (engine.renderContent (Template.render engine) content (run.context.depth + 1))
          { run with store := (run.store.lookup engine.source (String.ofList name)).2 } := by
  refine ⟨fun unbound => ?_, fun text held => ?_, fun content named found => ?_⟩
  · have called := snippetName_of_unbound quotes closed written unbound
    refine ⟨called, ?_⟩
    rw [called, unquoted_eq_self_iff, Unquoted, String.toList_ofList]
  · rw [snippetName_of_quoted quotes closed written, held]
  · rw [← named] at found ⊢
    exact render_of_found engine request shallow found

/-- A name without quotes is served and rendered, once and one call deeper. -/
theorem plain_name_called :
    let run : Run Unit := ⟨.top [], "", (Store.empty ()).register "card" "hello"⟩
    let engine : Engine Unit := ⟨.standard, .none⟩
    let request : Request := ⟨"\"card\"".toList, .nothing, none, []⟩
    request.snippetName run.context = "card" ∧
      Template.render engine [.call request] run =
        [[]].forM (engine.renderContent (Template.render engine) "hello" 1) run := by
  intro run engine request
  have unbound : ¬run.context.BindsText request.snippet := by
    rintro ⟨text, held⟩
    cases held
  obtain ⟨denoted, -, rendered⟩ := quoted_name_called engine (by decide : Markup.isQuote '"' = true)
    (by decide : '"' ∉ "card".toList) (show request.snippet = _ by rfl)
    (show run.context.depth < deepestCall by decide)
  have plain : Unquoted "card" := (Markup.isName_of_identifier? (by decide)).unquoted
  have named := (denoted unbound).2.mpr plain
  have found : run.store.lookup engine.source (String.ofList "card".toList) =
      (.ok (some "hello"), run.store) := rfl
  have performed := rendered "hello" named (congrArg Prod.fst found)
  rw [found] at performed
  exact ⟨named.trans String.ofList_toList, performed⟩

/-- A name with an apostrophe is not called as it is written: another snippet is rendered, though
the store serves the one that is named. -/
theorem apostrophe_lost : ¬∀ (store : Store Unit) (caller : Context) (request : Request)
    (quote : Char) (name : List Char) (content : String), Markup.isQuote quote = true →
    quote ∉ name → request.snippet = quote :: (name ++ [quote]) → caller.depth < deepestCall →
    (store.lookup .none (String.ofList name)).1 = .ok (some content) →
    request.snippetName caller = String.ofList name := by
  intro itself
  have named := itself ((Store.empty ()).register "it's" "ok") (.top [])
    ⟨"\"it's\"".toList, .nothing, none, []⟩ '"' "it's".toList "ok" (by decide) (by decide) rfl
    (by decide) (by decide +kernel)
  exact absurd named (by decide +kernel)

end Request

end Stencil
