import Stencil.Proofs.Acceptance
import Stencil.Proofs.Printing
import Stencil.Proofs.Steps
import Stencil.Proofs.Words

/-!
# Assignments

An assignment is split at its first equals sign. The right side is read to its end as one
expression. Of the left side only the identifier at its start is read, so whatever stands between
this identifier and the sign is dropped, and the identifier is bound all the same.

The main statement says which markups are accepted and what is dropped of them, that all others
are mistakes, and that rendering binds the one variable and nothing else.
-/

namespace Stencil

namespace Markup

/-- An identifier goes no further than this: its question mark ends it, or what follows does. -/
def Stops (name rest : List Char) : Prop := name.getLast? = some '?' ∨ EndsName rest

/-- What follows an identifier that has been read does not go on with it. -/
theorem stops_of_name? {text name rest : List Char} (read : name? text = some (name, rest)) :
    Stops name rest := by
  unfold name? at read
  split at read
  · cases read
  · next c text =>
    split at read
    · dsimp only at read
      split at read
      · cases read
        exact .inl List.getLast?_concat
      · next noMark =>
        cases read
        refine .inr fun d head => ⟨?_, ?_⟩
        · have stops := List.head?_dropWhile_not continuesName text
          rw [Option.mem_def.mp head] at stops
          simpa using stops
        · rintro rfl
          obtain ⟨after, same⟩ := List.head?_eq_some_iff.mp head
          exact noMark after same
    · cases read

/-- A name that is read up to where it stops is read whole. -/
theorem IsName.name?_of_stops {name rest : List Char} (named : IsName name)
    (stops : Stops name rest) : name? (name ++ rest) = some (name, rest) := by
  rcases stops with asks | ends
  · cases named with
    | plain starts continues =>
      have last : NameStart '?' ∨ '?' = '-' := by
        rcases List.mem_cons.mp (List.mem_of_getLast? asks) with rfl | member
        · exact .inl starts
        · exact continues _ member
      exact absurd (continuesName_iff.mpr last) (by decide)
    | asking starts continues =>
      rw [List.cons_append, List.append_assoc]
      exact name?_asking starts continues rest
  · exact named.name?_append ends

/-- The identifier at the start of a text is the longest one. -/
theorem identifier?_eq_some_iff {text rest : List Char} {name : String} :
    identifier? text = some (name, rest) ↔
      text = name.toList ++ rest ∧ IsName name.toList ∧ Stops name.toList rest := by
  constructor
  · intro read
    obtain ⟨whole, named⟩ := identifier?_eq_some read
    refine ⟨whole, named, ?_⟩
    simp only [identifier?, Option.map_eq_some_iff, Prod.mk.injEq, Prod.exists] at read
    obtain ⟨_, _, read, rfl, rfl⟩ := read
    rw [String.toList_ofList]
    exact stops_of_name? read
  · rintro ⟨rfl, named, stops⟩
    simp only [identifier?, named.name?_of_stops stops, Option.map_some, String.ofList_toList]

end Markup

namespace Template

open Markup

/-- What a markup assigns: the expression after the first equals sign to the longest identifier
at the start of what stands before it. The text between the two is dropped. -/
inductive Assigns : (markup : List Char) → String → (dropped : List Char) → Expr → Prop where
  | intro {left right dropped : List Char} {name : String} {e : Expr} (first : '=' ∉ left)
      (start : Text.trim left = name.toList ++ dropped) (named : IsName name.toList)
      (stops : Stops name.toList dropped) (parsed : Expr.parse right = .ok e) :
      Assigns (left ++ '=' :: right) name dropped e

/-- A markup without an equals sign is not split, and any other one at the first. -/
theorem splitAt?_equals {markup left right : List Char} :
    Text.splitAt? ['='] markup = some (left, right) ↔
      markup = left ++ '=' :: right ∧ '=' ∉ left := by
  have single : ¬['='] <:+: left ++ (['='] : List Char).dropLast ↔ '=' ∉ left := by
    simp [List.singleton_infix_iff]
  rw [Text.splitAt?_eq_some_iff (List.cons_ne_nil _ _), single]
  rfl

/-- How the parts of what a markup assigns are found. -/
theorem assigns_iff {markup dropped : List Char} {name : String} {e : Expr} :
    Assigns markup name dropped e ↔ ∃ left right,
      Text.splitAt? ['='] markup = some (left, right) ∧
      identifier? (Text.trim left) = some (name, dropped) ∧ Expr.parse right = .ok e := by
  constructor
  · rintro ⟨first, start, named, stops, parsed⟩
    exact ⟨_, _, splitAt?_equals.mpr ⟨rfl, first⟩,
      identifier?_eq_some_iff.mpr ⟨start, named, stops⟩, parsed⟩
  · rintro ⟨left, right, split, identified, parsed⟩
    obtain ⟨rfl, first⟩ := splitAt?_equals.mp split
    obtain ⟨start, named, stops⟩ := identifier?_eq_some_iff.mp identified
    exact .intro first start named stops parsed

/-- An assignment is read as what its markup assigns. -/
theorem readAssign_eq_ok_iff {markup : List Char} {name : String} {e : Expr} :
    readAssign markup = .ok (name, e) ↔ ∃ dropped, Assigns markup name dropped e := by
  simp only [assigns_iff]
  constructor
  · intro read
    unfold readAssign at read
    split at read
    · cases read
    · next left right split =>
      split at read
      · cases read
      · next found dropped identified =>
        obtain ⟨_, parsed, same⟩ := exists_of_map_eq_ok read
        cases same
        exact ⟨dropped, left, right, split, identified, parsed⟩
  · rintro ⟨dropped, left, right, split, identified, parsed⟩
    simp only [readAssign, split, identified, parsed]
    rfl

/-- A markup assigns in one way at most. -/
theorem Assigns.unique {markup dropped otherDropped : List Char} {name otherName : String}
    {e other : Expr} (assigns : Assigns markup name dropped e)
    (otherwise : Assigns markup otherName otherDropped other) :
    name = otherName ∧ dropped = otherDropped ∧ e = other := by
  obtain ⟨left, right, split, identified, parsed⟩ := assigns_iff.mp assigns
  obtain ⟨_, _, splitToo, identifiedToo, parsedToo⟩ := assigns_iff.mp otherwise
  cases split.symm.trans splitToo
  cases identified.symm.trans identifiedToo
  cases parsed.symm.trans parsedToo
  exact ⟨rfl, rfl, rfl⟩

/-- A tag of an assignment is read as its markup is, and fails as its markup does. -/
theorem readUntil_assignTag {registry : Registry} {inner : List Char}
    (registered : Dict.get? (tagName inner) registry = some .assign) :
    (readUntil registry [] [.tag inner]).1 =
      (readAssign (tagMarkup inner)).map fun (name, e) => ([.assign name e], none) := by
  have stepped := @step_free registry [] .start inner rfl List.not_mem_nil
  rw [registered] at stepped
  cases read : readAssign (tagMarkup inner) with
  | error cause =>
    simp only [State.openTag, read, Except.map] at stepped
    simp only [readUntil, readFrom, stepped, Except.map]
  | ok assigned =>
    simp only [State.openTag, read, Except.map] at stepped
    simp only [readUntil, readFrom, stepped, Except.map]
    rfl

/-- Nothing is dropped exactly if the identifier is all that stands before the sign. -/
theorem assigns_nil_iff {markup : List Char} {name : String} {e : Expr} :
    Assigns markup name [] e ↔ ∃ left right, markup = left ++ '=' :: right ∧ '=' ∉ left ∧
      Text.trim left = name.toList ∧ IsName name.toList ∧ Expr.parse right = .ok e := by
  constructor
  · generalize nothing : ([] : List Char) = dropped
    rintro ⟨first, start, named, -, parsed⟩
    rw [← nothing, List.append_nil] at start
    exact ⟨_, _, rfl, first, start, named, parsed⟩
  · rintro ⟨left, right, rfl, first, start, named, parsed⟩
    refine .intro first (by rw [start, List.append_nil]) named (.inr ?_) parsed
    rintro _ ⟨⟩

/-- Rendering an assignment binds its variable in the innermost scope. -/
theorem render_assign {σ : Type} (engine : Engine σ) (name : String) (e : Expr) (run : Run σ) :
    Template.render engine [.assign name e] run =
      .ok () { run with context := run.context.set name (e.eval run.context.get?) } := by
  rw [render_eq, Rendering.renderAll_single]
  rfl

/-- Which markups are assignments, what they assign, and what rendering them does. A markup is
accepted exactly if an equals sign stands in it, an identifier starts what stands before the
first one, up to white space, and an expression is all that stands after it; any other one is a
mistake. The identifier need not be all that stands before the sign: the rest of it is dropped.
A tag of an assignment is read in this way, and rendering it, from any run, succeeds, writes
nothing and binds that identifier to the value of the expression in the innermost scope; no other
binding and no other scope changes. -/
theorem assignments_read_and_bound (markup : List Char) :
    (∀ name e, readAssign markup = .ok (name, e) ↔ ∃ dropped, Assigns markup name dropped e) ∧
    ((∀ name dropped e, ¬Assigns markup name dropped e) →
      ∃ cause, readAssign markup = .error cause) ∧
    (∀ name e, Assigns markup name [] e ↔ ∃ left right, markup = left ++ '=' :: right ∧
      '=' ∉ left ∧ Text.trim left = name.toList ∧ IsName name.toList ∧
      Expr.parse right = .ok e) ∧
    (∀ name otherName dropped otherDropped e other, Assigns markup name dropped e →
      Assigns markup otherName otherDropped other →
      name = otherName ∧ dropped = otherDropped ∧ e = other) ∧
    (∀ registry inner, Dict.get? (tagName inner) registry = some .assign →
      tagMarkup inner = markup → (readUntil registry [] [.tag inner]).1 =
        (readAssign markup).map fun (name, e) => ([.assign name e], none)) ∧
    ∀ name dropped e, Assigns markup name dropped e →
      ∀ {σ : Type} (engine : Engine σ) (run : Run σ),
        let rendering := Template.render engine [.assign name e]
        let ended := rendering.after run
        rendering.failure? run = none ∧ ended.out = run.out ∧ ended.store = run.store ∧
          ended.context.depth = run.context.depth ∧ ended.context.outer = run.context.outer ∧
          Dict.get? name ended.context.inner = some (e.eval run.context.get?) ∧
          ∀ other, other ≠ name →
            Dict.get? other ended.context.inner = Dict.get? other run.context.inner := by
  refine ⟨fun name e => readAssign_eq_ok_iff, fun nothing => ?_, fun name e => assigns_nil_iff,
    fun _ _ _ _ _ _ assigns otherwise => assigns.unique otherwise, ?_, ?_⟩
  · cases read : readAssign markup with
    | error cause => exact ⟨cause, rfl⟩
    | ok assigned =>
      obtain ⟨dropped, assigns⟩ := readAssign_eq_ok_iff.mp read
      exact absurd assigns (nothing _ _ _)
  · rintro registry inner registered rfl
    exact readUntil_assignTag registered
  · intro name dropped e assigns σ engine run rendering ended
    obtain ⟨succeeded, last⟩ := Rendering.ended_of_ok (render_assign engine name e run)
    have ends : ended = _ := last
    rw [ends]
    refine ⟨succeeded, rfl, rfl, rfl, rfl, Dict.get?_insert_self name _ _,
      fun other different => ?_⟩
    exact Dict.get?_insert_of_ne name other _ _ different.symm

/-- A markup with two words before its sign assigns to the first one. -/
theorem assigns_total :
    Assigns "total price = 5".toList "total" " price".toList (.literal (.ofInt 5)) := by
  have first : '=' ∉ "total price ".toList := by decide
  have parsed : Expr.parse " 5".toList = .ok (.literal (.ofInt 5)) := by cbv
  exact .intro first (by decide) (isName_of_identifier? (by decide)) (.inr (endsName_space _))
    parsed

/-- The second word is dropped, and the variable is bound in the innermost scope. -/
theorem word_dropped :
    let markup := "total price = 5".toList
    let run : Run Unit := ⟨⟨[("a", .null)], [[("total", .null)]], 3⟩, "o", .empty ()⟩
    let rendering := Template.render (⟨.standard, .none⟩ : Engine Unit)
      [.assign "total" (.literal (.ofInt 5))]
    readAssign markup = .ok ("total", .literal (.ofInt 5)) ∧
      Dict.get? "total" (rendering.after run).context.inner = some (.ofInt 5) ∧
      (rendering.after run).context.outer = [[("total", .null)]] := by
  intro markup run rendering
  obtain ⟨accepts, -, -, -, -, binds⟩ := assignments_read_and_bound markup
  obtain ⟨-, -, -, -, outer, bound, -⟩ := binds _ _ _ assigns_total ⟨.standard, .none⟩ run
  exact ⟨(accepts _ _).mpr ⟨_, assigns_total⟩, bound, outer⟩

/-- So the variable need not be all that stands before the sign. -/
theorem variable_not_alone : ¬∀ (markup : List Char) (name : String) (e : Expr),
    readAssign markup = .ok (name, e) → ∃ left right, markup = left ++ '=' :: right ∧
      '=' ∉ left ∧ Text.trim left = name.toList ∧ IsName name.toList ∧
      Expr.parse right = .ok e := by
  intro alone
  have read := readAssign_eq_ok_iff.mpr ⟨_, assigns_total⟩
  obtain ⟨-, nothing, -⟩ := assigns_total.unique (assigns_nil_iff.mpr (alone _ _ _ read))
  exact absurd nothing (by decide)

end Template

end Stencil
