import Stencil.Dict
import Stencil.Error

/-!
# Snippet stores

A store serves the contents of snippets by name. Registered snippets come first,
then contents that the source behind the store has served before, and only then is
the source asked. What it finds is kept until the store is reset; a miss or a
failure is not, so the source is asked again the next time.
-/

namespace Stencil

/-- The answer to a lookup: a content, nothing, or a failure. -/
abbrev Answer := Except Error (Option String)

/-- Where a store looks for what it does not hold. Answers may depend on a state,
which each question can change. -/
structure Source (σ : Type) where
  ask : String → σ → Answer × σ

namespace Source

variable {σ : Type}

/-- The source that finds nothing. -/
def none : Source σ := ⟨fun _ state => (.ok .none, state)⟩

/-- A source whose answers do not change, with a record of the names it was asked
for, the latest first. -/
def recorded (answer : String → Answer) : Source (List String) :=
  ⟨fun name asked => (answer name, name :: asked)⟩

end Source

/-- The contents that a store holds, and the state of the source behind it. -/
structure Store (σ : Type) where
  registered : Dict String
  cached : Dict String
  source : σ
  deriving Repr

namespace Store

variable {σ : Type}

/-- A store that holds nothing. -/
def empty (source : σ) : Store σ := ⟨[], [], source⟩

/-- Registers a content under a name, replacing an earlier one. -/
def register (store : Store σ) (name content : String) : Store σ :=
  { store with registered := Dict.insert name content store.registered }

/-- Forgets everything the store holds. -/
def reset (store : Store σ) : Store σ := { store with registered := [], cached := [] }

/-- Asks the source, and keeps what it finds. -/
def askSource (source : Source σ) (name : String) (store : Store σ) : Answer × Store σ :=
  match source.ask name store.source with
  | (.ok (some content), state) =>
    (.ok (some content),
      { store with cached := Dict.insert name content store.cached, source := state })
  | (answer, state) => (answer, { store with source := state })

/-- Looks a name up. -/
def lookup (source : Source σ) (name : String) (store : Store σ) : Answer × Store σ :=
  match Dict.get? name store.registered with
  | some content => (.ok (some content), store)
  | none =>
    match Dict.get? name store.cached with
    | some content => (.ok (some content), store)
    | none => askSource source name store

end Store

end Stencil
