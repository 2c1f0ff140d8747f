import Stencil.Proofs.Simulation

/-!
# What a store serves

If the answers of the source behind a store do not change while it is asked, the
store serves one fixed answer for each name: the content that it holds or else the
answer of the source. A lookup gives that answer and changes none of them, since
keeping what the source has answered only puts the same answer in another place.

So two stores that serve the same are a pairing for any two renderings, whatever
each of them holds already.
-/

namespace Stencil

variable {σ : Type}

namespace Source

/-- The state of a source after it was asked for some names in turn. -/
def afterAsking (source : Source σ) (asked : List String) (state : σ) : σ :=
  asked.foldl (fun state name => (source.ask name state).2) state

/-- From a state on, a source gives fixed answers, whatever it is asked for in between. -/
def Steady (source : Source σ) (answer : String → Answer) (state : σ) : Prop :=
  ∀ asked name, (source.ask name (source.afterAsking asked state)).1 = answer name

variable {source : Source σ} {answer : String → Answer} {state : σ}

theorem Steady.ask_eq (steady : source.Steady answer state) (name : String) :
    (source.ask name state).1 = answer name := steady [] name

/-- A source stays steady when it is asked. -/
theorem Steady.ask (steady : source.Steady answer state) (name : String) :
    source.Steady answer (source.ask name state).2 := fun asked => steady (name :: asked)

/-- A source that records what it was asked for is steady. -/
theorem recorded_steady (answer : String → Answer) (asked : List String) :
    (recorded answer).Steady answer asked := fun _ _ => rfl

end Source

namespace Store

/-- The content that a store holds under a name. -/
def held (store : Store σ) (name : String) : Option String :=
  (Dict.get? name store.registered).or (Dict.get? name store.cached)

/-- The contents of a store laid over the answers of the source behind it. -/
def overlay (store : Store σ) (answer : String → Answer) (name : String) : Answer :=
  match store.held name with
  | some content => .ok (some content)
  | none => answer name

/-- The store after the source gave an answer: it keeps a content, and nothing else. -/
def keep (store : Store σ) (name : String) (answer : Answer) : Store σ :=
  match answer with
  | .ok (some content) => { store with cached := Dict.insert name content store.cached }
  | _ => store

/-- What the store holds is served without asking the source. -/
theorem lookup_held {source : Source σ} {store : Store σ} {name content : String}
    (found : store.held name = some content) :
    store.lookup source name = (.ok (some content), store) := by
  unfold held at found
  unfold lookup
  cases registered : Dict.get? name store.registered with
  | some first => simp_all
  | none =>
    rw [registered, Option.none_or] at found
    simp only [found]

/-- For any other name the answer of the source is given and kept. -/
theorem lookup_missing {source : Source σ} {store : Store σ} {name : String}
    (missing : store.held name = none) :
    store.lookup source name =
      ((source.ask name store.source).1,
        { store.keep name (source.ask name store.source).1 with
          source := (source.ask name store.source).2 }) := by
  obtain ⟨unregistered, uncached⟩ := Option.or_eq_none_iff.mp missing
  simp only [lookup, unregistered, uncached, askSource]
  rcases source.ask name store.source with ⟨_ | _ | _, _⟩ <;> rfl

/-- What a store holds, it still holds after any lookup. -/
theorem held_lookup {source : Source σ} {store : Store σ} {name content : String}
    (holds : store.held name = some content) (asked : String) :
    (store.lookup source asked).2.held name = some content := by
  cases found : store.held asked with
  | some other => rwa [lookup_held found]
  | none =>
    have different : asked ≠ name := by
      rintro rfl
      rw [found] at holds
      cases holds
    rw [lookup_missing found]
    rcases (source.ask asked store.source).1 with e | _ | other
    · exact holds
    · exact holds
    · simpa only [held, keep, Dict.get?_insert_of_ne _ _ _ _ different] using holds

/-- What a lookup finds, the store holds afterwards. -/
theorem held_of_lookup {source : Source σ} {store : Store σ} {name content : String}
    (found : (store.lookup source name).1 = .ok (some content)) :
    (store.lookup source name).2.held name = some content := by
  cases holds : store.held name with
  | some other =>
    rw [lookup_held holds] at found ⊢
    cases found
    exact holds
  | none =>
    rw [lookup_missing holds] at found ⊢
    obtain ⟨unregistered, -⟩ := Option.or_eq_none_iff.mp holds
    simp only at found
    simp only [found, held, keep, unregistered, Dict.get?_insert_self, Option.none_or]

/-- Keeping the answer for a name that the store did not hold changes nothing that it
serves. -/
theorem overlay_keep {answer : String → Answer} {store : Store σ} {name : String}
    (missing : store.held name = none) :
    (store.keep name (answer name)).overlay answer = store.overlay answer := by
  obtain ⟨unregistered, uncached⟩ := Option.or_eq_none_iff.mp missing
  funext asked
  rcases given : answer name with e | _ | content
  · rfl
  · rfl
  · by_cases same : name = asked
    · subst same
      simp only [overlay, held, keep, unregistered, uncached, given, Dict.get?_insert_self,
        Option.none_or]
    · simp only [overlay, held, keep, Dict.get?_insert_of_ne name asked content _ same]

/-- The source behind a store is steady, and the store serves fixed answers. -/
def Serves (store : Store σ) (source : Source σ) (served : String → Answer) : Prop :=
  ∃ answer, source.Steady answer store.source ∧ store.overlay answer = served

variable {source : Source σ} {store : Store σ} {served : String → Answer}

/-- A lookup gives what is served. -/
theorem Serves.lookup_eq (serves : store.Serves source served) (name : String) :
    (store.lookup source name).1 = served name := by
  obtain ⟨answer, steady, rfl⟩ := serves
  cases found : store.held name with
  | some content => simp only [lookup_held found, overlay, found]
  | none => simp only [lookup_missing found, overlay, found, steady.ask_eq]

/-- A lookup does not change what is served. -/
theorem Serves.lookup (serves : store.Serves source served) (name : String) :
    (store.lookup source name).2.Serves source served := by
  obtain ⟨answer, steady, rfl⟩ := serves
  cases found : store.held name with
  | some content =>
    rw [lookup_held found]
    exact ⟨answer, steady, rfl⟩
  | none =>
    rw [lookup_missing found, steady.ask_eq]
    exact ⟨answer, steady.ask name, overlay_keep found⟩

end Store

/-- The same store on both sides, with a property that lookups keep. -/
def Pairing.keeping (engine : Engine σ) (kept : Store σ → Prop)
    (later : ∀ {store} name, kept store → kept (store.lookup engine.source name).2) :
    Pairing engine where
  stores left right := left = right ∧ kept left
  answer name both := by rw [both.1]
  later name both := ⟨by rw [both.1], later name both.2⟩

/-- Stores on both sides that serve the same. -/
def Pairing.serving (engine : Engine σ) (served : String → Answer) : Pairing engine where
  stores left right := left.Serves engine.source served ∧ right.Serves engine.source served
  answer name both := (both.1.lookup_eq name).trans (both.2.lookup_eq name).symm
  later name both := ⟨both.1.lookup name, both.2.lookup name⟩

end Stencil
