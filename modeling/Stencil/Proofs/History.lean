import Mathlib
import Stencil.Proofs.Serving

/-!
# What a store has done since it was reset

The answers of the source behind a store may change from one question to the next. So
what a store serves is not decided by its source alone, but by its record: what was
registered, which questions the source was asked and what it answered, and when the
store was reset. Only what follows the last reset counts.

The questions are seen from the side of the source, which is watched while a name is
looked up, so that they do not depend on what the store says about itself.

The main statement gives the answer to a lookup after any history, the questions that
it puts to the source, and the number of contents that are cached.
-/

namespace Stencil

variable {σ τ : Type}

/-- A source with a record of the questions that it was asked and its answers. -/
def Source.watched (source : Source σ) : Source (σ × List (String × Answer)) :=
  ⟨fun name (state, asked) =>
    let (answer, next) := source.ask name state
    (answer, next, asked ++ [(name, answer)])⟩

namespace Store

/-- Something that is done with a store. -/
inductive Event where
  | register (name content : String)
  | lookup (name : String)
  | reset
  deriving DecidableEq, Repr

/-- Something that happened to a store: a content was registered, its source was asked
and answered, or it was reset. -/
inductive Entry where
  | registered (name content : String)
  | answered (name : String) (answer : Answer)
  | reset

namespace Entry

/-- Whether the store was reset. -/
def isReset : Entry → Bool
  | .reset => true
  | _ => false

/-- The content that was registered under a name. -/
def registered? (name : String) : Entry → Option String
  | .registered key content => if key = name then some content else none
  | _ => none

/-- The name and the content that the source found. -/
def found? : Entry → Option (String × String)
  | .answered name (.ok (some content)) => some (name, content)
  | _ => none

end Entry

/-- What happened after the last reset, or at all if there was none. -/
def sinceReset (past : List Entry) : List Entry := past.rtakeWhile fun entry => !entry.isReset

/-- The content that was registered last under a name. -/
def lastRegistered (name : String) (past : List Entry) : Option String :=
  past.reverse.findSome? (Entry.registered? name)

/-- What the source found, in the order in which it was asked. -/
def findings (past : List Entry) : List (String × String) := past.filterMap Entry.found?

/-- The content that the source found first under a name. -/
def firstFound (name : String) (past : List Entry) : Option String :=
  (findings past).findSome? fun finding => if finding.1 = name then some finding.2 else none

/-- The same contents before another source. -/
def withSource (store : Store σ) (state : τ) : Store τ :=
  ⟨store.registered, store.cached, state⟩

/-- The questions that the source is asked when a name is looked up, and its answers. -/
def questions (source : Source σ) (name : String) (store : Store σ) : List (String × Answer) :=
  ((store.withSource (store.source, [])).lookup source.watched name).2.source.2

/-- The store after an event. -/
def perform (source : Source σ) (store : Store σ) : Event → Store σ
  | .register name content => store.register name content
  | .lookup name => (store.lookup source name).2
  | .reset => store.reset

/-- What happens in an event. -/
def entries (source : Source σ) (store : Store σ) : Event → List Entry
  | .register name content => [.registered name content]
  | .lookup name => (store.questions source name).map fun (name, answer) => .answered name answer
  | .reset => [.reset]

/-- What happens in a history, and the store after it. -/
def replay (source : Source σ) : Store σ → List Event → List Entry × Store σ
  | store, [] => ([], store)
  | store, event :: history =>
    let (past, last) := replay source (store.perform source event) history
    (store.entries source event ++ past, last)

variable {source : Source σ} {store : Store σ} {name : String}

/-- Watching the source changes neither the answer to a lookup nor the store after it. -/
theorem lookup_watched (source : Source σ) (store : Store σ) (name : String) :
    (store.withSource (store.source, [])).lookup source.watched name =
      ((store.lookup source name).1,
        (store.lookup source name).2.withSource
          ((store.lookup source name).2.source, store.questions source name)) := by
  unfold questions
  cases held : store.held name with
  | some content =>
    have heldWatched : (store.withSource (store.source, ([] : List (String × Answer)))).held name =
        some content := held
    rw [lookup_held held, lookup_held heldWatched]
    rfl
  | none =>
    have missing : (store.withSource (store.source, ([] : List (String × Answer)))).held name =
        none := held
    rw [lookup_missing held, lookup_missing missing]
    simp only [Source.watched, withSource]
    rcases (source.ask name store.source).1 with _ | _ | _ <;> rfl

/-- The source is not asked for what the store holds. -/
theorem questions_held {content : String} (held : store.held name = some content) :
    store.questions source name = [] := by
  have heldWatched : (store.withSource (store.source, ([] : List (String × Answer)))).held name =
      some content := held
  rw [questions, lookup_held heldWatched]
  rfl

/-- For any other name the source is asked once. -/
theorem questions_missing (missing : store.held name = none) :
    store.questions source name = [(name, (source.ask name store.source).1)] := by
  have missingWatched : (store.withSource (store.source, ([] : List (String × Answer)))).held name =
      none := missing
  rw [questions, lookup_missing missingWatched]
  rfl

/-- A lookup that finds nothing, or that fails, leaves the store as it was. -/
theorem lookup_unfound (unfound : ∀ content, (store.lookup source name).1 ≠ .ok (some content)) :
    (store.lookup source name).2 =
      { store with source := (store.lookup source name).2.source } := by
  cases held : store.held name with
  | some content => exact absurd (by rw [lookup_held held]) (unfound content)
  | none =>
    rw [lookup_missing held] at unfound ⊢
    simp only at unfound ⊢
    rcases given : (source.ask name store.source).1 with e | _ | content
    · rfl
    · rfl
    · exact absurd given (unfound content)

/-! ### The record and the store -/

/-- A store holds what its record since the last reset says: the contents that were
registered last and those that the source found first. The source finds no name twice. -/
structure Reflects (recent : List Entry) (store : Store σ) : Prop where
  registered : ∀ name, Dict.get? name store.registered = lastRegistered name recent
  cached : ∀ name, Dict.get? name store.cached = firstFound name recent
  distinct : ((findings recent).map Prod.fst).Nodup
  counted : store.cached.length = (findings recent).length

theorem sinceReset_concat {entry : Entry} (past : List Entry) (kept : entry.isReset = false) :
    sinceReset (past ++ [entry]) = sinceReset past ++ [entry] :=
  List.rtakeWhile_concat_pos _ _ _ (by simp [kept])

theorem sinceReset_reset (past : List Entry) : sinceReset (past ++ [.reset]) = [] :=
  List.rtakeWhile_concat_neg _ _ _ (by simp [Entry.isReset])

theorem lastRegistered_concat (name : String) (past : List Entry) (entry : Entry) :
    lastRegistered name (past ++ [entry]) =
      (entry.registered? name).or (lastRegistered name past) := by
  simp only [lastRegistered, List.reverse_concat, List.findSome?_cons]
  cases entry.registered? name <;> rfl

theorem findings_concat (past : List Entry) (entry : Entry) :
    findings (past ++ [entry]) = findings past ++ entry.found?.toList := by
  simp only [findings, List.filterMap_append, List.filterMap_cons, List.filterMap_nil]
  cases entry.found? <;> rfl

/-- An entry without a finding leaves what was found first. -/
theorem firstFound_concat_of_none {entry : Entry} (nothing : entry.found? = none) (name : String)
    (past : List Entry) : firstFound name (past ++ [entry]) = firstFound name past := by
  simp only [firstFound, findings_concat, nothing, Option.toList_none, List.append_nil]

/-- A finding counts for its name if nothing was found under it before. -/
theorem firstFound_concat_of_some {entry : Entry} {found content : String}
    (finding : entry.found? = some (found, content)) (name : String) (past : List Entry) :
    firstFound name (past ++ [entry]) =
      (firstFound name past).or (if found = name then some content else none) := by
  simp only [firstFound, findings_concat, finding, Option.toList_some, List.findSome?_append,
    List.findSome?_cons, List.findSome?_nil]
  split <;> simp_all

/-- Under a name that the source has found something is found first. -/
theorem firstFound_ne_none {recent : List Entry}
    (member : name ∈ (findings recent).map Prod.fst) : firstFound name recent ≠ none := by
  obtain ⟨finding, found, rfl⟩ := List.mem_map.mp member
  intro nothing
  have refused := List.findSome?_eq_none_iff.mp nothing finding found
  simp at refused

/-- A new key makes a dictionary longer by one. -/
theorem length_insert_of_get?_eq_none {α : Type} {key : String} {entries : Dict α} (value : α)
    (absent : Dict.get? key entries = none) :
    (Dict.insert key value entries).length = entries.length + 1 := by
  induction entries with
  | nil => rfl
  | cons entry more inductionHypothesis =>
    obtain ⟨k, held⟩ := entry
    simp only [Dict.get?] at absent
    by_cases same : k = key
    · simp [same] at absent
    · simp only [same, if_false] at absent
      simp only [Dict.insert, same, if_false]
      split
      · rfl
      · simp only [List.length_cons, inductionHypothesis absent]

variable {recent : List Entry}

/-- What a store holds under a name, said by its record. -/
theorem Reflects.held_eq (reflects : Reflects recent store) (name : String) :
    store.held name = (lastRegistered name recent).or (firstFound name recent) := by
  rw [held, reflects.registered, reflects.cached]

/-- A store that holds nothing reflects an empty record. -/
theorem reflects_nil (state : σ) : Reflects [] (⟨[], [], state⟩ : Store σ) where
  registered _ := rfl
  cached _ := rfl
  distinct := List.nodup_nil
  counted := rfl

/-- A registration changes what was registered last, and nothing else. -/
theorem Reflects.register (reflects : Reflects recent store) (name content : String) :
    Reflects (recent ++ [.registered name content]) (store.register name content) where
  registered asked := by
    rw [lastRegistered_concat, ← reflects.registered]
    show Dict.get? asked (Dict.insert name content store.registered) = _
    rw [Dict.get?_insert]
    simp only [Entry.registered?]
    split <;> rfl
  cached asked := by
    rw [firstFound_concat_of_none rfl]
    exact reflects.cached asked
  distinct := by
    rw [findings_concat]
    simpa [Entry.found?] using reflects.distinct
  counted := by
    rw [findings_concat]
    simpa [Entry.found?, Store.register] using reflects.counted

/-- An answer without a content is recorded and nothing is kept of it. -/
theorem Reflects.unfound {entry : Entry} (reflects : Reflects recent store)
    (unregistered : ∀ name, entry.registered? name = none) (nothing : entry.found? = none) :
    Reflects (recent ++ [entry]) store where
  registered asked := by
    rw [lastRegistered_concat, unregistered, Option.none_or]
    exact reflects.registered asked
  cached asked := by
    rw [firstFound_concat_of_none nothing]
    exact reflects.cached asked
  distinct := by
    rw [findings_concat, nothing]
    simpa using reflects.distinct
  counted := by
    rw [findings_concat, nothing]
    simpa using reflects.counted

/-- A content that the source finds under a name that is not cached is cached. -/
theorem Reflects.found (reflects : Reflects recent store) (content : String)
    (uncached : Dict.get? name store.cached = none) :
    Reflects (recent ++ [.answered name (.ok (some content))])
      { store with cached := Dict.insert name content store.cached } := by
  have finding : (Entry.answered name (.ok (some content))).found? = some (name, content) := rfl
  have unfound : firstFound name recent = none := (reflects.cached name).symm.trans uncached
  constructor
  · intro asked
    rw [lastRegistered_concat]
    exact reflects.registered asked
  · intro asked
    rw [firstFound_concat_of_some finding, Dict.get?_insert, ← reflects.cached]
    by_cases same : name = asked
    · subst same
      simp [uncached]
    · simp [same]
  · rw [findings_concat, finding, Option.toList_some, List.map_append, List.map_singleton]
    apply List.Nodup.append reflects.distinct (List.nodup_singleton name)
    intro found member same
    rw [List.mem_singleton.mp same] at member
    exact firstFound_ne_none member unfound
  · rw [findings_concat, finding, length_insert_of_get?_eq_none content uncached,
      reflects.counted]
    simp

/-- The state of the source is no part of what a store reflects. -/
theorem Reflects.withSource (reflects : Reflects recent store) (state : σ) :
    Reflects recent { store with source := state } :=
  ⟨reflects.registered, reflects.cached, reflects.distinct, reflects.counted⟩

/-- A lookup is recorded by its questions. What the store holds is not asked for, so
whatever the source finds is found under a new name. -/
theorem Reflects.lookup {past : List Entry} (reflects : Reflects (sinceReset past) store)
    (source : Source σ) (name : String) :
    Reflects (sinceReset (past ++ store.entries source (.lookup name)))
      (store.lookup source name).2 := by
  cases held : store.held name with
  | some content =>
    simp only [entries, questions_held held, List.map_nil, List.append_nil, lookup_held held]
    exact reflects
  | none =>
    obtain ⟨-, uncached⟩ := Option.or_eq_none_iff.mp held
    simp only [entries, questions_missing held, List.map_cons, List.map_nil, lookup_missing held]
    rw [sinceReset_concat past rfl]
    apply Reflects.withSource
    rcases (source.ask name store.source).1 with e | _ | content
    · exact reflects.unfound (fun _ => rfl) rfl
    · exact reflects.unfound (fun _ => rfl) rfl
    · exact reflects.found content uncached

/-- A store reflects its record after any event. -/
theorem Reflects.perform {past : List Entry} (reflects : Reflects (sinceReset past) store)
    (source : Source σ) (event : Event) :
    Reflects (sinceReset (past ++ store.entries source event)) (store.perform source event) := by
  cases event with
  | register name content =>
    simp only [entries, Store.perform]
    rw [sinceReset_concat past rfl]
    exact reflects.register name content
  | lookup name => exact reflects.lookup source name
  | reset =>
    simp only [entries, Store.perform]
    rw [sinceReset_reset]
    exact reflects_nil store.source

/-- A store reflects its record after any history. The record before the history is
arbitrary, so that the induction on the history goes through. -/
theorem Reflects.replay {past : List Entry} (reflects : Reflects (sinceReset past) store)
    (source : Source σ) (history : List Event) :
    Reflects (sinceReset (past ++ (store.replay source history).1))
      (store.replay source history).2 := by
  induction history generalizing past store with
  | nil => simpa only [Store.replay, List.append_nil] using reflects
  | cons event history inductionHypothesis =>
    have later := inductionHypothesis (reflects.perform source event)
    simpa only [Store.replay, List.append_assoc] using later

/-- Whatever was done with a new store, and however the answers of its source change, a
lookup gives the content that was registered last under the name since the last reset, or
else the one that the source found first under it since then. Then the source is not
asked, and the store stays as it was. Otherwise the source is asked once, its answer is
given as it is, and a miss or a failure leaves what the store holds. So between two resets
the source finds no name twice, and as many contents are cached as it has found names. -/
theorem lookup_after_history (source : Source σ) (state : σ) (history : List Event)
    (name : String) :
    let store := (replay source (.empty state) history).2
    let recent := sinceReset (replay source (.empty state) history).1
    (∀ content, (lastRegistered name recent).or (firstFound name recent) = some content →
        store.lookup source name = (.ok (some content), store) ∧
          store.questions source name = []) ∧
      ((lastRegistered name recent).or (firstFound name recent) = none →
        (store.lookup source name).1 = (source.ask name store.source).1 ∧
          store.questions source name = [(name, (source.ask name store.source).1)] ∧
          (store.lookup source name).2.source = (source.ask name store.source).2 ∧
          (source = .none → store.lookup source name = (.ok none, store))) ∧
      ((∀ content, (store.lookup source name).1 ≠ .ok (some content)) →
        (store.lookup source name).2.registered = store.registered ∧
          (store.lookup source name).2.cached = store.cached) ∧
      ((findings recent).map Prod.fst).Nodup ∧
      store.cached.length = ((findings recent).map Prod.fst).dedup.length := by
  have nothing : Reflects (sinceReset []) (.empty state) := reflects_nil state
  have reflects : Reflects (sinceReset (replay source (.empty state) history).1)
      (replay source (.empty state) history).2 := nothing.replay source history
  intro store recent
  have served := reflects.held_eq name
  refine ⟨?_, ?_, ?_, reflects.distinct, ?_⟩
  · intro content found
    have held : store.held name = some content := served.trans found
    exact ⟨lookup_held held, questions_held held⟩
  · intro nothing
    have missing : store.held name = none := served.trans nothing
    refine ⟨by rw [lookup_missing missing], questions_missing missing,
      by rw [lookup_missing missing], ?_⟩
    rintro rfl
    exact lookup_missing missing
  · intro unfound
    rw [lookup_unfound unfound]
    exact ⟨rfl, rfl⟩
  · rw [reflects.distinct.dedup, List.length_map]
    exact reflects.counted

/-- A source that gives some answers in a row fails and misses before it finds a content,
which is cached once. A reset forgets it, and what is then found under another name stays
counted when that name is registered. -/
theorem answers_in_a_row :
    let source : Source (List Answer) := ⟨fun _ answers => (answers.headD (.ok none), answers.tail)⟩
    let answers : List Answer :=
      [.error (.sourceFailed "down"), .ok none, .ok (some "v"), .ok (some "w"), .ok (some "x")]
    let history : List Event :=
      [.lookup "a", .lookup "a", .lookup "a", .lookup "a", .reset, .lookup "b", .register "b" "r"]
    let store := (replay source (.empty answers) history).2
    store.lookup source "b" = (.ok (some "r"), store) ∧ store.questions source "b" = [] ∧
      (store.lookup source "a").1 = .ok (some "x") ∧ store.cached.length = 1 := by
  intro source answers history store
  obtain ⟨registered, -, -, -, counted⟩ := lookup_after_history source answers history "b"
  obtain ⟨-, unknown, -⟩ := lookup_after_history source answers history "a"
  obtain ⟨served, unasked⟩ := registered "r" (by cbv)
  obtain ⟨current, -⟩ := unknown (by cbv)
  exact ⟨served, unasked, current.trans (by cbv), counted.trans (by cbv)⟩

end Store

end Stencil
