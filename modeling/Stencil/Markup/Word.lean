import Stencil.Text.Search
import Stencil.Text.White

/-!
# Words of markup

The markup of a tag is made of identifiers, keywords and fragments, with white
space between them. A keyword counts only if it stands alone. A fragment is kept
as it is written, quotes included; it ends at the first white character, comma or
bar that is not inside quotes.

Every reader returns the rest of the text, and the lemmas say that the rest is
shorter.
-/

namespace Stencil.Markup

/-- Identifiers start with an ASCII letter, a digit or an underscore. -/
def startsName (c : Char) : Bool := c = '_' || c.isAlphanum

/-- After its start an identifier may also hold hyphens. -/
def continuesName (c : Char) : Bool := startsName c || c = '-'

/-- The characters of the identifier at the start of a text. One question mark may
end it. -/
def name? : List Char → Option (List Char × List Char)
  | [] => none
  | c :: text =>
    if startsName c then
      let more := text.takeWhile continuesName
      match text.dropWhile continuesName with
      | '?' :: rest => some (c :: more ++ ['?'], rest)
      | rest => some (c :: more, rest)
    else none

/-- The identifier at the start of a text. -/
def identifier? (text : List Char) : Option (String × List Char) :=
  (name? text).map fun (name, rest) => (String.ofList name, rest)

/-- The rest after a keyword that stands alone at the start of a text. -/
def keyword? (word text : List Char) : Option (List Char) :=
  (word.isPrefixOf? text).filter Text.atWordEnd

/-- The text up to a closing quote, and the rest after it. -/
def quoted? (quote : Char) (text : List Char) : Option (List Char × List Char) :=
  match text.dropWhile (· ≠ quote) with
  | [] => none
  | _ :: rest => some (text.takeWhile (· ≠ quote), rest)

/-- The characters that open and close quotes. -/
def isQuote (c : Char) : Bool := c = '\'' || c = '"'

/-- The characters that end a fragment outside its quotes. -/
def endsFragment (c : Char) : Bool := Text.isWhite c || c = ',' || c = '|'

/-- The text up to the end of the fragment it starts in or inside of; the first
argument is the quote that is open. None if a quote stays open. -/
def fragmentRun? : (quote : Option Char) → List Char → Option (List Char × List Char)
  | none, [] => some ([], [])
  | some _, [] => none
  | some quote, c :: text =>
    (fragmentRun? (if c = quote then none else some quote) text).map
      fun (run, rest) => (c :: run, rest)
  | none, c :: text =>
    if isQuote c then (fragmentRun? (some c) text).map fun (run, rest) => (c :: run, rest)
    else if endsFragment c then some ([], c :: text)
    else (fragmentRun? none text).map fun (run, rest) => (c :: run, rest)

/-- The fragment at the start of a text; none if it is empty. -/
def fragment? (text : List Char) : Option (List Char × List Char) :=
  (fragmentRun? none text).filter fun (run, _) => !run.isEmpty

/-- An identifier takes at least one character. -/
theorem length_name?_lt {text name rest : List Char} (found : name? text = some (name, rest)) :
    rest.length < text.length := by
  unfold name? at found
  split at found
  · simp at found
  · next c text =>
    have shorter := (List.dropWhile_sublist continuesName (l := text)).length_le
    split at found
    · simp only at found
      split at found
      · next after =>
        simp only [Option.some.injEq, Prod.mk.injEq] at found
        rw [after, List.length_cons, found.2] at shorter
        simp only [List.length_cons]
        omega
      · simp only [Option.some.injEq, Prod.mk.injEq] at found
        rw [found.2] at shorter
        simp only [List.length_cons]
        omega
    · simp at found

/-- An identifier takes at least one character. -/
theorem length_identifier?_lt {text rest : List Char} {name : String}
    (found : identifier? text = some (name, rest)) : rest.length < text.length := by
  simp only [identifier?, Option.map_eq_some_iff, Prod.mk.injEq, Prod.exists] at found
  obtain ⟨_, _, read, -, rfl⟩ := found
  exact length_name?_lt read

/-- The rest after a quoted text lacks at least the closing quote. -/
theorem length_quoted?_lt {quote : Char} {text run rest : List Char}
    (found : quoted? quote text = some (run, rest)) : rest.length < text.length := by
  unfold quoted? at found
  have shorter := (List.dropWhile_sublist (· ≠ quote) (l := text)).length_le
  split at found
  · simp at found
  · next after =>
    simp only [Option.some.injEq, Prod.mk.injEq] at found
    rw [after, List.length_cons, found.2] at shorter
    omega

/-- A keyword and its rest are the text. -/
theorem keyword?_eq_some {word text rest : List Char} (found : keyword? word text = some rest) :
    text = word ++ rest :=
  Text.isPrefixOf?_eq_some (Option.filter_eq_some_iff.mp found).1

/-- A fragment and its rest are the text. -/
theorem fragmentRun?_append {quote : Option Char} {text run rest : List Char}
    (found : fragmentRun? quote text = some (run, rest)) : run ++ rest = text := by
  induction text generalizing quote run with
  | nil =>
    cases quote <;> simp_all [fragmentRun?]
  | cons c text inductionHypothesis =>
    cases quote with
    | some quote =>
      simp only [fragmentRun?, Option.map_eq_some_iff, Prod.mk.injEq, Prod.exists] at found
      obtain ⟨_, _, read, rfl, rfl⟩ := found
      simp [inductionHypothesis read]
    | none =>
      simp only [fragmentRun?] at found
      split at found
      · simp only [Option.map_eq_some_iff, Prod.mk.injEq, Prod.exists] at found
        obtain ⟨_, _, read, rfl, rfl⟩ := found
        simp [inductionHypothesis read]
      · split at found
        · simp_all
        · simp only [Option.map_eq_some_iff, Prod.mk.injEq, Prod.exists] at found
          obtain ⟨_, _, read, rfl, rfl⟩ := found
          simp [inductionHypothesis read]

/-- A fragment takes at least one character. -/
theorem length_fragment?_lt {text run rest : List Char}
    (found : fragment? text = some (run, rest)) : rest.length < text.length := by
  simp only [fragment?, Option.filter_eq_some_iff] at found
  rw [← fragmentRun?_append found.1]
  cases run with
  | nil => simp at found
  | cons => simp only [List.cons_append, List.length_cons, List.length_append]; omega

end Stencil.Markup
