import Mathlib.Data.List.DropRight
import Mathlib.Data.List.Infix
import Mathlib.Data.List.TakeWhile
import Stencil.Markup.Word

/-!
# Names, quoted texts and fragments

What the readers of words take from a text is a text of its own: it is read in the same
way whatever follows it, as long as what follows cannot belong to it.

Quotes divide a text into what stands inside of them and what stands outside. A fragment
is a text that is not empty, closes its quotes and holds nothing outside of them that
would end it.
-/

namespace Stencil

/-! ### White space at the ends -/

namespace Text

/-- A text without white ends. -/
structure Trimmed (text : List Char) : Prop where
  head : ∀ c ∈ text.head?, isWhite c = false
  getLast : ∀ c ∈ text.getLast?, isWhite c = false

/-- Only the two ends of a text are looked at. -/
instance (text : List Char) : Decidable (Trimmed text) :=
  decidable_of_iff (text.head?.all (!isWhite ·) ∧ text.getLast?.all (!isWhite ·)) <| by
    simp only [Option.all_eq_true, Bool.not_eq_true']
    exact ⟨fun ⟨head, getLast⟩ => ⟨head, getLast⟩, fun ⟨head, getLast⟩ => ⟨head, getLast⟩⟩

/-- What has been trimmed is trimmed. -/
theorem trimStart_trimStart (text : List Char) : trimStart (trimStart text) = trimStart text :=
  List.dropWhile_idempotent _ text

theorem trimStart_of_head {text : List Char} (head : ∀ c ∈ text.head?, isWhite c = false) :
    trimStart text = text := by
  cases text with
  | nil => rfl
  | cons c text =>
    have black : ¬isWhite c = true := by simp only [head c rfl, Bool.false_eq_true, not_false_iff]
    exact List.dropWhile_cons_of_neg black

theorem trimEnd_of_getLast {text : List Char} (last : ∀ c ∈ text.getLast?, isWhite c = false) :
    trimEnd text = text := by
  have reversed : trimStart text.reverse = text.reverse :=
    trimStart_of_head (by rwa [List.head?_reverse])
  rw [trimEnd, ← trimStart, reversed, List.reverse_reverse]

theorem trim_of_trimmed {text : List Char} (trimmed : Trimmed text) : trim text = text := by
  rw [trim, trimStart_of_head trimmed.head, trimEnd_of_getLast trimmed.getLast]

/-- A text of white characters only. -/
def White (text : List Char) : Prop := ∀ c ∈ text, isWhite c = true

instance : DecidablePred White := fun text => List.decidableBAll (isWhite · = true) text

/-- White space in front of a text is trimmed. -/
theorem trimStart_white_append {white : List Char} (spaced : White white) (rest : List Char) :
    trimStart (white ++ rest) = trimStart rest :=
  List.dropWhile_append_of_pos spaced

/-- What trimming the start of a text removes is white. -/
theorem exists_white_of_trimStart {text rest : List Char} (trimmed : trimStart text = rest) :
    ∃ white, White white ∧ text = white ++ rest := by
  subst trimmed
  exact ⟨text.takeWhile isWhite, fun c member => List.mem_takeWhile_imp member,
    List.takeWhile_append_dropWhile.symm⟩

/-- Trimming the start of a text leaves white space at its end alone, unless nothing else is
there. -/
theorem trimStart_append_white {white : List Char} (spaced : White white) (text : List Char) :
    trimStart (text ++ white) = if trimStart text = [] then [] else trimStart text ++ white := by
  rw [trimStart, List.dropWhile_append, List.dropWhile_eq_nil_iff.mpr spaced, trimStart]
  cases text.dropWhile isWhite <;> rfl

/-- White space at the end of a text is trimmed. -/
theorem trimEnd_append_white {white : List Char} (spaced : White white) (text : List Char) :
    trimEnd (text ++ white) = trimEnd text := by
  have reversed : White white.reverse := fun c member => spaced c (List.mem_reverse.mp member)
  rw [trimEnd, List.reverse_append, List.dropWhile_append_of_pos reversed, trimEnd]

theorem trim_append_white {white : List Char} (spaced : White white) (text : List Char) :
    trim (text ++ white) = trim text := by
  rw [trim, trimStart_append_white spaced, trim]
  split
  · next nothing => rw [nothing]
  · exact trimEnd_append_white spaced _

/-- What trimming the end of a text removes is white. -/
theorem exists_white_of_trimEnd (text : List Char) :
    ∃ white, White white ∧ text = trimEnd text ++ white := by
  refine ⟨(text.reverse.takeWhile isWhite).reverse, fun c member => ?_, ?_⟩
  · exact List.mem_takeWhile_imp (List.mem_reverse.mp member)
  · rw [trimEnd, ← List.reverse_append, List.takeWhile_append_dropWhile, List.reverse_reverse]

/-- The last character that is left by trimming is not white. -/
theorem not_isWhite_of_getLast_trimEnd {text : List Char} {c : Char}
    (last : c ∈ (trimEnd text).getLast?) : isWhite c = false := by
  rw [trimEnd, List.getLast?_reverse] at last
  have stops := List.head?_dropWhile_not isWhite text.reverse
  rw [Option.mem_def.mp last] at stops
  simpa using stops

/-- Trimming removes white space at each end of a text without white ends, and nothing else. -/
theorem trim_white {before text after : List Char} (spaced : White before)
    (spacedAfter : White after) (trimmed : Trimmed text) :
    trim (before ++ (text ++ after)) = text := by
  rw [trim, trimStart_white_append spaced, ← trim, trim_append_white spacedAfter,
    trim_of_trimmed trimmed]

/-- What trimming removes is white. -/
theorem exists_white_of_trim (text : List Char) :
    ∃ before after, White before ∧ White after ∧ text = before ++ (trim text ++ after) := by
  obtain ⟨before, spaced, split⟩ := exists_white_of_trimStart (rfl : trimStart text = _)
  obtain ⟨after, spacedAfter, splitEnd⟩ := exists_white_of_trimEnd (trimStart text)
  exact ⟨before, after, spaced, spacedAfter, by rw [trim, ← splitEnd, ← split]⟩

/-- A space before a text is trimmed. -/
theorem trimStart_space (text : List Char) : trimStart (' ' :: text) = trimStart text := rfl

/-- A space at each end of a text is trimmed with the white space of the text. -/
theorem trim_spaces_of (text : List Char) : trim (' ' :: (text ++ [' '])) = trim text :=
  trim_append_white (by decide : White [' ']) (' ' :: text)

end Text

namespace Markup

/-- A run of characters is taken up to the first one of another kind. -/
theorem span_append {kind : Char → Bool} {run rest : List Char}
    (inside : ∀ c ∈ run, kind c = true) (ends : ∀ c ∈ rest.head?, kind c = false) :
    (run ++ rest).takeWhile kind = run ∧ (run ++ rest).dropWhile kind = rest := by
  rw [List.takeWhile_append_of_pos inside, List.dropWhile_append_of_pos inside]
  cases rest with
  | nil => exact ⟨List.append_nil run, rfl⟩
  | cons c rest =>
    have stops : ¬kind c = true := by simp only [ends c rfl, Bool.false_eq_true, not_false_iff]
    rw [List.takeWhile_cons_of_neg stops, List.dropWhile_cons_of_neg stops, List.append_nil]
    exact ⟨rfl, rfl⟩

/-! ### Names -/

/-- The characters with which a name starts: the letters and digits of ASCII and underscores. -/
def NameStart (c : Char) : Prop := c = '_' ∨ c.isAlphanum = true

/-- The texts that are read as one identifier. After its start a name can hold hyphens, and one
question mark can end it. -/
inductive IsName : List Char → Prop where
  | plain {c : Char} {more : List Char} (starts : NameStart c)
      (continues : ∀ d ∈ more, NameStart d ∨ d = '-') : IsName (c :: more)
  | asking {c : Char} {more : List Char} (starts : NameStart c)
      (continues : ∀ d ∈ more, NameStart d ∨ d = '-') : IsName (c :: (more ++ ['?']))

theorem startsName_iff {c : Char} : startsName c = true ↔ NameStart c := by
  simp only [startsName, NameStart, Bool.or_eq_true, decide_eq_true_eq]

/-- A digit can start a name. -/
theorem startsName_of_isDigit {c : Char} (digit : c.isDigit = true) : startsName c = true := by
  simp only [startsName, Char.isAlphanum, digit, Bool.or_true]

theorem continuesName_iff {c : Char} : continuesName c = true ↔ NameStart c ∨ c = '-' := by
  simp only [continuesName, Bool.or_eq_true, startsName_iff, decide_eq_true_eq]

/-- A text with which no identifier before it goes on. -/
def EndsName (rest : List Char) : Prop := ∀ c ∈ rest.head?, continuesName c = false ∧ c ≠ '?'

/-- A question mark is no part of a name, unless it ends the name. -/
theorem continuesName_question : continuesName '?' = false := by decide

/-- What is read as an identifier is a name. -/
theorem name?_eq_some {text name rest : List Char} (read : name? text = some (name, rest)) :
    text = name ++ rest ∧ IsName name := by
  unfold name? at read
  split at read
  · cases read
  · next c text =>
    split at read
    · next starts =>
      have starts := startsName_iff.mp starts
      have continues : ∀ d ∈ text.takeWhile continuesName, NameStart d ∨ d = '-' :=
        fun d member => continuesName_iff.mp (List.mem_takeWhile_imp member)
      have parts := List.takeWhile_append_dropWhile (p := continuesName) (l := text)
      dsimp only at read
      split at read
      · next after asks =>
        cases read
        rw [asks] at parts
        refine ⟨?_, .asking starts continues⟩
        rw [List.cons_append, List.cons_append, List.append_assoc, List.singleton_append, parts]
      · cases read
        exact ⟨by rw [List.cons_append, parts], .plain starts continues⟩
    · cases read

/-- A name that ends with a question mark is read whole, whatever follows it. -/
theorem name?_asking {c : Char} {more : List Char} (starts : NameStart c)
    (continues : ∀ d ∈ more, NameStart d ∨ d = '-') (rest : List Char) :
    name? (c :: (more ++ '?' :: rest)) = some (c :: (more ++ ['?']), rest) := by
  have starts := startsName_iff.mpr starts
  have stops : ∀ d ∈ ('?' :: rest).head?, continuesName d = false := by
    rintro _ ⟨⟩
    exact continuesName_question
  obtain ⟨taken, left⟩ :=
    span_append (fun d member => continuesName_iff.mpr (continues d member)) stops
  simp only [name?, starts, if_true, taken, left, List.cons_append]

/-- A name is read whole if nothing goes on with it. -/
theorem IsName.name?_append {name rest : List Char} (named : IsName name) (ends : EndsName rest) :
    name? (name ++ rest) = some (name, rest) := by
  cases named with
  | @plain c more starts continues =>
    have starts := startsName_iff.mpr starts
    obtain ⟨taken, left⟩ := span_append (fun d member => continuesName_iff.mpr (continues d member))
      fun d head => (ends d head).1
    simp only [List.cons_append, name?, starts, if_true, taken, left]
    split
    · next rest => exact absurd rfl (ends '?' rfl).2
    · rfl
  | asking starts continues =>
    rw [List.cons_append, List.append_assoc]
    exact name?_asking starts continues rest

/-- The identifier at the start of a text is a name. -/
theorem identifier?_eq_some {text rest : List Char} {name : String}
    (read : identifier? text = some (name, rest)) :
    text = name.toList ++ rest ∧ IsName name.toList := by
  simp only [identifier?, Option.map_eq_some_iff, Prod.mk.injEq, Prod.exists] at read
  obtain ⟨_, _, read, rfl, rfl⟩ := read
  rw [String.toList_ofList]
  exact name?_eq_some read

/-- A text that is read as an identifier, and nothing is left of it, is a name. -/
theorem isName_of_identifier? {name : String} (read : identifier? name.toList = some (name, [])) :
    IsName name.toList :=
  (identifier?_eq_some read).2

/-- A name is read whole as an identifier if nothing goes on with it. -/
theorem IsName.identifier?_append {name : String} {rest : List Char} (named : IsName name.toList)
    (ends : EndsName rest) : identifier? (name.toList ++ rest) = some (name, rest) := by
  simp only [identifier?, named.name?_append ends, Option.map_some, String.ofList_toList]

theorem IsName.ne_nil {name : List Char} (named : IsName name) : name ≠ [] := by
  cases named <;> exact List.cons_ne_nil _ _

theorem IsName.head {name : List Char} (named : IsName name) :
    ∀ c ∈ name.head?, startsName c = true := by
  cases named <;> rintro _ ⟨⟩ <;> exact startsName_iff.mpr ‹NameStart _›

/-- Only characters that can start a name, hyphens and question marks stand in a name. -/
theorem IsName.kept {name : List Char} (named : IsName name) :
    ∀ c ∈ name, startsName c = true ∨ c = '-' ∨ c = '?' := by
  have kept {c : Char} (continues : NameStart c ∨ c = '-') :
      startsName c = true ∨ c = '-' ∨ c = '?' :=
    continues.imp startsName_iff.mpr .inl
  cases named with
  | plain starts continues =>
    intro c member
    rcases List.mem_cons.mp member with rfl | member
    · exact kept (.inl starts)
    · exact kept (continues c member)
  | asking starts continues =>
    intro c member
    simp only [List.mem_cons, List.mem_append, List.not_mem_nil, or_false] at member
    rcases member with rfl | member | rfl
    · exact kept (.inl starts)
    · exact kept (continues c member)
    · exact .inr (.inr rfl)

/-- The visible characters of ASCII are not white. -/
theorem not_isWhite_of_visible {c : Char} (visible : 32 < c.toNat ∧ c.toNat < 127) :
    Text.isWhite c = false := by
  simp [Text.isWhite]
  omega

/-- What starts a name is a visible character of ASCII. -/
theorem visible_of_startsName {c : Char} (starts : startsName c = true) :
    32 < c.toNat ∧ c.toNat < 127 := by
  -- All classes of characters are ranges of codes.
  delta startsName Char.isAlphanum Char.isAlpha Char.isUpper Char.isLower Char.isDigit at starts
  simp [UInt32.le_iff_toNat_le] at starts
  rcases starts with rfl | (upper | lower) | digit
  · decide
  · omega
  · omega
  · omega

theorem not_isWhite_of_startsName {c : Char} (starts : startsName c = true) :
    Text.isWhite c = false :=
  not_isWhite_of_visible (visible_of_startsName starts)

/-- No character of a name is white or a closing brace. -/
theorem IsName.plain_of_mem {name : List Char} (named : IsName name) {c : Char}
    (member : c ∈ name) : Text.isWhite c = false ∧ c ≠ '}' := by
  rcases named.kept c member with starts | rfl | rfl
  · refine ⟨not_isWhite_of_startsName starts, ?_⟩
    rintro rfl
    exact absurd starts (by decide)
  · decide
  · decide

theorem IsName.trimmed {name : List Char} (named : IsName name) : Text.Trimmed name where
  head _ head := (named.plain_of_mem (List.mem_of_head? head)).1
  getLast _ last := (named.plain_of_mem (List.mem_of_getLast? last)).1

/-! ### Quotes -/

theorem isQuote_iff {c : Char} : isQuote c = true ↔ c = '\'' ∨ c = '"' := by
  simp only [isQuote, Bool.or_eq_true, decide_eq_true_eq]

/-- What stands before a closing quote does not hold one. -/
theorem quoted?_eq_some {quote : Char} {text run rest : List Char}
    (read : quoted? quote text = some (run, rest)) :
    text = run ++ quote :: rest ∧ quote ∉ run := by
  unfold quoted? at read
  have parts := List.takeWhile_append_dropWhile (p := (· ≠ quote)) (l := text)
  split at read
  · cases read
  · next c after dropped =>
    cases read
    have closes : c = quote := by
      have head := List.head?_dropWhile_not (· ≠ quote) text
      rw [dropped] at head
      simpa using head
    subst closes
    rw [dropped] at parts
    refine ⟨parts.symm, fun member => ?_⟩
    simpa using List.mem_takeWhile_imp member

/-- A quoted text is read up to its closing quote. -/
theorem quoted?_append {quote : Char} {run : List Char} (closed : quote ∉ run)
    (rest : List Char) : quoted? quote (run ++ quote :: rest) = some (run, rest) := by
  have inside : ∀ c ∈ run, decide (c ≠ quote) = true := by
    intro c member
    exact decide_eq_true fun same => closed (same ▸ member)
  have ends : ∀ c ∈ (quote :: rest).head?, decide (c ≠ quote) = false := by
    rintro _ ⟨⟩
    exact decide_eq_false fun different => different rfl
  obtain ⟨taken, left⟩ := span_append inside ends
  simp only [quoted?, taken, left]

/-- The quote that is open after a character; the first argument is the one that is open
before it. -/
def quoteAfter : Option Char → Char → Option Char
  | some quote, c => if c = quote then none else some quote
  | none, c => if isQuote c then some c else none

/-- The quote that is open after a text. -/
def quoteAfterAll (quote : Option Char) (text : List Char) : Option Char :=
  text.foldl quoteAfter quote

/-- The characters of a text outside of its quotes, without the quotes; the first argument
is the quote that is open before the text. -/
def outside : Option Char → List Char → List Char
  | _, [] => []
  | none, c :: text =>
    if isQuote c then outside (some c) text else c :: outside none text
  | some quote, c :: text => outside (quoteAfter (some quote) c) text

theorem quoteAfterAll_append (quote : Option Char) (text more : List Char) :
    quoteAfterAll quote (text ++ more) = quoteAfterAll (quoteAfterAll quote text) more :=
  List.foldl_append

theorem outside_append (quote : Option Char) (text more : List Char) :
    outside quote (text ++ more) =
      outside quote text ++ outside (quoteAfterAll quote text) more := by
  induction text generalizing quote with
  | nil => cases quote <;> rfl
  | cons c text inductionHypothesis =>
    cases quote with
    | some quote => exact inductionHypothesis _
    | none =>
      simp only [List.cons_append, outside, inductionHypothesis, quoteAfterAll, List.foldl_cons,
        quoteAfter]
      split <;> rfl

/-- What stands outside of the quotes stands in the text. -/
theorem outside_subset (quote : Option Char) (text : List Char) : outside quote text ⊆ text := by
  induction text generalizing quote with
  | nil => exact fun _ member => by cases quote <;> exact member
  | cons c text inductionHypothesis =>
    cases quote with
    | some quote => exact List.Subset.trans (inductionHypothesis _) (List.subset_cons_self c text)
    | none =>
      simp only [outside]
      split
      · exact List.Subset.trans (inductionHypothesis _) (List.subset_cons_self c text)
      · exact List.cons_subset_cons c (inductionHypothesis none)

/-- A quote that is open after a text is one of the characters that open quotes, if the one
that is open before it is. -/
theorem isQuote_of_quoteAfterAll {quote : Option Char} {text : List Char}
    (before : ∀ c ∈ quote, isQuote c = true) :
    ∀ c ∈ quoteAfterAll quote text, isQuote c = true := by
  induction text generalizing quote with
  | nil => exact before
  | cons c text inductionHypothesis =>
    apply inductionHypothesis
    intro d opened
    cases quote with
    | some quote =>
      simp only [quoteAfter, Option.mem_def] at opened
      split at opened
      · cases opened
      · cases opened
        exact before _ rfl
    | none =>
      simp only [quoteAfter, Option.mem_def] at opened
      split at opened
      · next quotes =>
        cases opened
        exact quotes
      · cases opened

/-- A text without quotes stands outside of them as a whole. -/
theorem outside_of_unquoted {text : List Char} (unquoted : ∀ c ∈ text, isQuote c = false) :
    quoteAfterAll none text = none ∧ outside none text = text := by
  induction text with
  | nil => exact ⟨rfl, rfl⟩
  | cons c text inductionHypothesis =>
    obtain ⟨closed, all⟩ :=
      inductionHypothesis fun d member => unquoted d (List.mem_cons_of_mem c member)
    have first := unquoted c List.mem_cons_self
    simp only [outside, first, Bool.false_eq_true, if_false, all, and_true]
    simpa only [quoteAfterAll, List.foldl_cons, quoteAfter, first, Bool.false_eq_true, if_false]
      using closed

/-- A quoted text stands inside of its quotes as a whole, with any other quotes in it. -/
theorem outside_of_quoted {quote : Char} {run : List Char} (quotes : isQuote quote = true)
    (closed : quote ∉ run) :
    quoteAfterAll none (quote :: (run ++ [quote])) = none ∧
      outside none (quote :: (run ++ [quote])) = [] := by
  have inside : quoteAfterAll (some quote) (run ++ [quote]) = none ∧
      outside (some quote) (run ++ [quote]) = [] := by
    induction run with
    | nil =>
      simp only [List.nil_append, quoteAfterAll, List.foldl_cons, List.foldl_nil, quoteAfter,
        if_true, outside, and_self]
    | cons c run inductionHypothesis =>
      have different : c ≠ quote := fun same => closed (same ▸ List.mem_cons_self)
      have later := inductionHypothesis fun member => closed (List.mem_cons_of_mem c member)
      simpa only [List.cons_append, quoteAfterAll, List.foldl_cons, quoteAfter, different, if_false,
        outside] using later
  simpa only [quoteAfterAll, List.foldl_cons, quoteAfter, quotes, if_true, outside] using inside

/-! ### Fragments -/

/-- The texts that are read as one fragment. -/
structure IsFragment (text : List Char) : Prop where
  nonempty : text ≠ []
  closed : quoteAfterAll none text = none
  unended : ∀ c ∈ outside none text, endsFragment c = false

/-- A text with which no fragment before it goes on. -/
def EndsFragment (rest : List Char) : Prop := ∀ c ∈ rest.head?, endsFragment c = true

/-- What ends a fragment is no quote. -/
theorem not_isQuote_of_endsFragment {c : Char} (ends : endsFragment c = true) :
    isQuote c = false := by
  cases quotes : isQuote c with
  | false => rfl
  | true =>
    rcases isQuote_iff.mp quotes with rfl | rfl
    · exact absurd ends (by decide)
    · exact absurd ends (by decide)

/-- A quote is not white. -/
theorem not_isWhite_of_isQuote {c : Char} (quotes : isQuote c = true) :
    Text.isWhite c = false := by
  rcases isQuote_iff.mp quotes with rfl | rfl <;> decide

theorem not_startsName_of_isQuote {c : Char} (quotes : isQuote c = true) :
    ¬startsName c = true := by
  rcases isQuote_iff.mp quotes with rfl | rfl <;> decide

/-- What is read as a run of a fragment closes its quotes and holds nothing outside of them
that would end it. -/
theorem fragmentRun?_eq_some {quote : Option Char} {text run rest : List Char}
    (read : fragmentRun? quote text = some (run, rest)) :
    quoteAfterAll quote run = none ∧ ∀ c ∈ outside quote run, endsFragment c = false := by
  induction text generalizing quote run with
  | nil =>
    cases quote with
    | some quote => cases read
    | none =>
      cases read
      exact ⟨rfl, fun _ member => nomatch member⟩
  | cons c text inductionHypothesis =>
    cases quote with
    | some quote =>
      simp only [fragmentRun?, Option.map_eq_some_iff, Prod.mk.injEq, Prod.exists] at read
      obtain ⟨more, _, read, rfl, rfl⟩ := read
      have later : quoteAfterAll (quoteAfter (some quote) c) more = none ∧
          ∀ d ∈ outside (quoteAfter (some quote) c) more, endsFragment d = false :=
        inductionHypothesis read
      exact later
    | none =>
      simp only [fragmentRun?] at read
      split at read
      · next quotes =>
        simp only [Option.map_eq_some_iff, Prod.mk.injEq, Prod.exists] at read
        obtain ⟨_, _, read, rfl, rfl⟩ := read
        simpa only [quoteAfterAll, List.foldl_cons, quoteAfter, outside, quotes, if_true]
          using inductionHypothesis read
      · next unquoted =>
        split at read
        · cases read
          exact ⟨rfl, fun _ member => nomatch member⟩
        · next unended =>
          simp only [Option.map_eq_some_iff, Prod.mk.injEq, Prod.exists] at read
          obtain ⟨_, _, read, rfl, rfl⟩ := read
          obtain ⟨closed, later⟩ := inductionHypothesis read
          simp only [quoteAfterAll, List.foldl_cons, quoteAfter, outside, unquoted,
            Bool.false_eq_true, if_false, List.forall_mem_cons]
          exact ⟨closed, Bool.eq_false_iff.mpr unended, later⟩

/-- A run that closes its quotes is read up to the first character that ends it. -/
theorem fragmentRun?_append_of_closed {quote : Option Char} {run rest : List Char}
    (closed : quoteAfterAll quote run = none)
    (unended : ∀ c ∈ outside quote run, endsFragment c = false) (ends : EndsFragment rest) :
    fragmentRun? quote (run ++ rest) = some (run, rest) := by
  induction run generalizing quote with
  | nil =>
    obtain rfl : quote = none := closed
    cases rest with
    | nil => rfl
    | cons c rest =>
      have stops := ends c rfl
      simp only [List.nil_append, fragmentRun?, not_isQuote_of_endsFragment stops, stops, if_true,
        Bool.false_eq_true, if_false]
  | cons c run inductionHypothesis =>
    cases quote with
    | some quote =>
      have later : fragmentRun? (quoteAfter (some quote) c) (run ++ rest) = some (run, rest) :=
        inductionHypothesis closed unended
      simp only [quoteAfter] at later
      simp only [List.cons_append, fragmentRun?, later, Option.map_some]
    | none =>
      cases quotes : isQuote c with
      | true =>
        simp only [quoteAfterAll, List.foldl_cons, quoteAfter, outside, quotes, if_true]
          at closed unended
        simp only [List.cons_append, fragmentRun?, quotes, if_true,
          inductionHypothesis closed unended, Option.map_some]
      | false =>
        simp only [quoteAfterAll, List.foldl_cons, quoteAfter, outside, quotes,
          Bool.false_eq_true, if_false, List.forall_mem_cons] at closed unended
        simp only [List.cons_append, fragmentRun?, quotes, unended.1, Bool.false_eq_true, if_false,
          inductionHypothesis closed unended.2, Option.map_some]

/-- A fragment is read whole if what follows ends it. -/
theorem IsFragment.fragment?_append {text rest : List Char} (fragment : IsFragment text)
    (ends : EndsFragment rest) : fragment? (text ++ rest) = some (text, rest) := by
  rw [fragment?, fragmentRun?_append_of_closed fragment.closed fragment.unended ends]
  have nonempty : text.isEmpty = false := List.isEmpty_eq_false_iff.mpr fragment.nonempty
  simp only [Option.filter_some, nonempty, Bool.not_false, if_true]

/-- What is read as a fragment is one. -/
theorem isFragment_of_fragment? {text run rest : List Char}
    (read : fragment? text = some (run, rest)) : IsFragment run := by
  obtain ⟨read, nonempty⟩ := Option.filter_eq_some_iff.mp read
  obtain ⟨closed, unended⟩ := fragmentRun?_eq_some read
  refine ⟨?_, closed, unended⟩
  rintro rfl
  cases nonempty

/-- A quoted text is a fragment, whatever else stands in it. -/
theorem isFragment_quoted {quote : Char} {run : List Char} (quotes : isQuote quote = true)
    (closed : quote ∉ run) : IsFragment (quote :: (run ++ [quote])) := by
  obtain ⟨closed, nothing⟩ := outside_of_quoted quotes closed
  refine ⟨List.cons_ne_nil _ _, closed, ?_⟩
  rw [nothing]
  exact fun _ member => nomatch member

/-- A white character ends a fragment where no quote is open. -/
theorem endsFragment_of_isWhite {c : Char} (white : Text.isWhite c = true) :
    endsFragment c = true := by
  simp only [endsFragment, white, Bool.true_or]

/-- The first character of a fragment is not white. -/
theorem IsFragment.head {text : List Char} (fragment : IsFragment text) :
    ∀ c ∈ text.head?, Text.isWhite c = false := by
  intro c head
  obtain ⟨more, rfl⟩ := List.head?_eq_some_iff.mp head
  cases white : Text.isWhite c with
  | false => rfl
  | true =>
    have ends := endsFragment_of_isWhite white
    have stands : c ∈ outside none (c :: more) := by
      simp only [outside, not_isQuote_of_endsFragment ends, Bool.false_eq_true, if_false,
        List.mem_cons_self]
    exact absurd ends (by simp only [fragment.unended c stands, Bool.false_eq_true, not_false_iff])

/-- The last character of a fragment is not white: it closes a quote or stands outside of
the quotes. -/
theorem IsFragment.getLast {text : List Char} (fragment : IsFragment text) :
    ∀ c ∈ text.getLast?, Text.isWhite c = false := by
  intro c last
  obtain ⟨init, rfl⟩ := List.getLast?_eq_some_iff.mp last
  have closed := fragment.closed
  have unended := fragment.unended
  rw [quoteAfterAll_append] at closed
  rw [outside_append] at unended
  cases white : Text.isWhite c with
  | false => rfl
  | true =>
    have ends := endsFragment_of_isWhite white
    have unquoted := not_isQuote_of_endsFragment ends
    cases opened : quoteAfterAll none init with
    | some quote =>
      have nothing : ∀ d ∈ (none : Option Char), isQuote d = true := by rintro _ ⟨⟩
      have quotes : isQuote quote = true := isQuote_of_quoteAfterAll nothing quote opened
      rw [opened] at closed
      simp only [quoteAfterAll, List.foldl_cons, List.foldl_nil, quoteAfter] at closed
      split at closed
      · next same => rw [same, quotes] at unquoted; cases unquoted
      · cases closed
    | none =>
      have stands : c ∈ outside none init ++ outside (quoteAfterAll none init) [c] := by
        rw [opened]
        simp only [outside, unquoted, Bool.false_eq_true, if_false, List.mem_append,
          List.mem_singleton, or_true]
      exact absurd ends (by simp only [unended c stands, Bool.false_eq_true, not_false_iff])

theorem IsFragment.trimmed {text : List Char} (fragment : IsFragment text) : Text.Trimmed text :=
  ⟨fragment.head, fragment.getLast⟩

/-- A keyword that is followed by white space stands alone. -/
theorem keyword?_append (word : List Char) {rest : List Char}
    (ends : Text.atWordEnd rest = true) : keyword? word (word ++ rest) = some rest := by
  have starts : word.isPrefixOf? (word ++ rest) = some rest :=
    List.isPrefixOf?_eq_some_iff_append_eq.mpr rfl
  simp only [keyword?, starts, Option.filter_some, ends, if_true]

/-- A space ends a name. -/
theorem endsName_space (rest : List Char) : EndsName (' ' :: rest) := by
  rintro _ ⟨⟩
  decide

/-- A text that starts with a name or a fragment does not start with white space. -/
theorem trimStart_append {text : List Char} (trimmed : Text.Trimmed text) (nonempty : text ≠ [])
    (rest : List Char) : Text.trimStart (text ++ rest) = text ++ rest := by
  apply Text.trimStart_of_head
  rw [List.head?_append_of_ne_nil text nonempty]
  exact trimmed.head

end Markup

end Stencil
