import Stencil.Expr.Reader
import Stencil.Proofs.Literals

/-!
# The grammar of expressions

What a text spells as an expression, said without the reader. White space may stand
before every expression, before the dots and the closing parenthesis of a range and
before a closing bracket. The steps of a path follow each other directly.

The main statement is that the reader takes a text from the front that spells the
expression it returns. Such a text closes its quotes, which are those of its string
literals, and holds neither commas nor bars outside of them. So it is a fragment unless
there is white space between its parts.
-/

namespace Stencil

namespace Expr

open Markup
open Text (White)

/-- The kinds of phrases: an expression, or the steps that follow a path. -/
inductive Phrase where
  | whole
  | steps (path : Expr)

/-- A character with which a number starts. -/
def startsNumber (c : Char) : Bool := c = '-' || c.isDigit

/-- The names of literals. -/
inductive NamesLiteral : String → Value → Prop where
  | yes : NamesLiteral "true" (.bool true)
  | no : NamesLiteral "false" (.bool false)
  | nil : NamesLiteral "nil" .null
  | null : NamesLiteral "null" .null

/-- The expression that a text spells. -/
inductive Spells : Phrase → List Char → Expr → Prop where
  | spaced {c : Char} {text : List Char} {e : Expr} (white : Text.isWhite c = true)
      (spelled : Spells .whole text e) : Spells .whole (c :: text) e
  | string {quote : Char} {run : List Char} (quotes : quote = '\'' ∨ quote = '"')
      (closed : quote ∉ run) :
      Spells .whole (quote :: (run ++ [quote])) (.literal (.string (String.ofList run)))
  | range {firstText lastText white moreWhite : List Char} {first last : Expr}
      (firstSpelled : Spells .whole firstText first) (spaced : White white)
      (lastSpelled : Spells .whole lastText last) (spacedMore : White moreWhite) :
      Spells .whole ('(' :: (firstText ++ (white ++ '.' :: '.' :: (lastText ++
        (moreWhite ++ [')']))))) (.range first last)
  | number {text : List Char} {v : Value} (denoted : SpellsNumber text v) :
      Spells .whole text (.literal v)
  | constant {name : String} {v : Value} (names : NamesLiteral name v) :
      Spells .whole name.toList (.literal v)
  | path {name : String} {text : List Char} {e : Expr} (named : IsName name.toList)
      (starts : ∀ c ∈ name.toList.head?, startsNumber c = false)
      (followed : Spells (.steps (.var name)) text e)
      (unreserved : text = [] → ∀ v, ¬NamesLiteral name v) :
      Spells .whole (name.toList ++ text) e
  | nothing (e : Expr) : Spells (.steps e) [] e
  | member {path : Expr} {key : String} {text : List Char} {e : Expr} (named : IsName key.toList)
      (followed : Spells (.steps (.member path key)) text e) :
      Spells (.steps path) ('.' :: (key.toList ++ text)) e
  | element {path index : Expr} {indexText white text : List Char} {e : Expr}
      (indexSpelled : Spells .whole indexText index) (spaced : White white)
      (followed : Spells (.steps (.element path index)) text e) :
      Spells (.steps path) ('[' :: (indexText ++ (white ++ ']' :: text))) e

/-- The names of literals are names. -/
theorem NamesLiteral.isName {name : String} {v : Value} (names : NamesLiteral name v) :
    IsName name.toList := by
  cases names <;> exact isName_of_identifier? (by decide)

theorem NamesLiteral.starts {name : String} {v : Value} (names : NamesLiteral name v) :
    ∀ c ∈ name.toList.head?, startsNumber c = false := by
  cases names <;> rintro _ ⟨⟩ <;> decide

/-- The name of a literal stands for it. -/
theorem named_var {name : String} {v : Value} (names : NamesLiteral name v) :
    (var name).named = .literal v := by
  cases names <;> rfl

/-- All expressions besides the names of literals stand for themselves. -/
theorem named_eq_self {e : Expr} (other : ∀ name v, e = .var name → ¬NamesLiteral name v) :
    e.named = e := by
  unfold named
  split
  · exact absurd .yes (other _ _ rfl)
  · exact absurd .no (other _ _ rfl)
  · exact absurd .nil (other _ _ rfl)
  · exact absurd .null (other _ _ rfl)
  · rfl

/-- What steps lead to from a path: the path itself if there are none, and else no variable. -/
def Phrase.LeadsTo (text : List Char) (e : Expr) : Phrase → Prop
  | .whole => True
  | .steps path => text = [] ∧ e = path ∨ ∀ name, e ≠ .var name

/-- Steps that are not missing end with a member or an element. -/
theorem Spells.leadsTo {phrase : Phrase} {text : List Char} {e : Expr}
    (spelled : Spells phrase text e) : phrase.LeadsTo text e := by
  induction spelled with
  | nothing => exact .inl ⟨rfl, rfl⟩
  | member _ _ inductionHypothesis =>
    rcases inductionHypothesis with ⟨-, rfl⟩ | other
    · exact .inr fun _ same => nomatch same
    · exact .inr other
  | element _ _ _ _ inductionHypothesis =>
    rcases inductionHypothesis with ⟨-, rfl⟩ | other
    · exact .inr fun _ same => nomatch same
    · exact .inr other
  | _ => trivial

/-- A path stands for itself, unless it is the name of a literal and has no steps. -/
theorem Spells.named_eq {name : String} {text : List Char} {e : Expr}
    (followed : Spells (.steps (.var name)) text e)
    (unreserved : text = [] → ∀ v, ¬NamesLiteral name v) : e.named = e := by
  apply named_eq_self
  rintro other v rfl
  rcases followed.leadsTo with ⟨none, same⟩ | different
  · cases same
    exact unreserved none v
  · exact absurd rfl (different other)

/-- A name with the steps after it spells what its path stands for. -/
theorem Spells.of_name {name : String} {text : List Char} {e : Expr} (named : IsName name.toList)
    (starts : ∀ c ∈ name.toList.head?, startsNumber c = false)
    (followed : Spells (.steps (.var name)) text e) :
    Spells .whole (name.toList ++ text) e.named := by
  by_cases constant : text = [] ∧ ∃ v, NamesLiteral name v
  · obtain ⟨rfl, v, names⟩ := constant
    cases followed
    rw [List.append_nil, named_var names]
    exact .constant names
  · have unreserved : text = [] → ∀ v, ¬NamesLiteral name v :=
      fun none v names => constant ⟨none, v, names⟩
    rw [followed.named_eq unreserved]
    exact .path named starts followed unreserved

/-- White space before an expression belongs to what spells it. -/
theorem Spells.spacedAll {white text : List Char} {e : Expr} (spaced : White white)
    (spelled : Spells .whole text e) : Spells .whole (white ++ text) e := by
  induction white with
  | nil => exact spelled
  | cons c white inductionHypothesis =>
    exact .spaced (spaced c List.mem_cons_self)
      (inductionHypothesis fun other member => spaced other (List.mem_cons_of_mem c member))

/-- The reader of expressions takes what spells the expression. -/
def ReadsSpelled (text : List Char) : Prop :=
  ∀ e rest bound, read text = .ok ⟨(e, rest), bound⟩ →
    ∃ used, text = used ++ rest ∧ Spells .whole used e

/-- The reader of steps takes what spells the steps. -/
def ReadsSteps (text : List Char) : Prop :=
  ∀ path e rest bound, readSteps path text = .ok ⟨(e, rest), bound⟩ →
    ∃ used, text = used ++ rest ∧ Spells (.steps path) used e

/-- An expression is read as it is spelled, if all shorter texts are. -/
theorem readsSpelled {text : List Char}
    (whole : ∀ shorter : List Char, shorter.length < text.length → ReadsSpelled shorter)
    (steps : ∀ shorter : List Char, shorter.length < text.length → ReadsSteps shorter) :
    ReadsSpelled text := by
  intro e rest bound result
  rw [Expr.read] at result
  split at result
  · cases result
  · next c more start =>
    have shorter := length_lt_of_trimStart start
    obtain ⟨white, spaced, split⟩ := Text.exists_white_of_trimStart start
    have spelled {used : List Char} (same : c :: more = used ++ rest)
        (spells : Spells .whole used e) :
        ∃ used, text = used ++ rest ∧ Spells .whole used e :=
      ⟨white ++ used, by rw [split, same, List.append_assoc], spells.spacedAll spaced⟩
    dsimp only at result
    split at result
    · next quotes =>
      split at result
      · cases result
      · next run after found =>
        cases result
        obtain ⟨rfl, closed⟩ := quoted?_eq_some found
        exact spelled (by simp) (.string (isQuote_iff.mp quotes) closed)
    · next notQuote =>
      split at result
      · next opens =>
        subst opens
        split at result
        · cases result
        · next first afterFirst firstBound firstRead =>
          obtain ⟨firstText, rfl, firstSpelled⟩ := whole more shorter _ _ _ firstRead
          split at result
          · next afterDots dots =>
            obtain ⟨gap, gapSpaced, rfl⟩ := Text.exists_white_of_trimStart dots
            have shorterDots : afterDots.length < text.length := by
              simp only [List.length_append, List.length_cons] at shorter
              omega
            split at result
            · cases result
            · next last afterLast lastBound lastRead =>
              obtain ⟨lastText, rfl, lastSpelled⟩ := whole afterDots shorterDots _ _ _ lastRead
              split at result
              · next after close =>
                cases result
                obtain ⟨ending, endSpaced, rfl⟩ := Text.exists_white_of_trimStart close
                exact spelled (by simp) (.range firstSpelled gapSpaced lastSpelled endSpaced)
              · cases result
          · cases result
      · split at result
        · next starts =>
          split at result
          · cases result
          · next v after found =>
            cases result
            have noPoint : (c :: more).head? ≠ some '.' := by
              rintro ⟨⟩
              exact absurd starts (by decide)
            obtain ⟨used, same, denoted⟩ := exists_spellsNumber noPoint found
            exact spelled same (.number denoted)
        · next notNumber =>
          split at result
          · cases result
          · next name after found =>
            obtain ⟨same, named⟩ := identifier?_eq_some found
            have shorterSteps := Nat.lt_of_lt_of_le (length_identifier?_lt found) shorter
            split at result
            · cases result
            · next path afterSteps stepsBound stepsRead =>
              cases result
              obtain ⟨used, rfl, followed⟩ := steps after shorterSteps _ _ _ _ stepsRead
              have starts : ∀ d ∈ name.toList.head?, startsNumber d = false := by
                intro d head
                obtain ⟨tail, chars⟩ := List.head?_eq_some_iff.mp head
                rw [chars] at same
                obtain ⟨rfl, -⟩ := List.cons.inj same
                exact Bool.eq_false_iff.mpr notNumber
              exact spelled (by rw [same, List.append_assoc]) (.of_name named starts followed)

/-- Steps are read as they are spelled, if all shorter texts are. -/
theorem readsSteps {text : List Char}
    (whole : ∀ shorter : List Char, shorter.length < text.length → ReadsSpelled shorter)
    (steps : ∀ shorter : List Char, shorter.length < text.length → ReadsSteps shorter) :
    ReadsSteps text := by
  intro path e rest bound result
  unfold Expr.readSteps at result
  split at result
  · cases result
    exact ⟨[], rfl, .nothing path⟩
  · next more _ =>
    split at result
    · cases result
    · next key after found =>
      obtain ⟨rfl, named⟩ := identifier?_eq_some found
      have shorter : after.length < ('.' :: (key.toList ++ after)).length := by
        simp only [List.length_cons, List.length_append]
        omega
      split at result
      · cases result
      · next e afterSteps stepsBound stepsRead =>
        cases result
        obtain ⟨used, rfl, followed⟩ := steps after shorter _ _ _ _ stepsRead
        exact ⟨'.' :: (key.toList ++ used), by simp, .member named followed⟩
  · next more =>
    split at result
    · cases result
    · next index afterIndex indexBound indexRead =>
      obtain ⟨indexText, rfl, indexSpelled⟩ := whole more (Nat.lt_succ_self _) _ _ _ indexRead
      split at result
      · next after close =>
        obtain ⟨gap, gapSpaced, rfl⟩ := Text.exists_white_of_trimStart close
        have shorter :
            after.length < ('[' :: (indexText ++ (gap ++ ']' :: after))).length := by
          simp only [List.length_cons, List.length_append]
          omega
        split at result
        · cases result
        · next e afterSteps stepsBound stepsRead =>
          cases result
          obtain ⟨used, rfl, followed⟩ := steps after shorter _ _ _ _ stepsRead
          exact ⟨'[' :: (indexText ++ (gap ++ ']' :: used)), by simp,
            .element indexSpelled gapSpaced followed⟩
      · cases result
  · cases result
    exact ⟨[], rfl, .nothing path⟩

/-- The readers take what spells their results. The induction is on the length of the
text, since the readers call each other on shorter ones. -/
theorem reads_of_length (size : Nat) (text : List Char) (short : text.length < size) :
    ReadsSpelled text ∧ ReadsSteps text := by
  induction size generalizing text with
  | zero => exact absurd short (Nat.not_lt_zero _)
  | succ size inductionHypothesis =>
    have earlier (shorter : List Char) (less : shorter.length < text.length) :=
      inductionHypothesis shorter (Nat.lt_of_lt_of_le less (Nat.le_of_lt_succ short))
    exact ⟨readsSpelled (fun shorter less => (earlier shorter less).1) fun shorter less =>
        (earlier shorter less).2,
      readsSteps (fun shorter less => (earlier shorter less).1) fun shorter less =>
        (earlier shorter less).2⟩

/-- What the reader takes from the front of a text spells the expression it returns. -/
theorem exists_spells_of_read {text rest : List Char} {e : Expr}
    {bound : rest.length < text.length} (found : read text = .ok ⟨(e, rest), bound⟩) :
    ∃ used, text = used ++ rest ∧ Spells .whole used e :=
  (reads_of_length _ text (Nat.lt_succ_self _)).1 e rest bound found

/-- What is read as an expression spells it, up to white space at the end. -/
theorem exists_spells_of_parse {text : List Char} {e : Expr} (parsed : parse text = .ok e) :
    ∃ used white, text = used ++ white ∧ Spells .whole used e ∧ White white := by
  unfold parse at parsed
  split at parsed
  · cases parsed
  · next found rest bound result =>
    obtain ⟨used, rfl, spelled⟩ := exists_spells_of_read result
    split at parsed
    · next trimmed =>
      cases parsed
      obtain ⟨white, spaced, rfl⟩ := Text.exists_white_of_trimStart trimmed
      exact ⟨used, white, by rw [List.append_nil], spelled, spaced⟩
    · cases parsed

/-! ### Expressions as fragments -/

/-- A text closes its quotes and holds neither commas nor bars outside of them. -/
structure Unbroken (text : List Char) : Prop where
  closed : quoteAfterAll none text = none
  unseparated : ∀ c ∈ outside none text, c ≠ ',' ∧ c ≠ '|'

theorem Unbroken.append {text more : List Char} (unbroken : Unbroken text)
    (unbrokenMore : Unbroken more) : Unbroken (text ++ more) := by
  constructor
  · rw [quoteAfterAll_append, unbroken.closed, unbrokenMore.closed]
  · rw [outside_append, unbroken.closed]
    intro c member
    rcases List.mem_append.mp member with member | member
    · exact unbroken.unseparated c member
    · exact unbrokenMore.unseparated c member

/-- The characters that can break a text: quotes and what ends a fragment besides white
space. -/
def breaks : List Char := ['\'', '"', ',', '|']

/-- A character of a kind to which none of the breaks belongs is no break. -/
theorem not_mem_breaks {kind : Char → Bool} {c : Char} (apart : breaks.filter kind = [])
    (inside : kind c = true) : c ∉ breaks := fun member =>
  List.filter_eq_nil_iff.mp apart c member inside

/-- A text without breaks is unbroken. -/
theorem unbroken_of_forall {text : List Char} (plain : ∀ c ∈ text, c ∉ breaks) :
    Unbroken text := by
  have unquoted : ∀ c ∈ text, isQuote c = false := by
    intro c member
    have kept := plain c member
    simp only [breaks, List.mem_cons, List.not_mem_nil, or_false, not_or] at kept
    simp only [isQuote, kept, decide_false, Bool.or_self]
  obtain ⟨closed, all⟩ := outside_of_unquoted unquoted
  refine ⟨closed, ?_⟩
  rw [all]
  intro c member
  have kept := plain c member
  simp only [breaks, List.mem_cons, List.not_mem_nil, or_false, not_or] at kept
  exact kept.2.2

/-- A single character that is no break is unbroken. -/
theorem unbroken_single {c : Char} (plain : c ∉ breaks) : Unbroken [c] :=
  unbroken_of_forall fun _ member => List.mem_singleton.mp member ▸ plain

theorem unbroken_white {white : List Char} (spaced : White white) : Unbroken white :=
  unbroken_of_forall fun c member => not_mem_breaks (by decide) (spaced c member)

theorem unbroken_name {name : List Char} (named : IsName name) : Unbroken name := by
  apply unbroken_of_forall
  intro c member
  rcases named.kept c member with starts | rfl | rfl
  · exact not_mem_breaks (by decide) starts
  · decide
  · decide

theorem unbroken_number {text : List Char} {v : Value} (denoted : SpellsNumber text v) :
    Unbroken text := by
  apply unbroken_of_forall
  intro c member
  rcases denoted.inNumber c member with rfl | rfl | digit
  · decide
  · decide
  · exact not_mem_breaks (by decide) digit

/-- What spells an expression or steps is unbroken. -/
theorem Spells.unbroken {phrase : Phrase} {text : List Char} {e : Expr}
    (spelled : Spells phrase text e) : Unbroken text := by
  induction spelled with
  | @spaced c _ _ white _ inductionHypothesis =>
    have spaced : White [c] := fun d member => List.mem_singleton.mp member ▸ white
    exact (unbroken_white spaced).append inductionHypothesis
  | string quotes closed =>
    obtain ⟨closed, nothing⟩ := outside_of_quoted (isQuote_iff.mpr quotes) closed
    exact ⟨closed, by rw [nothing]; exact fun _ member => nomatch member⟩
  | range _ spaced _ spacedMore firstHypothesis lastHypothesis =>
    have opening : Unbroken ['('] := unbroken_single (by decide)
    have dot : Unbroken ['.'] := unbroken_single (by decide)
    have closing : Unbroken [')'] := unbroken_single (by decide)
    exact opening.append (firstHypothesis.append ((unbroken_white spaced).append
      ((dot.append dot).append (lastHypothesis.append
        ((unbroken_white spacedMore).append closing)))))
  | number denoted => exact unbroken_number denoted
  | constant names => exact unbroken_name names.isName
  | path named _ _ _ inductionHypothesis => exact (unbroken_name named).append inductionHypothesis
  | nothing => exact unbroken_of_forall fun _ member => nomatch member
  | member named _ inductionHypothesis =>
    have dot : Unbroken ['.'] := unbroken_single (by decide)
    exact dot.append ((unbroken_name named).append inductionHypothesis)
  | element _ spaced _ indexHypothesis inductionHypothesis =>
    have opening : Unbroken ['['] := unbroken_single (by decide)
    have closing : Unbroken [']'] := unbroken_single (by decide)
    exact opening.append (indexHypothesis.append ((unbroken_white spaced).append
      (closing.append inductionHypothesis)))

/-- What spells an expression is not empty. -/
theorem Spells.ne_nil {text : List Char} {e : Expr} (spelled : Spells .whole text e) :
    text ≠ [] := by
  cases spelled with
  | constant names => exact names.isName.ne_nil
  | path named => exact List.append_ne_nil_of_left_ne_nil named.ne_nil _
  | number denoted =>
    obtain ⟨c, more, rfl, -⟩ := denoted.exists_cons
    exact List.cons_ne_nil c more
  | _ => exact List.cons_ne_nil _ _

/-- An unbroken text is a fragment if it is not empty and no white space stands outside of
its quotes. -/
theorem Unbroken.isFragment {text : List Char} (unbroken : Unbroken text) (nonempty : text ≠ [])
    (tight : ∀ c ∈ outside none text, Text.isWhite c = false) : IsFragment text := by
  refine ⟨nonempty, unbroken.closed, ?_⟩
  intro c member
  obtain ⟨comma, bar⟩ := unbroken.unseparated c member
  simp only [endsFragment, tight c member, comma, bar, decide_false, Bool.or_self]

/-- An expression without white space outside of its string literals is a fragment. -/
theorem isFragment_of_parse {text : List Char} {e : Expr} (parsed : parse text = .ok e)
    (tight : ∀ c ∈ outside none text, Text.isWhite c = false) : IsFragment text := by
  obtain ⟨used, white, rfl, spelled, spaced⟩ := exists_spells_of_parse parsed
  have unbroken := spelled.unbroken.append (unbroken_white spaced)
  exact unbroken.isFragment (List.append_ne_nil_of_left_ne_nil spelled.ne_nil white) tight

end Expr

/-- A name is a fragment. -/
theorem Markup.IsName.isFragment {name : List Char} (named : IsName name) : IsFragment name :=
  (Expr.unbroken_name named).isFragment named.ne_nil fun _ member =>
    (named.plain_of_mem (outside_subset none name member)).1

end Stencil
