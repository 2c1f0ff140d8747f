import Mathlib.Data.List.DropRight
import Mathlib.Tactic.FinCases
import Stencil.Proofs.Layouts
import Stencil.Proofs.Words

/-!
# Sources as they are printed

A layout is printed by writing each delimiter with its marks, its dashes and a space on
either side of its inner text. What is printed is read as the same layout, if no mark
arises where none was meant. So the tokens of the source are the inner texts of the
delimiters and the texts that the dashes leave, each of them told by its place.

What is read of any source, whether it was printed in this way or not, has no text that is
empty, holds an opening mark or stands next to another text. And nothing is read exactly if,
from left to right, the first opening mark that stands outside of all delimiters before it
is not closed.
-/

namespace Stencil

namespace Text

variable {mark text inside rest : List Char}

/-- A text is not split exactly if the mark does not occur in it. -/
theorem splitAt?_eq_none_iff (nonempty : mark ≠ []) :
    splitAt? mark text = none ↔ ¬mark <:+: text := by
  constructor
  · intro unsplit occurs
    induction text with
    | nil => exact nonempty (List.eq_nil_of_infix_nil occurs)
    | cons c text inductionHypothesis =>
      simp only [splitAt?] at unsplit
      split at unsplit
      · cases unsplit
      · next missing =>
        rcases List.infix_cons_iff.mp occurs with ⟨after, starts⟩ | later
        · rw [List.isPrefixOf?_eq_some_iff_append_eq.mpr starts] at missing
          cases missing
        · exact inductionHypothesis (Option.map_eq_none_iff.mp unsplit) later
  · intro absent
    rw [Option.eq_none_iff_forall_ne_some]
    rintro ⟨before, after⟩ found
    exact absent ⟨before, after, (splitAt?_eq_some found).symm⟩

/-- A text is split at the first place of the mark: it does not stand earlier, not even in part
before its place. -/
theorem splitAt?_eq_some_iff (nonempty : mark ≠ []) :
    splitAt? mark text = some (inside, rest) ↔
      text = inside ++ (mark ++ rest) ∧ ¬mark <:+: inside ++ mark.dropLast := by
  constructor
  · intro found
    have whole := splitAt?_eq_some found
    rw [List.append_assoc] at whole
    refine ⟨whole, fun occurs => ?_⟩
    induction text generalizing inside with
    | nil => cases found
    | cons c text inductionHypothesis =>
      simp only [splitAt?] at found
      split at found
      · cases found
        have short := occurs.length_le
        have long := List.length_pos_iff.mpr nonempty
        rw [List.nil_append, List.length_dropLast] at short
        omega
      · next missing =>
        simp only [Option.map_eq_some_iff, Prod.mk.injEq, Prod.exists] at found
        obtain ⟨before, _, later, rfl, rfl⟩ := found
        have whole : text = before ++ (mark ++ _) := (List.cons.inj whole).2
        rcases List.infix_cons_iff.mp occurs with starts | occurs
        · -- The mark would be found at this character.
          have within : c :: before ++ mark.dropLast <+: c :: text := by
            rw [whole, List.cons_append, List.prefix_cons_inj, List.prefix_append_right_inj]
            exact (List.dropLast_prefix mark).trans (List.prefix_append mark _)
          obtain ⟨after, starts⟩ := starts.trans within
          rw [List.isPrefixOf?_eq_some_iff_append_eq.mpr starts] at missing
          cases missing
        · exact inductionHypothesis later whole occurs
  · rintro ⟨rfl, unmarked⟩
    exact splitAt?_of_not_infix rest nonempty unmarked

end Text

/-! ### Marks -/

/-- No opening mark stands in a text. -/
def Unopened (text : List Char) : Prop := ∀ kind : DelimiterKind, ¬kind.opening <:+: text

/-- The first opening mark of a source, with what stands before and after it. -/
structure Opens (source before : List Char) (kind : DelimiterKind) (after : List Char) : Prop where
  whole : source = before ++ (kind.opening ++ after)
  first : Unopened (before ++ ['{'])

/-- A text before an opening mark does not end with a brace, which would be one of a mark
before it. -/
theorem Opens.uncut {source before after : List Char} {kind : DelimiterKind}
    (opens : Opens source before kind after) :
    Unopened before ∧ before.getLast? ≠ some '{' := by
  constructor
  · intro other occurs
    exact opens.first other (occurs.trans (List.prefix_append before ['{']).isInfix)
  · intro last
    obtain ⟨init, rfl⟩ := List.getLast?_eq_some_iff.mp last
    exact opens.first .output ⟨init, [], by simp [DelimiterKind.opening]⟩

namespace Layout

variable {source before after : List Char} {kind : DelimiterKind}

/-- An opening mark stands in a longer text only if it does at the first character or in the
rest. -/
theorem unopened_cons {c : Char} {text : List Char} (closed : Closed c text)
    (unopened : Unopened text) : Unopened (c :: text) := by
  intro kind occurs
  rcases List.infix_cons_iff.mp occurs with ⟨after, starts⟩ | later
  · cases kind with
    | output =>
      cases starts
      exact (closed rfl).1 rfl
    | tag =>
      cases starts
      exact (closed rfl).2 rfl
  · exact unopened kind later

theorem nextOpening?_eq_none_iff {text : List Char} :
    nextOpening? text = none ↔ Unopened text := by
  constructor
  · intro none
    fun_induction nextOpening? text with
    | case1 =>
      intro kind occurs
      cases kind <;> cases List.eq_nil_of_infix_nil occurs
    | case2 => cases none
    | case3 => cases none
    | case4 c rest notOutput notTag inductionHypothesis =>
      exact unopened_cons (closed_of_forall notOutput notTag)
        (inductionHypothesis (Option.map_eq_none_iff.mp none))
  · intro unopened
    rw [Option.eq_none_iff_forall_ne_some]
    rintro ⟨before, kind, after⟩ found
    exact unopened kind ⟨before, after, (nextOpening?_eq_some found).symm⟩

/-- The first opening mark is found. -/
theorem nextOpening?_eq_some_iff :
    nextOpening? source = some (before, kind, after) ↔ Opens source before kind after := by
  constructor
  · intro found
    refine ⟨by rw [nextOpening?_eq_some found, List.append_assoc], ?_⟩
    fun_induction nextOpening? source generalizing before with
    | case1 => cases found
    | case2 =>
      cases found
      intro kind
      cases kind <;> decide
    | case3 =>
      cases found
      intro kind
      cases kind <;> decide
    | case4 c rest notOutput notTag inductionHypothesis =>
      simp only [Option.map_eq_some_iff, Prod.mk.injEq, Prod.exists] at found
      obtain ⟨skipped, found, _, read, rfl, rfl, rfl⟩ := found
      -- What follows the character begins in the same way as in the source.
      have head : (skipped ++ ['{']).head? = rest.head? := by
        rw [nextOpening?_eq_some read]
        cases skipped with
        | nil => cases found <;> rfl
        | cons => rfl
      have closed : Closed c (skipped ++ ['{']) := by
        rw [Closed, head]
        exact closed_of_forall notOutput notTag
      exact unopened_cons closed (inductionHypothesis read)
  · intro opens
    obtain ⟨unopened, uncut⟩ := opens.uncut
    rw [opens.whole, nextOpening?_append_of_none _ (nextOpening?_eq_none_iff.mpr unopened) uncut]
    cases kind <;> simp [DelimiterKind.opening, nextOpening?]

end Layout

/-! ### Printing -/

namespace Delimiter

/-- The dash of a delimiter on a side that it trims. -/
def dash (trims : Bool) : List Char := if trims then ['-'] else []

/-- What is printed between the marks of a delimiter. -/
def inside (d : Delimiter) : List Char :=
  dash d.trimsBefore ++ ' ' :: (d.inner ++ ' ' :: dash d.trimsAfter)

/-- A delimiter as it is printed. -/
def source (d : Delimiter) : List Char := d.kind.opening ++ (d.inside ++ d.kind.closing)

/-- The inner text of a delimiter can be printed. -/
structure Written (d : Delimiter) : Prop where
  trimmed : Text.Trimmed d.inner
  unclosed : ¬d.kind.closing <:+: d.inner

variable {d : Delimiter}

/-- Only the dash before the space is taken for the one on the left. -/
theorem ofInside_dash (kind : DelimiterKind) (before : Bool) (rest : List Char) :
    ofInside kind (dash before ++ ' ' :: rest) =
      if (' ' :: rest).getLast? = some '-' then
        ⟨kind, before, Text.trim (' ' :: rest).dropLast, true⟩
      else ⟨kind, before, Text.trim (' ' :: rest), false⟩ := by
  cases before <;> rfl

/-- What is printed between marks is read as the delimiter, without the white ends of its inner
text. -/
theorem ofInside_inside (d : Delimiter) :
    ofInside d.kind d.inside = { d with inner := Text.trim d.inner } := by
  obtain ⟨kind, before, inner, after⟩ := d
  have trimmed : Text.trim (' ' :: (inner ++ [' '])) = Text.trim inner := Text.trim_spaces_of inner
  rw [inside, ofInside_dash]
  cases after with
  | false =>
    have kept : (' ' :: (inner ++ [' '])).getLast? ≠ some '-' := by
      rw [← List.cons_append, List.getLast?_concat]
      decide
    rw [dash, if_neg Bool.false_ne_true, if_neg kept, trimmed]
  | true =>
    have whole : ' ' :: (inner ++ [' ', '-']) = (' ' :: (inner ++ [' '])) ++ ['-'] := by simp
    rw [dash, if_pos rfl, whole, List.getLast?_concat, List.dropLast_concat, if_pos rfl, trimmed]

/-- The closing mark does not arise before its place. -/
theorem unmarked (unclosed : ¬d.kind.closing <:+: d.inner) :
    ¬d.kind.closing <:+: d.inside ++ d.kind.closing.dropLast := by
  obtain ⟨kind, before, inner, after⟩ := d
  have whole : inside ⟨kind, before, inner, after⟩ ++ kind.closing.dropLast =
      (dash before ++ [' ']) ++ (inner ++ (' ' :: dash after ++ kind.closing.dropLast)) := by
    simp [inside]
  rw [whole]
  cases kind with
  | output =>
    apply Text.not_pair_append
    · cases before <;> decide
    · refine Text.not_pair_append unclosed ?_ (.inr (by simp))
      cases after <;> decide
    · exact .inl (by simp)
  | tag =>
    apply Text.not_pair_append
    · cases before <;> decide
    · refine Text.not_pair_append unclosed ?_ (.inr (by simp))
      cases after <;> decide
    · exact .inl (by simp)

end Delimiter

namespace Layout

/-- The texts of a layout. -/
def texts (layout : Layout) : List (List Char) := layout.first :: layout.rest.map Prod.snd

/-- The delimiters of a layout. -/
def delimiters (layout : Layout) : List Delimiter := layout.rest.map Prod.fst

/-- A layout as it is printed. -/
def source (layout : Layout) : List Char :=
  layout.first ++ layout.rest.flatMap fun (d, text) => d.source ++ text

/-- A layout can be printed: its texts hold no opening marks, and none but the last one ends
with a brace, which could become a part of one. -/
structure Written (layout : Layout) : Prop where
  unopened : ∀ text ∈ layout.texts, Unopened text
  uncut : ∀ text ∈ layout.texts.dropLast, text.getLast? ≠ some '{'
  delimiters : ∀ d ∈ layout.delimiters, d.Written

/-- A text and a printed delimiter after it are read as such, but for the white ends of the
delimiter's inner text. -/
theorem ofSource_printed_trim {text : List Char} {d : Delimiter} (unopened : Unopened text)
    (uncut : text.getLast? ≠ some '{') (unclosed : ¬d.kind.closing <:+: d.inner)
    (rest : List Char) :
    ofSource (text ++ (d.source ++ rest)) = (ofSource rest).map fun more =>
      ⟨text, ({ d with inner := Text.trim d.inner }, more.first) :: more.rest⟩ := by
  have opens : Opens (text ++ (d.source ++ rest)) text d.kind
      (d.inside ++ (d.kind.closing ++ rest)) := by
    refine ⟨by simp [Delimiter.source], fun kind => ?_⟩
    cases kind with
    | output => exact Text.not_pair_append (unopened .output) (by decide) (.inl uncut)
    | tag => exact Text.not_pair_append (unopened .tag) (by decide) (.inl uncut)
  have nonempty : d.kind.closing ≠ [] := by cases d.kind <;> decide
  rw [ofSource_delimiter (nextOpening?_eq_some_iff.mpr opens)
    (Text.splitAt?_of_not_infix rest nonempty (Delimiter.unmarked unclosed)),
    Delimiter.ofInside_inside]

theorem ofSource_printed {text : List Char} {d : Delimiter} (unopened : Unopened text)
    (uncut : text.getLast? ≠ some '{') (written : d.Written) (rest : List Char) :
    ofSource (text ++ (d.source ++ rest)) = (ofSource rest).map fun more =>
      ⟨text, (d, more.first) :: more.rest⟩ := by
  have printed := ofSource_printed_trim unopened uncut written.unclosed rest
  rwa [Text.trim_of_trimmed written.trimmed] at printed

/-- What is printed is read as what it was printed from. -/
theorem Written.ofSource_source {layout : Layout} (written : layout.Written) :
    ofSource layout.source = .ok layout := by
  obtain ⟨first, rest⟩ := layout
  induction rest generalizing first with
  | nil =>
    have unopened : Unopened first := written.unopened first List.mem_cons_self
    rw [source, List.flatMap_nil, List.append_nil]
    exact ofSource_text (nextOpening?_eq_none_iff.mpr unopened)
  | cons delimiter rest inductionHypothesis =>
    obtain ⟨d, next⟩ := delimiter
    have later : Written ⟨next, rest⟩ := {
      unopened := fun text member => written.unopened text (List.mem_cons_of_mem first member)
      uncut := fun text member => written.uncut text (List.mem_cons_of_mem first member)
      delimiters := fun other member => written.delimiters other (List.mem_cons_of_mem d member) }
    have printed : source ⟨first, (d, next) :: rest⟩ =
        first ++ (d.source ++ source ⟨next, rest⟩) := by
      simp [source]
    rw [printed, ofSource_printed (written.unopened first List.mem_cons_self)
      (written.uncut first List.mem_cons_self) (written.delimiters d List.mem_cons_self),
      inductionHypothesis next later]
    rfl

/-! ### The tokens of each place -/

/-- Whether the text at a place is trimmed at its start: the delimiter before it, if there is
one, has a dash on its right. -/
def trimsStart (layout : Layout) : Nat → Bool
  | 0 => false
  | place + 1 => (layout.delimiters[place]?).any Delimiter.trimsAfter

/-- Whether the text at a place is trimmed at its end: the delimiter after it, if there is one,
has a dash on its left. -/
def trimsEnd (layout : Layout) (place : Nat) : Bool :=
  (layout.delimiters[place]?).any Delimiter.trimsBefore

/-- What the dashes leave of a text. -/
def trimmed (atStart atEnd : Bool) (text : List Char) : List Char :=
  let started := if atStart then text.dropWhile Text.isWhite else text
  if atEnd then started.rdropWhile Text.isWhite else started

/-- The tokens of a text of which something is left. -/
def textPiece (text : List Char) : List Token := if text = [] then [] else [.text text]

/-- The tokens of a place: what is left of the text, and the delimiter after it. -/
def piece (layout : Layout) (place : Nat) : List Token :=
  textPiece (trimmed (layout.trimsStart place) (layout.trimsEnd place)
    (layout.texts.getD place [])) ++
    ((layout.delimiters[place]?).map Delimiter.token).toList

/-- The tokens of all places in order. -/
def pieces (layout : Layout) : List Token :=
  (List.range layout.texts.length).flatMap layout.piece

/-- White space control leaves of a text what the dashes leave. -/
theorem textTokens_eq (atStart atEnd : Bool) (text : List Char) :
    textTokens atStart atEnd text = textPiece (trimmed atStart atEnd text) := by
  have same : trimmed atStart atEnd text =
      if atEnd then Text.trimEnd (if atStart then Text.trimStart text else text)
      else if atStart then Text.trimStart text else text := rfl
  simp only [textTokens, textPiece, ← same, List.isEmpty_iff]

/-- The tokens of a text and what follows it are those of each place from there on, if the
first place is trimmed at its start as the flag says. -/
theorem tokensFrom_eq (atStart : Bool) (text : List Char) (rest : List (Delimiter × List Char)) :
    tokensFrom atStart text rest =
      textPiece (trimmed atStart (trimsEnd ⟨text, rest⟩ 0) text) ++
        (((delimiters ⟨text, rest⟩)[0]?.map Delimiter.token).toList ++
          (List.range rest.length).flatMap fun place => piece ⟨text, rest⟩ (place + 1)) := by
  induction rest generalizing atStart text with
  | nil =>
    rw [tokensFrom, textTokens_eq]
    exact (List.append_nil _).symm
  | cons delimiter rest inductionHypothesis =>
    obtain ⟨d, next⟩ := delimiter
    have shifted (place : Nat) : piece ⟨text, (d, next) :: rest⟩ (place + 1 + 1) =
        piece ⟨next, rest⟩ (place + 1) := rfl
    have first : piece ⟨text, (d, next) :: rest⟩ (0 + 1) =
        textPiece (trimmed d.trimsAfter (trimsEnd ⟨next, rest⟩ 0) next) ++
          ((delimiters ⟨next, rest⟩)[0]?.map Delimiter.token).toList := rfl
    rw [tokensFrom, textTokens_eq, inductionHypothesis, List.length_cons, List.range_succ_eq_map,
      List.flatMap_cons, List.flatMap_map, first]
    simp only [shifted, List.append_assoc]
    rfl

/-- The tokens of a layout are those of its places. -/
theorem tokens_eq_pieces (layout : Layout) : layout.tokens = layout.pieces := by
  obtain ⟨text, rest⟩ := layout
  have places : (texts ⟨text, rest⟩).length = rest.length + 1 := by simp [texts]
  rw [tokens, tokensFrom_eq, pieces, places, List.range_succ_eq_map, List.flatMap_cons,
    List.flatMap_map, piece, List.append_assoc]
  rfl

/-! ### What is read of any source -/

/-- The texts of a source that can be read hold no opening marks. -/
theorem unopened_of_ofSource {source : List Char} {layout : Layout}
    (read : ofSource source = .ok layout) : ∀ text ∈ layout.texts, Unopened text := by
  fun_induction ofSource source generalizing layout with
  | case1 source none =>
    cases read
    intro text member
    obtain rfl := List.mem_singleton.mp member
    exact nextOpening?_eq_none_iff.mp none
  | case2 => cases read
  | case3 => cases read
  | case4 source before kind after opened inside rest closed more restRead inductionHypothesis =>
    cases read
    intro text member
    rcases List.mem_cons.mp member with rfl | later
    · exact (nextOpening?_eq_some_iff.mp opened).uncut.1
    · exact inductionHypothesis restRead text later

/-- The dashes leave a part of a text. -/
theorem trimmed_infix (atStart atEnd : Bool) (text : List Char) :
    trimmed atStart atEnd text <:+: text := by
  have started : (if atStart then text.dropWhile Text.isWhite else text) <:+ text := by
    split
    · exact List.dropWhile_suffix Text.isWhite
    · exact List.suffix_refl text
  unfold trimmed
  dsimp only
  split
  · exact (List.rdropWhile_prefix Text.isWhite _).isInfix.trans started.isInfix
  · exact started.isInfix

/-- A text among the tokens of a layout is a part of one of its texts, and something is left of
it. -/
theorem text_of_mem_tokens {layout : Layout} {content : List Char}
    (member : Token.text content ∈ layout.tokens) :
    content ≠ [] ∧ ∃ text ∈ layout.texts, content <:+: text := by
  rw [tokens_eq_pieces, pieces, List.mem_flatMap] at member
  obtain ⟨place, inside, member⟩ := member
  rcases List.mem_append.mp member with left | delimiter
  · unfold textPiece at left
    split at left
    · cases left
    · next nonempty =>
      obtain rfl := Token.text.inj (List.mem_singleton.mp left)
      refine ⟨nonempty, layout.texts.getD place [], ?_, trimmed_infix _ _ _⟩
      rw [List.getD_eq_getElem?_getD, List.getElem?_eq_getElem (List.mem_range.mp inside)]
      exact List.getElem_mem _
  · obtain ⟨d, -, same⟩ := Option.map_eq_some_iff.mp (Option.mem_toList.mp delimiter)
    unfold Delimiter.token at same
    cases kind : d.kind <;> simp only [kind, reduceCtorEq] at same

/-- Tokens that are not both texts. -/
def Apart (token next : Token) : Prop :=
  ∀ content other, ¬(token = .text content ∧ next = .text other)

/-- There is always a delimiter between two texts. -/
theorem tokensFrom_apart (atStart : Bool) (text : List Char)
    (rest : List (Delimiter × List Char)) : (tokensFrom atStart text rest).IsChain Apart := by
  induction rest generalizing atStart text with
  | nil =>
    rw [tokensFrom, textTokens_eq, textPiece]
    split
    · exact .nil
    · exact .singleton _
  | cons delimiter rest inductionHypothesis =>
    obtain ⟨d, next⟩ := delimiter
    have noText (content : List Char) : d.token ≠ .text content := by
      unfold Delimiter.token
      cases d.kind <;> exact fun same => by cases same
    have later : (d.token :: tokensFrom d.trimsAfter next rest).IsChain Apart :=
      List.isChain_cons.mpr
        ⟨fun _ _ content _ both => noText content both.1, inductionHypothesis _ _⟩
    rw [tokensFrom, textTokens_eq, textPiece]
    split
    · exact later
    · refine List.isChain_cons.mpr ⟨fun token head content other both => ?_, later⟩
      obtain rfl := Option.some.inj head
      exact noText other both.2

/-- Going from left to right, the first opening mark outside of all delimiters before it is not
closed, or a later one is. -/
inductive Unterminated (kind : DelimiterKind) : List Char → Prop where
  | here {source before after : List Char} (opens : Opens source before kind after)
      (unclosed : ¬kind.closing <:+: after) : Unterminated kind source
  | later {source before after inside rest : List Char} {other : DelimiterKind}
      (opens : Opens source before other after)
      (closes : after = inside ++ (other.closing ++ rest))
      (first : ¬other.closing <:+: inside ++ other.closing.dropLast)
      (unterminated : Unterminated kind rest) : Unterminated kind source

/-- A source cannot be read exactly if a delimiter in it is not terminated. -/
theorem ofSource_eq_error_iff {source : List Char} {cause : SyntaxError} :
    ofSource source = .error cause ↔ ∃ kind, Unterminated kind source ∧
      cause = .unterminatedDelimiter (String.ofList kind.opening) (String.ofList kind.closing) := by
  have nonempty (kind : DelimiterKind) : kind.closing ≠ [] := by cases kind <;> decide
  constructor
  · intro failed
    fun_induction ofSource source with
    | case1 => cases failed
    | case2 source before kind after opened unclosed =>
      cases failed
      exact ⟨kind, .here (nextOpening?_eq_some_iff.mp opened)
        ((Text.splitAt?_eq_none_iff (nonempty kind)).mp unclosed), rfl⟩
    | case3 source before kind after opened inside rest closed other restFailed
        inductionHypothesis =>
      cases failed
      obtain ⟨unended, unterminated, rfl⟩ := inductionHypothesis restFailed
      obtain ⟨closes, first⟩ := (Text.splitAt?_eq_some_iff (nonempty kind)).mp closed
      exact ⟨unended, .later (nextOpening?_eq_some_iff.mp opened) closes first unterminated, rfl⟩
    | case4 => cases failed
  · rintro ⟨kind, unterminated, rfl⟩
    induction unterminated with
    | here opens unclosed =>
      exact ofSource_unterminated (nextOpening?_eq_some_iff.mpr opens)
        ((Text.splitAt?_eq_none_iff (nonempty kind)).mpr unclosed)
    | @later _ _ _ _ _ other opens closes first _ inductionHypothesis =>
      rw [ofSource_delimiter (nextOpening?_eq_some_iff.mpr opens)
        ((Text.splitAt?_eq_some_iff (nonempty other)).mpr ⟨closes, first⟩), inductionHypothesis]
      rfl

end Layout

open Layout in
/-- Sources and their tokens. A layout that is printed is read as it is, if no mark arises where
none was meant: its tokens are, place by place, what is left of the text, if anything is, and
the delimiter after it. White space is taken from the start of a text exactly if the delimiter
before it has a dash on its right, and from its end exactly if the delimiter after it has a
dash on its left. Whatever source is read, none of its texts is empty or holds an opening
mark, and no two of them are next to each other. And a source is not read exactly if, from left
to right, the first opening mark outside of the delimiters before it is not closed; the
error then names that mark and the one that is missing. -/
theorem printed_tokens :
    (∀ layout : Layout, layout.Written →
      Token.ofSource layout.source = .ok
        ((List.range (layout.rest.length + 1)).flatMap fun place =>
          let text := layout.texts.getD place []
          let started := if layout.trimsStart place then text.dropWhile Text.isWhite else text
          let left := if layout.trimsEnd place then started.rdropWhile Text.isWhite else started
          (if left = [] then [] else [.text left]) ++
            ((layout.delimiters[place]?).map Delimiter.token).toList)) ∧
    (∀ source tokens, Token.ofSource source = .ok tokens →
      (∀ content, .text content ∈ tokens → content ≠ [] ∧ Unopened content) ∧
        ∀ before after content other,
          tokens ≠ before ++ .text content :: .text other :: after) ∧
    (∀ source cause, Token.ofSource source = .error cause ↔
      ∃ kind, Unterminated kind source ∧ cause =
        .unterminatedDelimiter (String.ofList kind.opening) (String.ofList kind.closing)) := by
  refine ⟨fun layout written => ?_, fun source tokens read => ?_, fun source cause => ?_⟩
  · have places : layout.texts.length = layout.rest.length + 1 := by simp [texts]
    rw [Token.ofSource, written.ofSource_source, ← places]
    exact congrArg Except.ok layout.tokens_eq_pieces
  · rw [Token.ofSource] at read
    cases layoutRead : Layout.ofSource source with
    | error cause =>
      rw [layoutRead] at read
      cases read
    | ok layout =>
      rw [layoutRead] at read
      cases read
      have unopened := unopened_of_ofSource layoutRead
      constructor
      · intro content member
        obtain ⟨nonempty, text, written, part⟩ := text_of_mem_tokens member
        exact ⟨nonempty, fun kind occurs => unopened text written kind (occurs.trans part)⟩
      · intro before after content other whole
        have chain := tokensFrom_apart false layout.first layout.rest
        rw [List.isChain_iff_forall_rel_of_append_cons_cons] at chain
        exact chain whole content other ⟨rfl, rfl⟩
  · rw [← ofSource_eq_error_iff, Token.ofSource]
    cases Layout.ofSource source with
    | error other => simp only [Except.map, Except.error.injEq]
    | ok layout => simp only [Except.map, reduceCtorEq]

/-- An output with dashes on both sides takes the em space before it and leaves nothing of the
two spaces after it, of which the second one does not break. The tag is empty, and the dash
in the last text is none of its own. -/
theorem dashes_printed :
    let layout : Layout := ⟨"a\u2003".toList,
      [(⟨.output, true, "x -".toList, true⟩, " \u00a0".toList),
        (⟨.tag, false, [], true⟩, "\n- \x7b".toList)]⟩
    layout.Written ∧
      layout.source = "a\u2003\x7b\x7b- x - -\x7d\x7d \u00a0\x7b%  -%\x7d\n- \x7b".toList ∧
      Token.ofSource layout.source = .ok [.text ['a'], .output "x -".toList, .tag [],
        .text "- \x7b".toList] := by
  intro layout
  have written : layout.Written := by
    refine ⟨fun text member => ?_, fun text member => ?_, fun d member => ?_⟩
    · fin_cases member <;> intro kind <;> cases kind <;> decide
    · fin_cases member <;> decide
    · fin_cases member
      · exact ⟨by decide, by decide⟩
      · exact ⟨by decide, by decide⟩
  obtain ⟨tokens, -⟩ := printed_tokens
  exact ⟨written, by decide, (tokens layout written).trans (by decide)⟩

end Stencil
