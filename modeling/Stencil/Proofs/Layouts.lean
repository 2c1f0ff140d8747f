import Mathlib.Data.List.Chain
import Mathlib.Data.List.Infix
import Stencil.Token

/-!
# Layouts of sources in two parts

What the search for marks finds in a text it also finds when more text follows, since it
takes the first mark. So a source can be cut in two wherever no mark is cut: its layout
is the one of the first part, of which the last text goes on with the layout of the
second part.

White space control works on the texts between two delimiters, so the tokens of two
parts differ from the tokens of the whole only in the text that both of them share, if
no delimiter trims this text.
-/

namespace Stencil

/-! ### Finding marks -/

namespace Text

/-- A first part of a text is a first part of what goes on after the text, too, with more
left behind it. -/
theorem isPrefixOf?_append {part text rest : List Char} (more : List Char)
    (found : part.isPrefixOf? text = some rest) :
    part.isPrefixOf? (text ++ more) = some (rest ++ more) := by
  rw [List.isPrefixOf?_eq_some_iff_append_eq] at found ⊢
  rw [← List.append_assoc, found]

/-- What is not a first part of a text that is long enough does not become one when the
text goes on. -/
theorem isPrefixOf?_append_eq_none {part text : List Char} (more : List Char)
    (long : part.length ≤ text.length) (missing : part.isPrefixOf? text = none) :
    part.isPrefixOf? (text ++ more) = none := by
  rw [Option.eq_none_iff_forall_ne_some] at missing ⊢
  intro rest found
  rw [List.isPrefixOf?_eq_some_iff_append_eq] at found
  have starts : part <+: text ++ more := ⟨rest, found⟩
  obtain ⟨within, whole⟩ :=
    List.prefix_of_prefix_length_le starts (List.prefix_append text more) long
  exact missing within (List.isPrefixOf?_eq_some_iff_append_eq.mpr whole)

/-- The first mark of a text stays the first one when the text goes on. -/
theorem splitAt?_append {mark text before after : List Char} (more : List Char)
    (found : splitAt? mark text = some (before, after)) :
    splitAt? mark (text ++ more) = some (before, after ++ more) := by
  induction text generalizing before with
  | nil => cases found
  | cons c rest inductionHypothesis =>
    have whole := splitAt?_eq_some found
    simp only [splitAt?] at found
    split at found
    · next first starts =>
      cases found
      have starts := isPrefixOf?_append more starts
      simp only [List.cons_append] at starts
      simp only [List.cons_append, splitAt?, starts]
    · next missing =>
      simp only [Option.map_eq_some_iff, Prod.mk.injEq, Prod.exists] at found
      obtain ⟨skipped, _, later, rfl, rfl⟩ := found
      have long : mark.length ≤ (c :: rest).length := by
        rw [whole, List.length_append, List.length_append]
        omega
      have missing := isPrefixOf?_append_eq_none more long missing
      simp only [List.cons_append] at missing
      simp only [List.cons_append, splitAt?, missing, inductionHypothesis later, Option.map_some]

/-- A text is split at its mark if the mark does not stand earlier, not even in part before
its place. -/
theorem splitAt?_of_not_infix {mark inside : List Char} (rest : List Char) (nonempty : mark ≠ [])
    (unmarked : ¬mark <:+: inside ++ mark.dropLast) :
    splitAt? mark (inside ++ (mark ++ rest)) = some (inside, rest) := by
  induction inside with
  | nil =>
    obtain ⟨c, more, rfl⟩ := List.exists_cons_of_ne_nil nonempty
    have starts : (c :: more).isPrefixOf? (c :: (more ++ rest)) = some rest :=
      List.isPrefixOf?_eq_some_iff_append_eq.mpr rfl
    simp only [List.nil_append, List.cons_append, splitAt?, starts]
  | cons c inside inductionHypothesis =>
    have later := inductionHypothesis fun occurs => unmarked (List.infix_cons occurs)
    have missing : mark.isPrefixOf? (c :: (inside ++ (mark ++ rest))) = none := by
      rw [Option.eq_none_iff_forall_ne_some]
      intro after found
      rw [List.isPrefixOf?_eq_some_iff_append_eq] at found
      have starts : mark <+: c :: (inside ++ (mark ++ rest)) := ⟨after, found⟩
      have within : c :: (inside ++ mark.dropLast) <+: c :: (inside ++ (mark ++ rest)) := by
        rw [List.prefix_cons_inj, List.prefix_append_right_inj]
        exact (List.dropLast_prefix mark).trans (List.prefix_append mark rest)
      have long : mark.length ≤ (c :: (inside ++ mark.dropLast)).length := by
        simp only [List.length_cons, List.length_append, List.length_dropLast]
        omega
      exact unmarked (List.prefix_of_prefix_length_le starts within long).isInfix
    simp only [List.cons_append, splitAt?, missing, later, Option.map_some]

/-- A mark of two characters does not stand in a text exactly if these are not next to each
other there. -/
theorem not_pair_iff {c d : Char} {text : List Char} :
    ¬[c, d] <:+: text ↔ text.IsChain fun a b => ¬(a = c ∧ b = d) := by
  rw [List.isChain_iff_forall_rel_of_append_cons_cons]
  constructor
  · rintro absent _ _ before after rfl ⟨rfl, rfl⟩
    exact absent ⟨before, after, by simp⟩
  · rintro chain ⟨before, after, rfl⟩
    exact chain (by simp; rfl) ⟨rfl, rfl⟩

/-- Texts in which such a mark does not stand can be put together where it does not arise
between them. -/
theorem not_pair_append {c d : Char} {text more : List Char} (absent : ¬[c, d] <:+: text)
    (absentMore : ¬[c, d] <:+: more) (apart : text.getLast? ≠ some c ∨ more.head? ≠ some d) :
    ¬[c, d] <:+: text ++ more := by
  rw [not_pair_iff] at absent absentMore ⊢
  rw [List.isChain_append]
  refine ⟨absent, absentMore, ?_⟩
  rintro _ last _ head ⟨rfl, rfl⟩
  exact apart.elim (fun different => different last) fun different => different head

end Text

namespace Layout

/-- What stands before and after an opening mark, with the mark between them, is the
source. -/
theorem nextOpening?_eq_some {source before after : List Char} {kind : DelimiterKind}
    (found : nextOpening? source = some (before, kind, after)) :
    source = before ++ kind.opening ++ after := by
  fun_induction nextOpening? source generalizing before with
  | case1 => cases found
  | case2 rest =>
    cases found
    rfl
  | case3 rest =>
    cases found
    rfl
  | case4 c rest _ _ inductionHypothesis =>
    simp only [Option.map_eq_some_iff, Prod.mk.injEq, Prod.exists] at found
    obtain ⟨_, _, _, read, rfl, rfl, rfl⟩ := found
    rw [inductionHypothesis read, List.cons_append, List.cons_append]

/-- No opening mark starts at a character that is followed by a text. -/
def Closed (c : Char) (rest : List Char) : Prop :=
  c = '{' → rest.head? ≠ some '{' ∧ rest.head? ≠ some '%'

/-- Where a text does not start with either of the marks, it starts with neither. -/
theorem closed_of_forall {c : Char} {rest : List Char}
    (notOutput : ∀ more, c = '{' → rest = '{' :: more → False)
    (notTag : ∀ more, c = '{' → rest = '%' :: more → False) : Closed c rest := by
  intro same
  constructor
  · intro head
    obtain ⟨more, rfl⟩ := List.head?_eq_some_iff.mp head
    exact notOutput more same rfl
  · intro head
    obtain ⟨more, rfl⟩ := List.head?_eq_some_iff.mp head
    exact notTag more same rfl

/-- More text does not matter to the marks at a character that it does not follow at
once. -/
theorem Closed.append {c : Char} {rest : List Char} (closed : Closed c rest)
    (nonempty : rest ≠ []) (more : List Char) : Closed c (rest ++ more) := by
  rwa [Closed, List.head?_append_of_ne_nil rest nonempty]

/-- A character at which no opening mark starts is skipped. -/
theorem nextOpening?_cons {c : Char} {rest : List Char} (closed : Closed c rest) :
    nextOpening? (c :: rest) =
      (nextOpening? rest).map fun (before, kind, after) => (c :: before, kind, after) := by
  rw [nextOpening?]
  · rintro more rfl rfl
    exact (closed rfl).1 rfl
  · rintro more rfl rfl
    exact (closed rfl).2 rfl

/-- The first opening mark of a source stays the first one when the source goes on. -/
theorem nextOpening?_append {source before after : List Char} {kind : DelimiterKind}
    (more : List Char) (found : nextOpening? source = some (before, kind, after)) :
    nextOpening? (source ++ more) = some (before, kind, after ++ more) := by
  fun_induction nextOpening? source generalizing before with
  | case1 => cases found
  | case2 rest =>
    cases found
    rfl
  | case3 rest =>
    cases found
    rfl
  | case4 c rest notOutput notTag inductionHypothesis =>
    simp only [Option.map_eq_some_iff, Prod.mk.injEq, Prod.exists] at found
    obtain ⟨_, _, _, read, rfl, rfl, rfl⟩ := found
    have nonempty : rest ≠ [] := by
      rintro rfl
      cases read
    have closed := (closed_of_forall notOutput notTag).append nonempty more
    rw [List.cons_append, nextOpening?_cons closed, inductionHypothesis read, Option.map_some]

/-- A text without an opening mark goes before the text that follows it, unless it ends
with a brace, which could be half of a mark. -/
theorem nextOpening?_append_of_none {text : List Char} (more : List Char)
    (none : nextOpening? text = none) (uncut : text.getLast? ≠ some '{') :
    nextOpening? (text ++ more) =
      (nextOpening? more).map fun (before, kind, after) => (text ++ before, kind, after) := by
  fun_induction nextOpening? text with
  | case1 => simp only [List.nil_append, Option.map_id']
  | case2 => cases none
  | case3 => cases none
  | case4 c rest notOutput notTag inductionHypothesis =>
    have closed := closed_of_forall notOutput notTag
    have later : nextOpening? rest = Option.none := Option.map_eq_none_iff.mp none
    by_cases last : rest = []
    · subst last
      have closed : Closed c more := fun brace => absurd (congrArg some brace) uncut
      rw [List.singleton_append, nextOpening?_cons closed]
      rfl
    · rw [List.getLast?_cons_of_ne_nil last] at uncut
      rw [List.cons_append, nextOpening?_cons (closed.append last more),
        inductionHypothesis later uncut, Option.map_map]
      rfl

/-! ### Layouts -/

/-- A source without an opening mark is a text. -/
theorem ofSource_text {source : List Char} (none : nextOpening? source = none) :
    ofSource source = .ok ⟨source, []⟩ := by
  rw [ofSource]
  split
  · rfl
  · next found => rw [none] at found; cases found

/-- A source with a delimiter goes on after the mark that closes it. -/
theorem ofSource_delimiter {source before after inside rest : List Char} {kind : DelimiterKind}
    (opened : nextOpening? source = some (before, kind, after))
    (closed : Text.splitAt? kind.closing after = some (inside, rest)) :
    ofSource source = (ofSource rest).map fun more =>
      ⟨before, (Delimiter.ofInside kind inside, more.first) :: more.rest⟩ := by
  rw [ofSource]
  split
  · next none => rw [none] at opened; cases opened
  · next found =>
    rw [found] at opened
    cases opened
    split
    · next none => rw [none] at closed; cases closed
    · next found =>
      rw [found] at closed
      cases closed
      cases ofSource rest <;> rfl

/-- A source whose first delimiter has no end has no layout. -/
theorem ofSource_unterminated {source before after : List Char} {kind : DelimiterKind}
    (opened : nextOpening? source = some (before, kind, after))
    (unclosed : Text.splitAt? kind.closing after = none) :
    ofSource source =
      .error (.unterminatedDelimiter (String.ofList kind.opening)
        (String.ofList kind.closing)) := by
  rw [ofSource]
  split
  · next none => rw [none] at opened; cases opened
  · next found =>
    rw [found] at opened
    cases opened
    split
    · rfl
    · next found => rw [found] at unclosed; cases unclosed

/-- A text without an opening mark belongs to the first text of a layout. -/
theorem ofSource_append_of_none {text : List Char} (more : List Char)
    (none : nextOpening? text = none) (uncut : text.getLast? ≠ some '{') :
    ofSource (text ++ more) =
      (ofSource more).map fun layout => ⟨text ++ layout.first, layout.rest⟩ := by
  have next := nextOpening?_append_of_none more none uncut
  cases opened : nextOpening? more with
  | none =>
    rw [opened] at next
    rw [ofSource_text opened, ofSource_text next]
    rfl
  | some found =>
    obtain ⟨before, kind, after⟩ := found
    rw [opened] at next
    cases closed : Text.splitAt? kind.closing after with
    | none =>
      rw [ofSource_unterminated opened closed, ofSource_unterminated next closed]
      rfl
    | some parts =>
      rw [ofSource_delimiter opened closed, ofSource_delimiter next closed]
      cases ofSource parts.2 <;> rfl

/-- A text and delimiters, followed by another layout: its first text goes on with the last
text of the delimiters. -/
def appendFrom (text : List Char) (last : Layout) : List (Delimiter × List Char) → Layout
  | [] => ⟨text ++ last.first, last.rest⟩
  | (d, next) :: rest =>
    let more := appendFrom next last rest
    ⟨text, (d, more.first) :: more.rest⟩

/-- Two layouts as one. -/
def append (layout last : Layout) : Layout := appendFrom layout.first last layout.rest

/-- The layout of two sources is that of the first one and then that of the second, unless
the first one ends with a brace, which could be half of a mark. -/
theorem ofSource_append {source more : List Char} {layout last : Layout}
    (uncut : source.getLast? ≠ some '{') (read : ofSource source = .ok layout)
    (readMore : ofSource more = .ok last) :
    ofSource (source ++ more) = .ok (layout.append last) := by
  fun_induction ofSource source generalizing layout with
  | case1 source none =>
    cases read
    rw [ofSource_append_of_none more none uncut, readMore]
    rfl
  | case2 => cases read
  | case3 => cases read
  | case4 source before kind after opened inside rest closed layoutRest restRead
      inductionHypothesis =>
    cases read
    have whole : source = before ++ kind.opening ++ (inside ++ kind.closing) ++ rest := by
      rw [nextOpening?_eq_some opened, Text.splitAt?_eq_some closed]
      simp only [List.append_assoc]
    have uncutRest : rest.getLast? ≠ some '{' := by
      intro brace
      apply uncut
      rw [whole, List.getLast?_append, brace, Option.some_or]
    rw [ofSource_delimiter (nextOpening?_append more opened) (Text.splitAt?_append more closed),
      inductionHypothesis uncutRest restRead]
    rfl

/-! ### Tokens -/

/-- The tokens of a text that no delimiter trims. -/
def plain (text : List Char) : List Token := textTokens false false text

/-- The tokens after the first text of a layout. -/
def tokensAfterFirst (layout : Layout) : List Token :=
  match layout.rest with
  | [] => []
  | (d, next) :: rest => d.token :: tokensFrom d.trimsAfter next rest

/-- The first delimiter of a layout, if there is one, does not trim the text before it. -/
def KeepsBefore (layout : Layout) : Prop :=
  ∀ d ∈ layout.rest.head?, d.1.trimsBefore = false

/-- The last delimiter of a layout, if there is one, does not trim the text after it. -/
def KeepsAfter (layout : Layout) : Prop :=
  ∀ d ∈ layout.rest.getLast?, d.1.trimsAfter = false

/-- A text that the delimiter after it keeps, and what follows it. -/
theorem tokensFrom_keeps (text : List Char) {layout : Layout} (keeps : layout.KeepsBefore) :
    tokensFrom false text layout.rest = plain text ++ layout.tokensAfterFirst := by
  obtain ⟨first, rest⟩ := layout
  cases rest with
  | nil => rw [tokensFrom, tokensAfterFirst, List.append_nil, plain]
  | cons delimiter rest =>
    have kept : delimiter.1.trimsBefore = false := keeps delimiter rfl
    rw [tokensFrom, tokensAfterFirst, kept, plain]

/-- The tokens of a layout that keeps its first text. -/
theorem tokens_keeps {layout : Layout} (keeps : layout.KeepsBefore) :
    layout.tokens = plain layout.first ++ layout.tokensAfterFirst :=
  tokensFrom_keeps layout.first keeps

/-- The last text after delimiters goes on with the first text of another layout, if
neither of the delimiters around it trims it. The induction follows the delimiters; the
flag is that of the delimiter before them. -/
theorem tokensFrom_append {rest : List (Delimiter × List Char)} (text : List Char)
    {trimmed : Bool} (keeps : ∀ d ∈ rest.getLast?, d.1.trimsAfter = false)
    (untrimmed : rest = [] → trimmed = false) :
    ∃ tokens final, tokensFrom trimmed text rest = tokens ++ plain final ∧
      ∀ last : Layout, last.KeepsBefore →
        tokensFrom trimmed (appendFrom text last rest).first (appendFrom text last rest).rest =
          tokens ++ (plain (final ++ last.first) ++ last.tokensAfterFirst) := by
  induction rest generalizing text trimmed with
  | nil =>
    obtain rfl := untrimmed rfl
    exact ⟨[], text, rfl, fun last keepsBefore => tokensFrom_keeps _ keepsBefore⟩
  | cons delimiter rest inductionHypothesis =>
    obtain ⟨d, next⟩ := delimiter
    have keepsRest : ∀ d ∈ rest.getLast?, d.1.trimsAfter = false := by
      intro other member
      apply keeps
      rw [List.getLast?_cons, Option.mem_def.mp member]
      rfl
    have untrimmedNext : rest = [] → d.trimsAfter = false := by
      rintro rfl
      exact keeps (d, next) rfl
    obtain ⟨tokens, final, read, joined⟩ := inductionHypothesis next keepsRest untrimmedNext
    refine ⟨textTokens trimmed d.trimsBefore text ++ d.token :: tokens, final, ?_, ?_⟩
    · rw [tokensFrom, read, List.append_assoc, List.cons_append]
    · intro last keepsBefore
      rw [appendFrom, tokensFrom, joined last keepsBefore, List.append_assoc, List.cons_append]

/-- The tokens of two layouts as one are the tokens of both, but for the text at the seam. -/
theorem tokens_append {layout : Layout} (keeps : layout.KeepsAfter) :
    ∃ tokens final, layout.tokens = tokens ++ plain final ∧
      ∀ last : Layout, last.KeepsBefore →
        (layout.append last).tokens =
          tokens ++ (plain (final ++ last.first) ++ last.tokensAfterFirst) :=
  tokensFrom_append layout.first keeps fun _ => rfl

end Layout

end Stencil
