import Stencil.Proofs.Expressions

/-!
# Expressions are read exactly as they are spelled

A text that spells an expression is read as this expression, whatever follows it, if nothing
goes on with it. What can go on with an expression is a character of a name, an opening
bracket or a single point. Two points do not, so the bounds of a range need no white space
between them and the points; and a number in front of them has no fraction there, since a
fraction has a digit after its point.

With what is known of the reader already, a text is read as an expression if and only if it
spells this expression, up to white space at its end.
-/

namespace Stencil.Expr

open Markup
open Text (White)

/-! ### What ends an expression -/

/-- A text with which no expression before it goes on. -/
structure Ends (rest : List Char) : Prop where
  name : EndsName rest
  bracket : rest.head? ≠ some '['
  points : ∀ more, rest = '.' :: more → more.head? = some '.'

/-- White space does not go on with a name. -/
theorem not_continuesName_of_isWhite {c : Char} (white : Text.isWhite c = true) :
    continuesName c = false := by
  cases continues : continuesName c with
  | false => rfl
  | true =>
    rcases continuesName_iff.mp continues with starts | rfl
    · have black := not_isWhite_of_startsName (startsName_iff.mpr starts)
      exact absurd white (by simp only [black, Bool.false_eq_true, not_false_iff])
    · exact absurd white (by decide)

/-- A single character that goes on with nothing ends an expression. -/
theorem ends_cons {c : Char} (name : continuesName c = false) (plain : c ∉ ['?', '[', '.'])
    (rest : List Char) : Ends (c :: rest) := by
  simp only [List.mem_cons, List.not_mem_nil, or_false, not_or] at plain
  obtain ⟨question, bracket, point⟩ := plain
  refine ⟨?_, fun head => bracket (Option.some.inj head), ?_⟩
  · rintro _ ⟨⟩
    exact ⟨name, question⟩
  · rintro more ⟨⟩
    exact absurd rfl point

theorem ends_nil : Ends [] where
  name := by rintro _ ⟨⟩
  bracket := by rintro ⟨⟩
  points := by rintro more ⟨⟩

/-- Two points end an expression. -/
theorem ends_points (rest : List Char) : Ends ('.' :: '.' :: rest) where
  name := by
    rintro _ ⟨⟩
    decide
  bracket := by rintro ⟨⟩
  points := by
    rintro more ⟨⟩
    rfl

/-- White space ends an expression, or else what ends it is what follows. -/
theorem Ends.white_append {white rest : List Char} (spaced : White white) (ends : Ends rest) :
    Ends (white ++ rest) := by
  cases white with
  | nil => exact ends
  | cons c white =>
    have isWhite := spaced c List.mem_cons_self
    refine ends_cons (not_continuesName_of_isWhite isWhite) (fun member => ?_) _
    simp only [List.mem_cons, List.not_mem_nil, or_false] at member
    rcases member with rfl | rfl | rfl <;> exact absurd isWhite (by decide)

/-- What ends an expression ends a number, with which a single point could go on. -/
theorem Ends.number {rest : List Char} (ends : Ends rest) : EndsNumber rest := by
  constructor
  · intro c head
    have other := (ends.name c head).1
    cases digit : c.isDigit with
    | false => rfl
    | true =>
      have starts := startsName_iff.mp (startsName_of_isDigit digit)
      have continues : continuesName c = true := continuesName_iff.mpr (.inl starts)
      exact absurd continues (by simp only [other, Bool.false_eq_true, not_false_iff])
  · unfold fraction?
    split
    · next more =>
      obtain ⟨after, rfl⟩ := List.head?_eq_some_iff.mp (ends.points more rfl)
      rfl
    · rfl

/-! ### Reading the forms of expressions -/

/-- After white space a quoted text is read as a string. -/
theorem read_of_quote {text rest run after : List Char} {quote : Char}
    (start : Text.trimStart text = quote :: rest) (quotes : isQuote quote = true)
    (found : quoted? quote rest = some (run, after)) :
    ∃ bound, read text = .ok ⟨(.literal (.string (String.ofList run)), after), bound⟩ := by
  have shorter : after.length < text.length :=
    Nat.lt_trans (length_quoted?_lt found) (length_lt_of_trimStart start)
  rw [Expr.read]
  split
  · next nothing => rw [start] at nothing; cases nothing
  · next c more trimmed =>
    rw [start] at trimmed
    cases trimmed
    dsimp only
    rw [if_pos quotes]
    split
    · next missing => rw [found] at missing; cases missing
    · next other =>
      rw [found] at other
      cases other
      exact ⟨shorter, rfl⟩

/-- After white space a name is read with the steps that follow it, unless it starts like a
number. -/
theorem read_of_name {text rest after left : List Char} {name : String} {c : Char} {e : Expr}
    (start : Text.trimStart text = c :: rest) (starts : startsName c = true)
    (noNumber : startsNumber c = false) (found : identifier? (c :: rest) = some (name, after))
    {stepsBound : left.length ≤ after.length}
    (followed : readSteps (.var name) after = .ok ⟨(e, left), stepsBound⟩) :
    ∃ bound, read text = .ok ⟨(e.named, left), bound⟩ := by
  have shorter : left.length < text.length := by
    have trimmed := length_lt_of_trimStart start
    have named := length_identifier?_lt found
    simp only [List.length_cons] at named
    omega
  have notQuote : ¬isQuote c = true := fun quotes => not_startsName_of_isQuote quotes starts
  have notOpening : c ≠ '(' := by
    rintro rfl
    exact absurd starts (by decide)
  have notNumber : ¬(decide (c = '-') || c.isDigit) = true := by
    rw [show (decide (c = '-') || c.isDigit) = false from noNumber]
    exact Bool.false_ne_true
  rw [Expr.read]
  split
  · next nothing => rw [start] at nothing; cases nothing
  · next d more trimmed =>
    rw [start] at trimmed
    cases trimmed
    dsimp only
    rw [if_neg notQuote, if_neg notOpening, if_neg notNumber]
    split
    · next missing => rw [found] at missing; cases missing
    · next other =>
      rw [found] at other
      cases other
      rw [followed]
      exact ⟨shorter, rfl⟩

/-- After white space a range is read as its two bounds, if these are read. -/
theorem read_of_range {text rest afterFirst afterDots afterLast after : List Char}
    {first last : Expr} {firstBound : afterFirst.length < rest.length}
    {lastBound : afterLast.length < afterDots.length}
    (start : Text.trimStart text = '(' :: rest)
    (firstRead : read rest = .ok ⟨(first, afterFirst), firstBound⟩)
    (dots : Text.trimStart afterFirst = '.' :: '.' :: afterDots)
    (lastRead : read afterDots = .ok ⟨(last, afterLast), lastBound⟩)
    (close : Text.trimStart afterLast = ')' :: after) :
    ∃ bound, read text = .ok ⟨(.range first last, after), bound⟩ := by
  have shorter : after.length < text.length := by
    have opened := length_lt_of_trimStart start
    have dotted := length_lt_of_trimStart dots
    have closed := length_lt_of_trimStart close
    simp only [List.length_cons] at dotted
    omega
  rw [Expr.read]
  split
  · next nothing => rw [start] at nothing; cases nothing
  · next c more trimmed =>
    rw [start] at trimmed
    cases trimmed
    dsimp only
    rw [if_neg (by decide), if_pos rfl, firstRead]
    dsimp only
    split
    · next other =>
      rw [dots] at other
      cases other
      rw [lastRead]
      dsimp only
      split
      · next other =>
        rw [close] at other
        cases other
        exact ⟨shorter, rfl⟩
      · next unclosed => exact absurd close (unclosed after)
    · next noDots => exact absurd dots (noDots afterDots)

/-- After white space a number is read as its value. -/
theorem read_of_number {text rest after : List Char} {c : Char} {v : Value}
    (start : Text.trimStart text = c :: rest) (starts : startsNumber c = true)
    (found : number (c :: rest) = .ok (v, after)) :
    ∃ bound, read text = .ok ⟨(.literal v, after), bound⟩ := by
  have shorter : after.length < text.length := by
    have trimmed := length_lt_of_trimStart start
    have taken := length_number_lt found
    simp only [List.length_cons] at taken
    omega
  have notQuote : ¬isQuote c = true := by
    intro quotes
    rcases isQuote_iff.mp quotes with rfl | rfl <;> exact absurd starts (by decide)
  have notOpening : c ≠ '(' := by
    rintro rfl
    exact absurd starts (by decide)
  have isNumber : (decide (c = '-') || c.isDigit) = true := starts
  rw [Expr.read]
  split
  · next nothing => rw [start] at nothing; cases nothing
  · next d more trimmed =>
    rw [start] at trimmed
    cases trimmed
    dsimp only
    rw [if_neg notQuote, if_neg notOpening, if_pos isNumber]
    split
    · next failed => rw [found] at failed; cases failed
    · next other =>
      rw [found] at other
      cases other
      exact ⟨shorter, rfl⟩

/-- What starts a number is not white. -/
theorem not_isWhite_of_startsNumber {c : Char} (starts : startsNumber c = true) :
    Text.isWhite c = false := by
  simp only [startsNumber, Bool.or_eq_true, decide_eq_true_eq] at starts
  rcases starts with rfl | digit
  · decide
  · exact not_isWhite_of_startsName (startsName_of_isDigit digit)

/-- Where no step goes on with a path, it ends. -/
theorem readSteps_of_ends (path : Expr) {rest : List Char} (ends : Ends rest) :
    ∃ bound, readSteps path rest = .ok ⟨(path, rest), bound⟩ := by
  refine ⟨Nat.le_refl _, ?_⟩
  rw [Expr.readSteps.eq_def]
  split
  · rfl
  · next more single =>
    obtain ⟨after, rfl⟩ := List.head?_eq_some_iff.mp (ends.points more rfl)
    exact absurd rfl (single after)
  · exact absurd rfl ends.bracket
  · rfl

/-- A point and a name are read as a member. -/
theorem readSteps_of_member {path e : Expr} {key : String} {rest after left : List Char}
    {stepsBound : left.length ≤ after.length} (found : identifier? rest = some (key, after))
    (followed : readSteps (.member path key) after = .ok ⟨(e, left), stepsBound⟩) :
    ∃ bound, readSteps path ('.' :: rest) = .ok ⟨(e, left), bound⟩ := by
  have shorter : left.length ≤ ('.' :: rest).length := by
    have named := length_identifier?_lt found
    simp only [List.length_cons]
    omega
  -- A second point would end the path here, but no name starts with one.
  have single : ∀ more, rest = '.' :: more → False := by
    rintro more rfl
    cases found
  refine ⟨shorter, ?_⟩
  rw [Expr.readSteps]
  · split
    · next missing => rw [found] at missing; cases missing
    · next other =>
      rw [found] at other
      cases other
      rw [followed]
  · exact single

/-- An expression in brackets is read as an element. -/
theorem readSteps_of_element {path index e : Expr} {rest afterIndex after left : List Char}
    {indexBound : afterIndex.length < rest.length} {stepsBound : left.length ≤ after.length}
    (found : read rest = .ok ⟨(index, afterIndex), indexBound⟩)
    (close : Text.trimStart afterIndex = ']' :: after)
    (followed : readSteps (.element path index) after = .ok ⟨(e, left), stepsBound⟩) :
    ∃ bound, readSteps path ('[' :: rest) = .ok ⟨(e, left), bound⟩ := by
  have shorter : left.length ≤ ('[' :: rest).length := by
    have closed := length_lt_of_trimStart close
    simp only [List.length_cons]
    omega
  refine ⟨shorter, ?_⟩
  rw [Expr.readSteps, found]
  dsimp only
  split
  · next other =>
    rw [close] at other
    cases other
    rw [followed]
  · next unclosed => exact absurd close (unclosed after)

/-! ### Every spelled expression is read -/

/-- What a phrase is to the reader, whatever follows it, if nothing goes on with it. An
expression is read after any white space. -/
def Phrase.Reads (text : List Char) (e : Expr) : Phrase → Prop
  | .whole => ∀ source rest, Text.trimStart source = Text.trimStart (text ++ rest) → Ends rest →
      ∃ bound, read source = .ok ⟨(e, rest), bound⟩
  | .steps path => ∀ rest, Ends rest → EndsName (text ++ rest) ∧
      ∃ bound, readSteps path (text ++ rest) = .ok ⟨(e, rest), bound⟩

/-- No steps are read where none follow. -/
theorem reads_nothing (path : Expr) : (Phrase.steps path).Reads [] path := fun _ ends =>
  ⟨ends.name, readSteps_of_ends path ends⟩

/-- A name is read with the steps that are read after it. -/
theorem Phrase.Reads.name {name : String} {text : List Char} {e : Expr}
    (named : IsName name.toList) (starts : ∀ c ∈ name.toList.head?, startsNumber c = false)
    (steps : (Phrase.steps (.var name)).Reads text e) :
    Phrase.whole.Reads (name.toList ++ text) e.named := by
  intro source rest start ends
  obtain ⟨endsName, _, followed⟩ := steps rest ends
  obtain ⟨c, more, chars⟩ := List.exists_cons_of_ne_nil named.ne_nil
  have head : c ∈ name.toList.head? := by
    rw [chars]
    rfl
  have found := named.identifier?_append endsName
  have trimmed : Text.trimStart source = name.toList ++ (text ++ rest) := by
    rw [start, List.append_assoc]
    apply Text.trimStart_of_head
    rw [List.head?_append_of_ne_nil _ named.ne_nil]
    exact named.trimmed.head
  rw [chars, List.cons_append] at trimmed found
  exact read_of_name trimmed (named.head c head) (starts c head) found followed

/-- Every phrase is read as it is spelled. The induction is on what spells it; the bounds of
a range and an index are followed by what ends them. -/
theorem Spells.reads {phrase : Phrase} {text : List Char} {e : Expr}
    (spelled : Spells phrase text e) : phrase.Reads text e := by
  induction spelled with
  | spaced white _ inductionHypothesis =>
    intro source rest start ends
    apply inductionHypothesis source rest _ ends
    rw [start]
    exact List.dropWhile_cons_of_pos white
  | @string quote run quotes closed =>
    intro source rest start ends
    have quotes : isQuote quote = true := isQuote_iff.mpr quotes
    have trimmed : Text.trimStart source = quote :: (run ++ quote :: rest) := by
      rw [start, List.cons_append, List.append_assoc, List.singleton_append]
      apply Text.trimStart_of_head
      rintro _ ⟨⟩
      exact not_isWhite_of_isQuote quotes
    exact read_of_quote trimmed quotes (quoted?_append closed rest)
  | @range firstText lastText white moreWhite first last _ spaced _ spacedMore firstHypothesis
      lastHypothesis =>
    intro source rest start ends
    let afterLast := moreWhite ++ ')' :: rest
    let afterDots := lastText ++ afterLast
    let afterFirst := white ++ '.' :: '.' :: afterDots
    obtain ⟨_, firstRead⟩ := firstHypothesis (firstText ++ afterFirst) afterFirst rfl
      ((ends_points _).white_append spaced)
    obtain ⟨_, lastRead⟩ := lastHypothesis afterDots afterLast rfl
      ((ends_cons (by decide) (by decide) rest).white_append spacedMore)
    have trimmed : Text.trimStart source = '(' :: (firstText ++ afterFirst) := by
      rw [start]
      simp only [List.cons_append, List.append_assoc, List.nil_append]
      rfl
    exact read_of_range trimmed firstRead (Text.trimStart_white_append spaced _) lastRead
      (Text.trimStart_white_append spacedMore _)
  | @number text v denoted =>
    intro source rest start ends
    obtain ⟨c, more, rfl, starts⟩ := denoted.exists_cons
    have starts : startsNumber c = true := by
      simpa only [startsNumber, Bool.or_eq_true, decide_eq_true_eq] using starts
    have trimmed : Text.trimStart source = c :: (more ++ rest) := by
      rw [start]
      apply Text.trimStart_of_head
      rintro _ ⟨⟩
      exact not_isWhite_of_startsNumber starts
    exact read_of_number trimmed starts (denoted.number_append ends.number)
  | constant names =>
    rw [← named_var names, ← List.append_nil (String.toList _)]
    exact .name names.isName names.starts (reads_nothing _)
  | path named starts followed unreserved inductionHypothesis =>
    rw [← followed.named_eq unreserved]
    exact .name named starts inductionHypothesis
  | nothing path => exact reads_nothing path
  | @member path key text e named _ inductionHypothesis =>
    intro rest ends
    obtain ⟨endsName, _, followed⟩ := inductionHypothesis rest ends
    constructor
    · rintro _ ⟨⟩
      decide
    · rw [List.cons_append, List.append_assoc]
      exact readSteps_of_member (named.identifier?_append endsName) followed
  | @element path index indexText white text e _ spaced _ indexHypothesis inductionHypothesis =>
    intro rest ends
    obtain ⟨-, _, followed⟩ := inductionHypothesis rest ends
    let afterIndex := white ++ ']' :: (text ++ rest)
    obtain ⟨_, indexRead⟩ := indexHypothesis (indexText ++ afterIndex) afterIndex rfl
      ((ends_cons (by decide) (by decide) _).white_append spaced)
    constructor
    · rintro _ ⟨⟩
      decide
    · have whole : '[' :: (indexText ++ (white ++ ']' :: text)) ++ rest =
          '[' :: (indexText ++ afterIndex) := by
        simp only [List.cons_append, List.append_assoc, afterIndex]
      rw [whole]
      exact readSteps_of_element indexRead (Text.trimStart_white_append spaced _) followed

/-- A spelled expression is the whole text of an expression, with white space around it. -/
theorem Spells.parse_of_trimStart {source text white : List Char} {e : Expr}
    (spelled : Spells .whole text e) (spaced : White white)
    (start : Text.trimStart source = Text.trimStart (text ++ white)) : parse source = .ok e := by
  have ends : Ends white := by
    simpa only [List.append_nil] using ends_nil.white_append spaced
  have trimmed : Text.trimStart white = [] := List.dropWhile_eq_nil_iff.mpr spaced
  obtain ⟨_, found⟩ := spelled.reads source white start ends
  simp only [parse, found, trimmed]

theorem Spells.parse_append {text white : List Char} {e : Expr} (spelled : Spells .whole text e)
    (spaced : White white) : parse (text ++ white) = .ok e :=
  spelled.parse_of_trimStart spaced rfl

theorem Spells.parse_self {text : List Char} {e : Expr} (spelled : Spells .whole text e) :
    parse text = .ok e := by
  have nothing : White [] := by decide
  simpa only [List.append_nil] using spelled.parse_append nothing

/-- A quoted text alone is a string. -/
theorem parse_quoted {quote : Char} {run : List Char} (quotes : isQuote quote = true)
    (closed : quote ∉ run) :
    parse (quote :: (run ++ [quote])) = .ok (.literal (.string (String.ofList run))) :=
  (Spells.string (isQuote_iff.mp quotes) closed).parse_self

/-- A name alone is read as a variable or as the literal that it is the name of. -/
theorem parse_name {name : String} (named : IsName name.toList)
    (starts : ∀ c ∈ name.toList.head?, startsNumber c = false) :
    parse name.toList = .ok (Expr.var name).named := by
  have spelled := Spells.of_name named starts (.nothing (.var name))
  rw [List.append_nil] at spelled
  exact spelled.parse_self

/-- A text is read as an expression exactly if it spells it, up to white space at its end.
In front of two points, with white space or without, the reader stops after all of a spelled
expression: neither a number nor a path goes on with the dots of a range. -/
theorem parse_exact (text : List Char) (e : Expr) :
    (parse text = .ok e ↔
      ∃ used white, text = used ++ white ∧ Spells .whole used e ∧ White white) ∧
    (Spells .whole text e → ∀ white rest, White white →
      ∃ bound, read (text ++ (white ++ '.' :: '.' :: rest)) =
        .ok ⟨(e, white ++ '.' :: '.' :: rest), bound⟩) := by
  constructor
  · constructor
    · exact exists_spells_of_parse
    · rintro ⟨used, white, rfl, spelled, spaced⟩
      exact spelled.parse_append spaced
  · intro spelled white rest spaced
    exact spelled.reads _ _ rfl ((ends_points rest).white_append spaced)

/-- A path whose index holds two points and a quote of the other kind, and whose last name ends
with a question mark, in front of the dots of a range: the path ends where they begin, and the
range is read. The least integer is read, and one that is too large is no expression. A fraction is
rounded to the nearest number, or is null where that is infinite. The name of a literal stands for
it only without steps. -/
theorem parse_exact_path :
    (∃ path : Expr, Spells .whole "a-b[\"it's ..\"].c?".toList path ∧
      parse "(a-b[\"it's ..\"].c? ..2024 )\t".toList =
        .ok (.range path (.literal (.number (.int 2024)))) ∧
      ∃ bound, read "a-b[\"it's ..\"].c? ..2024 )\t".toList =
        .ok ⟨(path, " ..2024 )\t".toList), bound⟩) ∧
    parse "-9223372036854775808".toList =
      .ok (.literal (.number (.int (-9223372036854775808)))) ∧
    (∀ e, ¬Spells .whole "12345678901234567890123".toList e) ∧
    parse "0.1".toList =
      .ok (.literal (.number (.float ⟨false, 7205759403792794, -56, by decide⟩))) ∧
    parse ('-' :: '1' :: (List.replicate 400 '0' ++ ".0".toList)) = .ok (.literal .null) ∧
    parse "nil".toList = .ok (.literal .null) ∧
    parse "nil.x".toList = .ok (.member (.var "nil") "x") := by
  have nothing : White [] := by decide
  have whole {text : List Char} {e : Expr} (spelled : Spells .whole text e) : parse text = .ok e :=
    (parse_exact text e).1.mpr ⟨text, [], (List.append_nil text).symm, spelled, nothing⟩
  refine ⟨?range, ?least, ?large, ?tenth, ?infinite, ?constant, ?member⟩
  case range =>
    have space : White [' '] := by decide
    have tab : White ['\t'] := by decide
    have index : Spells .whole "\"it's ..\"".toList (.literal (.string "it's ..")) :=
      .string (.inr rfl) (by decide : '"' ∉ "it's ..".toList)
    have path : Spells .whole "a-b[\"it's ..\"].c?".toList
        (.member (.element (.var "a-b") (.literal (.string "it's .."))) "c?") :=
      .path (isName_of_identifier? (by decide : _ = some ("a-b", []))) (by rintro _ ⟨⟩; decide)
        (.element index nothing
          (.member (isName_of_identifier? (by decide : _ = some ("c?", []))) (.nothing _)))
        (by rintro ⟨⟩)
    have year : Spells .whole "2024".toList (.literal (.number (.int 2024))) :=
      .number (@SpellsNumber.whole false _ (by decide) (by decide) (by decide) (by decide))
    refine ⟨_, path, ?_, ?_⟩
    · exact (parse_exact _ _).1.mpr ⟨_, _, rfl, .range path space year space, tab⟩
    · exact (parse_exact _ _).2 path _ _ space
  case least =>
    exact whole (.number (@SpellsNumber.whole true "9223372036854775808".toList (by decide)
      (by decide) (by decide) (by decide)))
  case large =>
    intro e spelled
    have refused : (parse "12345678901234567890123".toList).toOption.isNone = true := by
      decide +kernel
    rw [whole spelled] at refused
    cases refused
  case tenth =>
    have rounds : (Extended.finite ⟨false, 7205759403792794, -56, by decide⟩).Rounds false
        (Text.decimal ['0', '1'] / 10 ^ 1) := by
      have value : (Text.decimal ['0', '1'] : ℚ) / 10 ^ 1 = (1 : Nat) * 10 ^ (-1 : Int) := by
        rw [show Text.decimal ['0', '1'] = 1 by decide, zpow_neg, zpow_one, pow_one, div_eq_mul_inv]
      rw [value]
      exact Extended.ofDecimal_rounds false 1 (-1)
    exact whole (.number (@SpellsNumber.fraction false ['0'] ['1'] _ (by decide) (by decide)
      (by decide) (by decide) rounds))
  case infinite =>
    have beyond : Binary64.overflow ≤
        (Text.decimal (('1' :: List.replicate 400 '0') ++ ['0']) : ℚ) / 10 ^ 1 := by
      have value : Text.decimal (('1' :: List.replicate 400 '0') ++ ['0']) = 10 ^ 401 := by
        decide +kernel
      rw [value, Nat.cast_pow, Nat.cast_ofNat, pow_one, pow_succ,
        mul_div_cancel_right₀ _ (by decide)]
      exact Extended.overflow_le_ten_zpow (Int.le_refl 400)
    exact whole (.number (@SpellsNumber.fraction true ('1' :: List.replicate 400 '0') ['0']
      (.infinite true) (by decide +kernel) (by decide) (by decide) (by decide) ⟨beyond, rfl⟩))
  case constant => exact whole (.constant .nil)
  case member =>
    exact whole (.path (isName_of_identifier? (by decide : _ = some ("nil", [])))
      NamesLiteral.nil.starts (.member (isName_of_identifier? (by decide : _ = some ("x", []))) (.nothing _))
      (by rintro ⟨⟩))

end Stencil.Expr
