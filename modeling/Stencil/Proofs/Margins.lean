import Stencil.Proofs.Chains
import Stencil.Proofs.Spelling

/-!
# White space around conditions

White space at the ends of a text does not matter to what is read of it: no word, number or
quoted text ends with white space, so the readers stop before it, and they trim what stands
in front. A tag trims its markup, so a condition can be written into a tag with the white
space that stands around it.
-/

namespace Stencil

open Stencil.Text (White)

variable {white : List Char}

/-! ### Words in front of white space -/

namespace Text

/-- A character that is not white is none of those in white space. -/
theorem ne_of_white (spaced : White white) {d : Char} (black : isWhite d = false) :
    ∀ c ∈ white, c ≠ d := by
  rintro _ member rfl
  exact Bool.false_ne_true (black.symm.trans (spaced _ member))

/-- A run of characters that are not white ends before white space at the end of a text. -/
theorem span_append_white (spaced : White white) {kind : Char → Bool}
    (black : ∀ c, isWhite c = true → kind c = false) (text : List Char) :
    (text ++ white).takeWhile kind = text.takeWhile kind ∧
      (text ++ white).dropWhile kind = text.dropWhile kind ++ white := by
  induction text with
  | nil =>
    cases white with
    | nil => exact ⟨rfl, rfl⟩
    | cons c white =>
      have stops := black c (spaced c List.mem_cons_self)
      simp only [List.nil_append, List.takeWhile_cons, List.dropWhile_cons, stops,
        Bool.false_eq_true, if_false, List.takeWhile_nil, List.dropWhile_nil, and_self]
  | cons c text inductionHypothesis =>
    rw [List.cons_append, List.takeWhile_cons, List.dropWhile_cons, List.takeWhile_cons,
      List.dropWhile_cons]
    cases kind c with
    | false => exact ⟨rfl, rfl⟩
    | true => simpa using inductionHypothesis

/-- What a text starts with that is not white stands before white space at its end. -/
theorem exists_cons_of_append_white (spaced : White white) {text rest : List Char} {c : Char}
    (black : isWhite c = false) (start : text ++ white = c :: rest) :
    ∃ left, rest = left ++ white ∧ text = c :: left := by
  cases text with
  | nil =>
    have member : c ∈ white := by
      rw [← List.nil_append white, start]
      exact List.mem_cons_self
    exact absurd rfl (ne_of_white spaced black c member)
  | cons d left =>
    cases start
    exact ⟨left, rfl, rfl⟩

/-- White space in front of a text can be trimmed before white space is put at its end. -/
theorem trimStart_trimStart_append_white (spaced : White white) (text : List Char) :
    trimStart (trimStart text ++ white) = trimStart (text ++ white) := by
  rw [trimStart_append_white spaced, trimStart_append_white spaced, trimStart_trimStart]

/-- What a text starts with after white space, it starts with in front of white space, too. -/
theorem trimStart_of_append_white (spaced : White white) {text rest : List Char} {c : Char}
    (start : trimStart (text ++ white) = c :: rest) :
    ∃ left, rest = left ++ white ∧ trimStart text = c :: left := by
  have black := trimStart_head _ _ _ start
  rw [trimStart_append_white spaced] at start
  split at start
  · cases start
  · exact exists_cons_of_append_white spaced black start

end Text

namespace Markup

/-- A name ends before white space. -/
theorem name?_append_white (spaced : White white) (text : List Char) :
    name? (text ++ white) = (name? text).map fun (name, rest) => (name, rest ++ white) := by
  have unlike : ∀ c ∈ white, c ≠ '?' := Text.ne_of_white spaced (by decide)
  cases text with
  | nil =>
    cases white with
    | nil => rfl
    | cons c white =>
      have stops : startsName c = false := by
        have continues := Expr.not_continuesName_of_isWhite (spaced c List.mem_cons_self)
        exact (Bool.or_eq_false_iff.mp continues).1
      simp only [List.nil_append, name?, stops, Bool.false_eq_true, if_false, Option.map_none]
  | cons c text =>
    obtain ⟨taken, left⟩ :=
      Text.span_append_white spaced (fun _ => Expr.not_continuesName_of_isWhite) text
    simp only [List.cons_append, name?, taken, left]
    split
    · cases after : text.dropWhile continuesName with
      | nil =>
        cases white with
        | nil => rfl
        | cons d white =>
          have other := unlike d List.mem_cons_self
          simp [other]
      | cons d rest =>
        by_cases question : d = '?'
        · subst question
          rfl
        · simp [question]
    · rfl

theorem identifier?_append_white (spaced : White white) (text : List Char) :
    identifier? (text ++ white) =
      (identifier? text).map fun (name, rest) => (name, rest ++ white) := by
  rw [identifier?, name?_append_white spaced, identifier?, Option.map_map, Option.map_map]
  rfl

/-- A quoted text ends before white space. -/
theorem quoted?_append_white (spaced : White white) {quote : Char} (quotes : isQuote quote = true)
    (text : List Char) :
    quoted? quote (text ++ white) =
      (quoted? quote text).map fun (run, rest) => (run, rest ++ white) := by
  cases found : quoted? quote text with
  | some parts =>
    obtain ⟨rfl, closed⟩ := quoted?_eq_some found
    rw [List.append_assoc, List.cons_append, quoted?_append closed]
    rfl
  | none =>
    have skipped : text.dropWhile (· ≠ quote) = [] := by
      unfold quoted? at found
      split at found
      · assumption
      · cases found
    have unquoted : (text ++ white).dropWhile (· ≠ quote) = [] := by
      rw [List.dropWhile_eq_nil_iff] at skipped ⊢
      intro c member
      rcases List.mem_append.mp member with inside | after
      · exact skipped c inside
      · exact decide_eq_true
          (Text.ne_of_white spaced (not_isWhite_of_isQuote quotes) c after)
    simp only [quoted?, unquoted, Option.map_none]

/-- What a text starts with that is not white, it does not start with because of white space at
its end. -/
theorem isPrefixOf?_append_white (spaced : White white) {word : List Char}
    (black : word.all (!Text.isWhite ·) = true) (text : List Char) :
    word.isPrefixOf? (text ++ white) = (word.isPrefixOf? text).map fun rest => rest ++ white := by
  induction word generalizing text with
  | nil => cases text <;> rfl
  | cons c word inductionHypothesis =>
    rw [List.all_cons, Bool.and_eq_true, Bool.not_eq_true'] at black
    obtain ⟨first, others⟩ := black
    have later := inductionHypothesis others
    cases text with
    | nil =>
      cases white with
      | nil => rfl
      | cons d white =>
        have unlike : (c == d) = false :=
          beq_false_of_ne (Text.ne_of_white spaced first d List.mem_cons_self).symm
        simp [List.isPrefixOf?, unlike]
    | cons d text =>
      simp only [List.cons_append, List.isPrefixOf?, later]
      split <;> rfl

/-- A word ends before white space. -/
theorem keyword?_append_white (spaced : White white) {word : List Char}
    (black : word.all (!Text.isWhite ·) = true) (text : List Char) :
    keyword? word (text ++ white) = (keyword? word text).map fun rest => rest ++ white := by
  have alone (rest : List Char) : Text.atWordEnd (rest ++ white) = Text.atWordEnd rest := by
    cases rest with
    | cons c rest => rfl
    | nil =>
      cases white with
      | nil => rfl
      | cons c white => exact spaced c List.mem_cons_self
  rw [keyword?, isPrefixOf?_append_white spaced black, keyword?]
  cases word.isPrefixOf? text with
  | none => rfl
  | some rest => simp only [Option.map_some, Option.filter_some, alone]; split <;> rfl

/-- A sign does not depend on what stands at the end of a text. -/
theorem minus_append_white (spaced : White white) (text : List Char) :
    minus (text ++ white) = ((minus text).1, (minus text).2 ++ white) := by
  cases text with
  | nil =>
    cases white with
    | nil => rfl
    | cons c white =>
      have unlike : c ≠ '-' := Text.ne_of_white spaced (by decide) c List.mem_cons_self
      simp [minus, unlike]
  | cons c text =>
    by_cases sign : c = '-'
    · subst sign
      rfl
    · simp [minus, sign]

/-- Digits end before white space. -/
theorem spanDigits_append_white (spaced : White white) (text : List Char) :
    Text.spanDigits (text ++ white) =
      ((Text.spanDigits text).1, (Text.spanDigits text).2 ++ white) := by
  have black (c : Char) (isWhite : Text.isWhite c = true) : c.isDigit = false := by
    have continues := Expr.not_continuesName_of_isWhite isWhite
    simp only [continuesName, startsName, Char.isAlphanum, Bool.or_eq_false_iff] at continues
    exact continues.1.2.2
  obtain ⟨taken, left⟩ := Text.span_append_white spaced black text
  simp only [Text.spanDigits, taken, left]

/-- A fraction ends before white space. -/
theorem fraction?_append_white (spaced : White white) (text : List Char) :
    fraction? (text ++ white) =
      (fraction? text).map fun (fraction, rest) => (fraction, rest ++ white) := by
  cases text with
  | nil =>
    cases white with
    | nil => rfl
    | cons c white =>
      have unlike : c ≠ '.' := Text.ne_of_white spaced (by decide) c List.mem_cons_self
      simp [fraction?, unlike]
  | cons c text =>
    by_cases point : c = '.'
    · subst point
      rw [List.cons_append]
      simp only [fraction?, spanDigits_append_white spaced]
      cases Text.spanDigits text with
      | mk digits rest => cases digits <;> rfl
    · simp [fraction?, point]

/-- A number ends before white space. -/
theorem number_append_white (spaced : White white) (text : List Char) :
    number (text ++ white) = (number text).map fun (v, rest) => (v, rest ++ white) := by
  simp only [number, minus_append_white spaced, spanDigits_append_white spaced,
    fraction?_append_white spaced]
  cases fraction? (Text.spanDigits (minus text).2).2 with
  | some found => rfl
  | none =>
    simp only [Option.map_none]
    split
    · rfl
    · split <;> rfl

end Markup

namespace Expr

open Markup

/-! ### Expressions in front of white space -/

/-- An expression with white space around it is read as it is without. -/
def ReadsAlone (white text : List Char) : Prop :=
  ∀ source e rest bound, Text.trimStart source = Text.trimStart (text ++ white) →
    read source = .ok ⟨(e, rest), bound⟩ →
    ∃ left bound, rest = left ++ white ∧ read text = .ok ⟨(e, left), bound⟩

/-- Steps with white space after them are read as they are without. -/
def StepsAlone (white text : List Char) : Prop :=
  ∀ source path e rest bound, text ++ white = source →
    readSteps path source = .ok ⟨(e, rest), bound⟩ →
    ∃ left bound, rest = left ++ white ∧ readSteps path text = .ok ⟨(e, left), bound⟩

/-- An expression is read so if all shorter texts are. -/
theorem readsAlone (spaced : White white) {text : List Char}
    (whole : ∀ shorter : List Char, shorter.length < text.length → ReadsAlone white shorter)
    (steps : ∀ shorter : List Char, shorter.length < text.length → StepsAlone white shorter) :
    ReadsAlone white text := by
  intro source e rest bound start result
  rw [Expr.read] at result
  split at result
  · cases result
  · next c more trimmed =>
    rw [trimmed] at start
    obtain ⟨inside, rfl, starts⟩ := Text.trimStart_of_append_white spaced start.symm
    have shorter := length_lt_of_trimStart starts
    dsimp only at result
    split at result
    · next quotes =>
      split at result
      · cases result
      · next run after found =>
        cases result
        rw [quoted?_append_white spaced quotes, Option.map_eq_some_iff] at found
        obtain ⟨⟨run, left⟩, found, ⟨⟩⟩ := found
        obtain ⟨bound, read⟩ := read_of_quote starts quotes found
        exact ⟨left, bound, rfl, read⟩
    · next notQuote =>
      split at result
      · next opens =>
        -- The two points and the bracket after them are not white, so the text has them, too.
        subst opens
        split at result
        · cases result
        · next first afterFirst firstBound firstRead =>
          obtain ⟨afterFirst, firstShorter, rfl, firstAlone⟩ :=
            whole inside shorter _ _ _ _ rfl firstRead
          split at result
          · next afterDots dots =>
            obtain ⟨pointed, same, dots⟩ := Text.trimStart_of_append_white spaced dots
            obtain ⟨afterDots, rfl, rfl⟩ :=
              Text.exists_cons_of_append_white spaced (by decide) same.symm
            have shorterDots : afterDots.length < text.length := by
              have dotted := length_lt_of_trimStart dots
              simp only [List.length_cons] at dotted firstShorter
              omega
            split at result
            · cases result
            · next last afterLast lastBound lastRead =>
              obtain ⟨afterLast, lastShorter, rfl, lastAlone⟩ :=
                whole afterDots shorterDots _ _ _ _ rfl lastRead
              split at result
              · next after close =>
                cases result
                obtain ⟨left, same, close⟩ := Text.trimStart_of_append_white spaced close
                obtain ⟨bound, read⟩ := read_of_range starts firstAlone dots lastAlone close
                exact ⟨left, bound, same, read⟩
              · cases result
          · cases result
      · split at result
        · next isNumber =>
          split at result
          · cases result
          · next v after found =>
            cases result
            rw [← List.cons_append, number_append_white spaced] at found
            cases alone : number (c :: inside) with
            | error cause =>
              rw [alone] at found
              cases found
            | ok parts =>
              rw [alone] at found
              cases found
              obtain ⟨bound, read⟩ := read_of_number starts isNumber alone
              exact ⟨parts.2, bound, rfl, read⟩
        · next notNumber =>
          split at result
          · cases result
          · next name after found =>
            rw [← List.cons_append, identifier?_append_white spaced,
              Option.map_eq_some_iff] at found
            obtain ⟨⟨name, left⟩, foundAlone, ⟨⟩⟩ := found
            have shorterSteps := Nat.lt_of_lt_of_le (length_identifier?_lt foundAlone) shorter
            split at result
            · cases result
            · next path afterSteps stepsBound stepsRead =>
              cases result
              obtain ⟨left, stepsBound, same, followed⟩ :=
                steps _ shorterSteps _ _ _ _ _ rfl stepsRead
              obtain ⟨split, named⟩ := identifier?_eq_some foundAlone
              have head : c ∈ name.toList.head? := by
                obtain ⟨d, tail, chars⟩ := List.exists_cons_of_ne_nil named.ne_nil
                rw [chars] at split ⊢
                exact congrArg some (List.cons.inj split).1.symm
              obtain ⟨bound, read⟩ := read_of_name starts (named.head c head)
                (Bool.eq_false_iff.mpr notNumber) foundAlone followed
              exact ⟨left, bound, same, read⟩

/-- Steps are read so if all shorter texts are. -/
theorem stepsAlone (spaced : White white) {text : List Char}
    (whole : ∀ shorter : List Char, shorter.length < text.length → ReadsAlone white shorter)
    (steps : ∀ shorter : List Char, shorter.length < text.length → StepsAlone white shorter) :
    StepsAlone white text := by
  intro source path e rest bound same result
  unfold Expr.readSteps at result
  split at result
  · next more =>
    cases result
    obtain ⟨pointed, again, rfl⟩ := Text.exists_cons_of_append_white spaced (by decide) same
    obtain ⟨left, rfl, rfl⟩ := Text.exists_cons_of_append_white spaced (by decide) again.symm
    obtain ⟨bound, read⟩ := readSteps_of_ends path (ends_points left)
    exact ⟨_, bound, rfl, read⟩
  · next more single =>
    obtain ⟨inside, rfl, rfl⟩ := Text.exists_cons_of_append_white spaced (by decide) same
    split at result
    · cases result
    · next key after found =>
      rw [identifier?_append_white spaced, Option.map_eq_some_iff] at found
      obtain ⟨⟨key, left⟩, foundAlone, ⟨⟩⟩ := found
      have shorter := Nat.lt_succ_of_lt (length_identifier?_lt foundAlone)
      split at result
      · cases result
      · next e afterSteps stepsBound stepsRead =>
        cases result
        obtain ⟨left, stepsBound, rfl, followed⟩ := steps _ shorter _ _ _ _ _ rfl stepsRead
        obtain ⟨bound, read⟩ := readSteps_of_member foundAlone followed
        exact ⟨left, bound, rfl, read⟩
  · next more =>
    obtain ⟨inside, rfl, rfl⟩ := Text.exists_cons_of_append_white spaced (by decide) same
    split at result
    · cases result
    · next index afterIndex indexBound indexRead =>
      obtain ⟨afterIndex, indexShorter, rfl, indexAlone⟩ :=
        whole inside (Nat.lt_succ_self _) _ _ _ _ rfl indexRead
      split at result
      · next after close =>
        obtain ⟨left, rfl, closeAlone⟩ := Text.trimStart_of_append_white spaced close
        have shorter : left.length < ('[' :: inside).length := by
          have closed := length_lt_of_trimStart closeAlone
          simp only [List.length_cons] at indexShorter ⊢
          omega
        split at result
        · cases result
        · next e afterSteps stepsBound stepsRead =>
          cases result
          obtain ⟨left, stepsBound, rfl, followed⟩ := steps left shorter _ _ _ _ _ rfl stepsRead
          obtain ⟨bound, read⟩ := readSteps_of_element indexAlone closeAlone followed
          exact ⟨left, bound, rfl, read⟩
      · cases result
  · next noPoints noPoint noBracket =>
    cases result
    subst same
    have ends : ∃ bound, readSteps path text = .ok ⟨(path, text), bound⟩ := by
      refine ⟨Nat.le_refl _, ?_⟩
      rw [Expr.readSteps.eq_def]
      split
      · next more => exact absurd rfl (noPoints _)
      · next more _ => exact absurd rfl (noPoint _)
      · next more => exact absurd rfl (noBracket _)
      · rfl
    obtain ⟨bound, read⟩ := ends
    exact ⟨text, bound, rfl, read⟩

/-- The readers of expressions stop before white space at the end of a text. The induction is on
the length of the text, since they call each other on shorter ones. -/
theorem alone_of_length (spaced : White white) (size : Nat) (text : List Char)
    (short : text.length < size) : ReadsAlone white text ∧ StepsAlone white text := by
  induction size generalizing text with
  | zero => exact absurd short (Nat.not_lt_zero _)
  | succ size inductionHypothesis =>
    have earlier (shorter : List Char) (less : shorter.length < text.length) :=
      inductionHypothesis shorter (Nat.lt_of_lt_of_le less (Nat.le_of_lt_succ short))
    exact ⟨readsAlone spaced (fun shorter less => (earlier shorter less).1) fun shorter less =>
        (earlier shorter less).2,
      stepsAlone spaced (fun shorter less => (earlier shorter less).1) fun shorter less =>
        (earlier shorter less).2⟩

/-- An expression with white space around it is read as it is without. -/
theorem read_of_margins (spaced : White white) {source text rest : List Char} {e : Expr}
    {bound : rest.length < source.length}
    (start : Text.trimStart source = Text.trimStart (text ++ white))
    (found : read source = .ok ⟨(e, rest), bound⟩) :
    ∃ left bound, rest = left ++ white ∧ read text = .ok ⟨(e, left), bound⟩ :=
  (alone_of_length spaced _ text (Nat.lt_succ_self _)).1 source e rest bound start found

end Expr

namespace Condition

open Markup Stencil.Expr

/-! ### Conditions in front of white space -/

/-- A sign ends before white space. -/
theorem findSign_append_white (spaced : White white) {entries : List (List Char × Comparison)}
    (black : ∀ entry ∈ entries, entry.1.all (!Text.isWhite ·) = true) (text : List Char) :
    (entries.findSome? fun (sign, op) => (sign.isPrefixOf? (text ++ white)).map (op, ·)) =
      (entries.findSome? fun (sign, op) => (sign.isPrefixOf? text).map (op, ·)).map
        fun (op, rest) => (op, rest ++ white) := by
  induction entries with
  | nil => rfl
  | cons entry entries inductionHypothesis =>
    obtain ⟨sign, op⟩ := entry
    have later := inductionHypothesis fun other member =>
      black other (List.mem_cons_of_mem _ member)
    have first := isPrefixOf?_append_white spaced (black (sign, op) List.mem_cons_self) text
    simp only [List.findSome?_cons, first, later]
    cases sign.isPrefixOf? text <;> rfl

/-- An operator ends before white space. -/
theorem operator?_append_white (spaced : White white) (text : List Char) :
    operator? (Text.trimStart (text ++ white)) =
      (operator? (Text.trimStart text)).map fun (op, rest) => (op, rest ++ white) := by
  rw [Text.trimStart_append_white spaced]
  split
  · next nothing => rw [nothing]; rfl
  · have black : ∀ entry ∈ signs, entry.1.all (!Text.isWhite ·) = true := by decide
    generalize Text.trimStart text = text
    rw [operator?, operator?, keyword?_append_white spaced (by decide),
      findSign_append_white spaced black]
    cases signs.findSome? fun (sign, op) => (sign.isPrefixOf? text).map (op, ·) with
    | some found => rfl
    | none => cases keyword? "contains".toList text <;> rfl

/-- A connective ends before white space. -/
theorem connective?_append_white (spaced : White white) (text : List Char) :
    connective? (Text.trimStart (text ++ white)) =
      (connective? (Text.trimStart text)).map fun (connective, rest) =>
        (connective, rest ++ white) := by
  rw [Text.trimStart_append_white spaced]
  split
  · next nothing => rw [nothing]; rfl
  · generalize Text.trimStart text = text
    rw [connective?, connective?, keyword?_append_white spaced (by decide),
      keyword?_append_white spaced (by decide)]
    cases keyword? "and".toList text <;> cases keyword? "or".toList text <;> rfl

/-- A simple condition with white space around it is read as it is without. -/
theorem readSimple_of_margins (spaced : White white) {source text rest : List Char}
    {c : Condition} {bound : rest.length < source.length}
    (start : Text.trimStart source = Text.trimStart (text ++ white))
    (found : readSimple source = .ok ⟨(c, rest), bound⟩) :
    ∃ left bound, Text.trimStart rest = Text.trimStart (left ++ white) ∧
      readSimple text = .ok ⟨(c, left), bound⟩ := by
  unfold readSimple at found
  split at found
  · cases found
  · next left afterLeft leftBound leftRead =>
    obtain ⟨afterLeft, leftShorter, rfl, leftAlone⟩ := read_of_margins spaced start leftRead
    split at found
    · next none =>
      cases found
      rw [operator?_append_white spaced, Option.map_eq_none_iff] at none
      obtain ⟨shorter, alone⟩ := readSimple_of_no_operator leftAlone none
      refine ⟨Text.trimStart afterLeft, shorter, ?_, alone⟩
      rw [Text.trimStart_trimStart, Text.trimStart_trimStart_append_white spaced]
    · next op afterOperator operator =>
      rw [operator?_append_white spaced, Option.map_eq_some_iff] at operator
      obtain ⟨⟨op, afterOperator⟩, operatorAlone, ⟨⟩⟩ := operator
      split at found
      · cases found
      · next right afterRight rightBound rightRead =>
        cases found
        obtain ⟨left, rightShorter, rfl, rightAlone⟩ := read_of_margins spaced rfl rightRead
        obtain ⟨shorter, alone⟩ := readSimple_of_operator leftAlone operatorAlone rightAlone
        exact ⟨left, shorter, rfl, alone⟩

/-- A chain with white space around it is read as it is without. The induction is on the length
of the text, since the reader goes on with what stands after a connective. -/
theorem readChain_of_margins (spaced : White white) (size : Nat) {source text rest : List Char}
    {c : Condition} (short : text.length < size)
    (start : Text.trimStart source = Text.trimStart (text ++ white))
    (found : readChain source = .ok (c, rest)) :
    ∃ left, Text.trimStart rest = Text.trimStart (left ++ white) ∧
      readChain text = .ok (c, left) := by
  induction size generalizing source text rest c with
  | zero => exact absurd short (Nat.not_lt_zero _)
  | succ size inductionHypothesis =>
    rw [readChain] at found
    split at found
    · cases found
    · next left afterLeft leftBound leftRead =>
      obtain ⟨afterAlone, leftShorter, same, leftAlone⟩ :=
        readSimple_of_margins spaced start leftRead
      split at found
      · next none =>
        cases found
        rw [same, connective?_append_white spaced, Option.map_eq_none_iff] at none
        refine ⟨Text.trimStart afterAlone, ?_, readChain_of_no_connective leftAlone none⟩
        rw [Text.trimStart_trimStart, same, Text.trimStart_trimStart_append_white spaced]
      · next connective afterConnective joined =>
        rw [same, connective?_append_white spaced, Option.map_eq_some_iff] at joined
        obtain ⟨⟨connective, afterConnective⟩, joinedAlone, ⟨⟩⟩ := joined
        have shorter : afterConnective.length < size := by
          have joinedBound := length_connective?_le joinedAlone
          have trimmed := Text.length_trimStart_le afterAlone
          have leftShorter : afterAlone.length < text.length := leftShorter
          omega
        split at found
        · cases found
        · next right after rightRead =>
          cases found
          obtain ⟨left, ends, rightAlone⟩ := inductionHypothesis shorter rfl rightRead
          exact ⟨left, ends, readChain_of_connective leftAlone joinedAlone rightAlone⟩

/-- A condition is read as it is without the white space around it. -/
theorem parse_trim {text : List Char} {c : Condition} (parsed : parse text = .ok c) :
    parse (Text.trim text) = .ok c := by
  obtain ⟨white, spaced, trimmed⟩ := Text.exists_white_of_trimEnd (Text.trimStart text)
  have start : Text.trimStart text = Text.trimStart (Text.trim text ++ white) := by
    rw [Text.trim, ← trimmed, Text.trimStart_trimStart]
  unfold parse at parsed
  split at parsed
  · cases parsed
  · next read rest found =>
    split at parsed
    · next nothing =>
      cases parsed
      obtain ⟨left, ends, alone⟩ :=
        readChain_of_margins spaced _ (Nat.lt_succ_self _) start found
      have nothingLeft : Text.trimStart left = [] := by
        rw [ends, Text.trimStart_append_white spaced] at nothing
        split at nothing
        · assumption
        · next some => exact absurd (List.append_eq_nil_iff.mp nothing).1 some
      simp only [parse, alone, nothingLeft]
    · cases parsed

end Condition

namespace Template

/-! ### Tags in front of white space -/

/-- A tag whose markup has white space around it is split into its name and its markup without
that. -/
theorem tagParts_trim {name : String} (named : Markup.IsName name.toList) (markup : List Char) :
    tagName (Text.trim (tagText name markup)) = name ∧
      tagMarkup (Text.trim (tagText name markup)) = Text.trim markup := by
  obtain ⟨white, spaced, split⟩ := Text.exists_white_of_trimEnd markup
  have trimmedMarkup : Text.trim markup = Text.trim (Text.trimEnd markup) := by
    conv_lhs => rw [split, Text.trim_append_white spaced]
  by_cases blank : Text.trimEnd markup = []
  · have spacedMore : White (' ' :: white) :=
      List.forall_mem_cons.mpr ⟨by decide, spaced⟩
    have alone : Text.trim (tagText name markup) = name.toList := by
      rw [split, blank, List.nil_append, tagText, Text.trim_append_white spacedMore,
        Text.trim_of_trimmed named.trimmed]
    have black : name.toList.dropWhile (!Text.isWhite ·) = [] :=
      List.dropWhile_eq_nil_iff.mpr fun c member => by simp [(named.plain_of_mem member).1]
    rw [alone, trimmedMarkup, blank, tagName, tagMarkup, Token.tagParts, black]
    exact ⟨String.ofList_toList, rfl⟩
  · have whole : tagText name markup = tagText name (Text.trimEnd markup) ++ white := by
      conv_lhs => rw [split]
      simp only [tagText, List.append_assoc, List.cons_append]
    have trimmed : Text.Trimmed (tagText name (Text.trimEnd markup)) := by
      constructor
      · rw [tagText, List.head?_append_of_ne_nil _ named.ne_nil]
        exact named.trimmed.head
      · intro c last
        rw [tagText, List.getLast?_append_of_ne_nil _ (List.cons_ne_nil _ _),
          List.getLast?_cons_of_ne_nil blank] at last
        exact Text.not_isWhite_of_getLast_trimEnd last
    rw [whole, Text.trim_append_white spaced, Text.trim_of_trimmed trimmed, trimmedMarkup]
    exact tagParts_tagText_trim named _

end Template

end Stencil
