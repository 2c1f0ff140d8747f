import Stencil.Proofs.Dictionaries
import Stencil.Proofs.Exactness
import Stencil.Request

/-!
# Calls as they are written

A call is written as the fragment of a snippet, then perhaps a keyword and the fragment of
what is handed over, then perhaps a keyword and a name for it, and then its parameters.
White space stands between these parts. In front of a parameter there can be a comma, with
white space around it or without, and one more can stand at the end.

Such a markup is read as what it is written for, whatever words its fragments and its keys
are: a keyword stands alone, and a key is followed by a colon. Of the parameters that share
a key the first one has the place and the last one has the fragment.
-/

namespace Stencil.Request

open Markup Stencil.Expr
open Text (White)

/-! ### Parameters with the same key -/

/-- Each key that is written, where it is written first, with the fragment that is written
for it last. -/
def lastOfEach (written : List (String × List Char)) : List (String × List Char) :=
  (written.map Prod.fst).eraseDups.filterMap fun key => (Dict.last? key written).map (key, ·)

/-- The keys that are held are those that are written, and each is held with its last
fragment. -/
structure Collects (written held : List (String × List Char)) : Prop where
  keys : held.map Prod.fst = (written.map Prod.fst).eraseDups
  last : ∀ parameter ∈ held, Dict.last? parameter.1 written = some parameter.2

/-- One more key comes last, unless it is there already. -/
theorem eraseDups_concat (keys : List String) (key : String) :
    (keys ++ [key]).eraseDups = if key ∈ keys then keys.eraseDups else keys.eraseDups ++ [key] := by
  rw [List.eraseDups_append]
  split
  · next present =>
    have removed : [key].removeAll keys = [] := by simp [List.removeAll, present]
    rw [removed]
    exact List.append_nil _
  · next absent =>
    have kept : [key].removeAll keys = [key] := by simp [List.removeAll, absent]
    rw [kept]
    rfl

/-- To add a parameter keeps track of one more that is written. -/
theorem Collects.withParameter {written held : List (String × List Char)}
    (collects : Collects written held) (parameter : String × List Char) :
    Collects (written ++ [parameter]) (withParameter held parameter) := by
  have keys : ((written ++ [parameter]).map Prod.fst).eraseDups =
      if parameter.1 ∈ written.map Prod.fst then held.map Prod.fst
      else held.map Prod.fst ++ [parameter.1] := by
    rw [List.map_append, collects.keys]
    exact eraseDups_concat _ _
  have repeats : held.any (·.1 = parameter.1) = true ↔ parameter.1 ∈ written.map Prod.fst := by
    rw [← List.mem_eraseDups, ← collects.keys, List.any_eq_true, List.mem_map]
    simp only [decide_eq_true_eq]
  unfold Request.withParameter
  split
  · next repeated =>
    constructor
    · rw [keys, if_pos (repeats.mp repeated), List.map_map]
      apply List.map_congr_left
      intro entry _
      by_cases same : entry.1 = parameter.1 <;> simp [same]
    · intro entry member
      obtain ⟨old, oldMember, rfl⟩ := List.mem_map.mp member
      by_cases same : old.1 = parameter.1
      · rw [if_pos same, Dict.last?_concat, if_pos rfl]
      · rw [if_neg same, Dict.last?_concat, if_neg (Ne.symm same)]
        exact collects.last old oldMember
  · next unrepeated =>
    have absent : parameter.1 ∉ written.map Prod.fst := fun present =>
      unrepeated (repeats.mpr present)
    constructor
    · rw [keys, if_neg absent, List.map_append]
      rfl
    · intro entry member
      rcases List.mem_append.mp member with member | member
      · have other : parameter.1 ≠ entry.1 := by
          intro same
          exact unrepeated (List.any_eq_true.mpr ⟨entry, member, decide_eq_true same.symm⟩)
        rw [Dict.last?_concat, if_neg other]
        exact collects.last entry member
      · obtain rfl := List.mem_singleton.mp member
        rw [Dict.last?_concat, if_pos rfl]

/-- Parameters that are added in turn are all kept track of. -/
theorem collects_foldl (written : List (String × List Char)) :
    Collects written (written.foldl withParameter []) := by
  induction written using List.reverseRecOn with
  | nil =>
    constructor
    · rfl
    · rintro _ ⟨⟩
  | append_singleton written parameter inductionHypothesis =>
    rw [List.foldl_append]
    exact inductionHypothesis.withParameter parameter

/-- A key is looked up among what is held as it is among what is written. -/
theorem Collects.last?_eq {written held : List (String × List Char)}
    (collects : Collects written held) (key : String) :
    Dict.last? key held = Dict.last? key written := by
  cases found : Dict.last? key held with
  | some fragment => exact (collects.last _ (Dict.mem_of_last? found)).symm
  | none =>
    refine (Dict.last?_eq_none_iff.mpr fun entry member same => ?_).symm
    have kept : entry.1 ∈ held.map Prod.fst := by
      rw [collects.keys, List.mem_eraseDups]
      exact List.mem_map_of_mem member
    obtain ⟨other, otherMember, otherSame⟩ := List.mem_map.mp kept
    exact Dict.last?_eq_none_iff.mp found other otherMember (otherSame.trans same)

/-- What is held is determined by what is written. -/
theorem Collects.eq {written held : List (String × List Char)} (collects : Collects written held) :
    held = lastOfEach written := by
  rw [lastOfEach, ← collects.keys, List.filterMap_map, List.filterMap_congr, List.filterMap_some]
  intro parameter member
  rw [Function.comp_apply, collects.last parameter member]
  rfl

/-! ### What stands between the parts of a call -/

/-- White space that is not empty. -/
structure Gap where
  text : List Char
  white : White text
  nonempty : text ≠ []

/-- A gap, or a comma with white space around it or without. -/
inductive Separator where
  | space (gap : Gap)
  | comma (before after : List Char) (spacedBefore : White before) (spacedAfter : White after)

/-- A separator as it is written. -/
def Separator.text : Separator → List Char
  | .space gap => gap.text
  | .comma before after _ _ => before ++ ',' :: after

/-- A text with which no word before it goes on, since it is empty or starts with white space
or a comma. -/
def EndsWord (rest : List Char) : Prop := ∀ c ∈ rest.head?, Text.isWhite c = true ∨ c = ','

theorem EndsWord.name {rest : List Char} (ends : EndsWord rest) : EndsName rest := by
  intro c head
  rcases ends c head with white | rfl
  · refine ⟨not_continuesName_of_isWhite white, ?_⟩
    rintro rfl
    exact absurd white (by decide)
  · decide

theorem EndsWord.fragment {rest : List Char} (ends : EndsWord rest) : EndsFragment rest := by
  intro c head
  rcases ends c head with white | rfl
  · exact endsFragment_of_isWhite white
  · decide

/-- White space ends a word, or else what follows it does. -/
theorem EndsWord.white_append {white rest : List Char} (spaced : White white)
    (ends : EndsWord rest) : EndsWord (white ++ rest) := by
  cases white with
  | nil => exact ends
  | cons c white =>
    rintro _ ⟨⟩
    exact .inl (spaced c List.mem_cons_self)

namespace Gap

theorem ends (gap : Gap) (rest : List Char) : EndsWord (gap.text ++ rest) := by
  obtain ⟨c, more, split⟩ := List.exists_cons_of_ne_nil gap.nonempty
  rw [split]
  rintro _ ⟨⟩
  exact .inl (gap.white c (split ▸ List.mem_cons_self))

/-- A keyword in front of a gap stands alone. -/
theorem keyword?_append (gap : Gap) (word rest : List Char) :
    keyword? word (word ++ (gap.text ++ rest)) = some (gap.text ++ rest) := by
  apply Markup.keyword?_append
  obtain ⟨c, more, split⟩ := List.exists_cons_of_ne_nil gap.nonempty
  rw [split]
  exact gap.white c (split ▸ List.mem_cons_self)

/-- After a gap stands the part that it sets off. -/
theorem trimStart_append (gap : Gap) {part : List Char} (trimmed : Text.Trimmed part)
    (nonempty : part ≠ []) (rest : List Char) :
    Text.trimStart (gap.text ++ (part ++ rest)) = part ++ rest :=
  (Text.trimStart_white_append gap.white _).trans (Markup.trimStart_append trimmed nonempty rest)

end Gap

/-- What stands after a separator depends on the text from its first character on that is not
white. -/
theorem afterSeparator_congr {text other : List Char}
    (same : Text.trimStart text = Text.trimStart other) :
    afterSeparator text = afterSeparator other := by
  simp only [afterSeparator, same]

namespace Separator

theorem ends (separator : Separator) (rest : List Char) : EndsWord (separator.text ++ rest) := by
  cases separator with
  | space gap => exact gap.ends rest
  | comma before after spacedBefore =>
    have comma : EndsWord (',' :: (after ++ rest)) := by
      rintro _ ⟨⟩
      exact .inr rfl
    rw [text, List.append_assoc]
    exact comma.white_append spacedBefore

/-- After white space a comma is taken for a separator, with the white space that follows. -/
theorem afterSeparator_comma {before after : List Char} (spacedBefore : White before)
    (spacedAfter : White after) (rest : List Char) :
    afterSeparator (before ++ ',' :: after ++ rest) = Text.trimStart rest := by
  have start : Text.trimStart (before ++ ',' :: after ++ rest) = ',' :: (after ++ rest) := by
    rw [List.append_assoc]
    exact Text.trimStart_white_append spacedBefore _
  rw [afterSeparator, start]
  exact Text.trimStart_white_append spacedAfter rest

/-- After a separator stands the key that it sets off. -/
theorem afterSeparator_append (separator : Separator) {key : List Char} (named : IsName key)
    (rest : List Char) : afterSeparator (separator.text ++ (key ++ rest)) = key ++ rest := by
  cases separator with
  | space gap =>
    rw [text, afterSeparator, gap.trimStart_append named.trimmed named.ne_nil]
    split
    · next more same =>
      have head : ',' ∈ key.head? := by
        rw [← List.head?_append_of_ne_nil key named.ne_nil, same]
        rfl
      exact absurd (named.head ',' head) (by decide)
    · rfl
  | comma before after spacedBefore spacedAfter =>
    rw [text, afterSeparator_comma spacedBefore spacedAfter]
    exact Markup.trimStart_append named.trimmed named.ne_nil rest

/-- Nothing stands after the last separator. -/
theorem afterSeparator_text (separator : Separator) : afterSeparator separator.text = [] := by
  cases separator with
  | space gap =>
    have nothing : Text.trimStart gap.text = [] := List.dropWhile_eq_nil_iff.mpr gap.white
    rw [text, afterSeparator, nothing]
  | comma before after spacedBefore spacedAfter =>
    rw [text, ← List.append_nil (before ++ ',' :: after),
      afterSeparator_comma spacedBefore spacedAfter]
    rfl

end Separator

/-! ### The parts of a call -/

/-- The keywords after which a call hands something over. -/
inductive Hands : String → (List Char → Target) → Prop where
  | single : Hands "with" .single
  | each : Hands "for" .each

theorem Hands.isName {word : String} {target : List Char → Target} (hands : Hands word target) :
    IsName word.toList := by
  cases hands <;> exact isName_of_identifier? (by decide)

theorem isName_as : IsName "as".toList := isName_of_identifier? (by decide)

/-- A keyword and the fragment of what is handed over. -/
structure WrittenTarget where
  before : Gap
  word : String
  target : List Char → Target
  hands : Hands word target
  between : Gap
  fragment : List Char
  written : IsFragment fragment

/-- A keyword and the name for what is handed over. -/
structure WrittenName where
  before : Gap
  between : Gap
  name : String
  named : IsName name.toList

/-- A parameter after its separator. -/
structure WrittenParameter where
  separator : Separator
  key : String
  named : IsName key.toList
  fragment : List Char
  written : IsFragment fragment

/-- The parts of a call in their order. At the end there can be a separator. -/
structure WrittenCall where
  snippet : List Char
  written : IsFragment snippet
  target : Option WrittenTarget
  name : Option WrittenName
  parameters : List WrittenParameter
  ending : Option Separator

/-- A keyword and what belongs to it, each after a gap. -/
def clauseText (before : Gap) (word : List Char) (between : Gap) (part : List Char) : List Char :=
  before.text ++ (word ++ (between.text ++ part))

/-- A target as it is written. -/
def WrittenTarget.text (target : WrittenTarget) : List Char :=
  clauseText target.before target.word.toList target.between target.fragment

/-- A name as it is written. -/
def WrittenName.text (name : WrittenName) : List Char :=
  clauseText name.before "as".toList name.between name.name.toList

/-- The separator, the key and the fragment of a parameter. -/
def WrittenParameter.text (parameter : WrittenParameter) : List Char :=
  parameter.separator.text ++ (parameter.key.toList ++ ':' :: ' ' :: parameter.fragment)

/-- Parameters as they are written, with what stands at the end. -/
def parametersText (parameters : List WrittenParameter) (ending : Option Separator) : List Char :=
  parameters.foldr (fun parameter rest => parameter.text ++ rest) (ending.elim [] Separator.text)

namespace WrittenCall

/-- What is written of a call after its target. -/
def afterTarget (call : WrittenCall) : List Char :=
  call.name.elim [] WrittenName.text ++ parametersText call.parameters call.ending

/-- What is written of a call after its snippet. -/
def afterSnippet (call : WrittenCall) : List Char :=
  call.target.elim [] WrittenTarget.text ++ call.afterTarget

/-- A call as it is written. -/
def text (call : WrittenCall) : List Char := call.snippet ++ call.afterSnippet

/-- All keys that are written, each with its fragment. -/
def entries (call : WrittenCall) : List (String × List Char) :=
  call.parameters.map fun parameter => (parameter.key, parameter.fragment)

/-- What a call is written for. -/
def request (call : WrittenCall) : Request where
  snippet := call.snippet
  target := call.target.elim .nothing fun target => target.target target.fragment
  name := call.name.map WrittenName.name
  parameters := lastOfEach call.entries

end WrittenCall

/-! ### What follows a part does not belong to it -/

theorem ends_clauseText {before between : Gap} {word part rest : List Char} :
    EndsWord (clauseText before word between part ++ rest) := by
  rw [clauseText, List.append_assoc]
  exact before.ends _

/-- After its gap a clause starts with its keyword. -/
theorem trimStart_clauseText (before : Gap) {word : List Char} (named : IsName word)
    (between : Gap) (part rest : List Char) :
    Text.trimStart (clauseText before word between part ++ rest) =
      word ++ (between.text ++ (part ++ rest)) := by
  rw [clauseText, List.append_assoc, List.append_assoc, List.append_assoc]
  exact before.trimStart_append named.trimmed named.ne_nil _

theorem endsWord_nil : EndsWord [] := by rintro _ ⟨⟩

theorem endsWord_parametersText (parameters : List WrittenParameter) (ending : Option Separator) :
    EndsWord (parametersText parameters ending) := by
  cases parameters with
  | nil =>
    cases ending with
    | none => exact endsWord_nil
    | some separator =>
      rw [parametersText, List.foldr_nil, Option.elim_some, ← List.append_nil separator.text]
      exact separator.ends []
  | cons parameter parameters =>
    rw [parametersText, List.foldr_cons, WrittenParameter.text, List.append_assoc]
    exact parameter.separator.ends _

/-- No keyword is found where no name starts. -/
theorem keyword?_of_head {word text : List Char} (named : IsName word)
    (other : ∀ c ∈ text.head?, startsName c = false) : keyword? word text = none := by
  cases found : keyword? word text with
  | none => rfl
  | some after =>
    obtain ⟨c, more, rfl⟩ := List.exists_cons_of_ne_nil named.ne_nil
    have starts := named.head c rfl
    rw [other c (keyword?_eq_some found ▸ rfl)] at starts
    cases starts

/-- A name in front of a colon is no keyword, which would have to stand alone. -/
theorem keyword?_key {word key : List Char} (wordNamed : IsName word) (named : IsName key)
    (rest : List Char) : keyword? word (key ++ ':' :: rest) = none := by
  cases found : keyword? word (key ++ ':' :: rest) with
  | none => rfl
  | some after =>
    have apart := (Option.filter_eq_some_iff.mp found).2
    have together : ¬Text.atWordEnd (':' :: rest) = true := by
      change ¬Text.isWhite ':' = true
      decide
    -- One of the two words begins the other; at their end stands the colon or a character
    -- of the key, and neither is white.
    rcases List.append_eq_append_iff.mp (keyword?_eq_some found) with
      ⟨more, rfl, split⟩ | ⟨more, rfl, rfl⟩
    · cases more with
      | nil =>
        obtain rfl : ':' :: rest = after := split
        exact absurd apart together
      | cons c more =>
        obtain ⟨rfl, -⟩ := List.cons.inj split
        have kept := wordNamed.kept ':' (List.mem_append_right _ List.mem_cons_self)
        exact absurd kept (by decide)
    · cases more with
      | nil => exact absurd apart together
      | cons c more =>
        have black := (named.plain_of_mem (List.mem_append_right _ List.mem_cons_self)).1
        exact absurd (black.symm.trans apart) Bool.false_ne_true

/-- No keyword stands where the parameters begin, or the end of the call. -/
theorem keyword?_parametersText {word : List Char} (named : IsName word)
    (parameters : List WrittenParameter) (ending : Option Separator) :
    keyword? word (Text.trimStart (parametersText parameters ending)) = none := by
  have comma {before : List Char} (spaced : White before) (rest : List Char) :
      keyword? word (Text.trimStart (before ++ ',' :: rest)) = none := by
    rw [Text.trimStart_white_append spaced]
    apply keyword?_of_head named
    rintro _ ⟨⟩
    decide
  cases parameters with
  | nil =>
    cases ending with
    | none =>
      apply keyword?_of_head named
      rintro _ ⟨⟩
    | some separator =>
      cases separator with
      | space gap =>
        have nothing : Text.trimStart gap.text = [] := List.dropWhile_eq_nil_iff.mpr gap.white
        change keyword? word (Text.trimStart gap.text) = none
        rw [nothing]
        apply keyword?_of_head named
        rintro _ ⟨⟩
      | comma before after spacedBefore => exact comma spacedBefore after
  | cons parameter parameters =>
    obtain ⟨separator, key, keyNamed, fragment, written⟩ := parameter
    rw [parametersText, List.foldr_cons, WrittenParameter.text, List.append_assoc,
      List.append_assoc]
    cases separator with
    | space gap =>
      rw [Separator.text, gap.trimStart_append keyNamed.trimmed keyNamed.ne_nil]
      exact keyword?_key named keyNamed _
    | comma before after spacedBefore =>
      rw [Separator.text, List.append_assoc]
      exact comma spacedBefore _

/-! ### The parts are read -/

/-- A parameter is read as its key and its fragment. -/
theorem readParameter?_append {key : String} {fragment rest : List Char}
    (named : IsName key.toList) (written : IsFragment fragment) (ends : EndsFragment rest) :
    readParameter? (key.toList ++ (':' :: ' ' :: (fragment ++ rest))) =
      some ((key, fragment), rest) := by
  have colon : EndsName (':' :: ' ' :: (fragment ++ rest)) := by
    rintro _ ⟨⟩
    decide
  have trimmed : Text.trimStart (':' :: ' ' :: (fragment ++ rest)) =
      ':' :: ' ' :: (fragment ++ rest) := rfl
  have fragmentRead : fragment? (Text.trimStart (' ' :: (fragment ++ rest))) =
      some (fragment, rest) := by
    rw [Text.trimStart_space, trimStart_append written.trimmed written.nonempty,
      written.fragment?_append ends]
  simp only [readParameter?, named.identifier?_append colon, Option.bind_eq_bind,
    Option.bind_some, trimmed, fragmentRead]
  rfl

/-- Where nothing but a separator is left there are no more parameters. -/
theorem readParameters?_of_nothing {text : List Char} (nothing : afterSeparator text = []) :
    readParameters? text = some [] := by
  rw [readParameters?]
  split
  · rfl
  · next start => rw [nothing] at start; cases start

/-- A parameter after a separator is read before those that follow it. -/
theorem readParameters?_of_parameter {text rest : List Char} {parameter : String × List Char}
    (found : readParameter? (afterSeparator text) = some (parameter, rest)) :
    readParameters? text = (readParameters? rest).map (parameter :: ·) := by
  rw [readParameters?]
  split
  · next nothing => rw [nothing] at found; cases found
  · next start =>
    rw [start] at found
    split
    · next missing => rw [found] at missing; cases missing
    · next other =>
      rw [found] at other
      cases other
      rfl

/-- Parameters are read as they are written, after any white space. -/
theorem readParameters?_parametersText (parameters : List WrittenParameter)
    (ending : Option Separator) {source : List Char}
    (start : Text.trimStart source = Text.trimStart (parametersText parameters ending)) :
    readParameters? source =
      some (parameters.map fun parameter => (parameter.key, parameter.fragment)) := by
  induction parameters generalizing source with
  | nil =>
    apply readParameters?_of_nothing
    rw [afterSeparator_congr start]
    cases ending with
    | none => rfl
    | some separator => exact separator.afterSeparator_text
  | cons parameter parameters inductionHypothesis =>
    have found := readParameter?_append parameter.named parameter.written
      (endsWord_parametersText parameters ending).fragment
    have separated : afterSeparator source = parameter.key.toList ++
        ':' :: ' ' :: (parameter.fragment ++ parametersText parameters ending) := by
      rw [afterSeparator_congr start, parametersText, List.foldr_cons, WrittenParameter.text,
        List.append_assoc, List.append_assoc]
      exact parameter.separator.afterSeparator_append parameter.named _
    rw [← separated] at found
    rw [readParameters?_of_parameter found, inductionHypothesis rfl]
    rfl

/-- What is handed over is read after its keyword. -/
theorem WrittenTarget.read (target : WrittenTarget) {rest : List Char} (ends : EndsWord rest) :
    readTarget? (Text.trimStart (target.text ++ rest)) =
      some (target.target target.fragment, Text.trimStart rest) := by
  obtain ⟨before, word, target, hands, between, fragment, written⟩ := target
  have found : fragment? (Text.trimStart (between.text ++ (fragment ++ rest))) =
      some (fragment, rest) := by
    rw [between.trimStart_append written.trimmed written.nonempty]
    exact written.fragment?_append ends.fragment
  have keyword := between.keyword?_append word.toList (fragment ++ rest)
  rw [text, trimStart_clauseText before hands.isName]
  cases hands with
  | single => simp only [readTarget?, keyword, found, Option.map_some]
  | each =>
    have other : keyword? "with".toList ("for".toList ++ (between.text ++ (fragment ++ rest))) =
        none := rfl
    simp only [readTarget?, keyword, other, found, Option.map_some]

/-- Without a keyword nothing is handed over. -/
theorem readTarget?_of_no_keyword {text : List Char} (noWith : keyword? "with".toList text = none)
    (noFor : keyword? "for".toList text = none) : readTarget? text = some (.nothing, text) := by
  simp only [readTarget?, noWith, noFor]

/-- The name is read after its keyword. -/
theorem WrittenName.read (name : WrittenName) {rest : List Char} (ends : EndsWord rest) :
    readName? (Text.trimStart (name.text ++ rest)) = some (some name.name, rest) := by
  have found : identifier? (Text.trimStart (name.between.text ++ (name.name.toList ++ rest))) =
      some (name.name, rest) := by
    rw [name.between.trimStart_append name.named.trimmed name.named.ne_nil]
    exact name.named.identifier?_append ends.name
  rw [text, trimStart_clauseText name.before isName_as]
  simp only [readName?, name.between.keyword?_append "as".toList, found, Option.map_some]

/-- No name is read where no keyword stands for it. -/
theorem readName?_of_no_keyword {text : List Char} (noAs : keyword? "as".toList text = none) :
    readName? text = some (none, text) := by
  simp only [readName?, noAs]

namespace WrittenCall

variable (call : WrittenCall)

theorem endsWord_afterTarget : EndsWord call.afterTarget := by
  unfold afterTarget
  cases call.name with
  | none => exact endsWord_parametersText call.parameters call.ending
  | some name => exact ends_clauseText

theorem endsWord_afterSnippet : EndsWord call.afterSnippet := by
  unfold afterSnippet
  cases call.target with
  | none => exact call.endsWord_afterTarget
  | some target => exact ends_clauseText

/-- No keyword for what is handed over stands after it. -/
theorem keyword?_afterTarget {word : String} {target : List Char → Target}
    (hands : Hands word target) :
    keyword? word.toList (Text.trimStart call.afterTarget) = none := by
  unfold afterTarget
  cases call.name with
  | none => exact keyword?_parametersText hands.isName call.parameters call.ending
  | some name =>
    rw [Option.elim_some, WrittenName.text, trimStart_clauseText name.before isName_as]
    cases hands <;> rfl

/-- What is handed over is read after the snippet. -/
theorem readTarget?_afterSnippet :
    readTarget? (Text.trimStart call.afterSnippet) =
      some (call.request.target, Text.trimStart call.afterTarget) := by
  have ends := call.endsWord_afterTarget
  unfold afterSnippet request
  cases call.target with
  | some target => exact target.read ends
  | none =>
    exact readTarget?_of_no_keyword (call.keyword?_afterTarget .single)
      (call.keyword?_afterTarget .each)

/-- The name is read after what is handed over, and the parameters are left. -/
theorem readName?_afterTarget :
    ∃ after, readName? (Text.trimStart call.afterTarget) = some (call.request.name, after) ∧
      Text.trimStart after = Text.trimStart (parametersText call.parameters call.ending) := by
  have ends := endsWord_parametersText call.parameters call.ending
  unfold afterTarget request
  cases call.name with
  | some name => exact ⟨_, name.read ends, rfl⟩
  | none =>
    have noAs := keyword?_parametersText isName_as call.parameters call.ending
    exact ⟨_, readName?_of_no_keyword noAs, Text.trimStart_trimStart _⟩

/-- A call is read as what it is written for. -/
theorem read?_text : read? call.text = some call.request := by
  have snippetRead : fragment? (Text.trimStart call.text) =
      some (call.snippet, call.afterSnippet) := by
    rw [text, trimStart_append call.written.trimmed call.written.nonempty]
    exact call.written.fragment?_append call.endsWord_afterSnippet.fragment
  obtain ⟨after, nameRead, start⟩ := call.readName?_afterTarget
  have parametersRead := readParameters?_parametersText call.parameters call.ending start
  simp only [read?, snippetRead, call.readTarget?_afterSnippet, nameRead, parametersRead,
    Option.bind_eq_bind, Option.bind_some]
  exact congrArg (fun parameters => some { call.request with parameters := parameters })
    (collects_foldl call.entries).eq

end WrittenCall

/-- A written call is read as what it is written for: with its snippet, with what it hands over
and the name for it, and with each key once, where it is written first, and with the fragment
that is written for it last. -/
theorem written_call_read (tag : String) (call : WrittenCall) :
    parse tag call.text = .ok call.request ∧ Collects call.entries call.request.parameters := by
  constructor
  · rw [parse, call.read?_text]
  · have collects := collects_foldl call.entries
    rwa [collects.eq] at collects

/-- A single space. -/
def Gap.single : Gap := ⟨[' '], by decide, by decide⟩

/-- A parameter whose fragment is a name. -/
def WrittenParameter.ofNames (separator : Separator) (key name : String)
    (named : IsName key.toList) (nameNamed : IsName name.toList) : WrittenParameter :=
  ⟨separator, key, named, name.toList, nameNamed.isFragment⟩

/-- A call whose keys are the words that are keywords in other places, one of them twice. -/
def wordyCall : WrittenCall where
  snippet := "'card'".toList
  written := isFragment_quoted (by decide) (by decide : '\'' ∉ "card".toList)
  target := some ⟨.single, "with", .single, .single, .single, "user".toList,
    (isName_of_identifier? (by decide)).isFragment⟩
  name := some ⟨.single, .single, "with", isName_of_identifier? (by decide)⟩
  parameters :=
    [⟨.comma [' '] [' '] Gap.single.white Gap.single.white, "for",
        isName_of_identifier? (by decide), "'a, b'".toList,
        isFragment_quoted (by decide) (by decide : '\'' ∉ "a, b".toList)⟩,
      .ofNames (.space .single) "as" "x" (isName_of_identifier? (by decide))
        (isName_of_identifier? (by decide)),
      .ofNames (.comma [] [] (by rintro _ ⟨⟩) (by rintro _ ⟨⟩)) "with" "2"
        (isName_of_identifier? (by decide)) (isName_of_identifier? (by decide)),
      .ofNames (.space .single) "for" "y" (isName_of_identifier? (by decide))
        (isName_of_identifier? (by decide))]
  ending := some (.comma [' '] [] Gap.single.white (by rintro _ ⟨⟩))

/-- The wordy call is read; the key that is written twice has the first place and the last
fragment. -/
theorem wordy_call_read :
    parse "render" "'card' with user as with , for: 'a, b' as: x,with: 2 for: y ,".toList =
      .ok ⟨"'card'".toList, .single "user".toList, some "with",
        [("for", "y".toList), ("as", "x".toList), ("with", "2".toList)]⟩ :=
  (written_call_read "render" wordyCall).1

end Stencil.Request
