import Stencil.Condition.Reader
import Stencil.Proofs.Exactness
import Stencil.Render

/-!
# Chains of conditions

A printed chain is made of simple conditions with a connective between each two of them,
and a single space stands between all parts. It is read as the condition that nests to the
right, whatever names its variables have: a word is an operator or a connective only where
an expression has been read. The truth of this condition is the right fold of the
connectives, and it does not matter whether simple conditions that cannot change it are
tested.

In turn only chains are read as conditions, and they are nested to the right. What is left
of a text after a chain that does not go on with it is an error.
-/

namespace Stencil.Condition

open Markup Stencil.Expr
open Text (White)

/-! ### Printed chains -/

/-- A text that is read as an expression. -/
structure Operand where
  text : List Char
  e : Expr
  parsed : Expr.parse text = .ok e

/-- The ways to write the operators. -/
def spellings : List (List Char × Comparison) :=
  [("==".toList, .equal), ("!=".toList, .unequal), ("<>".toList, .unequal), ("<".toList, .less),
    ("<=".toList, .atMost), (">".toList, .greater), (">=".toList, .atLeast),
    ("contains".toList, .contains)]

/-- An operator in one of the ways to write it. -/
structure Operator where
  text : List Char
  op : Comparison
  listed : (text, op) ∈ spellings

/-- A condition without connectives. -/
inductive Simple where
  | alone (operand : Operand)
  | compare (left : Operand) (operator : Operator) (right : Operand)

namespace Simple

/-- A simple condition as it is printed. -/
def text : Simple → List Char
  | .alone operand => operand.text
  | .compare left operator right => left.text ++ ' ' :: (operator.text ++ ' ' :: right.text)

/-- What a simple condition is read as. -/
def condition : Simple → Condition
  | .alone operand => .truthy operand.e
  | .compare left operator right => .compare left.e operator.op right.e

/-- The truth of a simple condition. -/
def holds (bindings : Bindings) : Simple → Bool
  | .alone operand => (operand.e.eval bindings).truthy
  | .compare left operator right =>
    operator.op.holds (left.e.eval bindings) (right.e.eval bindings)

/-- A text whose start can be taken for the operator of this condition. -/
def GoesOn (rest : List Char) : Simple → Prop
  | .alone _ => (operator? (Text.trimStart rest)).isSome
  | .compare _ _ _ => False

theorem eval_condition (bindings : Bindings) (simple : Simple) :
    simple.condition.eval bindings = simple.holds bindings := by
  cases simple <;> rfl

end Simple

namespace Connective

/-- The word for a connective. -/
def word : Connective → List Char
  | .and => "and".toList
  | .or => "or".toList

/-- What a connective makes of two truths. -/
def apply : Connective → Bool → Bool → Bool
  | .and, left, right => left && right
  | .or, left, right => left || right

theorem eval_join (connective : Connective) (bindings : Bindings) (left right : Condition) :
    (connective.join left right).eval bindings =
      connective.apply (left.eval bindings) (right.eval bindings) := by
  cases connective <;> rfl

end Connective

/-- A chain of simple conditions, each but the last with the connective that follows it. -/
structure Chain where
  init : List (Simple × Connective)
  last : Simple

namespace Chain

/-- The chain with one more simple condition in front. -/
def cons (simple : Simple) (connective : Connective) (chain : Chain) : Chain :=
  ⟨(simple, connective) :: chain.init, chain.last⟩

/-- A chain as it is printed. -/
def text (chain : Chain) : List Char :=
  chain.init.foldr (fun (simple, connective) rest =>
    simple.text ++ ' ' :: (connective.word ++ ' ' :: rest)) chain.last.text

/-- The condition that a chain nests to the right. -/
def condition (chain : Chain) : Condition :=
  chain.init.foldr (fun (simple, connective) rest => connective.join simple.condition rest)
    chain.last.condition

/-- The right fold of the connectives over the truths of the simple conditions. -/
def holds (bindings : Bindings) (chain : Chain) : Bool :=
  chain.init.foldr (fun (simple, connective) rest => connective.apply (simple.holds bindings) rest)
    (chain.last.holds bindings)

/-- The truth of what a chain is read as is the right fold of its connectives. -/
theorem eval_condition (bindings : Bindings) (chain : Chain) :
    chain.condition.eval bindings = chain.holds bindings := by
  obtain ⟨init, last⟩ := chain
  induction init with
  | nil => exact last.eval_condition bindings
  | cons part init inductionHypothesis =>
    obtain ⟨simple, connective⟩ := part
    simp only [condition, holds, List.foldr_cons] at inductionHypothesis ⊢
    rw [connective.eval_join, simple.eval_condition, inductionHypothesis]

end Chain

/-! ### Testing with and without shortcuts -/

section Testing

open Rendering

variable {σ : Type}

/-- Tests the parts of a condition in turn, but not those that cannot change its truth. -/
def testShort : Condition → Rendering σ Bool
  | .and left right => do
    if ← left.testShort then right.testShort else return false
  | .or left right => do
    if ← left.testShort then return true else right.testShort
  | simple => test simple

/-- Tests all parts of a condition in turn. -/
def testAll : Condition → Rendering σ Bool
  | .and left right => do
    let first ← left.testAll
    let second ← right.testAll
    return first && second
  | .or left right => do
    let first ← left.testAll
    let second ← right.testAll
    return first || second
  | simple => test simple

/-- Shortcuts change neither the truth of a condition nor anything else: no test fails or
leaves a trace. -/
theorem testShort_eq (condition : Condition) :
    (condition.testShort : Rendering σ Bool) = test condition := by
  induction condition with
  | truthy e => rfl
  | compare left op right => rfl
  | and left right leftHypothesis rightHypothesis =>
    funext run
    rw [testShort, leftHypothesis, rightHypothesis]
    cases holds : left.eval run.context.get? <;>
      simp [test, eval, holds, bind, EStateM.bind, pure, EStateM.pure]
  | or left right leftHypothesis rightHypothesis =>
    funext run
    rw [testShort, leftHypothesis, rightHypothesis]
    cases holds : left.eval run.context.get? <;>
      simp [test, eval, holds, bind, EStateM.bind, pure, EStateM.pure]

/-- To test all parts of a condition makes no difference either. -/
theorem testAll_eq (condition : Condition) :
    (condition.testAll : Rendering σ Bool) = test condition := by
  induction condition with
  | truthy e => rfl
  | compare left op right => rfl
  | and left right leftHypothesis rightHypothesis =>
    rw [testAll, leftHypothesis, rightHypothesis]
    rfl
  | or left right leftHypothesis rightHypothesis =>
    rw [testAll, leftHypothesis, rightHypothesis]
    rfl

end Testing

/-! ### Printed chains are read -/

/-- An operand is read after white space, up to what follows it. -/
theorem Operand.read (operand : Operand) {source rest : List Char}
    (start : Text.trimStart source = Text.trimStart (operand.text ++ rest)) (ends : Ends rest) :
    ∃ after bound, Expr.read source = .ok ⟨(operand.e, after), bound⟩ ∧
      Text.trimStart after = Text.trimStart rest := by
  obtain ⟨used, white, same, spelled, spaced⟩ := exists_spells_of_parse operand.parsed
  rw [same, List.append_assoc] at start
  obtain ⟨bound, read⟩ := spelled.reads source _ start (ends.white_append spaced)
  exact ⟨_, bound, read, Text.trimStart_white_append spaced rest⟩

/-- A space ends an expression. -/
theorem ends_space (rest : List Char) : Ends (' ' :: rest) :=
  ends_cons (by decide) (by decide) rest

/-- An operator is read in each of the ways to write it. -/
theorem Operator.read (operator : Operator) (rest : List Char) :
    operator? (Text.trimStart (' ' :: (operator.text ++ ' ' :: rest))) =
      some (operator.op, ' ' :: rest) := by
  obtain ⟨text, op, listed⟩ := operator
  -- The space keeps a sign from being taken for a longer one that it begins.
  simp only [spellings, List.mem_cons, List.not_mem_nil, or_false, Prod.mk.injEq] at listed
  rcases listed with ⟨rfl, rfl⟩ | ⟨rfl, rfl⟩ | ⟨rfl, rfl⟩ | ⟨rfl, rfl⟩ | ⟨rfl, rfl⟩ |
    ⟨rfl, rfl⟩ | ⟨rfl, rfl⟩ | ⟨rfl, rfl⟩ <;> rfl

/-- The word for a connective is read as it, and not as an operator. -/
theorem Connective.read (connective : Connective) (rest : List Char) :
    connective? (Text.trimStart (' ' :: (connective.word ++ ' ' :: rest))) =
        some (connective, ' ' :: rest) ∧
      operator? (Text.trimStart (' ' :: (connective.word ++ ' ' :: rest))) = none := by
  cases connective <;> exact ⟨rfl, rfl⟩

/-- An expression is read as a condition of its own where no operator follows it. -/
theorem readSimple_of_no_operator {text after : List Char} {e : Expr}
    {bound : after.length < text.length} (read : Expr.read text = .ok ⟨(e, after), bound⟩)
    (none : operator? (Text.trimStart after) = none) :
    ∃ bound, readSimple text = .ok ⟨(.truthy e, Text.trimStart after), bound⟩ := by
  refine ⟨Nat.lt_of_le_of_lt (Text.length_trimStart_le _) bound, ?_⟩
  rw [readSimple, read]
  dsimp only
  split
  · rfl
  · next found => rw [none] at found; cases found

/-- Two expressions are read as a comparison where an operator stands between them. -/
theorem readSimple_of_operator {text afterLeft afterOperator rest : List Char}
    {left right : Expr} {op : Comparison} {leftBound : afterLeft.length < text.length}
    {rightBound : rest.length < afterOperator.length}
    (leftRead : Expr.read text = .ok ⟨(left, afterLeft), leftBound⟩)
    (operatorRead : operator? (Text.trimStart afterLeft) = some (op, afterOperator))
    (rightRead : Expr.read afterOperator = .ok ⟨(right, rest), rightBound⟩) :
    ∃ bound, readSimple text = .ok ⟨(.compare left op right, rest), bound⟩ := by
  have shorter : rest.length < text.length := by
    have operatorBound := length_operator?_le operatorRead
    have trimmed := Text.length_trimStart_le afterLeft
    omega
  refine ⟨shorter, ?_⟩
  rw [readSimple, leftRead]
  dsimp only
  split
  · next missing => rw [operatorRead] at missing; cases missing
  · next other =>
    rw [operatorRead] at other
    cases other
    rw [rightRead]

/-- A chain ends after a simple condition that no connective follows. -/
theorem readChain_of_no_connective {text after : List Char} {c : Condition}
    {bound : after.length < text.length} (read : readSimple text = .ok ⟨(c, after), bound⟩)
    (none : connective? (Text.trimStart after) = none) :
    readChain text = .ok (c, Text.trimStart after) := by
  rw [readChain, read]
  dsimp only
  split
  · rfl
  · next found => rw [none] at found; cases found

/-- A chain goes on after a connective. -/
theorem readChain_of_connective {text after afterConnective rest : List Char}
    {left right : Condition} {connective : Connective} {bound : after.length < text.length}
    (read : readSimple text = .ok ⟨(left, after), bound⟩)
    (joined : connective? (Text.trimStart after) = some (connective, afterConnective))
    (rightRead : readChain afterConnective = .ok (right, rest)) :
    readChain text = .ok (connective.join left right, rest) := by
  rw [readChain, read]
  dsimp only
  split
  · next missing => rw [joined] at missing; cases missing
  · next other =>
    rw [joined] at other
    cases other
    rw [rightRead]

/-- A simple condition is read after white space, up to what follows it, unless this makes
the first operand of a comparison of it. -/
theorem Simple.read (simple : Simple) {source rest : List Char}
    (start : Text.trimStart source = Text.trimStart (simple.text ++ rest)) (ends : Ends rest)
    (stops : ¬simple.GoesOn rest) :
    ∃ after bound, readSimple source = .ok ⟨(simple.condition, after), bound⟩ ∧
      Text.trimStart after = Text.trimStart rest := by
  cases simple with
  | alone operand =>
    obtain ⟨after, bound, read, trimmed⟩ := operand.read start ends
    have none : operator? (Text.trimStart after) = none := by
      rw [trimmed]
      exact Option.not_isSome_iff_eq_none.mp stops
    obtain ⟨shorter, whole⟩ := readSimple_of_no_operator read none
    exact ⟨Text.trimStart after, shorter, whole, by rw [Text.trimStart_trimStart, trimmed]⟩
  | compare left operator right =>
    let afterOperator := ' ' :: (right.text ++ rest)
    have whole : text (.compare left operator right) ++ rest =
        left.text ++ ' ' :: (operator.text ++ afterOperator) := by
      simp only [text, List.append_assoc, List.cons_append, afterOperator]
    rw [whole] at start
    obtain ⟨afterLeft, leftBound, leftRead, leftTrimmed⟩ := left.read start (ends_space _)
    obtain ⟨after, rightBound, rightRead, trimmed⟩ :=
      right.read (Text.trimStart_space (right.text ++ rest)) ends
    have operatorRead : operator? (Text.trimStart afterLeft) = some (operator.op, afterOperator) :=
      leftTrimmed ▸ operator.read (right.text ++ rest)
    obtain ⟨shorter, compared⟩ := readSimple_of_operator leftRead operatorRead rightRead
    exact ⟨after, shorter, compared, trimmed⟩

/-- What stands after a chain if all of the chain has been read. -/
structure EndsChain (chain : Chain) (rest : List Char) : Prop where
  ends : Ends rest
  operator : ¬chain.last.GoesOn rest
  connective : connective? (Text.trimStart rest) = none

/-- Nothing goes on with a chain. -/
theorem endsChain_nil (chain : Chain) : EndsChain chain [] where
  ends := ends_nil
  operator := by
    cases chain.last with
    | alone operand => exact Option.not_isSome_iff_eq_none.mpr rfl
    | compare left operator right => exact not_false
  connective := rfl

/-- A chain is read after white space, up to what follows it. The induction is on the parts
before the last; each of them is followed by a connective. -/
theorem Chain.read (chain : Chain) {source rest : List Char}
    (start : Text.trimStart source = Text.trimStart (chain.text ++ rest))
    (ended : EndsChain chain rest) :
    readChain source = .ok (chain.condition, Text.trimStart rest) := by
  obtain ⟨init, last⟩ := chain
  induction init generalizing source with
  | nil =>
    obtain ⟨after, bound, read, trimmed⟩ := last.read start ended.ends ended.operator
    have whole := readChain_of_no_connective read (trimmed ▸ ended.connective)
    rwa [trimmed] at whole
  | cons part init inductionHypothesis =>
    obtain ⟨simple, connective⟩ := part
    let chain : Chain := ⟨init, last⟩
    let afterConnective := ' ' :: (chain.text ++ rest)
    let afterSimple := ' ' :: (connective.word ++ afterConnective)
    have whole : text ⟨(simple, connective) :: init, last⟩ ++ rest =
        simple.text ++ afterSimple := by
      simp only [text, List.foldr_cons, List.append_assoc, List.cons_append, afterSimple,
        afterConnective, chain]
    rw [whole] at start
    obtain ⟨connectiveRead, noOperator⟩ := connective.read (chain.text ++ rest)
    have stops : ¬simple.GoesOn afterSimple := by
      cases simple with
      | alone operand => exact Option.not_isSome_iff_eq_none.mpr noOperator
      | compare left operator right => exact not_false
    obtain ⟨after, bound, read, trimmed⟩ := simple.read start (ends_space _) stops
    have rightRead : readChain afterConnective = .ok (chain.condition, Text.trimStart rest) :=
      inductionHypothesis (Text.trimStart_space (chain.text ++ rest))
        ⟨ended.ends, ended.operator, ended.connective⟩
    exact readChain_of_connective read (trimmed ▸ connectiveRead) rightRead

/-! ### Only chains are read -/

/-- What a text spells as a simple condition. White space can stand between the parts, and
it has to stand after a word. -/
inductive SpellsSimple : List Char → Condition → Prop where
  | truthy {text : List Char} {e : Expr} (spelled : Spells .whole text e) :
      SpellsSimple text (.truthy e)
  | compare {leftText white sign rightText : List Char} {left right : Expr} {op : Comparison}
      (leftSpelled : Spells .whole leftText left) (spaced : White white)
      (listed : (sign, op) ∈ spellings) (rightSpelled : Spells .whole rightText right)
      (apart : op = .contains → Text.atWordEnd rightText = true) :
      SpellsSimple (leftText ++ (white ++ (sign ++ rightText))) (.compare left op right)

/-- What a text spells as a chain of conditions. It nests to the right. -/
inductive SpellsChain : List Char → Condition → Prop where
  | simple {text : List Char} {c : Condition} (spelled : SpellsSimple text c) :
      SpellsChain text c
  | join {simpleText white chainText : List Char} {connective : Connective} {left right : Condition}
      (simpleSpelled : SpellsSimple simpleText left) (spaced : White white)
      (chainSpelled : SpellsChain chainText right) (apart : Text.atWordEnd chainText = true) :
      SpellsChain (simpleText ++ (white ++ (connective.word ++ chainText)))
        (connective.join left right)

/-- What is found as an operator is written in one of its ways; a word stands alone. -/
theorem operator?_eq_some {text rest : List Char} {op : Comparison}
    (found : operator? text = some (op, rest)) :
    ∃ sign, text = sign ++ rest ∧ (sign, op) ∈ spellings ∧
      (op = .contains → Text.atWordEnd rest = true) := by
  simp only [operator?, Option.or_eq_some_iff, List.findSome?_eq_some_iff,
    Option.map_eq_some_iff, Prod.mk.injEq] at found
  rcases found with ⟨_, ⟨sign, op⟩, _, split, ⟨_, read, rfl, rfl⟩, -⟩ | ⟨-, _, read, rfl, rfl⟩
  · have listed : (sign, op) ∈ signs := by
      rw [split]
      exact List.mem_append_right _ List.mem_cons_self
    simp only [signs, List.mem_cons, List.not_mem_nil, or_false, Prod.mk.injEq] at listed
    refine ⟨sign, Text.isPrefixOf?_eq_some read, ?_, ?_⟩
    · rcases listed with ⟨rfl, rfl⟩ | ⟨rfl, rfl⟩ | ⟨rfl, rfl⟩ | ⟨rfl, rfl⟩ | ⟨rfl, rfl⟩ |
        ⟨rfl, rfl⟩ | ⟨rfl, rfl⟩ <;> decide
    · rintro rfl
      simp only [reduceCtorEq, and_false, or_false] at listed
  · exact ⟨_, keyword?_eq_some read, by decide, fun _ => (Option.filter_eq_some_iff.mp read).2⟩

/-- What is found as a connective is its word, which stands alone. -/
theorem connective?_eq_some {text rest : List Char} {connective : Connective}
    (found : connective? text = some (connective, rest)) :
    text = connective.word ++ rest ∧ Text.atWordEnd rest = true := by
  simp only [connective?, Option.or_eq_some_iff, Option.map_eq_some_iff, Prod.mk.injEq] at found
  rcases found with ⟨_, read, rfl, rfl⟩ | ⟨-, _, read, rfl, rfl⟩ <;>
    exact ⟨keyword?_eq_some read, (Option.filter_eq_some_iff.mp read).2⟩

/-- A word that stands alone before a text that is not empty is set off from its start. -/
theorem atWordEnd_of_append {text rest : List Char} (nonempty : text ≠ [])
    (apart : Text.atWordEnd (text ++ rest) = true) : Text.atWordEnd text = true := by
  cases text with
  | nil => exact absurd rfl nonempty
  | cons c text => exact apart

/-- What is read as a simple condition spells it. -/
theorem exists_spellsSimple {text rest : List Char} {c : Condition}
    {bound : rest.length < text.length} (read : readSimple text = .ok ⟨(c, rest), bound⟩) :
    ∃ used white, text = used ++ (white ++ rest) ∧ SpellsSimple used c ∧ White white := by
  unfold readSimple at read
  split at read
  · cases read
  · next left afterLeft leftBound leftRead =>
    obtain ⟨leftText, rfl, leftSpelled⟩ := exists_spells_of_read leftRead
    split at read
    · cases read
      obtain ⟨white, spaced, split⟩ :=
        Text.exists_white_of_trimStart (rfl : _ = Text.trimStart afterLeft)
      exact ⟨leftText, white, by rw [← split], .truthy leftSpelled, spaced⟩
    · next op afterOperator found =>
      obtain ⟨sign, trimmed, listed, apart⟩ := operator?_eq_some found
      obtain ⟨white, spaced, rfl⟩ := Text.exists_white_of_trimStart trimmed
      split at read
      · cases read
      · next right afterRight rightBound rightRead =>
        cases read
        obtain ⟨rightText, rfl, rightSpelled⟩ := exists_spells_of_read rightRead
        refine ⟨leftText ++ (white ++ (sign ++ rightText)), [], ?_, ?_, ?_⟩
        · simp only [List.append_assoc, List.nil_append]
        · exact .compare leftSpelled spaced listed rightSpelled fun contains =>
            atWordEnd_of_append rightSpelled.ne_nil (apart contains)
        · rintro _ ⟨⟩

/-- A simple condition is not empty, since no expression is. -/
theorem SpellsSimple.ne_nil {text : List Char} {c : Condition} (spelled : SpellsSimple text c) :
    text ≠ [] := by
  cases spelled with
  | truthy spelled => exact spelled.ne_nil
  | compare leftSpelled => exact List.append_ne_nil_of_left_ne_nil leftSpelled.ne_nil _

/-- A chain is not empty either. -/
theorem SpellsChain.ne_nil {text : List Char} {c : Condition} (spelled : SpellsChain text c) :
    text ≠ [] := by
  cases spelled with
  | simple spelled => exact spelled.ne_nil
  | join spelled => exact List.append_ne_nil_of_left_ne_nil spelled.ne_nil _

/-- What is read as a chain spells it. The induction is on the length of the text, since the
reader goes on with what stands after a connective. -/
theorem exists_spellsChain (size : Nat) {text rest : List Char} {c : Condition}
    (short : text.length < size) (read : readChain text = .ok (c, rest)) :
    ∃ used white, text = used ++ (white ++ rest) ∧ SpellsChain used c ∧ White white := by
  induction size generalizing text c rest with
  | zero => exact absurd short (Nat.not_lt_zero _)
  | succ size inductionHypothesis =>
    rw [readChain] at read
    split at read
    · cases read
    · next left afterLeft leftBound leftRead =>
      obtain ⟨simpleText, white, split, simpleSpelled, spaced⟩ := exists_spellsSimple leftRead
      split at read
      · cases read
        obtain ⟨gap, gapSpaced, afterSplit⟩ :=
          Text.exists_white_of_trimStart (rfl : _ = Text.trimStart afterLeft)
        refine ⟨simpleText, white ++ gap, ?_, .simple simpleSpelled, ?_⟩
        · rw [split, List.append_assoc, ← afterSplit]
        · exact List.forall_mem_append.mpr ⟨spaced, gapSpaced⟩
      · next connective afterConnective found =>
        obtain ⟨trimmed, apart⟩ := connective?_eq_some found
        obtain ⟨gap, gapSpaced, rfl⟩ := Text.exists_white_of_trimStart trimmed
        have shorter : afterConnective.length < size := by
          have less := Nat.lt_of_lt_of_le leftBound (Nat.le_of_lt_succ short)
          simp only [List.length_append] at less
          omega
        split at read
        · cases read
        · next right after rightRead =>
          cases read
          obtain ⟨chainText, ending, rfl, chainSpelled, endSpaced⟩ :=
            inductionHypothesis shorter rightRead
          refine ⟨simpleText ++ (white ++ gap ++ (connective.word ++ chainText)), ending, ?_, ?_,
            endSpaced⟩
          · simp only [split, List.append_assoc]
          · exact .join simpleSpelled (List.forall_mem_append.mpr ⟨spaced, gapSpaced⟩)
              chainSpelled (atWordEnd_of_append chainSpelled.ne_nil apart)

/-- A condition without connectives. -/
def IsSimple : Condition → Prop
  | .truthy _ => True
  | .compare _ _ _ => True
  | .and _ _ => False
  | .or _ _ => False

/-- A condition whose connectives have simple conditions on their left. -/
def RightNested : Condition → Prop
  | .truthy _ => True
  | .compare _ _ _ => True
  | .and left right => left.IsSimple ∧ right.RightNested
  | .or left right => left.IsSimple ∧ right.RightNested

theorem SpellsSimple.isSimple {text : List Char} {c : Condition} (spelled : SpellsSimple text c) :
    c.IsSimple := by
  cases spelled <;> trivial

/-- What a text spells as a chain nests to the right. -/
theorem SpellsChain.rightNested {text : List Char} {c : Condition} (spelled : SpellsChain text c) :
    c.RightNested := by
  induction spelled with
  | simple spelled => cases spelled <;> trivial
  | @join _ _ _ connective _ _ simpleSpelled _ _ _ inductionHypothesis =>
    have simple := simpleSpelled.isSimple
    cases connective <;> exact ⟨simple, inductionHypothesis⟩

/-! ### Conditions are chains -/

/-- A text that goes on after a chain that has been read is no condition. -/
theorem parse_eq_error_of_rest {text rest : List Char} {c : Condition}
    (read : readChain text = .ok (c, rest)) (left : Text.trimStart rest ≠ []) :
    parse text = .error (.afterCondition (String.ofList (Text.trimStart rest))
      (String.ofList (Text.trim text))) := by
  rw [parse, read]
  dsimp only
  split
  · next nothing => exact absurd nothing left
  · rfl

/-- What is read as a condition spells a chain, up to white space at its end. -/
theorem exists_spellsChain_of_parse {text : List Char} {c : Condition}
    (parsed : parse text = .ok c) :
    ∃ used white, text = used ++ white ∧ SpellsChain used c ∧ White white := by
  unfold parse at parsed
  split at parsed
  · cases parsed
  · next found rest read =>
    split at parsed
    · next nothing =>
      cases parsed
      obtain ⟨used, white, rfl, spelled, spaced⟩ :=
        exists_spellsChain _ (Nat.lt_succ_self _) read
      obtain ⟨ending, endSpaced, rfl⟩ := Text.exists_white_of_trimStart nothing
      rw [List.append_nil]
      exact ⟨used, white ++ ending, rfl, spelled, List.forall_mem_append.mpr ⟨spaced, endSpaced⟩⟩
    · cases parsed

/-- A printed chain is read as the condition that nests to the right. This condition holds if
the right fold of the connectives does, and testing it with shortcuts or without them makes no
difference. All that is read as a condition is a chain, which nests to the right. Whatever is
left of a text after a chain is a mistake; so is what does not go on with a printed one. -/
theorem chains_nest_right (chain : Chain) :
    parse chain.text = .ok chain.condition ∧
      (∀ bindings, chain.condition.eval bindings = chain.holds bindings) ∧
      (∀ σ, (chain.condition.testShort : Rendering σ Bool) = Rendering.test chain.condition ∧
        (chain.condition.testAll : Rendering σ Bool) = Rendering.test chain.condition) ∧
      (∀ text c, parse text = .ok c → c.RightNested ∧
        ∃ used white, text = used ++ white ∧ SpellsChain used c ∧ White white) ∧
      (∀ text c rest, readChain text = .ok (c, rest) →
        (∃ used white, text = used ++ (white ++ rest) ∧ SpellsChain used c ∧ White white) ∧
        (Text.trimStart rest ≠ [] →
          parse text = .error (.afterCondition (String.ofList (Text.trimStart rest))
            (String.ofList (Text.trim text))))) ∧
      ∀ rest, EndsChain chain rest → Text.trimStart rest ≠ [] →
        parse (chain.text ++ rest) =
          .error (.afterCondition (String.ofList (Text.trimStart rest))
            (String.ofList (Text.trim (chain.text ++ rest)))) := by
  refine ⟨?_, chain.eval_condition, fun σ => ⟨testShort_eq _, testAll_eq _⟩, ?_, ?_, ?_⟩
  · rw [parse, chain.read (by rw [List.append_nil]) (endsChain_nil chain)]
    rfl
  · intro text c parsed
    obtain ⟨used, white, same, spelled, spaced⟩ := exists_spellsChain_of_parse parsed
    exact ⟨spelled.rightNested, used, white, same, spelled, spaced⟩
  · intro text c rest read
    exact ⟨exists_spellsChain _ (Nat.lt_succ_self _) read, parse_eq_error_of_rest read⟩
  · intro rest ended left
    have mistake := parse_eq_error_of_rest (chain.read rfl ended)
    rw [Text.trimStart_trimStart] at mistake
    exact mistake left

/-- A variable as an operand. -/
def Operand.ofName (name : String) (named : IsName name.toList)
    (starts : ∀ c ∈ name.toList.head?, startsNumber c = false) : Operand :=
  ⟨name.toList, (Expr.var name).named, parse_name named starts⟩

/-- A chain of words that are variables, operators and connectives in turn. -/
def wordChain : Chain where
  init :=
    [(.compare (.ofName "and" (isName_of_identifier? (by decide)) (by rintro _ ⟨⟩; decide))
        ⟨"contains".toList, .contains, by decide⟩
        ⟨"'or and'".toList, .literal (.string "or and"),
          parse_quoted (by decide) (by decide : '\'' ∉ "or and".toList)⟩, .or),
      (.compare (.ofName "or" (isName_of_identifier? (by decide)) (by rintro _ ⟨⟩; decide))
        ⟨"<>".toList, .unequal, by decide⟩
        (.ofName "contains" (isName_of_identifier? (by decide)) (by rintro _ ⟨⟩; decide)), .and)]
  last := .alone (.ofName "n" (isName_of_identifier? (by decide)) (by rintro _ ⟨⟩; decide))

/-- The chain of words is read, and not if another word follows. -/
theorem words_nest_right :
    parse "and contains 'or and' or or <> contains and n".toList =
        .ok (.or (.compare (.var "and") .contains (.literal (.string "or and")))
          (.and (.compare (.var "or") .unequal (.var "contains")) (.truthy (.var "n")))) ∧
      parse "and contains 'or and' or or <> contains and n then".toList =
        .error (.afterCondition "then" "and contains 'or and' or or <> contains and n then") := by
  have ended : EndsChain wordChain " then".toList :=
    ⟨ends_space _, Option.not_isSome_iff_eq_none.mpr rfl, rfl⟩
  obtain ⟨read, -, -, -, -, mistake⟩ := chains_nest_right wordChain
  exact ⟨read, mistake _ ended (by decide)⟩

end Stencil.Condition
