import Stencil.Proofs.Comments

/-!
# Blocks under other names

One tag can be registered under several names. What the name of a block decides is only which tag
closes it, and a reader that is inside of the block does not look at the name before that. So a
block that is opened and closed under one name is read like one that is opened and closed under
another, whatever stands in it.

Loops and comments are closed under one name only, whatever name they are opened with. The main
statement says for each kind of block which tag closes it under a new name, that it is then read
as under its own name, and that a loop or a comment is not closed by any other tag.
-/

namespace Stencil

namespace Template

variable {registry : Registry}

/-! ### The name of the outermost block -/

/-- The name of the tag that closes a block in one of its parts. -/
def Part.ending : Part → (tag : String) → String
  | .loopBody _, _ => "endfor"
  | .loopEmpty _ _, _ => "endfor"
  | .armBody _ _ _, tag => closing tag
  | .elseBody _ _, tag => closing tag
  | .captureBody _, tag => closing tag

/-- No tag that divides a block is one that closes a block. -/
theorem closing_ne (tag : String) : closing tag ≠ "elsif" ∧ closing tag ≠ "else" := by
  constructor <;>
  · intro same
    have letters := congrArg String.toList same
    simp [closing] at letters

/-- A tag that does not close a block leads to another part of it or means nothing to it, and
which of these does not depend on the name of the block. -/
theorem Part.turn?_of_ne_ending (part : Part) (body : Template) (e : BlockEnd) :
    ∃ next : Option (Except SyntaxError Part),
      (∀ tag, e.name ≠ part.ending tag →
        part.turn? tag body e = next.map fun turned => turned.map .part) ∧
      ∀ later, next = some (.ok later) → later.ending = part.ending := by
  cases part with
  | loopBody head =>
    by_cases divides : e.name = "else"
    · exact ⟨some (.ok (.loopEmpty head body)), fun tag _ => by simp [turn?, divides, Except.map],
        by rintro _ ⟨⟩; rfl⟩
    · exact ⟨none, fun tag unclosed => by simp_all [turn?, ending], by rintro _ ⟨⟩⟩
  | loopEmpty head first =>
    exact ⟨none, fun tag unclosed => by simp_all [turn?, ending], by rintro _ ⟨⟩⟩
  | armBody negateFirst earlier condition =>
    by_cases goesOn : e.name = "elsif"
    · refine ⟨some ((Condition.parse e.markup).map fun next =>
        .armBody negateFirst (earlier ++ [(condition, body)]) next), fun tag _ => ?_, ?_⟩
      · simp only [turn?, goesOn, if_true, Option.map_some]
        cases Condition.parse e.markup <;> rfl
      · intro later read
        cases parsed : Condition.parse e.markup with
        | error cause => simp [parsed, Except.map] at read
        | ok next =>
          simp only [parsed, Except.map, Option.some.injEq, Except.ok.injEq] at read
          exact read ▸ rfl
    · by_cases divides : e.name = "else"
      · exact ⟨some (.ok (.elseBody negateFirst (earlier ++ [(condition, body)]))),
          fun tag _ => by simp [turn?, divides, Except.map], by rintro _ ⟨⟩; rfl⟩
      · exact ⟨none, fun tag unclosed => by simp_all [turn?, ending], by rintro _ ⟨⟩⟩
  | elseBody negateFirst arms =>
    exact ⟨none, fun tag unclosed => by simp_all [turn?, ending], by rintro _ ⟨⟩⟩
  | captureBody name =>
    exact ⟨none, fun tag unclosed => by simp_all [turn?, ending], by rintro _ ⟨⟩⟩

/-- The tag that closes a block closes it with nodes that do not depend on its name. -/
theorem Part.turn?_of_ending (part : Part) (body : Template) :
    ∃ nodes, ∀ (tag : String) (e : BlockEnd), e.name = part.ending tag →
      part.turn? tag body e = some (.ok (.close nodes)) := by
  cases part with
  | loopBody head => exact ⟨_, fun tag e closes => by simp [turn?, closes, ending]; rfl⟩
  | loopEmpty head first => exact ⟨_, fun tag e closes => by simp [turn?, closes, ending]; rfl⟩
  | armBody negateFirst earlier condition =>
    exact ⟨_, fun tag e closes => by simp [turn?, closes, ending, closing_ne]; rfl⟩
  | elseBody negateFirst arms =>
    exact ⟨_, fun tag e closes => by simp [turn?, closes, ending]; rfl⟩
  | captureBody name => exact ⟨_, fun tag e closes => by simp [turn?, closes, ending]; rfl⟩

namespace State

/-- A state inside of one more block, which is the outermost one. -/
def within (state : State) (block : Block) : State :=
  { state with blocks := state.blocks ++ [block] }

/-- Inside of a block a tag opens what it opens outside. -/
theorem openTag_within (state : State) (block : Block) (tag : Tag) (name : String)
    (markup : List Char) :
    (state.within block).openTag tag name markup =
      (state.openTag tag name markup).map fun opened => opened.within block := by
  cases tag with
  | assign => simp only [openTag]; cases readAssign markup <;> rfl
  | call => simp only [openTag]; cases Request.parse name markup <;> rfl
  | comment => rfl
  | loop => simp only [openTag]; cases readLoopHead markup <;> rfl
  | ifHolds => simp only [openTag]; cases Condition.parse markup <;> rfl
  | ifFails => simp only [openTag]; cases Condition.parse markup <;> rfl
  | capture => simp only [openTag]; cases readCaptureName markup <;> rfl

/-- Inside of a block the tags of comments count as they do outside. -/
theorem commentTag_within (state : State) (block : Block) (depth : Nat) (name : String) :
    (state.within block).commentTag depth name = (state.commentTag depth name).within block := by
  unfold commentTag
  split
  · rfl
  · split <;> rfl

/-- Inside of a block there is an open block. -/
theorem finish_within (state : State) (block : Block) :
    ∃ cause, (state.within block).finish = .error cause := by
  obtain ⟨nodes, blocks, comment⟩ := state
  cases comment with
  | some depth => exact ⟨_, rfl⟩
  | none => cases blocks <;> exact ⟨_, rfl⟩

/-- A state that is in a comment or in a block. -/
def Deep (state : State) : Prop := state.comment ≠ none ∨ state.blocks ≠ []

/-- Any other state has only nodes. -/
theorem deep_or_shallow (state : State) : state.Deep ∨ ∃ nodes, state = ⟨nodes, [], none⟩ := by
  obtain ⟨nodes, blocks, comment⟩ := state
  cases comment with
  | some depth => exact .inl (.inl (Option.some_ne_none depth))
  | none =>
    cases blocks with
    | cons block around => exact .inl (.inr (List.cons_ne_nil block around))
    | nil => exact .inr ⟨nodes, rfl⟩

end State

/-! ### Tokens inside of a block -/

/-- Inside of a block a tag that nothing waits for means what it means outside. -/
theorem step_within_of_free (registry : Registry) {state : State}
    (outside : state.comment = none) (inner : List Char) :
    ∃ reached : Except SyntaxError State, ∀ block,
      tagName inner ∉ (state.within block).waits [] →
      step registry [] (state.within block) (.tag inner) =
        reached.map fun next => .reading (next.within block) := by
  have outside (block : Block) : (state.within block).comment = none := outside
  cases registered : Dict.get? (tagName inner) registry with
  | none =>
    refine ⟨.error (.unknownTag (tagName inner) (Dict.keys registry)), fun block free => ?_⟩
    rw [step_free (outside block) free, registered]
    rfl
  | some tag =>
    refine ⟨state.openTag tag (tagName inner) (tagMarkup inner), fun block free => ?_⟩
    rw [step_free (outside block) free, registered]
    simp only [State.openTag_within]
    cases state.openTag tag (tagName inner) (tagMarkup inner) <;> rfl

/-- Inside of a block an output is what it is outside. -/
theorem step_within_output (registry : Registry) {state : State}
    (outside : state.comment = none) (written : List Char) :
    ∃ reached : Except SyntaxError State, ∀ block,
      step registry [] (state.within block) (.output written) =
        reached.map fun next => .reading (next.within block) := by
  obtain ⟨nodes, blocks, comment⟩ := state
  cases outside
  refine ⟨(readOutput written).map fun e => State.add ⟨nodes, blocks, none⟩ (.output e),
    fun block => ?_⟩
  cases read : readOutput written with
  | error cause => simp only [step, State.within, read, Except.map]
  | ok e =>
    simp only [step, State.within, read, Except.map]
    rfl

/-- In a comment or in a block a token means the same whatever stands around. -/
theorem step_within_of_deep (registry : Registry) {state : State} (deep : state.Deep)
    (token : Token) :
    ∃ reached : Except SyntaxError State, ∀ block,
      step registry [] (state.within block) token =
        reached.map fun next => .reading (next.within block) := by
  obtain ⟨nodes, blocks, comment⟩ := state
  cases comment with
  | some depth =>
    cases token with
    | text content => exact ⟨.ok ⟨nodes, blocks, some depth⟩, fun _ => rfl⟩
    | output inner => exact ⟨.ok ⟨nodes, blocks, some depth⟩, fun _ => rfl⟩
    | tag inner =>
      refine ⟨.ok ((⟨nodes, blocks, some depth⟩ : State).commentTag depth (tagName inner)),
        fun block => ?_⟩
      exact congrArg (Except.ok ∘ Progress.reading) (State.commentTag_within _ block depth _)
  | none =>
    obtain ⟨innermost, around, rfl⟩ := List.exists_cons_of_ne_nil (deep.resolve_left (absurd rfl))
    cases token with
    | text content =>
      exact ⟨.ok (State.add ⟨nodes, innermost :: around, none⟩ (.text (String.ofList content))),
        fun _ => rfl⟩
    | output written => exact step_within_output registry rfl written
    | tag inner =>
      cases turn : innermost.part.turn? innermost.tag nodes.reverse
          ⟨tagName inner, tagMarkup inner⟩ with
      | none =>
        obtain ⟨reached, stepped⟩ := @step_within_of_free registry
          ⟨nodes, innermost :: around, none⟩ rfl inner
        exact ⟨reached, fun block => stepped block (Part.turn?_eq_none_iff.mp turn)⟩
      | some turned =>
        cases turned with
        | error cause => exact ⟨.error cause, fun _ => step_turn turn⟩
        | ok next =>
          cases next with
          | part next =>
            exact ⟨.ok ⟨[], { innermost with part := next } :: around, none⟩,
              fun _ => step_turn turn⟩
          | close closed =>
            exact ⟨.ok ⟨closed.reverse ++ innermost.before, around, none⟩,
              fun _ => step_turn turn⟩

/-- What a token does inside of a block that it does not close: it leads to a state inside of
the same block, or of another part of it, and which one does not depend on the block's name. -/
structure Leads (registry : Registry) (state : State) (part : Part) (before : List Node)
    (token : Token) (reached : Except SyntaxError (State × Part)) : Prop where
  stepped : ∀ tag, isTag (part.ending tag) token = false →
    step registry [] (state.within ⟨tag, part, before⟩) token =
      reached.map fun inside => .reading (inside.1.within ⟨tag, inside.2, before⟩)
  kept : ∀ inside, reached = .ok inside → inside.2.ending = part.ending

/-- A token that has nothing to do with the block leaves its part as it is. -/
theorem Leads.of_same {state : State} {part : Part} {before : List Node} {token : Token}
    {reached : Except SyntaxError State}
    (stepped : ∀ tag, isTag (part.ending tag) token = false →
      step registry [] (state.within ⟨tag, part, before⟩) token =
        reached.map fun next => .reading (next.within ⟨tag, part, before⟩)) :
    Leads registry state part before token (reached.map (·, part)) where
  stepped tag unclosed := by
    rw [stepped tag unclosed]
    cases reached <;> rfl
  kept inside passed := by
    cases reached with
    | error cause => cases passed
    | ok next =>
      cases passed
      rfl

/-- Every token leads somewhere. Only a tag that directly stands in the block can concern it. -/
theorem exists_leads (registry : Registry) (state : State) (part : Part) (before : List Node)
    (token : Token) : ∃ reached, Leads registry state part before token reached := by
  rcases state.deep_or_shallow with deep | ⟨nodes, rfl⟩
  · obtain ⟨reached, stepped⟩ := step_within_of_deep registry deep token
    exact ⟨_, .of_same fun tag _ => stepped _⟩
  · cases token with
    | text content =>
      let next : Except SyntaxError State :=
        .ok (State.add ⟨nodes, [], none⟩ (.text (String.ofList content)))
      exact ⟨next.map (·, part), .of_same fun _ _ => rfl⟩
    | output written =>
      obtain ⟨reached, stepped⟩ := @step_within_output registry ⟨nodes, [], none⟩ rfl written
      exact ⟨_, .of_same fun tag _ => stepped _⟩
    | tag inner =>
      -- Only here can the block itself wait for the tag, which is not the one that closes it.
      obtain ⟨next, turns, keeps⟩ :=
        part.turn?_of_ne_ending nodes.reverse ⟨tagName inner, tagMarkup inner⟩
      have turns (tag : String) (unclosed : isTag (part.ending tag) (.tag inner) = false) :=
        turns tag (of_decide_eq_false unclosed)
      cases next with
      | none =>
        obtain ⟨reached, stepped⟩ := @step_within_of_free registry ⟨nodes, [], none⟩ rfl inner
        exact ⟨_, .of_same fun tag unclosed =>
          stepped _ (Part.turn?_eq_none_iff.mp (turns tag unclosed))⟩
      | some turned =>
        refine ⟨turned.map (⟨[], [], none⟩, ·), fun tag unclosed => ?_, fun inside passed => ?_⟩
        · refine (@step_turn registry [] nodes ⟨tag, part, before⟩ [] _ _
            (turns tag unclosed)).trans ?_
          cases turned <;> rfl
        · cases turned with
          | error cause => cases passed
          | ok later =>
            cases passed
            exact keeps later rfl

/-! ### Reading inside of a block -/

/-- The template that is read from a state on, if there is one. -/
def result? (registry : Registry) (state : State) (tokens : List Token) : Option Template :=
  (readFrom registry [] state tokens).1.toOption.map Prod.fst

/-- After a step the result is that of the state it leads to. -/
theorem result?_cons {α : Type} {state : State} {token : Token} {reached : Except SyntaxError α}
    {next : α → State}
    (stepped : step registry [] state token = reached.map fun value => .reading (next value))
    (tokens : List Token) :
    result? registry state (token :: tokens) =
      reached.toOption.bind fun value => result? registry (next value) tokens := by
  cases reached with
  | error cause =>
    have failed : step registry [] state token = .error cause := stepped
    simp only [result?, readFrom, failed]
    rfl
  | ok value =>
    have moved : step registry [] state token = .ok (.reading (next value)) := stepped
    simp only [result?, readFrom_of_step tokens moved]
    rfl

/-- There is no template where the tokens end inside of a block. -/
theorem result?_within_nil (state : State) (block : Block) :
    result? registry (state.within block) [] = none := by
  obtain ⟨cause, unfinished⟩ := state.finish_within block
  simp only [result?, readFrom, unfinished]
  rfl

/-- Tokens that do not close a block lead to a state inside of it, or there is no template.
The induction is on the tokens; each one may lead to another part of the block. -/
theorem result?_within (state : State) (part : Part) (before : List Node) (tokens : List Token) :
    ∃ reached : Option (State × Part), (∀ inside ∈ reached, inside.2.ending = part.ending) ∧
      ∀ (tag : String) (rest : List Token),
        (∀ token ∈ tokens, isTag (part.ending tag) token = false) →
        result? registry (state.within ⟨tag, part, before⟩) (tokens ++ rest) =
          reached.bind fun inside =>
            result? registry (inside.1.within ⟨tag, inside.2, before⟩) rest := by
  induction tokens generalizing state part with
  | nil =>
    refine ⟨some (state, part), fun inside same => ?_, fun _ _ _ => rfl⟩
    cases same
    rfl
  | cons token tokens inductionHypothesis =>
    obtain ⟨first, leads⟩ := exists_leads registry state part before token
    cases first with
    | error cause =>
      refine ⟨none, fun _ impossible => absurd impossible (by simp), fun tag rest unclosed => ?_⟩
      exact result?_cons (leads.stepped tag (unclosed token List.mem_cons_self)) (tokens ++ rest)
    | ok inside =>
      obtain ⟨reached, kept, reads⟩ := inductionHypothesis inside.1 inside.2
      have same : inside.2.ending = part.ending := leads.kept inside rfl
      refine ⟨reached, fun last found => (kept last found).trans same,
        fun tag rest unclosed => ?_⟩
      refine (result?_cons (leads.stepped tag (unclosed token List.mem_cons_self))
        (tokens ++ rest)).trans (reads tag rest fun later member => ?_)
      rw [same]
      exact unclosed later (List.mem_cons_of_mem token member)

/-- The tag that closes a block ends the template exactly if it comes when nothing else is
open inside of the block, and the nodes do not depend on the name of the block then. -/
theorem result?_ending (registry : Registry) (state : State) (part : Part)
    (before : List Node) :
    ∃ template : Option Template, ∀ (tag : String) (last : List Char),
      tagName last = part.ending tag →
      result? registry (state.within ⟨tag, part, before⟩) [.tag last] = template := by
  rcases state.deep_or_shallow with deep | ⟨nodes, rfl⟩
  · refine ⟨none, fun tag last closes => ?_⟩
    obtain ⟨reached, stepped⟩ := step_within_of_deep registry deep (.tag last)
    rw [result?_cons (stepped _)]
    cases reached with
    | error cause => rfl
    | ok next => exact result?_within_nil next _
  · obtain ⟨closed, closes⟩ := part.turn?_of_ending nodes.reverse
    refine ⟨some (closed.reverse ++ before).reverse, fun tag last names => ?_⟩
    have stepped := @step_turn registry [] nodes ⟨tag, part, before⟩ [] last _
      (closes tag ⟨tagName last, tagMarkup last⟩ names)
    simp only [result?, State.within, List.nil_append, readFrom, stepped]
    rfl

/-! ### Whole blocks -/

/-- The template that tokens are read as, if they are one. -/
def template? (registry : Registry) (tokens : List Token) : Option Template :=
  result? registry .start tokens

/-- A block from the tag that opens it to the one that is to close it. -/
def blockTokens (opening : List Char) (body : List Token) (last : List Char) : List Token :=
  .tag opening :: (body ++ [.tag last])

end Template

/-- The name of the tag that closes a block which was opened under a name. Loops and comments
have one such tag, whatever they are opened as. -/
def Tag.closedAs (tag : Tag) (name : String) : String :=
  if tag = .loop ∨ tag = .comment then Template.closing tag.name else Template.closing name

namespace Template

/-- What a tag whose markup is read opens at the start of a template, apart from its name. -/
structure OpensPart (tag : Tag) (markup : List Char) (opened : Except SyntaxError Part) : Prop where
  opens : ∀ name, State.start.openTag tag name markup =
    opened.map fun part => State.start.within ⟨name, part, []⟩
  ends : ∀ part, opened = .ok part → ∀ name, part.ending name = tag.closedAs name

/-- It is a part with what is read of the markup. -/
theorem opensPart_of_read {tag : Tag} {markup : List Char} {α : Type}
    {read : Except SyntaxError α} {part : α → Part}
    (opens : ∀ name, State.start.openTag tag name markup =
      read.map fun value => State.start.openBlock name (part value))
    (ends : ∀ value name, (part value).ending name = tag.closedAs name) :
    OpensPart tag markup (read.map part) where
  opens name := by
    rw [opens]
    cases read <;> rfl
  ends opened same name := by
    cases read with
    | error cause => cases same
    | ok value =>
      cases same
      exact ends value name

/-- All blocks but comments are opened in this way. -/
theorem exists_opensPart {tag : Tag} (block : tag ≠ .assign ∧ tag ≠ .call)
    (skips : tag ≠ .comment) (markup : List Char) : ∃ opened, OpensPart tag markup opened := by
  cases tag with
  | assign => exact absurd rfl block.1
  | call => exact absurd rfl block.2
  | comment => exact absurd rfl skips
  | loop =>
    have ending : "endfor" = closing Tag.loop.name := by decide
    exact ⟨_, opensPart_of_read (fun _ => rfl) fun _ _ => ending.trans (if_pos (.inl rfl)).symm⟩
  | ifHolds => exact ⟨_, opensPart_of_read (fun _ => rfl) fun _ _ => rfl⟩
  | ifFails => exact ⟨_, opensPart_of_read (fun _ => rfl) fun _ _ => rfl⟩
  | capture => exact ⟨_, opensPart_of_read (fun _ => rfl) fun _ _ => rfl⟩

/-- A tag at the start of a template opens what it is registered as. -/
theorem step_start {registry : Registry} {opening : List Char} {tag : Tag}
    (registered : Dict.get? (tagName opening) registry = some tag) :
    step registry [] .start (.tag opening) =
      (State.start.openTag tag (tagName opening) (tagMarkup opening)).map .reading := by
  rw [step_free rfl List.not_mem_nil, registered]

/-- A comment that is not closed is no template. -/
theorem result?_uncommented (registry : Registry) (nodes : List Node) (blocks : List Block)
    (depth : Nat) {tokens : List Token}
    (unclosed : ∀ token ∈ tokens, isTag "endcomment" token = false) :
    result? registry ⟨nodes, blocks, some depth⟩ tokens = none := by
  induction tokens generalizing depth with
  | nil => rfl
  | cons token tokens inductionHypothesis =>
    have covered : countTags "endcomment" [token] ≤ depth + countTags "comment" [token] := by
      simp [countTags, unclosed token List.mem_cons_self]
    rw [result?, readFrom_inside nodes blocks covered]
    exact inductionHypothesis _ fun later member => unclosed later (List.mem_cons_of_mem _ member)

/-- A comment that is closed once is a template if no other one is opened in it. -/
theorem result?_commented (registry : Registry) {body : List Token} {last : List Char}
    (unclosed : ∀ token ∈ body, isTag "endcomment" token = false)
    (closes : tagName last = "endcomment") :
    result? registry ⟨[], [], some 0⟩ (body ++ [.tag last]) =
      if countTags "comment" body = 0 then some [] else none := by
  have none_closes (front : List Token) (isFront : front <+: body) :
      countTags "endcomment" front = 0 :=
    List.countP_eq_zero.mpr fun token member =>
      Bool.not_eq_true _ ▸ unclosed token (isFront.subset member)
  have covered (front : List Token) (isFront : front <+: body) :
      countTags "endcomment" front ≤ 0 + countTags "comment" front := by
    simp only [none_closes front isFront, Nat.zero_le]
  have settled : countTags "comment" body + countTags "endcomment" body =
      0 + countTags "comment" body := by
    simp only [none_closes body List.prefix_rfl, Nat.add_zero, Nat.zero_add]
  rw [result?, readFrom_covered [] [] covered settled, readFrom_commentTag, State.commentTag,
    if_neg (by rw [closes]; decide), if_pos closes]
  split <;> rfl

section

variable {registry : Registry} {tag : Tag} {opening own last ownLast : List Char}
  {body : List Token}

/-- A block is read alike under two names if it is closed by the tag for each of them. -/
theorem template?_alias (block : tag ≠ .assign ∧ tag ≠ .call)
    (registered : Dict.get? (tagName opening) registry = some tag)
    (ownRegistered : Dict.get? (tagName own) registry = some tag)
    (markup : tagMarkup opening = tagMarkup own)
    (free : ∀ token ∈ body, isTag (tag.closedAs (tagName opening)) token = false)
    (ownFree : ∀ token ∈ body, isTag (tag.closedAs (tagName own)) token = false)
    (closes : tagName last = tag.closedAs (tagName opening))
    (ownCloses : tagName ownLast = tag.closedAs (tagName own)) :
    template? registry (blockTokens opening body last) =
      template? registry (blockTokens own body ownLast) := by
  have starts := step_start registered
  have ownStarts := step_start ownRegistered
  by_cases comment : tag = .comment
  · -- A comment has no parts that its name could be kept with: its tags are only counted.
    subst comment
    rw [template?, template?, blockTokens, blockTokens, result?_cons starts,
      result?_cons ownStarts]
    exact (result?_commented registry free closes).trans
      (result?_commented registry ownFree ownCloses).symm
  · obtain ⟨opened, opens, ends⟩ := exists_opensPart block comment (tagMarkup own)
    rw [markup, opens] at starts
    rw [opens] at ownStarts
    rw [template?, template?, blockTokens, blockTokens, result?_cons starts,
      result?_cons ownStarts]
    cases opened with
    | error cause => rfl
    | ok part =>
      obtain ⟨reached, kept, reads⟩ := @result?_within registry .start part [] body
      have ends (name : String) : part.ending name = tag.closedAs name := ends part rfl name
      refine (reads (tagName opening) [.tag last] ?_).trans
        (.trans ?_ (reads (tagName own) [.tag ownLast] ?_).symm)
      · rwa [ends]
      · cases reached with
        | none => rfl
        | some inside =>
          obtain ⟨template, closed⟩ := result?_ending registry inside.1 inside.2 []
          have same : inside.2.ending = part.ending := kept inside rfl
          exact (closed _ last (by rw [same, ends, closes])).trans
            (closed _ ownLast (by rw [same, ends, ownCloses])).symm
      · rwa [ends]

/-- A block that is not closed by its tag is no template. -/
theorem template?_unclosed (block : tag ≠ .assign ∧ tag ≠ .call)
    (registered : Dict.get? (tagName opening) registry = some tag)
    (free : ∀ token ∈ body, isTag (tag.closedAs (tagName opening)) token = false)
    (unclosed : tagName last ≠ tag.closedAs (tagName opening)) :
    template? registry (blockTokens opening body last) = none := by
  have starts := step_start registered
  have free (token : Token) (member : token ∈ body ++ [.tag last]) :
      isTag (tag.closedAs (tagName opening)) token = false := by
    rcases List.mem_append.mp member with inside | atEnd
    · exact free token inside
    · rw [List.mem_singleton.mp atEnd]
      exact decide_eq_false unclosed
  by_cases comment : tag = .comment
  · subst comment
    rw [template?, blockTokens, result?_cons starts]
    exact result?_uncommented registry [] [] 0 free
  · obtain ⟨opened, opens, ends⟩ := exists_opensPart block comment (tagMarkup opening)
    rw [opens] at starts
    rw [template?, blockTokens, result?_cons starts]
    cases opened with
    | error cause => rfl
    | ok part =>
      obtain ⟨reached, -, reads⟩ :=
        @result?_within registry .start part [] (body ++ [.tag last])
      have read := reads (tagName opening) [] (by rwa [ends part rfl])
      rw [List.append_nil] at read
      refine read.trans ?_
      cases reached with
      | none => rfl
      | some inside => exact result?_within_nil inside.1 _

/-- The tags that close blocks differ for names that differ. -/
theorem closing_injective : Function.Injective closing := by
  intro name other same
  have letters := congrArg String.toList same
  simp only [closing, String.toList_append] at letters
  exact String.toList_inj.mp (List.append_cancel_left letters)

/-- Every tag is registered under its own name. -/
theorem get?_name_standard (tag : Tag) : Dict.get? tag.name Registry.standard = some tag := by
  cases tag <;> decide +kernel

/-- A block under a new name, with the standard names beside it. Branches and captures
are closed by the tag for the new name and are read like those under their own name: both
fail, or both are one template, so every engine renders them alike from every run. Loops and
comments are read like that only if the tag for their own name closes them, and the tag for
the new name never does. -/
theorem block_under_new_name {name : String} (block : tag ≠ .assign ∧ tag ≠ .call)
    (unknown : Dict.get? name Registry.standard = none)
    (opens : tagName opening = name) (ownOpens : tagName own = tag.name)
    (markup : tagMarkup opening = tagMarkup own)
    (free : ∀ token ∈ body, isTag (closing name) token = false ∧
      isTag (closing tag.name) token = false)
    (closes : tagName last = closing name) (ownCloses : tagName ownLast = closing tag.name) :
    let template := template? (Registry.standard.registerAs name tag)
    (tag ≠ .loop ∧ tag ≠ .comment →
      template (blockTokens opening body last) = template (blockTokens own body ownLast)) ∧
    (tag = .loop ∨ tag = .comment →
      template (blockTokens opening body ownLast) = template (blockTokens own body ownLast) ∧
        template (blockTokens opening body last) = none) := by
  intro template
  have different : name ≠ tag.name := by
    rintro rfl
    exact absurd (unknown.symm.trans (get?_name_standard tag)) (by simp)
  have registered : Dict.get? (tagName opening) (Registry.standard.registerAs name tag) =
      some tag := opens ▸ Dict.get?_insert_self _ tag _
  have ownRegistered : Dict.get? (tagName own) (Registry.standard.registerAs name tag) =
      some tag := by
    rw [ownOpens, Registry.registerAs, Dict.get?_insert_of_ne _ _ _ _ different,
      get?_name_standard]
  have ownEnd : tag.closedAs (tagName own) = closing tag.name := by
    rw [ownOpens, Tag.closedAs, ite_self]
  have ownFree (token : Token) (member : token ∈ body) :
      isTag (tag.closedAs (tagName own)) token = false := ownEnd ▸ (free token member).2
  constructor
  · intro named
    have newEnd : tag.closedAs (tagName opening) = closing name := by
      rw [opens, Tag.closedAs, if_neg (not_or.mpr named)]
    exact template?_alias block registered ownRegistered markup
      (newEnd ▸ fun token member => (free token member).1) ownFree (closes.trans newEnd.symm)
      (ownCloses.trans ownEnd.symm)
  · intro unnamed
    have newEnd : tag.closedAs (tagName opening) = closing tag.name := by
      rw [Tag.closedAs, if_pos unnamed]
    have newFree (token : Token) (member : token ∈ body) :
        isTag (tag.closedAs (tagName opening)) token = false := newEnd ▸ (free token member).2
    refine ⟨template?_alias block registered ownRegistered markup newFree ownFree
      (ownCloses.trans newEnd.symm) (ownCloses.trans ownEnd.symm),
      template?_unclosed block registered newFree fun same => different ?_⟩
    exact closing_injective (closes.symm.trans (same.trans newEnd))

end

/-- A loop under another name is closed as a loop, and a branch under another name as that. -/
theorem each_and_when_closed :
    let each := template? (Registry.standard.registerAs "each" .loop)
    let when := template? (Registry.standard.registerAs "when" .ifHolds)
    let inside : List Token := [.tag "else".toList, .text "none".toList]
    each (blockTokens "each x in xs".toList inside "endfor".toList) =
        some [.loop ⟨"x", .var "xs", false⟩ [] [.text "none"]] ∧
      each (blockTokens "each x in xs".toList inside "endeach".toList) = none ∧
      when (blockTokens "when xs".toList inside "endwhen".toList) =
        when (blockTokens "if xs".toList inside "endif".toList) := by
  intro each when inside
  have free (name : String) (opens : name ∈ ["endeach", "endfor", "endwhen", "endif"]) :
      ∀ token ∈ inside, isTag name token = false := by
    revert name
    decide
  obtain ⟨closed, unclosed⟩ := (@block_under_new_name .loop "each x in xs".toList
    "for x in xs".toList "endeach".toList "endfor".toList inside "each" (by decide)
    (by decide +kernel) (by decide) (by decide) (by decide)
    (fun token member => ⟨free _ (by decide) token member, free _ (by decide) token member⟩)
    (by decide) (by decide)).2 (.inl rfl)
  obtain ⟨alike, -⟩ := @block_under_new_name .ifHolds "when xs".toList "if xs".toList
    "endwhen".toList "endif".toList inside "when" (by decide) (by decide +kernel) (by decide)
    (by decide) (by decide)
    (fun token member => ⟨free _ (by decide) token member, free _ (by decide) token member⟩)
    (by decide) (by decide)
  refine ⟨closed.trans ?_, unclosed, alike (by decide)⟩
  simp only [inside, blockTokens]
  cbv

/-- So a new name does not behave like a tag of its own: the same loop, closed under the name
that it is opened with, is read under its own name only. -/
theorem each_not_closed_as_each :
    let template := template? (Registry.standard.registerAs "each" .loop)
    template (blockTokens "for x in xs".toList [] "endfor".toList) =
        some [.loop ⟨"x", .var "xs", false⟩ [] []] ∧
      template (blockTokens "each x in xs".toList [] "endeach".toList) = none := by
  intro template
  constructor <;>
  · simp only [template, blockTokens]
    cbv

end Template

end Stencil
