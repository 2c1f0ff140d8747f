import Stencil.Proofs.Grammar

/-!
# Reading what the grammar derives

The reader keeps a stack of open blocks and takes one token at a time. A phrase of the
grammar takes it from one state to another, whatever tokens follow: those of a body and
of a statement add the nodes that they spell to the innermost body, and those of an arm
close its block.

So the reader never does less than the grammar. Where a body ends is decided by the
names that the innermost block waits for, which are the ones that the grammar names.
-/

namespace Stencil.Template

variable {registry : Registry} {terminators : List String}

/-- The names of the tags that a part waits for, in a block of a given name. -/
def Part.waits (tag : String) : Part → List String
  | .loopBody _ => ["else", "endfor"]
  | .loopEmpty _ _ => ["endfor"]
  | .armBody _ _ _ => ["elsif", "else", closing tag]
  | .elseBody _ _ => [closing tag]
  | .captureBody _ => [closing tag]

namespace State

/-- The names of the tags that the innermost block waits for, or of the terminators. -/
def waits (terminators : List String) (state : State) : List String :=
  match state.blocks with
  | [] => terminators
  | block :: _ => block.part.waits block.tag

/-- Adds nodes to the innermost body. -/
def addAll (state : State) (nodes : Template) : State :=
  { state with nodes := nodes.reverse ++ state.nodes }

theorem addAll_cons (state : State) (node : Node) (nodes : Template) :
    state.addAll (node :: nodes) = (state.add node).addAll nodes := by
  simp only [addAll, add, List.reverse_cons, List.append_assoc, List.singleton_append]

theorem addAll_append (state : State) (nodes more : Template) :
    state.addAll (nodes ++ more) = (state.addAll nodes).addAll more := by
  simp only [addAll, List.reverse_append, List.append_assoc]

theorem addAll_start (nodes : Template) : start.addAll nodes = ⟨nodes.reverse, [], none⟩ := by
  simp only [addAll, start, List.append_nil]

end State

/-! ### Steps -/

/-- A part has a use for exactly the tags that it waits for. -/
theorem Part.turn?_eq_none_iff {part : Part} {tag : String} {ending : BlockEnd}
    {body : Template} : part.turn? tag body ending = none ↔ ending.name ∉ part.waits tag := by
  cases part <;> grind [Part.turn?, Part.waits]

/-- A tag that nothing waits for is a tag of the registry. -/
theorem step_free {state : State} {inner : List Char} (outside : state.comment = none)
    (free : tagName inner ∉ state.waits terminators) :
    step registry terminators state (.tag inner) =
      match Dict.get? (tagName inner) registry with
      | some tag => (state.openTag tag (tagName inner) (tagMarkup inner)).map .reading
      | none => .error (.unknownTag (tagName inner) (Dict.keys registry)) := by
  obtain ⟨nodes, blocks, comment⟩ := state
  cases outside
  cases blocks with
  | nil =>
    have unended : String.ofList (Token.tagParts inner).1 ∉ terminators := free
    simp only [step, List.isEmpty_nil, Bool.true_and, List.contains_iff_mem, unended, if_false,
      State.turn?]
    rfl
  | cons block around =>
    have useless : block.part.turn? block.tag nodes.reverse
        ⟨String.ofList (Token.tagParts inner).1, (Token.tagParts inner).2⟩ = none :=
      Part.turn?_eq_none_iff.mpr free
    simp only [step, List.isEmpty_cons, Bool.false_and, Bool.false_eq_true, if_false,
      State.turn?, useless, Option.map_none]
    rfl

/-- A tag that the innermost block waits for goes before a tag of the registry. -/
theorem step_turn {nodes : List Node} {block : Block} {around : List Block} {inner : List Char}
    {turned : Except SyntaxError Turn}
    (turn : block.part.turn? block.tag nodes.reverse ⟨tagName inner, tagMarkup inner⟩ =
      some turned) :
    step registry terminators ⟨nodes, block :: around, none⟩ (.tag inner) =
      turned.map fun
        | .part next => .reading ⟨[], { block with part := next } :: around, none⟩
        | .close closed => .reading ⟨closed.reverse ++ block.before, around, none⟩ := by
  have turn' : block.part.turn? block.tag nodes.reverse
      ⟨String.ofList (Token.tagParts inner).1, (Token.tagParts inner).2⟩ = some turned := turn
  simp only [step, List.isEmpty_cons, Bool.false_and, Bool.false_eq_true, if_false, State.turn?,
    turn', Option.map_some]
  cases turned with
  | error cause => rfl
  | ok next => cases next <;> rfl

/-- Outside of all blocks a terminator ends the template. -/
theorem readFrom_terminator {nodes : List Node} {inner : List Char}
    (ends : tagName inner ∈ terminators) (tokens : List Token) :
    readFrom registry terminators ⟨nodes, [], none⟩ (.tag inner :: tokens) =
      (.ok (nodes.reverse, some ⟨tagName inner, tagMarkup inner⟩), tokens) := by
  have ends' : String.ofList (Token.tagParts inner).1 ∈ terminators := ends
  simp only [readFrom, step, List.isEmpty_nil, Bool.true_and, List.contains_iff_mem, ends',
    if_true]
  rfl

/-- Reading goes on after a token that does not end it. -/
theorem readFrom_of_step {state next : State} {token : Token} (tokens : List Token)
    (stepped : step registry terminators state token = .ok (.reading next)) :
    readFrom registry terminators state (token :: tokens) =
      readFrom registry terminators next tokens := by
  simp only [readFrom, stepped]

/-- Outside of comments a text is a node. -/
theorem readFrom_text {state : State} (outside : state.comment = none) (content : List Char)
    (tokens : List Token) :
    readFrom registry terminators state (.text content :: tokens) =
      readFrom registry terminators (state.add (.text (String.ofList content))) tokens :=
  readFrom_of_step tokens (by simp only [step, outside])

/-- Outside of comments an output is a node. -/
theorem readFrom_output {state : State} {inner : List Char} {e : Expr}
    (outside : state.comment = none) (read : readOutput inner = .ok e) (tokens : List Token) :
    readFrom registry terminators state (.output inner :: tokens) =
      readFrom registry terminators (state.add (.output e)) tokens :=
  readFrom_of_step tokens (by simp only [step, outside, read, Except.map])

/-- A tag of the registry that can be read opens what it stands for. -/
theorem readFrom_open {state next : State} {inner : List Char} {tag : Tag}
    (outside : state.comment = none) (free : tagName inner ∉ state.waits terminators)
    (registered : Dict.get? (tagName inner) registry = some tag)
    (opened : state.openTag tag (tagName inner) (tagMarkup inner) = .ok next)
    (tokens : List Token) :
    readFrom registry terminators state (.tag inner :: tokens) =
      readFrom registry terminators next tokens :=
  readFrom_of_step tokens (by simp only [step_free outside free, registered, opened, Except.map])

/-- A tag that the innermost block waits for is followed by the next part of the block. -/
theorem readFrom_part {nodes : List Node} {block : Block} {around : List Block}
    {inner : List Char} {part : Part}
    (turn : block.part.turn? block.tag nodes.reverse ⟨tagName inner, tagMarkup inner⟩ =
      some (.ok (.part part))) (tokens : List Token) :
    readFrom registry terminators ⟨nodes, block :: around, none⟩ (.tag inner :: tokens) =
      readFrom registry terminators ⟨[], { block with part := part } :: around, none⟩ tokens :=
  readFrom_of_step tokens (by simp only [step_turn turn, Except.map])

/-- The tag that closes the innermost block puts its nodes into the body around it. -/
theorem readFrom_close {nodes : List Node} {block : Block} {around : List Block}
    {inner : List Char} {closed : Template}
    (turn : block.part.turn? block.tag nodes.reverse ⟨tagName inner, tagMarkup inner⟩ =
      some (.ok (.close closed))) (tokens : List Token) :
    readFrom registry terminators ⟨nodes, block :: around, none⟩ (.tag inner :: tokens) =
      readFrom registry terminators ⟨closed.reverse ++ block.before, around, none⟩ tokens :=
  readFrom_of_step tokens (by simp only [step_turn turn, Except.map])

/-! ### What the grammar derives is read -/

/-- Inside of a comment only the tags of comments count. -/
theorem readFrom_commentTag (nodes : List Node) (blocks : List Block) (depth : Nat)
    (inner : List Char) (tokens : List Token) :
    readFrom registry terminators ⟨nodes, blocks, some depth⟩ (.tag inner :: tokens) =
      readFrom registry terminators
        ((⟨nodes, blocks, some depth⟩ : State).commentTag depth (tagName inner)) tokens :=
  readFrom_of_step tokens rfl

/-- What is skipped leaves a comment as deep as it was. -/
theorem Skipped.readFrom_append {inside : List Token} (skipped : Skipped inside)
    (nodes : List Node) (blocks : List Block) (depth : Nat) (tokens : List Token) :
    readFrom registry terminators ⟨nodes, blocks, some depth⟩ (inside ++ tokens) =
      readFrom registry terminators ⟨nodes, blocks, some depth⟩ tokens := by
  induction skipped generalizing depth tokens with
  | nothing => rfl
  | text _ inductionHypothesis =>
    exact (readFrom_of_step _ rfl).trans (inductionHypothesis depth tokens)
  | output _ inductionHypothesis =>
    exact (readFrom_of_step _ rfl).trans (inductionHypothesis depth tokens)
  | tag opens closes _ inductionHypothesis =>
    rw [List.cons_append, readFrom_commentTag, State.commentTag, if_neg opens, if_neg closes]
    exact inductionHypothesis depth tokens
  | comment opens _ closes _ insideHypothesis inductionHypothesis =>
    rw [List.cons_append, List.append_assoc, readFrom_commentTag, State.commentTag, if_pos opens,
      insideHypothesis, List.cons_append, readFrom_commentTag, State.commentTag,
      if_neg (by rw [closes]; decide), if_pos closes]
    exact inductionHypothesis depth tokens

/-- What a phrase does to a reader, whatever tokens follow it. -/
def Phrase.Reads (registry : Registry) (terminators : List String) (tokens : List Token)
    (nodes : Template) : Phrase → Prop
  | .body stops => ∀ (state : State) (rest : List Token), state.comment = none →
      state.waits terminators ⊆ stops →
      readFrom registry terminators state (tokens ++ rest) =
        readFrom registry terminators (state.addAll nodes) rest
  | .statement inner => ∀ (state : State) (rest : List Token), state.comment = none →
      tagName inner ∉ state.waits terminators →
      readFrom registry terminators state (.tag inner :: (tokens ++ rest)) =
        readFrom registry terminators (state.addAll nodes) rest
  | .arm ending condition negateFirst => ∃ arms other, nodes = [.branches arms other negateFirst] ∧
      ∀ (tag : String) (earlier : Arms) (before : List Node) (around : List Block)
      (rest : List Token), ending = closing tag →
      readFrom registry terminators
          ⟨[], ⟨tag, .armBody negateFirst earlier condition, before⟩ :: around, none⟩
          (tokens ++ rest) =
        readFrom registry terminators
          ⟨.branches (earlier ++ arms) other negateFirst :: before, around, none⟩ rest

/-- Every phrase is read as the grammar says. The induction is on the derivation; a body
inside of a block is read in the state in which that block is the innermost one. -/
theorem Derives.reads {phrase : Phrase} {tokens : List Token} {nodes : Template}
    (derived : Derives registry phrase tokens nodes) :
    phrase.Reads registry terminators tokens nodes := by
  induction derived with
  | nothing => exact fun _ _ _ _ => rfl
  | text content _ inductionHypothesis =>
    intro state rest outside waits
    rw [List.cons_append, readFrom_text outside, State.addAll_cons]
    exact inductionHypothesis _ rest outside waits
  | output read _ inductionHypothesis =>
    intro state rest outside waits
    rw [List.cons_append, readFrom_output outside read, State.addAll_cons]
    exact inductionHypothesis _ rest outside waits
  | tag free _ _ statementHypothesis inductionHypothesis =>
    intro state rest outside waits
    rw [List.cons_append, List.append_assoc, State.addAll_append,
      statementHypothesis state _ outside fun waited => free (waits waited)]
    exact inductionHypothesis _ rest outside waits
  | assign registered read =>
    intro state rest outside free
    exact readFrom_open outside free registered (by simp only [State.openTag, read]; rfl) rest
  | call registered read =>
    intro state rest outside free
    exact readFrom_open outside free registered (by simp only [State.openTag, read]; rfl) rest
  | comment registered skipped closes =>
    rintro ⟨before, blocks, _⟩ rest ⟨⟩ free
    rw [readFrom_open rfl free registered rfl, List.append_assoc, skipped.readFrom_append,
      List.singleton_append, readFrom_commentTag, State.commentTag,
      if_neg (by rw [closes]; decide), if_pos closes]
    rfl
  | capture registered read _ closes inductionHypothesis =>
    rintro ⟨before, blocks, _⟩ rest ⟨⟩ free
    rw [readFrom_open rfl free registered (by simp only [State.openTag, read]; rfl),
      List.append_assoc, inductionHypothesis _ _ rfl fun _ => id, List.singleton_append]
    exact readFrom_close (by simp [Part.turn?, closing, closes, State.openBlock]) rest
  | loop registered read _ closes inductionHypothesis =>
    rintro ⟨before, blocks, _⟩ rest ⟨⟩ free
    rw [readFrom_open rfl free registered (by simp only [State.openTag, read]; rfl),
      List.append_assoc, inductionHypothesis _ _ rfl fun _ => id, List.singleton_append]
    exact readFrom_close (by simp [Part.turn?, closes, State.openBlock]) rest
  | loopElse registered read _ divides _ closes bodyHypothesis emptyHypothesis =>
    rintro ⟨before, blocks, _⟩ rest ⟨⟩ free
    rw [readFrom_open rfl free registered (by simp only [State.openTag, read]; rfl),
      List.append_assoc, bodyHypothesis _ _ rfl fun _ => id, List.cons_append, List.append_assoc]
    refine (readFrom_part (by simp [Part.turn?, divides, State.openBlock]; rfl) _).trans ?_
    rw [emptyHypothesis _ _ rfl fun _ => id, List.singleton_append]
    exact readFrom_close (by simp [Part.turn?, closes]) rest
  | ifHolds registered read _ inductionHypothesis =>
    obtain ⟨arms, other, rfl, reads⟩ := inductionHypothesis
    rintro ⟨before, blocks, _⟩ rest ⟨⟩ free
    rw [readFrom_open rfl free registered (by simp only [State.openTag, read]; rfl)]
    exact reads _ [] _ _ rest rfl
  | ifFails registered read _ inductionHypothesis =>
    obtain ⟨arms, other, rfl, reads⟩ := inductionHypothesis
    rintro ⟨before, blocks, _⟩ rest ⟨⟩ free
    rw [readFrom_open rfl free registered (by simp only [State.openTag, read]; rfl)]
    exact reads _ [] _ _ rest rfl
  | lastArm _ closes inductionHypothesis =>
    refine ⟨_, _, rfl, ?_⟩
    rintro tag earlier before around rest rfl
    rw [List.append_assoc, inductionHypothesis _ _ rfl fun _ => id, List.singleton_append]
    refine (readFrom_close (by simp [Part.turn?, closes]; rfl) rest).trans ?_
    rfl
  | armElse _ divides _ closes bodyHypothesis otherHypothesis =>
    refine ⟨_, _, rfl, ?_⟩
    rintro tag earlier before around rest rfl
    rw [List.append_assoc, bodyHypothesis _ _ rfl fun _ => id, List.cons_append, List.append_assoc]
    refine (readFrom_part (by simp [Part.turn?, divides]; rfl) _).trans ?_
    rw [otherHypothesis _ _ rfl fun _ => id, List.singleton_append]
    refine (readFrom_close (by simp [Part.turn?, closes]; rfl) rest).trans ?_
    rfl
  | armElsif _ divides read _ bodyHypothesis armsHypothesis =>
    obtain ⟨_, _, ⟨⟩, reads⟩ := armsHypothesis
    refine ⟨_, _, rfl, ?_⟩
    rintro tag earlier before around rest rfl
    rw [List.append_assoc, bodyHypothesis _ _ rfl fun _ => id, List.cons_append]
    refine (readFrom_part (by simp [Part.turn?, divides, read, Except.map]; rfl) _).trans ?_
    rw [reads tag _ before around rest rfl, List.append_assoc, List.singleton_append]

end Stencil.Template
