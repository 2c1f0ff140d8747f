import Mathlib
import Stencil.Proofs.Dictionaries
import Stencil.Proofs.Parsing

/-!
# What is read is derived by the grammar

A reader that succeeds has read a body of the grammar, up to a tag that its innermost
block waits for or to the end of the tokens. The blocks that were opened on the way are
closed again, since only the innermost one can be closed.

The main statement joins both directions: reading ends at a terminator, or with the
tokens, exactly if the grammar says so, with the same nodes and the same tokens left.
-/

namespace Stencil.Template

variable {registry : Registry} {terminators : List String}

/-- What a function makes of a result comes from a result. -/
theorem exists_of_map_eq_ok {α β : Type} {f : α → β} {result : Except SyntaxError α} {made : β}
    (mapped : result.map f = .ok made) : ∃ value, result = .ok value ∧ f value = made := by
  cases result with
  | error cause => cases mapped
  | ok value => exact ⟨value, rfl, Except.ok.inj mapped⟩

/-- A reader that succeeds goes on after its first token, or ends at it. -/
theorem readFrom_cons_ok {state : State} {token : Token} {tokens left : List Token}
    {outcome : Template × Option BlockEnd}
    (read : readFrom registry terminators state (token :: tokens) = (.ok outcome, left)) :
    (∃ next, step registry terminators state token = .ok (.reading next) ∧
        readFrom registry terminators next tokens = (.ok outcome, left)) ∨
      ∃ template ending, step registry terminators state token = .ok (.ended template ending) ∧
        outcome = (template, some ending) ∧ left = tokens := by
  simp only [readFrom] at read
  split at read
  · cases read
  · next template ending stepped =>
    cases read
    exact .inr ⟨template, ending, stepped, rfl, rfl⟩
  · next next stepped => exact .inl ⟨next, stepped, read⟩

/-- A comment that is read to its end is skipped up to the tag that closes it. The
induction is on the number of tokens: after a comment inside of it, the reader stands in
the outer comment again. -/
theorem exists_skipped {nodes : List Node} {blocks : List Block} {depth : Nat}
    {tokens left : List Token} {outcome : Template × Option BlockEnd}
    (read : readFrom registry terminators ⟨nodes, blocks, some depth⟩ tokens =
      (.ok outcome, left)) :
    ∃ inside ending rest, tokens = inside ++ .tag ending :: rest ∧ Skipped inside ∧
      tagName ending = "endcomment" ∧
      readFrom registry terminators
        ⟨nodes, blocks, if depth = 0 then none else some (depth - 1)⟩ rest =
          (.ok outcome, left) := by
  induction size : tokens.length using Nat.strongRecOn generalizing tokens depth with
  | ind size inductionHypothesis =>
    subst size
    cases tokens with
    | nil => cases read
    | cons token tokens =>
      have later {depth : Nat} (read : readFrom registry terminators ⟨nodes, blocks, some depth⟩
          tokens = (.ok outcome, left)) :=
        inductionHypothesis tokens.length (Nat.lt_succ_self _) read rfl
      cases token with
      | text content =>
        rw [readFrom_of_step tokens rfl] at read
        obtain ⟨inside, ending, rest, rfl, skipped, closes, after⟩ := later read
        exact ⟨_, ending, rest, rfl, skipped.text, closes, after⟩
      | output inner =>
        rw [readFrom_of_step tokens rfl] at read
        obtain ⟨inside, ending, rest, rfl, skipped, closes, after⟩ := later read
        exact ⟨_, ending, rest, rfl, skipped.output, closes, after⟩
      | tag inner =>
        rw [readFrom_commentTag, State.commentTag] at read
        by_cases opens : tagName inner = "comment"
        · rw [if_pos opens] at read
          obtain ⟨inside, ending, rest, rfl, skipped, closes, after⟩ := later read
          have shorter : rest.length < (.tag inner :: (inside ++ .tag ending :: rest)).length := by
            simp only [List.length_cons, List.length_append]
            omega
          obtain ⟨more, last, unread, rfl, moreSkipped, lastCloses, afterLast⟩ :=
            inductionHypothesis rest.length shorter after rfl
          refine ⟨_, last, unread, ?_, .comment opens skipped closes moreSkipped, lastCloses,
            afterLast⟩
          simp only [List.cons_append, List.append_assoc]
        · rw [if_neg opens] at read
          by_cases closes : tagName inner = "endcomment"
          · rw [if_pos closes] at read
            exact ⟨[], inner, tokens, rfl, .nothing, closes, read⟩
          · rw [if_neg closes] at read
            obtain ⟨inside, ending, rest, rfl, skipped, ends, after⟩ := later read
            exact ⟨_, ending, rest, rfl, .tag opens closes skipped, ends, after⟩

/-- Of fewer tokens than a number, a reader that succeeds has read a body that the tags
end that it waits for. Then it stands at one of these tags or at the end. -/
def ReadsBodies (registry : Registry) (terminators : List String) (size : Nat) : Prop :=
  ∀ (state : State) (tokens left : List Token) (outcome : Template × Option BlockEnd),
    tokens.length < size → state.comment = none →
    readFrom registry terminators state tokens = (.ok outcome, left) →
    ∃ body nodes rest, tokens = body ++ rest ∧
      Derives registry (.body (state.waits terminators)) body nodes ∧
      readFrom registry terminators (state.addAll nodes) rest = (.ok outcome, left) ∧
      (rest = [] ∨ ∃ inner more, rest = .tag inner :: more ∧
        tagName inner ∈ state.waits terminators)

section

variable {size : Nat} (bodies : ReadsBodies registry terminators size)
  {left : List Token} {outcome : Template × Option BlockEnd}

include bodies

/-- What is read of a part of a block is a body and a tag that the part waits for. -/
theorem exists_part {tag : String} {part : Part} {before : List Node} {around : List Block}
    {tokens : List Token} (short : tokens.length < size)
    (read : readFrom registry terminators ⟨[], ⟨tag, part, before⟩ :: around, none⟩ tokens =
      (.ok outcome, left)) :
    ∃ body nodes inner rest turn, tokens = body ++ .tag inner :: rest ∧
      Derives registry (.body (part.waits tag)) body nodes ∧
      part.turn? tag nodes ⟨tagName inner, tagMarkup inner⟩ = some (.ok turn) ∧
      readFrom registry terminators
        (match turn with
          | .part next => ⟨[], ⟨tag, next, before⟩ :: around, none⟩
          | .close closed => ⟨closed.reverse ++ before, around, none⟩) rest =
        (.ok outcome, left) := by
  obtain ⟨body, nodes, rest, rfl, derived, after, stops⟩ :=
    bodies _ tokens left outcome short rfl read
  rcases stops with rfl | ⟨inner, more, rfl, waited⟩
  · cases after
  · have useful : part.turn? tag nodes ⟨tagName inner, tagMarkup inner⟩ ≠ none :=
      fun useless => Part.turn?_eq_none_iff.mp useless waited
    obtain ⟨turned, turn⟩ := Option.ne_none_iff_exists'.mp useful
    have stepped : step registry terminators
        ⟨nodes.reverse, ⟨tag, part, before⟩ :: around, none⟩ (.tag inner) = _ :=
      step_turn (by rw [List.reverse_reverse]; exact turn)
    cases turned with
    | error cause =>
      simp only [State.addAll, List.append_nil, readFrom, stepped, Except.map] at after
      cases after
    | ok next =>
      refine ⟨body, nodes, inner, more, next, rfl, derived, turn, ?_⟩
      simp only [State.addAll, List.append_nil, readFrom, stepped, Except.map] at after
      cases next <;> exact after

/-- What follows the condition of an arm is read as the grammar says, up to the tag that
closes the block. The induction is on the number of tokens, from one `elsif` to the
next. -/
theorem exists_arm {tag : String} {negateFirst : Bool} {earlier : Arms} {condition : Condition}
    {before : List Node} {around : List Block} {tokens : List Token}
    (short : tokens.length < size)
    (read : readFrom registry terminators
      ⟨[], ⟨tag, .armBody negateFirst earlier condition, before⟩ :: around, none⟩ tokens =
        (.ok outcome, left)) :
    ∃ own arms other rest, tokens = own ++ rest ∧
      Derives registry (.arm (closing tag) condition negateFirst) own
        [.branches arms other negateFirst] ∧
      readFrom registry terminators
        ⟨.branches (earlier ++ arms) other negateFirst :: before, around, none⟩ rest =
        (.ok outcome, left) := by
  induction length : tokens.length using Nat.strongRecOn generalizing tokens earlier condition with
  | ind length inductionHypothesis =>
    subst length
    obtain ⟨body, nodes, inner, rest, turn, rfl, derived, turned, after⟩ :=
      exists_part bodies short read
    have shorter : rest.length < (body ++ .tag inner :: rest).length := by
      simp only [List.length_append, List.length_cons]
      omega
    simp only [Part.turn?] at turned
    split at turned
    · next divides =>
      cases parsed : Condition.parse (tagMarkup inner) with
      | error cause => simp only [parsed, Except.map, Option.some.injEq, reduceCtorEq] at turned
      | ok next =>
        simp only [parsed, Except.map, Option.some.injEq, Except.ok.injEq] at turned
        subst turned
        obtain ⟨own, arms, other, last, rfl, more, ended⟩ :=
          inductionHypothesis rest.length shorter (Nat.lt_trans shorter short) after rfl
        refine ⟨body ++ .tag inner :: own, _, other, last, ?_,
          .armElsif derived divides parsed more, ?_⟩
        · rw [List.append_assoc, List.cons_append]
        · rwa [List.append_assoc, List.singleton_append] at ended
    · split at turned
      · next divides =>
        cases turned
        obtain ⟨otherBody, other, last, unread, otherTurn, rfl, otherDerived, otherTurned, ended⟩ :=
          exists_part bodies (Nat.lt_trans shorter short) after
        simp only [Part.turn?] at otherTurned
        split at otherTurned
        · next closes =>
          cases otherTurned
          refine ⟨body ++ .tag inner :: (otherBody ++ [.tag last]), _, other, unread, ?_,
            .armElse derived divides otherDerived closes, ended⟩
          simp only [List.append_assoc, List.cons_append, List.nil_append]
        · cases otherTurned
      · split at turned
        · next closes =>
          cases turned
          refine ⟨body ++ [.tag inner], _, [], rest, ?_, .lastArm derived closes, after⟩
          rw [List.append_assoc, List.singleton_append]
        · cases turned

/-- What is read of a loop is a body and the tag that closes it, or two bodies with an
`else` between them. -/
theorem exists_loop {inner : List Char} {head : LoopHead} {before : List Node}
    {around : List Block} {tokens : List Token} (short : tokens.length < size)
    (registered : Dict.get? (tagName inner) registry = some .loop)
    (parsed : readLoopHead (tagMarkup inner) = .ok head)
    (read : readFrom registry terminators
      ⟨[], ⟨tagName inner, .loopBody head, before⟩ :: around, none⟩ tokens = (.ok outcome, left)) :
    ∃ own nodes rest, tokens = own ++ rest ∧ Derives registry (.statement inner) own nodes ∧
      readFrom registry terminators ((⟨before, around, none⟩ : State).addAll nodes) rest =
        (.ok outcome, left) := by
  obtain ⟨body, nodes, dividing, rest, turn, rfl, derived, turned, after⟩ :=
    exists_part bodies short read
  simp only [Part.turn?] at turned
  split at turned
  · next divides =>
    cases turned
    have shorter : rest.length < size := by
      simp only [List.length_append, List.length_cons] at short
      omega
    obtain ⟨emptyBody, empty, last, unread, emptyTurn, rfl, emptyDerived, emptyTurned, ended⟩ :=
      exists_part bodies shorter after
    simp only [Part.turn?] at emptyTurned
    split at emptyTurned
    · next closes =>
      cases emptyTurned
      refine ⟨body ++ .tag dividing :: (emptyBody ++ [.tag last]), _, unread, ?_,
        .loopElse registered parsed derived divides emptyDerived closes, ended⟩
      simp only [List.append_assoc, List.cons_append, List.nil_append]
    · cases emptyTurned
  · split at turned
    · next closes =>
      cases turned
      refine ⟨body ++ [.tag dividing], _, rest, ?_, .loop registered parsed derived closes, after⟩
      rw [List.append_assoc, List.singleton_append]
    · cases turned

/-- What is read of a tag that nothing waits for is a statement of the grammar. -/
theorem exists_statement {state : State} {inner : List Char} {tokens : List Token}
    (short : tokens.length < size) (outside : state.comment = none)
    (free : tagName inner ∉ state.waits terminators)
    (read : readFrom registry terminators state (.tag inner :: tokens) = (.ok outcome, left)) :
    ∃ own nodes rest, tokens = own ++ rest ∧ Derives registry (.statement inner) own nodes ∧
      readFrom registry terminators (state.addAll nodes) rest = (.ok outcome, left) := by
  obtain ⟨before, blocks, _⟩ := state
  cases outside
  have stepped : step registry terminators ⟨before, blocks, none⟩ (.tag inner) = _ :=
    step_free rfl free
  cases registered : Dict.get? (tagName inner) registry with
  | none =>
    simp only [registered] at stepped
    simp only [readFrom, stepped] at read
    cases read
  | some tag =>
    cases opened : State.openTag ⟨before, blocks, none⟩ tag (tagName inner) (tagMarkup inner) with
    | error cause =>
      simp only [registered, opened, Except.map] at stepped
      simp only [readFrom, stepped] at read
      cases read
    | ok next =>
      rw [readFrom_open rfl free registered opened] at read
      cases tag with
      | assign =>
        obtain ⟨⟨name, e⟩, parsed, rfl⟩ := exists_of_map_eq_ok opened
        exact ⟨[], _, tokens, rfl, .assign registered parsed, read⟩
      | call =>
        obtain ⟨request, parsed, rfl⟩ := exists_of_map_eq_ok opened
        exact ⟨[], _, tokens, rfl, .call registered parsed, read⟩
      | comment =>
        cases opened
        obtain ⟨inside, ending, rest, rfl, skipped, closes, after⟩ := exists_skipped read
        refine ⟨inside ++ [.tag ending], [], rest, ?_, .comment registered skipped closes, after⟩
        rw [List.append_assoc, List.singleton_append]
      | capture =>
        obtain ⟨name, parsed, rfl⟩ := exists_of_map_eq_ok opened
        obtain ⟨body, nodes, last, rest, turn, rfl, derived, turned, after⟩ :=
          exists_part bodies short read
        simp only [Part.turn?] at turned
        split at turned
        · next closes =>
          cases turned
          refine ⟨body ++ [.tag last], _, rest, ?_, .capture registered parsed derived closes,
            after⟩
          rw [List.append_assoc, List.singleton_append]
        · cases turned
      | ifHolds =>
        obtain ⟨condition, parsed, rfl⟩ := exists_of_map_eq_ok opened
        obtain ⟨own, arms, other, rest, rfl, derived, after⟩ := exists_arm bodies short read
        exact ⟨own, _, rest, rfl, .ifHolds registered parsed derived, after⟩
      | ifFails =>
        obtain ⟨condition, parsed, rfl⟩ := exists_of_map_eq_ok opened
        obtain ⟨own, arms, other, rest, rfl, derived, after⟩ := exists_arm bodies short read
        exact ⟨own, _, rest, rfl, .ifFails registered parsed derived, after⟩
      | loop =>
        obtain ⟨head, parsed, rfl⟩ := exists_of_map_eq_ok opened
        exact exists_loop bodies short registered parsed read

end

/-- Of any number of tokens, a reader that succeeds has read a body of the grammar. -/
theorem readsBodies (registry : Registry) (terminators : List String) (size : Nat) :
    ReadsBodies registry terminators size := by
  induction size with
  | zero => exact fun _ _ _ _ short => absurd short (Nat.not_lt_zero _)
  | succ size inductionHypothesis =>
    intro state tokens left outcome short outside read
    cases tokens with
    | nil => exact ⟨[], [], [], rfl, .nothing _, read, .inl rfl⟩
    | cons token tokens =>
      have shorter : tokens.length < size := Nat.lt_of_succ_lt_succ short
      cases token with
      | text content =>
        rw [readFrom_text outside] at read
        obtain ⟨body, nodes, rest, rfl, derived, after, stops⟩ :=
          inductionHypothesis (state.add _) tokens left outcome shorter outside read
        refine ⟨_, _, rest, rfl, .text content derived, ?_, stops⟩
        rwa [State.addAll_cons]
      | output inner =>
        rcases readFrom_cons_ok read with ⟨next, stepped, after⟩ | ⟨_, _, stepped, -, -⟩
        · simp only [step, outside] at stepped
          obtain ⟨e, parsed, added⟩ := exists_of_map_eq_ok stepped
          cases added
          obtain ⟨body, nodes, rest, rfl, derived, ended, stops⟩ :=
            inductionHypothesis (state.add _) tokens left outcome shorter outside after
          refine ⟨_, _, rest, rfl, .output parsed derived, ?_, stops⟩
          rwa [State.addAll_cons]
        · simp only [step, outside] at stepped
          obtain ⟨e, -, ended⟩ := exists_of_map_eq_ok stepped
          cases ended
      | tag inner =>
        by_cases waited : tagName inner ∈ state.waits terminators
        · exact ⟨[], [], _, rfl, .nothing _, read, .inr ⟨inner, tokens, rfl, waited⟩⟩
        · obtain ⟨own, nodes, rest, rfl, statement, after⟩ :=
            exists_statement inductionHypothesis shorter outside waited read
          have restShort : rest.length < size := by
            rw [List.length_append] at shorter
            omega
          obtain ⟨body, more, unread, rfl, derived, ended, stops⟩ :=
            inductionHypothesis (state.addAll _) rest left outcome restShort outside after
          refine ⟨.tag inner :: (own ++ body), nodes ++ more, unread, ?_,
            .tag waited statement derived, ?_, stops⟩
          · rw [List.cons_append, List.append_assoc]
          · rwa [State.addAll_append]

/-! ### Whole templates -/

/-- The tokens spell a template up to the first tag outside of its blocks that has one of
the given names. This tag is the ending, and the tokens after it are left. -/
def Ends (registry : Registry) (terminators : List String) (tokens : List Token)
    (template : Template) (ending : BlockEnd) (left : List Token) : Prop :=
  ∃ body inner, tokens = body ++ .tag inner :: left ∧
    Derives registry (.body terminators) body template ∧
    tagName inner ∈ terminators ∧ ending = ⟨tagName inner, tagMarkup inner⟩

/-- A template that is read is a body of the grammar, up to a terminator or to the end. -/
theorem exists_of_readUntil {tokens left : List Token} {outcome : Template × Option BlockEnd}
    (read : readUntil registry terminators tokens = (.ok outcome, left)) :
    (∃ ending, outcome.2 = some ending ∧
        Ends registry terminators tokens outcome.1 ending left) ∨
      outcome.2 = none ∧ Derives registry (.body terminators) tokens outcome.1 ∧ left = [] := by
  obtain ⟨body, nodes, rest, rfl, derived, after, stops⟩ := readsBodies registry terminators _
    .start tokens left outcome (Nat.lt_succ_self _) rfl read
  rw [State.addAll_start] at after
  rcases stops with rfl | ⟨inner, more, rfl, waited⟩
  · simp only [readFrom, State.finish, Except.map, Prod.mk.injEq, Except.ok.injEq,
      List.reverse_reverse] at after
    obtain ⟨rfl, rfl⟩ := after
    exact .inr ⟨rfl, by rwa [List.append_nil], rfl⟩
  · have ends : tagName inner ∈ terminators := waited
    rw [readFrom_terminator ends, List.reverse_reverse] at after
    cases after
    exact .inl ⟨_, rfl, body, inner, rfl, derived, waited, rfl⟩

/-- Reading ends at a terminator exactly after a body of the grammar. -/
theorem readUntil_eq_some_iff {tokens left : List Token} {template : Template}
    {ending : BlockEnd} :
    readUntil registry terminators tokens = (.ok (template, some ending), left) ↔
      Ends registry terminators tokens template ending left := by
  constructor
  · intro read
    rcases exists_of_readUntil read with ⟨_, same, ends⟩ | ⟨none, -⟩
    · cases same
      exact ends
    · cases none
  · rintro ⟨body, inner, rfl, derived, waited, rfl⟩
    rw [readUntil, derived.reads .start _ rfl fun _ => id, State.addAll_start,
      readFrom_terminator waited, List.reverse_reverse]

/-- Reading comes to the end of the tokens exactly if they are a body of the grammar. -/
theorem readUntil_eq_none_iff {tokens left : List Token} {template : Template} :
    readUntil registry terminators tokens = (.ok (template, none), left) ↔
      Derives registry (.body terminators) tokens template ∧ left = [] := by
  constructor
  · intro read
    rcases exists_of_readUntil read with ⟨_, some, -⟩ | ⟨-, derived⟩
    · cases some
    · exact derived
  · rintro ⟨derived, rfl⟩
    have read : readFrom registry terminators .start (tokens ++ []) = _ :=
      derived.reads .start [] rfl fun _ => id
    rw [List.append_nil, State.addAll_start] at read
    simp only [readUntil, read, readFrom, State.finish, Except.map, List.reverse_reverse]

/-- Reading fails exactly if the grammar derives neither a body up to a terminator nor one
that reaches the end. -/
theorem readUntil_eq_error_iff {tokens : List Token} :
    (∃ cause left, readUntil registry terminators tokens = (.error cause, left)) ↔
      (∀ template ending left, ¬Ends registry terminators tokens template ending left) ∧
        ∀ template, ¬Derives registry (.body terminators) tokens template := by
  constructor
  · rintro ⟨cause, unread, failed⟩
    constructor
    · intro template ending left ends
      rw [readUntil_eq_some_iff.mpr ends] at failed
      cases failed
    · intro template derived
      rw [readUntil_eq_none_iff.mpr ⟨derived, rfl⟩] at failed
      cases failed
  · rintro ⟨noEnd, underived⟩
    cases read : readUntil registry terminators tokens with
    | mk result left =>
      cases result with
      | error cause => exact ⟨cause, left, rfl⟩
      | ok outcome =>
        rcases exists_of_readUntil read with ⟨ending, -, ends⟩ | ⟨-, derived, -⟩
        · exact absurd ends (noEnd _ _ _)
        · exact absurd derived (underived _)

/-- A source is read as a template exactly if the grammar derives it from its tokens. -/
theorem parse_eq_ok_iff {source : List Char} {template : Template} :
    parse registry source = .ok template ↔
      ∃ tokens, Token.ofSource source = .ok tokens ∧
        Derives registry (.body []) tokens template := by
  unfold parse
  cases Token.ofSource source with
  | error cause => simp only [reduceCtorEq, false_and, exists_false]
  | ok tokens =>
    simp only [Except.ok.injEq, exists_eq_left']
    constructor
    · intro mapped
      obtain ⟨outcome, read, rfl⟩ := exists_of_map_eq_ok mapped
      have read : readUntil registry [] tokens = (.ok outcome, (readUntil registry [] tokens).2) :=
        Prod.ext read rfl
      rcases exists_of_readUntil read with ⟨_, _, _, _, _, _, ends, _⟩ | ⟨-, derived, -⟩
      · cases ends
      · exact derived
    · intro derived
      rw [readUntil_eq_none_iff.mpr ⟨derived, rfl⟩]
      rfl

/-- The body of a block is read exactly up to a terminator. It is not left open. -/
theorem readBlock_eq_ok_iff {tag : String} {tokens left : List Token}
    {outcome : Template × Option BlockEnd} :
    readBlock registry tag terminators tokens = (.ok outcome, left) ↔
      ∃ ending, outcome.2 = some ending ∧
        Ends registry terminators tokens outcome.1 ending left := by
  constructor
  · intro read
    simp only [readBlock] at read
    split at read
    · cases read
    · next other =>
      rcases exists_of_readUntil read with ends | ⟨none, -⟩
      · exact ends
      · obtain ⟨template, _⟩ := outcome
        cases none
        exact absurd read (other template left)
  · obtain ⟨template, _⟩ := outcome
    rintro ⟨ending, rfl, ends⟩
    simp only [readBlock, readUntil_eq_some_iff.mpr ends]

/-- The tags that a template can use if no other ones are registered. -/
theorem standard_eq : Registry.standard = [("assign", .assign), ("capture", .capture),
    ("comment", .comment), ("for", .loop), ("if", .ifHolds), ("include", .call),
    ("render", .call), ("unless", .ifFails)] := by
  decide +kernel

/-- With the tags that are there from the start, a template is read exactly as the grammar
says: up to the first terminator outside of its blocks, with the tokens after this tag left
as they are; or to the end, if there is no such tag; or not at all. The body of a block
has to end at a terminator. What is read of a block and of what a tag opens depends neither
on the tokens that follow nor on the blocks around. -/
theorem readUntil_accepts_grammar (terminators : List String) (tokens : List Token) :
    (∀ name tag, Dict.get? name Registry.standard = some tag ↔
      (name, tag) ∈ [("assign", .assign), ("capture", .capture), ("comment", .comment),
        ("for", .loop), ("if", .ifHolds), ("include", .call), ("render", .call),
        ("unless", .ifFails)]) ∧
    (∀ template ending left,
      readUntil .standard terminators tokens = (.ok (template, some ending), left) ↔
        Ends .standard terminators tokens template ending left) ∧
    (∀ template left, readUntil .standard terminators tokens = (.ok (template, none), left) ↔
      Derives .standard (.body terminators) tokens template ∧ left = []) ∧
    ((∃ cause left, readUntil .standard terminators tokens = (.error cause, left)) ↔
      (∀ template ending left, ¬Ends .standard terminators tokens template ending left) ∧
        ∀ template, ¬Derives .standard (.body terminators) tokens template) ∧
    (∀ tag outcome left, readBlock .standard tag terminators tokens = (.ok outcome, left) ↔
      ∃ ending, outcome.2 = some ending ∧
        Ends .standard terminators tokens outcome.1 ending left) ∧
    (∀ template ending left, Ends .standard terminators tokens template ending left →
      ∃ block, tokens = block ++ left ∧
        ∀ other, Ends .standard terminators (block ++ other) template ending other) ∧
    ∀ inner own nodes, Derives .standard (.statement inner) own nodes →
      ∀ (state : State) (rest : List Token), state.comment = none →
        tagName inner ∉ state.waits terminators →
        readFrom .standard terminators state (.tag inner :: (own ++ rest)) =
          readFrom .standard terminators (state.addAll nodes) rest := by
  refine ⟨?_, fun _ _ _ => readUntil_eq_some_iff, fun _ _ => readUntil_eq_none_iff,
    readUntil_eq_error_iff, fun _ _ _ => readBlock_eq_ok_iff, ?_,
    fun _ _ _ derived => derived.reads⟩
  · intro name tag
    rw [standard_eq]
    exact Dict.get?_eq_some_iff_mem (by decide)
  · rintro template ending left ⟨body, inner, rfl, derived, waited, same⟩
    refine ⟨body ++ [.tag inner], by rw [List.append_assoc, List.singleton_append], fun other => ?_⟩
    exact ⟨body, inner, by rw [List.append_assoc, List.singleton_append], derived, waited, same⟩

/-- Of three tags named `else`, the first one divides a loop, the second one stands in a
comment, and only the last one ends the template. -/
theorem third_else_ends :
    let block : List Token := [.tag "for i in a".toList, .text "1".toList, .tag "else".toList,
      .tag "comment".toList, .tag "else".toList, .tag "endcomment".toList, .text "2".toList,
      .tag "endfor".toList]
    let template : Template := [.loop ⟨"i", .var "a", false⟩ [.text "1"] [.text "2"]]
    let rest : List Token := [.tag "else".toList, .text "rest".toList]
    readUntil .standard ["else"] (block ++ rest) =
        (.ok (template, some ⟨"else", []⟩), [.text "rest".toList]) ∧
      readUntil .standard [] block = (.ok (template, none), []) ∧
      ∃ used, block ++ rest = used ++ [.text "rest".toList] ∧
        ∀ other, Ends .standard ["else"] (used ++ other) template ⟨"else", []⟩ other := by
  intro block template rest
  have skipped : Skipped [.tag "else".toList] := .tag (by decide) (by decide) .nothing
  have comment : Derives .standard (.statement "comment".toList)
      ([.tag "else".toList] ++ [.tag "endcomment".toList]) [] :=
    .comment (by decide +kernel) skipped (by decide)
  have otherwise : Derives .standard (.body ["endfor"])
      (.tag "comment".toList :: (([.tag "else".toList] ++ [.tag "endcomment".toList]) ++
        [.text "2".toList])) ([] ++ [.text "2"]) :=
    .tag (by decide) comment (.text _ (.nothing _))
  have divides : tagName "else".toList = "else" := by decide
  have closes : tagName "endfor".toList = "endfor" := by decide
  have loop : Derives .standard (.statement "for i in a".toList) _ template :=
    .loopElse (by decide +kernel) (by cbv) (.text "1".toList (.nothing _)) divides otherwise closes
  have derived {stops : List String} (free : tagName "for i in a".toList ∉ stops) :
      Derives .standard (.body stops) block template :=
    .tag free loop (.nothing _)
  have ends : Ends .standard ["else"] (block ++ rest) template ⟨"else", []⟩
      [.text "rest".toList] :=
    ⟨block, "else".toList, rfl, derived (by decide), by decide, by decide⟩
  obtain ⟨-, ended, -, -, -, independent, -⟩ := readUntil_accepts_grammar ["else"] (block ++ rest)
  obtain ⟨-, -, whole, -⟩ := readUntil_accepts_grammar [] block
  exact ⟨(ended _ _ _).mpr ends, (whole _ _).mpr ⟨derived (by decide), rfl⟩,
    independent _ _ _ ends⟩

end Stencil.Template
