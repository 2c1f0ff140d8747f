import Mathlib
import Stencil.Proofs.Parsing
import Stencil.Render

/-!
# Comments can stand anywhere

A reader that comes to a comment leaves it in the state in which it came to it: in a body,
between the parts of a block and inside of another comment. No part of a block waits for
the tag that opens a comment, so only a terminator of that name could keep it from being
one. What stands in the comment is not looked at, but for the tags of comments, of which
no more may be closed than were opened before, and all have to be closed in the end.

The main statement is that a comment between two lists of tokens changes nothing that is
read of them.
-/

namespace Stencil.Template

variable {registry : Registry} {terminators : List String}

/-! ### Balanced tokens -/

/-- Whether a token is a tag with a given name. -/
def isTag (name : String) : Token → Bool
  | .tag inner => tagName inner = name
  | _ => false

/-- The number of tags with a given name. -/
def countTags (name : String) (tokens : List Token) : Nat := tokens.countP (isTag name)

/-- As many comments are closed as are opened, and nowhere more than were opened before.
Anything else may stand in such tokens. -/
structure Balanced (tokens : List Token) : Prop where
  covered : ∀ front, front <+: tokens →
    countTags "endcomment" front ≤ countTags "comment" front
  settled : countTags "endcomment" tokens = countTags "comment" tokens

/-- There are only so many fronts. -/
instance (tokens : List Token) : Decidable (Balanced tokens) :=
  decidable_of_iff ((∀ front ∈ tokens.inits,
      countTags "endcomment" front ≤ countTags "comment" front) ∧
      countTags "endcomment" tokens = countTags "comment" tokens) <| by
    simp only [List.mem_inits]
    exact ⟨fun ⟨covered, settled⟩ => ⟨covered, settled⟩,
      fun ⟨covered, settled⟩ => ⟨covered, settled⟩⟩

theorem countTags_cons (name : String) (token : Token) (tokens : List Token) :
    countTags name (token :: tokens) = countTags name [token] + countTags name tokens := by
  rw [countTags, ← List.singleton_append, List.countP_append]
  rfl

/-- The number of comments that are open after a token inside of a comment, if that many
are open before it. -/
def depthAfter (depth : Nat) (token : Token) : Nat :=
  if isTag "comment" token then depth + 1
  else if isTag "endcomment" token then depth - 1
  else depth

/-- What is open after a token that does not close the comment around it. -/
theorem depthAfter_add {depth : Nat} {token : Token}
    (covered : countTags "endcomment" [token] ≤ depth + countTags "comment" [token]) :
    depthAfter depth token + countTags "endcomment" [token] =
      depth + countTags "comment" [token] := by
  cases token with
  | text content => rfl
  | output inner => rfl
  | tag inner =>
    by_cases opens : tagName inner = "comment"
    · simp [countTags, depthAfter, isTag, opens]
    · by_cases closes : tagName inner = "endcomment"
      · simp only [countTags, depthAfter, isTag, closes, List.countP_singleton] at covered ⊢
        exact Nat.sub_add_cancel covered
      · simp [countTags, depthAfter, isTag, opens, closes]

/-- A token inside of a comment that does not close it only changes the number of comments
that are open inside. -/
theorem readFrom_inside (nodes : List Node) (blocks : List Block) {depth : Nat} {token : Token}
    (covered : countTags "endcomment" [token] ≤ depth + countTags "comment" [token])
    (tokens : List Token) :
    readFrom registry terminators ⟨nodes, blocks, some depth⟩ (token :: tokens) =
      readFrom registry terminators ⟨nodes, blocks, some (depthAfter depth token)⟩ tokens := by
  cases token with
  | text content => exact readFrom_of_step tokens rfl
  | output inner => exact readFrom_of_step tokens rfl
  | tag inner =>
    rw [readFrom_commentTag, State.commentTag]
    by_cases opens : tagName inner = "comment"
    · simp only [depthAfter, isTag, opens, decide_true, if_true]
    · by_cases closes : tagName inner = "endcomment"
      · have deep : depth ≠ 0 := by
          rintro rfl
          simp [countTags, isTag, closes] at covered
        simp [depthAfter, isTag, closes, deep]
      · simp only [depthAfter, isTag, opens, closes, decide_false, Bool.false_eq_true, if_false]

/-- Tokens of which none closes the comment that they stand in leave as many comments open
inside of it as they open and do not close. -/
theorem readFrom_covered (nodes : List Node) (blocks : List Block) {depth left : Nat}
    {tokens : List Token}
    (covered : ∀ front, front <+: tokens →
      countTags "endcomment" front ≤ depth + countTags "comment" front)
    (settled : left + countTags "endcomment" tokens = depth + countTags "comment" tokens)
    (rest : List Token) :
    readFrom registry terminators ⟨nodes, blocks, some depth⟩ (tokens ++ rest) =
      readFrom registry terminators ⟨nodes, blocks, some left⟩ rest := by
  induction tokens generalizing depth with
  | nil =>
    obtain rfl : left = depth := settled
    rfl
  | cons token tokens inductionHypothesis =>
    have first := covered [token] (List.prefix_append [token] tokens)
    have opened := depthAfter_add first
    rw [List.cons_append, readFrom_inside nodes blocks first]
    apply inductionHypothesis
    · intro front inside
      have later := covered (token :: front) (List.cons_prefix_cons.mpr ⟨rfl, inside⟩)
      rw [countTags_cons _ token front, countTags_cons _ token front] at later
      omega
    · rw [countTags_cons _ token tokens, countTags_cons _ token tokens] at settled
      omega

/-! ### A comment leaves the reader where it was -/

/-- A comment: two tags around its inside. -/
def commentTokens (opening : List Char) (inside : List Token) (closing : List Char) :
    List Token :=
  .tag opening :: (inside ++ [.tag closing])

/-- No part of a block waits for a comment. -/
theorem Part.comment_not_mem_waits (part : Part) (tag : String) :
    "comment" ∉ part.waits tag := by
  have unlike : "comment" ≠ closing tag := by
    intro same
    have letters := congrArg String.toList same
    simp [closing] at letters
  cases part <;> simp [Part.waits, unlike]

/-- Only a terminator can keep a comment from being opened. -/
theorem State.comment_not_mem_waits (free : "comment" ∉ terminators) (state : State) :
    "comment" ∉ state.waits terminators := by
  unfold State.waits
  split
  · exact free
  · next block _ _ => exact block.part.comment_not_mem_waits block.tag

section

variable {opening closing : List Char} {inside : List Token}

/-- After a comment the reader goes on from where it was before, inside of another comment
as well as outside. -/
theorem readFrom_comment (registered : Dict.get? "comment" registry = some .comment)
    (free : "comment" ∉ terminators) (opens : tagName opening = "comment")
    (closes : tagName closing = "endcomment") (balanced : Balanced inside) (state : State)
    (rest : List Token) :
    readFrom registry terminators state (commentTokens opening inside closing ++ rest) =
      readFrom registry terminators state rest := by
  obtain ⟨nodes, blocks, comment⟩ := state
  have skipped (depth : Nat) :
      readFrom registry terminators ⟨nodes, blocks, some depth⟩
          (inside ++ (.tag closing :: rest)) =
        readFrom registry terminators
          ⟨nodes, blocks, if depth = 0 then none else some (depth - 1)⟩ rest := by
    have covered (front : List Token) (isFront : front <+: inside) :
        countTags "endcomment" front ≤ depth + countTags "comment" front :=
      Nat.le_add_left_of_le (balanced.covered front isFront)
    rw [readFrom_covered nodes blocks covered (congrArg (depth + ·) balanced.settled),
      readFrom_commentTag, State.commentTag, if_neg (by rw [closes]; decide), if_pos closes]
  rw [commentTokens, List.cons_append, List.append_assoc, List.singleton_append]
  cases comment with
  | none =>
    have unwaited := State.comment_not_mem_waits free ⟨nodes, blocks, none⟩
    rw [readFrom_open rfl (by rwa [opens]) (by rwa [opens]) rfl]
    exact skipped 0
  | some depth =>
    rw [readFrom_commentTag, State.commentTag, if_pos opens]
    exact skipped (depth + 1)

/-! ### Anywhere between other tokens -/

/-- Reading comes to an end within the first tokens, whatever follows them, or comes through
them to a state from which it goes on. -/
theorem readFrom_ends_or_passes (state : State) (tokens : List Token) :
    (∃ used left result, tokens = used ++ left ∧
        ∀ rest, readFrom registry terminators state (used ++ rest) = (result, rest)) ∨
      ∃ next, ∀ rest, readFrom registry terminators state (tokens ++ rest) =
        readFrom registry terminators next rest := by
  induction tokens generalizing state with
  | nil => exact .inr ⟨state, fun _ => rfl⟩
  | cons token tokens inductionHypothesis =>
    cases stepped : step registry terminators state token with
    | error cause =>
      refine .inl ⟨[token], tokens, .error cause, rfl, fun rest => ?_⟩
      simp only [List.singleton_append, readFrom, stepped]
    | ok progress =>
      cases progress with
      | ended template ending =>
        refine .inl ⟨[token], tokens, .ok (template, some ending), rfl, fun rest => ?_⟩
        simp only [List.singleton_append, readFrom, stepped]
      | reading next =>
        rcases inductionHypothesis next with ⟨used, left, result, rfl, ends⟩ | ⟨last, passes⟩
        · refine .inl ⟨token :: used, left, result, rfl, fun rest => ?_⟩
          rw [List.cons_append, readFrom_of_step _ stepped, ends]
        · refine .inr ⟨last, fun rest => ?_⟩
          rw [List.cons_append, readFrom_of_step _ stepped, passes]

/-- The tokens that are left are the last ones. -/
theorem readFrom_suffix (state : State) (tokens : List Token) :
    (readFrom registry terminators state tokens).2 <:+ tokens := by
  induction tokens generalizing state with
  | nil => exact List.suffix_refl []
  | cons token tokens inductionHypothesis =>
    simp only [readFrom]
    split
    · exact List.suffix_cons token tokens
    · exact List.suffix_cons token tokens
    · next next _ => exact (inductionHypothesis next).trans (List.suffix_cons token tokens)

/-- A comment between two lists of tokens changes nothing that is read of them, wherever
the first list ends: in a body, between the parts of a block or in another comment. Either
reading fails with the same error, or it ends at the same tag or with the tokens, and the
two templates do the same from every run. The tokens that are left are the same, too,
unless reading has ended before the comment. -/
theorem comment_anywhere_inert (free : "comment" ∉ terminators)
    (opens : tagName opening = "comment") (closes : tagName closing = "endcomment")
    (balanced : Balanced inside) (before after : List Token) :
    let comment := commentTokens opening inside closing
    let commented := readUntil .standard terminators (before ++ (comment ++ after))
    let plain := readUntil .standard terminators (before ++ after)
    ((∃ cause, commented.1 = .error cause ∧ plain.1 = .error cause) ∨
      ∃ template other ending, commented.1 = .ok (template, ending) ∧
        plain.1 = .ok (other, ending) ∧
        ∀ {σ : Type} (engine : Engine σ) (run : Run σ),
          Template.render engine template run = Template.render engine other run) ∧
    ((∃ used left, before = used ++ left ∧
        readUntil .standard terminators used = (plain.1, []) ∧
        commented.2 = left ++ (comment ++ after) ∧ plain.2 = left ++ after) ∨
      commented.2 = plain.2 ∧ plain.2 <:+ after) := by
  intro comment commented plain
  have registered : Dict.get? "comment" Registry.standard = some .comment := by decide +kernel
  have decided : commented.1 = plain.1 ∧
      ((∃ used left, before = used ++ left ∧
          readUntil .standard terminators used = (plain.1, []) ∧
          commented.2 = left ++ (comment ++ after) ∧ plain.2 = left ++ after) ∨
        commented.2 = plain.2 ∧ plain.2 <:+ after) := by
    rcases readFrom_ends_or_passes .start before with
      ⟨used, left, result, rfl, ends⟩ | ⟨next, passes⟩
    · have endsAt (rest : List Token) :
          readUntil .standard terminators (used ++ left ++ rest) = (result, left ++ rest) := by
        rw [List.append_assoc]
        exact ends (left ++ rest)
      have alone : readUntil .standard terminators used = (result, []) := by
        have whole := ends []
        rwa [List.append_nil] at whole
      simp only [commented, plain, endsAt]
      exact ⟨trivial, .inl ⟨used, left, rfl, alone, rfl, rfl⟩⟩
    · have same : commented = plain := calc
        _ = readFrom .standard terminators next (comment ++ after) := passes _
        _ = readFrom .standard terminators next after :=
          readFrom_comment registered free opens closes balanced next after
        _ = plain := (passes after).symm
      have left : plain.2 <:+ after := by
        have suffix : (readFrom .standard terminators next after).2 <:+ after :=
          readFrom_suffix next after
        rwa [← passes after] at suffix
      exact ⟨congrArg Prod.fst same, .inr ⟨congrArg Prod.snd same, left⟩⟩
  refine ⟨?_, decided.2⟩
  rw [decided.1]
  cases plain.1 with
  | error cause => exact .inl ⟨cause, rfl, rfl⟩
  | ok outcome =>
    obtain ⟨template, ending⟩ := outcome
    exact .inr ⟨template, template, ending, rfl, rfl, fun _ _ => rfl⟩

end

/-- A comment between the parts of a loop, with an unknown tag in it, a tag that would end
the loop and another comment. -/
theorem comment_in_loop_inert :
    let comment := commentTokens "comment why".toList [.tag "endfor".toList,
      .tag "comment".toList, .output "(".toList, .tag "endcomment".toList,
      .tag "bogus".toList] "endcomment".toList
    let before : List Token := [.tag "for i in a".toList, .text "1".toList]
    let after : List Token := [.tag "else".toList, .text "2".toList, .tag "endfor".toList,
      .tag "else".toList, .text "rest".toList]
    let plain := readUntil .standard ["else"] (before ++ after)
    plain = (.ok ([.loop ⟨"i", .var "a", false⟩ [.text "1"] [.text "2"]], some ⟨"else", []⟩),
        [.text "rest".toList]) ∧
      ∃ template, readUntil .standard ["else"] (before ++ (comment ++ after)) =
          (.ok (template, some ⟨"else", []⟩), [.text "rest".toList]) ∧
        ∀ (engine : Engine Unit) (run : Run Unit), Template.render engine template run =
          Template.render engine [.loop ⟨"i", .var "a", false⟩ [.text "1"] [.text "2"]] run := by
  intro comment before after plain
  have read : plain = (.ok ([.loop ⟨"i", .var "a", false⟩ [.text "1"] [.text "2"]],
      some ⟨"else", []⟩), [.text "rest".toList]) := by
    simp only [plain, before, after]
    cbv
  have free : "comment" ∉ ["else"] := by decide
  have opens : tagName "comment why".toList = "comment" := by decide
  have closes : tagName "endcomment".toList = "endcomment" := by decide
  have balanced : Balanced [.tag "endfor".toList, .tag "comment".toList, .output "(".toList,
      .tag "endcomment".toList, .tag "bogus".toList] := by decide
  have rest : plain.2 = [.text "rest".toList] := congrArg Prod.snd read
  refine ⟨read, ?_⟩
  obtain ⟨outcome, left⟩ := comment_anywhere_inert free opens closes balanced before after
  have passed : (readUntil .standard ["else"] (before ++ (comment ++ after))).2 = plain.2 := by
    rcases left with ⟨_, left, -, -, -, early⟩ | ⟨same, -⟩
    · have lengths := congrArg List.length (rest.symm.trans early)
      simp only [after, List.length_append, List.length_cons, List.length_nil] at lengths
      omega
    · exact same
  rcases outcome with ⟨cause, -, failed⟩ | ⟨template, other, ending, done, doneToo, rendered⟩
  · cases (congrArg Prod.fst read).symm.trans failed
  · cases (congrArg Prod.fst read).symm.trans doneToo
    exact ⟨template, Prod.ext done (passed.trans rest), rendered⟩

end Stencil.Template
