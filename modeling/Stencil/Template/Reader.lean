import Stencil.Tag
import Stencil.Template.Markup
import Stencil.Token

/-!
# Reading templates

A template is read token by token. The blocks that are open stand on a stack, each
with the nodes that precede it, so a token only ever concerns the innermost block
or the comment that is open. A tag that the innermost block waits for goes before
a tag of the registry with the same name.

Inside a comment nothing counts but the nesting of comments.
-/

namespace Stencil.Template

/-- The part of a block whose nodes are being read. -/
inductive Part where
  | loopBody (head : LoopHead)
  | loopEmpty (head : LoopHead) (body : Template)
  | armBody (negateFirst : Bool) (earlier : Arms) (condition : Condition)
  | elseBody (negateFirst : Bool) (arms : Arms)
  | captureBody (name : String)
  deriving Repr

/-- An open block: the name its tag was written with, the part being read, and the
nodes before the block, latest first. -/
structure Block where
  tag : String
  part : Part
  before : List Node
  deriving Repr

/-- What has been read. The nodes of the innermost body and the open blocks come
latest first; in a comment the number of comments open inside it is known. -/
structure State where
  nodes : List Node
  blocks : List Block
  comment : Option Nat
  deriving Repr

/-- A tag that ends a body. -/
structure BlockEnd where
  name : String
  markup : List Char
  deriving DecidableEq, Repr

/-- What a tag means to the block it stands in. -/
inductive Turn where
  | part (next : Part)
  | close (nodes : Template)

/-- The name of the tag that closes a block. -/
def closing (tag : String) : String := "end" ++ tag

/-- What a tag means to a part with the given body, if the part waits for that tag.
Loops close under one name, whatever their own name is. -/
def Part.turn? (part : Part) (tag : String) (body : Template) (ending : BlockEnd) :
    Option (Except SyntaxError Turn) :=
  match part with
  | .loopBody head =>
    if ending.name = "else" then some (.ok (.part (.loopEmpty head body)))
    else if ending.name = "endfor" then some (.ok (.close [.loop head body []]))
    else none
  | .loopEmpty head first =>
    if ending.name = "endfor" then some (.ok (.close [.loop head first body])) else none
  | .armBody negateFirst earlier condition =>
    let arms := earlier ++ [(condition, body)]
    if ending.name = "elsif" then
      some ((Condition.parse ending.markup).map fun next =>
        .part (.armBody negateFirst arms next))
    else if ending.name = "else" then some (.ok (.part (.elseBody negateFirst arms)))
    else if ending.name = closing tag then
      some (.ok (.close [.branches arms [] negateFirst]))
    else none
  | .elseBody negateFirst arms =>
    if ending.name = closing tag then some (.ok (.close [.branches arms body negateFirst]))
    else none
  | .captureBody name =>
    if ending.name = closing tag then some (.ok (.close [.capture name body])) else none

namespace State

/-- Nothing has been read. -/
def start : State := ⟨[], [], none⟩

/-- Adds a node to the innermost body. -/
def add (state : State) (node : Node) : State := { state with nodes := node :: state.nodes }

/-- Opens a block. -/
def openBlock (state : State) (tag : String) (part : Part) : State :=
  { state with nodes := [], blocks := ⟨tag, part, state.nodes⟩ :: state.blocks }

/-- Reads a tag of the registry that was written with a name. -/
def openTag (state : State) (tag : Tag) (name : String) (markup : List Char) :
    Except SyntaxError State :=
  match tag with
  | .assign => (readAssign markup).map fun (name, e) => state.add (.assign name e)
  | .call => (Request.parse name markup).map fun request => state.add (.call request)
  | .comment => .ok { state with comment := some 0 }
  | .loop => (readLoopHead markup).map fun head => state.openBlock name (.loopBody head)
  | .ifHolds =>
    (Condition.parse markup).map fun condition =>
      state.openBlock name (.armBody false [] condition)
  | .ifFails =>
    (Condition.parse markup).map fun condition =>
      state.openBlock name (.armBody true [] condition)
  | .capture => (readCaptureName markup).map fun v => state.openBlock name (.captureBody v)

/-- The state after a tag inside a comment with `depth` comments open inside it. -/
def commentTag (state : State) (depth : Nat) (name : String) : State :=
  if name = "comment" then { state with comment := some (depth + 1) }
  else if name = "endcomment" then
    { state with comment := if depth = 0 then none else some (depth - 1) }
  else state

/-- What a tag means to the innermost open block, if the block waits for it. -/
def turn? (state : State) (ending : BlockEnd) : Option (Except SyntaxError State) :=
  match state.blocks with
  | [] => none
  | block :: around =>
    (block.part.turn? block.tag state.nodes.reverse ending).map fun turn =>
      turn.map fun
        | .part next => { state with nodes := [], blocks := { block with part := next } :: around }
        | .close nodes => { state with nodes := nodes.reverse ++ block.before, blocks := around }

end State

/-- The result of a token: reading goes on, or it ends at a tag outside all blocks. -/
inductive Progress where
  | reading (state : State)
  | ended (template : Template) (ending : BlockEnd)

/-- Takes one more token. Outside all blocks a terminator ends the template. -/
def step (registry : Registry) (terminators : List String) (state : State) (token : Token) :
    Except SyntaxError Progress :=
  match token, state.comment with
  | .tag inner, some depth =>
    .ok (.reading (state.commentTag depth (String.ofList (Token.tagParts inner).1)))
  | _, some _ => .ok (.reading state)
  | .text content, none => .ok (.reading (state.add (.text (String.ofList content))))
  | .output inner, none => (readOutput inner).map fun e => .reading (state.add (.output e))
  | .tag inner, none =>
    let ending : BlockEnd := ⟨String.ofList (Token.tagParts inner).1, (Token.tagParts inner).2⟩
    if state.blocks.isEmpty && terminators.contains ending.name then
      .ok (.ended state.nodes.reverse ending)
    else
      match state.turn? ending with
      | some turned => turned.map .reading
      | none =>
        match Dict.get? ending.name registry with
        | some tag => (state.openTag tag ending.name ending.markup).map .reading
        | none => .error (.unknownTag ending.name (Dict.keys registry))

/-- The template that has been read when the tokens end. No block and no comment may
be open. -/
def State.finish (state : State) : Except SyntaxError Template :=
  match state.comment, state.blocks with
  | some _, _ => .error (.neverClosed Tag.comment.name)
  | none, block :: _ => .error (.neverClosed block.tag)
  | none, [] => .ok state.nodes.reverse

/-- The outcome of reading, and the tokens left unread. -/
abbrev Outcome := Except SyntaxError (Template × Option BlockEnd) × List Token

/-- Reads on from a state. An error leaves the tokens after the one that it arose
at. -/
def readFrom (registry : Registry) (terminators : List String) : State → List Token → Outcome
  | state, [] => (state.finish.map (·, none), [])
  | state, token :: rest =>
    match step registry terminators state token with
    | .error cause => (.error cause, rest)
    | .ok (.ended template ending) => (.ok (template, some ending), rest)
    | .ok (.reading next) => readFrom registry terminators next rest

/-- Reads a template up to a terminator that stands outside all blocks, or to the end
of the tokens. -/
def readUntil (registry : Registry) (terminators : List String) (tokens : List Token) : Outcome :=
  readFrom registry terminators .start tokens

/-- Reads the body of a block that one of the terminators must close. -/
def readBlock (registry : Registry) (tag : String) (terminators : List String)
    (tokens : List Token) : Outcome :=
  match readUntil registry terminators tokens with
  | (.ok (_, none), rest) => (.error (.neverClosed tag), rest)
  | outcome => outcome

/-- The template of a source. -/
def parse (registry : Registry) (source : List Char) : Except SyntaxError Template :=
  match Token.ofSource source with
  | .error cause => .error cause
  | .ok tokens => (readUntil registry [] tokens).1.map Prod.fst

end Stencil.Template
