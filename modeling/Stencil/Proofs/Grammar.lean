import Stencil.Template.Reader

/-!
# The grammar of templates

What a list of tokens spells, said without the blocks that a reader keeps open. The
body of a block is spelled by phrases of its own, so the tags that divide or close a
block stand at the same place in the grammar as the tag that opens it.

A body is spelled node by node. It is told which tags end it, and none of its nodes
starts with one of these, so it reaches up to the first of them that belongs to no
block inside of it. Nothing is said of what follows a phrase.

The arms of a block of branches are spelled from any of them on: what follows the
condition of an arm spells the node of that arm and those after it.
-/

namespace Stencil.Template

/-- The name of a tag with a given inner text. -/
def tagName (inner : List Char) : String := String.ofList (Token.tagParts inner).1

/-- The markup of a tag with a given inner text. -/
def tagMarkup (inner : List Char) : List Char := (Token.tagParts inner).2

/-- The inside of a comment: any tokens in which every comment that is opened is closed
again, and no other one. -/
inductive Skipped : List Token → Prop where
  | nothing : Skipped []
  | text {content : List Char} {tokens : List Token} (more : Skipped tokens) :
      Skipped (.text content :: tokens)
  | output {inner : List Char} {tokens : List Token} (more : Skipped tokens) :
      Skipped (.output inner :: tokens)
  | tag {inner : List Char} {tokens : List Token} (opens : tagName inner ≠ "comment")
      (closes : tagName inner ≠ "endcomment") (more : Skipped tokens) :
      Skipped (.tag inner :: tokens)
  | comment {opening closing : List Char} {inside tokens : List Token}
      (opens : tagName opening = "comment") (skipped : Skipped inside)
      (closes : tagName closing = "endcomment") (more : Skipped tokens) :
      Skipped (.tag opening :: (inside ++ .tag closing :: tokens))

/-- The kinds of phrases. -/
inductive Phrase where
  /-- A body that tags of some names end. -/
  | body (stops : List String)
  /-- What belongs to a tag with a given inner text, after this tag. -/
  | statement (inner : List Char)
  /-- What follows the condition of an arm, in a block that a tag closes and whose first
  condition may be negated. -/
  | arm (closing : String) (condition : Condition) (negateFirst : Bool)

/-- The nodes that the tokens of a phrase spell, with the tags of a registry. -/
inductive Derives (registry : Registry) : Phrase → List Token → Template → Prop where
  | nothing (stops : List String) : Derives registry (.body stops) [] []
  | text {stops : List String} (content : List Char) {tokens : List Token} {nodes : Template}
      (more : Derives registry (.body stops) tokens nodes) :
      Derives registry (.body stops) (.text content :: tokens)
        (.text (String.ofList content) :: nodes)
  | output {stops : List String} {inner : List Char} {e : Expr} {tokens : List Token}
      {nodes : Template} (read : readOutput inner = .ok e)
      (more : Derives registry (.body stops) tokens nodes) :
      Derives registry (.body stops) (.output inner :: tokens) (.output e :: nodes)
  | tag {stops : List String} {inner : List Char} {own tokens : List Token}
      {ownNodes nodes : Template} (free : tagName inner ∉ stops)
      (statement : Derives registry (.statement inner) own ownNodes)
      (more : Derives registry (.body stops) tokens nodes) :
      Derives registry (.body stops) (.tag inner :: (own ++ tokens)) (ownNodes ++ nodes)
  | assign {inner : List Char} {name : String} {e : Expr}
      (registered : Dict.get? (tagName inner) registry = some .assign)
      (read : readAssign (tagMarkup inner) = .ok (name, e)) :
      Derives registry (.statement inner) [] [.assign name e]
  | call {inner : List Char} {request : Request}
      (registered : Dict.get? (tagName inner) registry = some .call)
      (read : Request.parse (tagName inner) (tagMarkup inner) = .ok request) :
      Derives registry (.statement inner) [] [.call request]
  | comment {inner closing : List Char} {inside : List Token}
      (registered : Dict.get? (tagName inner) registry = some .comment)
      (skipped : Skipped inside) (closes : tagName closing = "endcomment") :
      Derives registry (.statement inner) (inside ++ [.tag closing]) []
  | capture {inner closing : List Char} {name : String} {tokens : List Token} {body : Template}
      (registered : Dict.get? (tagName inner) registry = some .capture)
      (read : readCaptureName (tagMarkup inner) = .ok name)
      (captured : Derives registry (.body ["end" ++ tagName inner]) tokens body)
      (closes : tagName closing = "end" ++ tagName inner) :
      Derives registry (.statement inner) (tokens ++ [.tag closing]) [.capture name body]
  | loop {inner closing : List Char} {head : LoopHead} {tokens : List Token} {body : Template}
      (registered : Dict.get? (tagName inner) registry = some .loop)
      (read : readLoopHead (tagMarkup inner) = .ok head)
      (looped : Derives registry (.body ["else", "endfor"]) tokens body)
      (closes : tagName closing = "endfor") :
      Derives registry (.statement inner) (tokens ++ [.tag closing]) [.loop head body []]
  | loopElse {inner dividing closing : List Char} {head : LoopHead}
      {tokens emptyTokens : List Token} {body empty : Template}
      (registered : Dict.get? (tagName inner) registry = some .loop)
      (read : readLoopHead (tagMarkup inner) = .ok head)
      (looped : Derives registry (.body ["else", "endfor"]) tokens body)
      (divides : tagName dividing = "else")
      (otherwise : Derives registry (.body ["endfor"]) emptyTokens empty)
      (closes : tagName closing = "endfor") :
      Derives registry (.statement inner)
        (tokens ++ .tag dividing :: (emptyTokens ++ [.tag closing]))
        [.loop head body empty]
  | ifHolds {inner : List Char} {condition : Condition} {tokens : List Token} {nodes : Template}
      (registered : Dict.get? (tagName inner) registry = some .ifHolds)
      (read : Condition.parse (tagMarkup inner) = .ok condition)
      (arms : Derives registry (.arm ("end" ++ tagName inner) condition false) tokens nodes) :
      Derives registry (.statement inner) tokens nodes
  | ifFails {inner : List Char} {condition : Condition} {tokens : List Token} {nodes : Template}
      (registered : Dict.get? (tagName inner) registry = some .ifFails)
      (read : Condition.parse (tagMarkup inner) = .ok condition)
      (arms : Derives registry (.arm ("end" ++ tagName inner) condition true) tokens nodes) :
      Derives registry (.statement inner) tokens nodes
  | lastArm {ending : String} {condition : Condition} {negateFirst : Bool}
      {closing : List Char} {tokens : List Token} {body : Template}
      (held : Derives registry (.body ["elsif", "else", ending]) tokens body)
      (closes : tagName closing = ending) :
      Derives registry (.arm ending condition negateFirst) (tokens ++ [.tag closing])
        [.branches [(condition, body)] [] negateFirst]
  | armElse {ending : String} {condition : Condition} {negateFirst : Bool}
      {dividing closing : List Char} {tokens otherTokens : List Token} {body other : Template}
      (held : Derives registry (.body ["elsif", "else", ending]) tokens body)
      (divides : tagName dividing = "else")
      (otherwise : Derives registry (.body [ending]) otherTokens other)
      (closes : tagName closing = ending) :
      Derives registry (.arm ending condition negateFirst)
        (tokens ++ .tag dividing :: (otherTokens ++ [.tag closing]))
        [.branches [(condition, body)] other negateFirst]
  | armElsif {ending : String} {condition next : Condition} {negateFirst : Bool}
      {dividing : List Char} {tokens moreTokens : List Token} {body other : Template} {arms : Arms}
      (held : Derives registry (.body ["elsif", "else", ending]) tokens body)
      (divides : tagName dividing = "elsif")
      (read : Condition.parse (tagMarkup dividing) = .ok next)
      (more : Derives registry (.arm ending next negateFirst) moreTokens
        [.branches arms other negateFirst]) :
      Derives registry (.arm ending condition negateFirst) (tokens ++ .tag dividing :: moreTokens)
        [.branches ((condition, body) :: arms) other negateFirst]

variable {registry : Registry} {stops : List String}

/-- A body and another one that the same tags end are one body together. -/
theorem Derives.append {tokens moreTokens : List Token} {nodes moreNodes : Template}
    (first : Derives registry (.body stops) tokens nodes)
    (second : Derives registry (.body stops) moreTokens moreNodes) :
    Derives registry (.body stops) (tokens ++ moreTokens) (nodes ++ moreNodes) := by
  generalize phrase : Phrase.body stops = body at first
  induction first with
  | nothing =>
    cases phrase
    exact second
  | text content _ inductionHypothesis => exact .text content (inductionHypothesis phrase)
  | output read _ inductionHypothesis => exact .output read (inductionHypothesis phrase)
  | tag free statement _ _ inductionHypothesis =>
    cases phrase
    rw [List.cons_append, List.append_assoc, List.append_assoc]
    exact .tag free statement (inductionHypothesis rfl)
  | _ => cases phrase

end Stencil.Template
