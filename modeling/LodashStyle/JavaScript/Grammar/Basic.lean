import LodashStyle.JavaScript.Node
import LodashStyle.JavaScript.Token

/-! # Recognising phrases

A `Parser` reads a phrase from the current token on and builds its node, or refuses, in
which case an alternative starts again from the same state.  The state holds the current
token, the input after it, the end of the last token that was taken, and the comments that
belong to no node yet: a finished node takes those inside its extent among its children, so
each comment ends up in the innermost node around it.

Phrases contain phrases.  A production does not call itself; it is given the recogniser of
the parts, `Goal → Parser Node`, and `Grammar.Program` closes the circle. -/

namespace LodashStyle.JavaScript

/-- The kinds of phrases that occur inside other phrases. -/
inductive Goal where
  | statement
  | block
  | expression (allowIn : Bool)
  | assignment (allowIn : Bool)
  | operation (allowIn : Bool) (least : Nat)
  | unary
  | leftHandSide
  | construction
  | pattern
  | element
  deriving DecidableEq, Repr

/-- How far recognition has come. -/
structure ParserState where
  /-- The current token, not yet taken. -/
  token : Token
  /-- The input after the current token. -/
  after : Input
  /-- The end of the last token taken. -/
  lastEnd : Position
  /-- The comments that no node has taken, in source order. -/
  comments : List Node
  /-- A bound on the number of steps of any repetition. -/
  limit : Nat

/-- A recogniser that yields an `α` or refuses. -/
abbrev Parser := StateT ParserState Option

/-- The extent between two places. -/
def Extent.between (a b : Position) : Extent := ⟨a.byte, b.byte, a.row, a.column, b.row, b.column⟩

/-- A node from the start of an input to a place. -/
def Node.spanning (kind : Kind) (start : Input) (stop : Position) (children : List Node) : Node :=
  .mk ⟨kind, none, .between start.place stop,
    Text.ofChars (start.rest.take (stop.offset - start.place.offset))⟩ children

/-- Puts a comment among nodes, before the first one that starts after it. -/
def insertComment (comment : Node) : List Node → List Node
  | [] => [comment]
  | n :: rest =>
    if comment.extent.start < n.extent.start then comment :: n :: rest
    else n :: insertComment comment rest

namespace Parser

/-- The current token. -/
def token : Parser Token := return (← get).token

/-- The input from the current token on. -/
def start : Parser Input := return (← get).token.start

/-- Refuses. -/
def refuse {α : Type} : Parser α := fun _ => none

/-- Refuses unless a condition holds. -/
def require (condition : Bool) : Parser Unit := if condition then pure () else refuse

/-- Takes all up to an input, without reading a token there. -/
def stopAt (inp : Input) : Parser Unit :=
  modify fun s => { s with lastEnd := inp.place, after := inp }

/-- Reads the next token after the place reached. -/
def resume : Parser Unit :=
  modify fun s =>
    let (token, after, comments) := nextToken s.limit s.after
    { s with
      token := token
      after := after
      comments := s.comments ++ comments.map fun (start, stop) => .spanning .comment start stop [] }

/-- Takes the current token. -/
def advance : Parser Unit := do
  stopAt (← get).after
  resume

/-- The token after the current one. -/
def following : Parser Token := fun s =>
  some ((nextToken s.limit s.after).1, s)

/-- Whether the current token is a given punctuation. -/
def atPunct (p : Punct) : Parser Bool := return decide ((← token).kind = .punct p)

/-- Whether the current token is a given keyword. -/
def atWord (w : Keyword) : Parser Bool := return decide ((← token).kind = .name (some w))

/-- Takes a given punctuation if it is there. -/
def eat (p : Punct) : Parser Bool := do
  if ← atPunct p then
    advance
    return true
  return false

/-- Takes a given keyword if it is there. -/
def eatWord (w : Keyword) : Parser Bool := do
  if ← atWord w then
    advance
    return true
  return false

/-- Takes a given punctuation. -/
def expect (p : Punct) : Parser Unit := do require (← eat p)

/-- Takes a given keyword. -/
def expectWord (w : Keyword) : Parser Unit := do require (← eatWord w)

/-- A node from `start` to the end of the last token taken, with the comments in between. -/
def finish (kind : Kind) (start : Input) (children : List Node) : Parser Node := fun s =>
  let inside (c : Node) : Bool := start.place.byte ≤ c.extent.start && c.extent.stop ≤ s.lastEnd.byte
  let (own, others) := s.comments.partition inside
  some (.spanning kind start s.lastEnd (own.foldr insertComment children),
    { s with comments := others })

/-- The current token as a node. -/
def leaf (kind : Kind) : Parser Node := do
  let first ← start
  advance
  finish kind first []

/-- Repeats a step until it yields nothing, at most `limit` times. -/
def repeatUpTo {α : Type} (step : α → Parser (Option α)) : Nat → α → Parser α
  | 0, x => pure x
  | limit + 1, x => do
    match ← step x with
    | some y => repeatUpTo step limit y
    | none => pure x

/-- Repeats a step until it yields nothing. -/
def iterate {α : Type} (step : α → Parser (Option α)) (x : α) : Parser α := do
  repeatUpTo step (← get).limit x

/-- Phrases with commas between them up to a closing punctuation, which is taken; a comma may
    stand before it. -/
def listUntil (closing : Punct) (item : Parser Node) : Parser (List Node) := do
  let items ← iterate (fun (items : List Node) => do
    if ← atPunct closing then return none
    let next ← item
    if !(← atPunct closing) then expect .comma
    return some (next :: items)) []
  expect closing
  return items.reverse

/-- Elements with commas between them up to a closing bracket, which is taken.  A comma where
    an element is missing is an elision. -/
def elementsUntil (closing : Punct) (item : Parser Node) : Parser (List Node) := do
  let items ← iterate (fun (items : List Node) => do
    if ← atPunct closing then return none
    if ← atPunct .comma then return some ((← leaf .elision) :: items)
    let next ← item
    if !(← atPunct closing) then expect .comma
    return some (next :: items)) []
  expect closing
  return items.reverse

/-- Whether the current token may be a name: any word without another meaning here. -/
def atName : Parser Bool := do
  match (← token).kind with
  | .name none => return true
  | .name (some w) => return w.isContextual || w == .undefined || w == .await || w == .yield
  | _ => return false

/-- A name as an identifier. -/
def identifier : Parser Node := do
  require (← atName)
  leaf .identifier

/-- Takes the end of a statement: a semicolon, or nothing before a closing brace, after a line
    end or at the end of the input. -/
def endStatement : Parser Unit := do
  if ← eat .semicolon then return
  let t ← token
  require (t.kind == .punct .closeBrace || t.kind == .endOfInput || t.afterLineEnd)

end Parser

end LodashStyle.JavaScript
