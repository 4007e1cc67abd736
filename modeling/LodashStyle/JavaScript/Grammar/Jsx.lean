import LodashStyle.JavaScript.Grammar.Expression

/-! # Elements

Markup inside an expression.  Between the tags the source is plain text up to the next `<` or
`{`, so it is read character by character; inside a tag it is read token by token, apart
from names, which may hold hyphens, and attribute strings, which know no escapes.  An
element ends without reading the token after it: what follows may be text again. -/

namespace LodashStyle.JavaScript.Parser

/-- Takes the first character of the current token and reads on from there. -/
def splitToken : Parser Unit := do
  stopAt ((← start).advance 1)
  resume

/-- Whether the current token starts with a given character. -/
def startsWith (c : Char) : Parser Bool := return (← start).rest.head? == some c

/-- Takes a name, hyphens included, and the names joined to it by colons and points. -/
def elementName : Parser Unit := do
  let piece : Parser Unit := do
    let inp ← start
    let n := (inp.rest.takeWhile fun c => continuesName c || c = '-').length
    require (0 < n)
    stopAt (inp.advance n)
    resume
  piece
  iterate (fun (_ : Unit) => do
    if (← eat .colon) || (← eat .dot) then
      piece
      return some ()
    return none) ()

/-- `{e}`, `{...e}` or `{}`, without reading the token after the closing brace. -/
def container (go : Goal → Parser Node) : Parser Node := do
  let first ← start
  expect .openBrace
  let inner ←
    if ← atPunct .closeBrace then pure []
    else if ← atPunct .ellipsis then (do return [← spread go])
    else (do return [← go (.expression true)])
  require (← atPunct .closeBrace)
  stopAt (← get).after
  finish .jsxExpression first inner

/-- An attribute string: all up to the next quote of the same kind. -/
def attributeString : Parser Node := do
  let first ← start
  match first.rest with
  | quote :: rest =>
    let n := (rest.takeWhile (· != quote)).length
    require (n < rest.length)
    stopAt (first.advance (n + 2))
    resume
    finish .string first []
  | [] => refuse

/-- The value of an attribute. -/
def attributeValue (go : Goal → Parser Node) : Parser Node := do
  if (← startsWith '"') || (← startsWith '\'') then
    attributeString
  else if ← atPunct .openBrace then
    let node ← container go
    resume
    return node
  else
    let node ← go .element
    resume
    return node

/-- The values of the attributes of a tag. -/
def attributes (go : Goal → Parser Node) : Parser (List Node) := do
  let found ← iterate (fun (found : List Node) => do
    if ← atPunct .openBrace then
      let node ← container go
      resume
      return some (node :: found)
    match (← token).kind with
    | .name _ =>
      elementName
      if ← eat .assign then return some ((← attributeValue go) :: found)
      return some found
    | _ => return none) []
  return found.reverse

/-- The children of an element up to its closing tag, which is taken without reading the token
    after it. -/
def elementChildren (go : Goal → Parser Node) : Parser (List Node) := do
  let (closed, found) ← iterate (fun (state : Bool × List Node) => do
    if state.1 then return none
    let inp := (← get).after
    let next := inp.advance (inp.rest.takeWhile fun c => c != '<' && c != '\x7b').length
    stopAt next
    resume
    match next.rest with
    | '<' :: more =>
      if (more.dropWhile isWhite).head? == some '/' then
        splitToken
        require (← startsWith '/')
        splitToken
        if !(← startsWith '>') then elementName
        require (← startsWith '>')
        stopAt ((← start).advance 1)
        return some (true, state.2)
      else
        return some (false, (← go .element) :: state.2)
    | '\x7b' :: _ => return some (false, (← container go) :: state.2)
    | _ => refuse) (false, [])
  require closed
  return found.reverse

/-- An element or a fragment, without reading the token after it. -/
def element (go : Goal → Parser Node) : Parser Node := do
  let first ← start
  require (← startsWith '<')
  splitToken
  let isFragment ← startsWith '>'
  if !isFragment then elementName
  let values ← attributes go
  if ← startsWith '/' then
    splitToken
    require (← startsWith '>')
    stopAt ((← start).advance 1)
    finish .jsxElement first values
  else
    require (← startsWith '>')
    stopAt ((← start).advance 1)
    let inner ← elementChildren go
    finish .jsxElement first (values ++ inner)

end LodashStyle.JavaScript.Parser
