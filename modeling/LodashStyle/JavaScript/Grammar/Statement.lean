import LodashStyle.JavaScript.Grammar.Expression

/-! # Statements -/

namespace LodashStyle.JavaScript.Parser

/-- Statements up to a closing brace or, in a `switch`, the next case. -/
def statements (go : Goal → Parser Node) : Parser (List Node) := do
  let found ← iterate (fun (found : List Node) => do
    match (← token).kind with
    | .punct .closeBrace | .endOfInput => return none
    | .name (some .case) | .name (some .default) => return none
    | _ => return some ((← go .statement) :: found)) []
  return found.reverse

/-- Statements in braces. -/
def block (go : Goal → Parser Node) : Parser Node := do
  let first ← start
  expect .openBrace
  let body ← statements go
  expect .closeBrace
  finish .block first body

/-- A name or pattern, and its value if there is one. -/
def declarator (go : Goal → Parser Node) (allowIn : Bool) : Parser Node := do
  let first ← start
  let target ← go .pattern
  let value ←
    if ← eat .assign then (do return [(← go (.assignment allowIn)).withRole .value]) else pure []
  finish .declarator first (target.withRole .name :: value)

/-- Declarators with commas between them. -/
def declarators (go : Goal → Parser Node) (allowIn : Bool) : Parser (List Node) := do
  let one ← declarator go allowIn
  let all ← iterate (fun (found : List Node) => do
    if ← eat .comma then return some ((← declarator go allowIn) :: found)
    return none) [one]
  return all.reverse

/-- Whether a declaration of variables starts here: `var`, `const`, or `let` before a name or
    a pattern. -/
def atDeclaration : Parser Bool := do
  match (← token).kind with
  | .name (some .var) | .name (some .const) => return true
  | .name (some .let) =>
    match (← following).kind with
    | .name none => return true
    | .name (some w) => return w.isContextual || w == .await || w == .yield
    | .punct .openBracket | .punct .openBrace => return true
    | _ => return false
  | _ => return false

/-- A declaration of variables. -/
def declaration (go : Goal → Parser Node) : Parser Node := do
  let first ← start
  advance
  let found ← declarators go true
  let node ← finish .declaration first found
  endStatement
  return node

/-- An expression in parentheses, as the head of a statement. -/
def head (go : Goal → Parser Node) : Parser Node := parenthesized go

/-- `if (…) … else …` -/
def ifStatement (go : Goal → Parser Node) : Parser Node := do
  let first ← start
  advance
  let test ← head go
  let yes ← go .statement
  if ← eatWord .else then
    let no ← go .statement
    finish .statement first [test, yes, no]
  else
    finish .statement first [test, yes]

/-- `while (…) …` and `with (…) …` -/
def whileStatement (go : Goal → Parser Node) : Parser Node := do
  let first ← start
  advance
  let test ← head go
  let body ← go .statement
  finish .statement first [test, body]

/-- `do … while (…)` -/
def doStatement (go : Goal → Parser Node) : Parser Node := do
  let first ← start
  advance
  let body ← go .statement
  expectWord .while
  let test ← head go
  let _ ← eat .semicolon
  finish .statement first [body, test]

/-- An optional expression before a punctuation, which is taken. -/
def optionalBefore (go : Goal → Parser Node) (closing : Punct) : Parser (List Node) := do
  if ← eat closing then return []
  let inner ← go (.expression true)
  expect closing
  return [inner]

/-- The second half of the head of a loop over a collection. -/
def ofOrIn (go : Goal → Parser Node) : Parser Node := do
  if ← eatWord .of then
    let right ← go (.assignment true)
    expect .closeParen
    return right
  expectWord .in
  let right ← go (.expression true)
  expect .closeParen
  return right

/-- Whether a loop over a collection goes on here. -/
def atOfOrIn : Parser Bool := do return (← atWord .of) || (← atWord .in)

/-- The tests and steps of a counting loop. -/
def forTail (go : Goal → Parser Node) : Parser (List Node) := do
  let test ← optionalBefore go .semicolon
  let step ← optionalBefore go .closeParen
  return test ++ step

/-- The head of a loop after its opening parenthesis, the closing one included. -/
def forHead (go : Goal → Parser Node) : Parser (List Node) := do
  if ← eat .semicolon then return ← forTail go
  if ← atDeclaration then
    let first ← start
    let overCollection : Parser (List Node) := do
      advance
      let target ← go .pattern
      require (← atOfOrIn)
      return [target.withRole .left, ← ofOrIn go]
    let counting : Parser (List Node) := do
      advance
      let found ← declarators go false
      let node ← finish .declaration first found
      expect .semicolon
      return node :: (← forTail go)
    overCollection <|> counting
  else
    let init ← go (.expression false)
    if ← atOfOrIn then
      return [init.asPattern.withRole .left, ← ofOrIn go]
    expect .semicolon
    return init :: (← forTail go)

/-- `for (…) …` and `for await (…) …` -/
def forStatement (go : Goal → Parser Node) : Parser Node := do
  let first ← start
  advance
  let _ ← eatWord .await
  expect .openParen
  let parts ← forHead go
  let body ← go .statement
  finish .statement first (parts ++ [body])

/-- A statement of a keyword and an optional expression on the same line. -/
def jumpStatement (go : Goal → Parser Node) : Parser Node := do
  let first ← start
  advance
  let t ← token
  let bare :=
    t.afterLineEnd || t.kind == .punct .semicolon || t.kind == .punct .closeBrace ||
      t.kind == .endOfInput
  let value ← if bare then pure [] else (do return [← go (.expression true)])
  let node ← finish .statement first value
  endStatement
  return node

/-- `break` and `continue` with an optional label. -/
def labelJump : Parser Node := do
  let first ← start
  advance
  if (← atName) && !(← token).afterLineEnd then advance
  let node ← finish .statement first []
  endStatement
  return node

/-- One case of a `switch`. -/
def switchCase (go : Goal → Parser Node) : Parser Node := do
  let first ← start
  let test ←
    if ← eatWord .default then pure []
    else (do
      expectWord .case
      return [← go (.expression true)])
  expect .colon
  let body ← statements go
  finish .switchCase first (test ++ body)

/-- `switch (…) { … }` -/
def switchStatement (go : Goal → Parser Node) : Parser Node := do
  let first ← start
  advance
  let value ← head go
  expect .openBrace
  let cases ← iterate (fun (found : List Node) => do
    if ← atPunct .closeBrace then return none
    return some ((← switchCase go) :: found)) []
  expect .closeBrace
  finish .statement first (value :: cases.reverse)

/-- `try … catch (…) … finally …` -/
def tryStatement (go : Goal → Parser Node) : Parser Node := do
  let first ← start
  advance
  let body ← block go
  let handler ←
    if ← eatWord .catch then (do
      let parameter ←
        if ← eat .openParen then (do
          let target ← go .pattern
          expect .closeParen
          return [target])
        else pure []
      return parameter ++ [← block go])
    else pure []
  let finalizer ← if ← eatWord .finally then (do return [← block go]) else pure []
  finish .statement first (body :: handler ++ finalizer)

/-- `name: …` -/
def labelled (go : Goal → Parser Node) : Parser Node := do
  let first ← start
  require (← atName)
  advance
  expect .colon
  let body ← go .statement
  finish .statement first [body]

/-- An expression as a statement. -/
def expressionStatement (go : Goal → Parser Node) : Parser Node := do
  let first ← start
  let inner ← go (.expression true)
  let node ← finish .statement first [inner]
  endStatement
  return node

end LodashStyle.JavaScript.Parser
