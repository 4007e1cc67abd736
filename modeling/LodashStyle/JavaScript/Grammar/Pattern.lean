import LodashStyle.JavaScript.Grammar.Basic

/-! # Binding patterns and property names -/

namespace LodashStyle.JavaScript.Parser

/-- A property name: a word, a private name, a string, a number or an expression in brackets. -/
def propertyName (go : Goal → Parser Node) : Parser Node := do
  match (← token).kind with
  | .name _ => leaf .propertyIdentifier
  | .privateName => leaf .privateIdentifier
  | .string => leaf .string
  | .number => leaf .number
  | .punct .openBracket =>
    let first ← start
    advance
    let name ← go (.assignment true)
    expect .closeBracket
    finish .computedName first [name]
  | _ => refuse

/-- A pattern with an optional default. -/
def patternWithDefault (go : Goal → Parser Node) : Parser Node := do
  let first ← start
  let target ← go .pattern
  if ← eat .assign then
    let value ← go (.assignment true)
    finish .assignmentPattern first [target.withRole .left, value.withRole .right]
  else
    return target

/-- The rest of a list: `...` and a pattern. -/
def restPattern (go : Goal → Parser Node) : Parser Node := do
  let first ← start
  expect .ellipsis
  let target ← go .pattern
  finish .restPattern first [target]

/-- One item of a list of patterns. -/
def patternItem (go : Goal → Parser Node) : Parser Node := do
  if ← atPunct .ellipsis then restPattern go else patternWithDefault go

/-- `[a, , b = 1, ...c]` -/
def arrayPattern (go : Goal → Parser Node) : Parser Node := do
  let first ← start
  expect .openBracket
  let items ← elementsUntil .closeBracket (patternItem go)
  finish .arrayPattern first items

/-- One property of an object pattern. -/
def objectPatternItem (go : Goal → Parser Node) : Parser Node := do
  if ← atPunct .ellipsis then
    return ← restPattern go
  let first ← start
  let shorthand ← atName
  let key ← propertyName go
  if ← eat .colon then
    let target ← patternWithDefault go
    return ← finish .pairPattern first [key.withRole .key, target.withRole .value]
  require shorthand
  let name := key.withKind .shorthandPattern
  if ← eat .assign then
    let value ← go (.assignment true)
    finish .objectAssignmentPattern first [name.withRole .left, value.withRole .right]
  else
    return name

/-- `{a, b: c, d = 1, ...e}` -/
def objectPattern (go : Goal → Parser Node) : Parser Node := do
  let first ← start
  expect .openBrace
  let items ← listUntil .closeBrace (objectPatternItem go)
  finish .objectPattern first items

/-- A name or a pattern of names. -/
def pattern (go : Goal → Parser Node) : Parser Node := do
  match (← token).kind with
  | .punct .openBracket => arrayPattern go
  | .punct .openBrace => objectPattern go
  | _ => identifier

/-- The parameters of a function, parentheses included. -/
def parameters (go : Goal → Parser Node) : Parser Node := do
  let first ← start
  expect .openParen
  let items ← listUntil .closeParen (patternItem go)
  finish .parameters first items

end LodashStyle.JavaScript.Parser

namespace LodashStyle.JavaScript


mutual

/-- The pattern that an array or object literal on the left of an assignment stands for. -/
def Node.asPattern : Node → Node
  | .mk label children =>
    match label.kind with
    | .array => .mk { label with kind := .arrayPattern } (asPatterns children)
    | .object => .mk { label with kind := .objectPattern } (asPatterns children)
    | .pair => .mk { label with kind := .pairPattern } (asPatterns children)
    | .assignment => .mk { label with kind := .assignmentPattern } (asPatterns children)
    | .spread => .mk { label with kind := .restPattern } (asPatterns children)
    | .shorthandProperty => .mk { label with kind := .shorthandPattern } children
    | _ => .mk label children

/-- The patterns that the parts of a literal stand for; keys and defaults stay as they are. -/
def asPatterns : List Node → List Node
  | [] => []
  | n :: rest =>
    (if n.role = some .key || n.role = some .right then n else n.asPattern) :: asPatterns rest

end

end LodashStyle.JavaScript
