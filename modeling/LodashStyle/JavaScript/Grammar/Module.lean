import LodashStyle.JavaScript.Grammar.Statement

/-! # Imports and exports -/

namespace LodashStyle.JavaScript.Parser

/-- A name of a module's export: any word or a string. -/
def exportedName : Parser Node := do
  match (← token).kind with
  | .name _ => leaf .identifier
  | .string => leaf .string
  | _ => refuse

/-- `a`, `a as b` or `'a' as b` -/
def specifier (kind : Kind) : Parser Node := do
  let first ← start
  let name ← exportedName
  let renamed ←
    if ← eatWord .as then (do return [(← exportedName).withRole .localName]) else pure []
  finish kind first (name.withRole .name :: renamed)

/-- `{a, b as c}` -/
def namedImports : Parser Node := do
  let first ← start
  expect .openBrace
  let items ← listUntil .closeBrace (specifier .importSpecifier)
  finish .namedImports first items

/-- `* as a` -/
def namespaceImport : Parser Node := do
  let first ← start
  expect .star
  expectWord .as
  let name ← identifier
  finish .namespaceImport first [name]

/-- What an import binds. -/
def importClause : Parser Node := do
  let first ← start
  if ← atPunct .openBrace then
    return ← finish .importClause first [← namedImports]
  if ← atPunct .star then
    return ← finish .importClause first [← namespaceImport]
  let name ← identifier
  if ← eat .comma then
    let others ← if ← atPunct .star then namespaceImport else namedImports
    finish .importClause first [name, others]
  else
    finish .importClause first [name]

/-- Whether the current token is the given word, which is no keyword. -/
def atPlainWord (word : List Char) : Parser Bool := do
  match (← token).kind with
  | .name none => return (← start).rest.take word.length == word &&
      !((← start).rest.drop word.length).head?.any continuesName
  | _ => return false

/-- The attributes of a module, after `with` or `assert`. -/
def moduleAttributes (go : Goal → Parser Node) : Parser (List Node) := do
  let old ← atPlainWord ['a', 's', 's', 'e', 'r', 't']
  if (← atWord .with) || (old && !(← token).afterLineEnd) then
    advance
    return [← objectLiteral go]
  return []

/-- The name of a module, a string. -/
def moduleName : Parser Node := do
  require ((← token).kind == .string)
  return (← leaf .string).withRole .source

/-- `import … from '…'` and `import '…'` -/
def importStatement (go : Goal → Parser Node) : Parser Node := do
  let first ← start
  expectWord .import
  let clause ←
    if (← token).kind == .string then pure []
    else (do
      let clause ← importClause
      expectWord .from
      return [clause])
  let source ← moduleName
  let attributes ← moduleAttributes go
  let node ← finish .importStatement first (clause ++ source :: attributes)
  endStatement
  return node

/-- A class with its decorators, or a function, as a statement. -/
def definition (go : Goal → Parser Node) (first : Input) (marks : List Node) : Parser Node := do
  if ← atWord .classWord then classFrom go first marks else functionFrom go first

/-- The names of an export, and the module that they come from, if any. -/
def exportNames (go : Goal → Parser Node) : Parser (List Node) := do
  expect .openBrace
  let items ← listUntil .closeBrace (specifier .exportSpecifier)
  if ← eatWord .from then
    let source ← moduleName
    return items ++ source :: (← moduleAttributes go)
  return items

/-- All exports of another module. -/
def exportAll (go : Goal → Parser Node) : Parser (List Node) := do
  expect .star
  let name ← if ← eatWord .as then (do return [← exportedName]) else pure []
  expectWord .from
  let source ← moduleName
  return name ++ source :: (← moduleAttributes go)

/-- `export default …`; a function or a class without a name is an expression. -/
def exportDefault (go : Goal → Parser Node) : Parser Node := do
  let asDefinition : Parser Node := do
    let first ← start
    let marks ← decorators go
    let defined ← definition go first marks
    require (defined.children.any fun n => n.role == some .name)
    return defined
  let asExpression : Parser Node := do
    let value ← go (.assignment true)
    endStatement
    return value
  asDefinition <|> asExpression

/-- An export, of which `first` is the start and `marks` are decorators of a class. -/
def exportStatement (go : Goal → Parser Node) (first : Input) (marks : List Node) : Parser Node := do
  expectWord .export
  if ← eatWord .default then
    return ← finish .exportStatement first (marks ++ [← exportDefault go])
  if ← atPunct .openBrace then
    let node ← finish .exportStatement first (← exportNames go)
    endStatement
    return node
  if ← atPunct .star then
    let node ← finish .exportStatement first (← exportAll go)
    endStatement
    return node
  finish .exportStatement first (marks ++ [← go .statement])

end LodashStyle.JavaScript.Parser
