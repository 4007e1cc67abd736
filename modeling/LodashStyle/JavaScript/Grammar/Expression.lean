import LodashStyle.JavaScript.Grammar.Pattern

/-! # Expressions -/

namespace LodashStyle.JavaScript.Parser

/-- `( … )` -/
def parenthesized (go : Goal → Parser Node) : Parser Node := do
  let first ← start
  expect .openParen
  let inner ← go (.expression true)
  expect .closeParen
  finish .parenthesized first [inner]

/-- `...e` -/
def spread (go : Goal → Parser Node) : Parser Node := do
  let first ← start
  expect .ellipsis
  let inner ← go (.assignment true)
  finish .spread first [inner]

/-- An expression or a spread, as in arguments and arrays. -/
def spreadable (go : Goal → Parser Node) : Parser Node := do
  if ← atPunct .ellipsis then spread go else go (.assignment true)

/-- The arguments of a call, parentheses included. -/
def argumentList (go : Goal → Parser Node) : Parser Node := do
  let first ← start
  expect .openParen
  let items ← listUntil .closeParen (spreadable go)
  finish .arguments first items

/-- `[a, , ...b]` -/
def arrayLiteral (go : Goal → Parser Node) : Parser Node := do
  let first ← start
  expect .openBracket
  let items ← elementsUntil .closeBracket (spreadable go)
  finish .array first items

/-- The parameters and the body of a method. -/
def methodTail (go : Goal → Parser Node) (first : Input) (before : List Node) : Parser Node := do
  let params ← parameters go
  let body ← go .block
  finish .method first (before ++ [params, body])

/-- Whether a token ends a property name that is written like a modifier. -/
def endsModifier (t : Token) : Bool :=
  match t.kind with
  | .punct p =>
    p == .openParen || p == .comma || p == .colon || p == .closeBrace || p == .assign ||
      p == .semicolon
  | .endOfInput => true
  | _ => false

/-- Takes a word that qualifies the member after it, if there is one. -/
def modifier (words : List Keyword) : Parser Bool := do
  match (← token).kind with
  | .name (some w) =>
    let next ← following
    if words.contains w && !endsModifier next && !(w == .async && next.afterLineEnd) then
      advance
      return true
    return false
  | .punct .star =>
    advance
    return true
  | _ => return false

/-- Takes all words that qualify a member, and tells whether there were any. -/
def modifiers (words : List Keyword) : Parser Bool :=
  iterate (fun (_ : Bool) => do
    if ← modifier words then return some true
    return none) false

/-- One member of an object literal. -/
def objectMember (go : Goal → Parser Node) : Parser Node := do
  if ← atPunct .ellipsis then
    return ← spread go
  let first ← start
  if ← modifiers [.get, .set, .async] then
    let key ← propertyName go
    return ← methodTail go first [key.withRole .name]
  let shorthand ← atName
  let key ← propertyName go
  if ← eat .colon then
    let value ← go (.assignment true)
    return ← finish .pair first [key.withRole .key, value.withRole .value]
  if ← atPunct .openParen then
    return ← methodTail go first [key.withRole .name]
  require shorthand
  if ← eat .assign then
    let value ← go (.assignment true)
    finish .objectAssignmentPattern first
      [(key.withKind .shorthandPattern).withRole .left, value.withRole .right]
  else
    return key.withKind .shorthandProperty

/-- `{a, b: c, d() {}, ...e}` -/
def objectLiteral (go : Goal → Parser Node) : Parser Node := do
  let first ← start
  expect .openBrace
  let items ← listUntil .closeBrace (objectMember go)
  finish .object first items

/-- The number of characters of a regular expression after its opening slash; a slash inside
    a class of characters does not end it. -/
def regexRest (inClass : Bool) : List Char → Option Nat
  | [] => none
  | c :: rest =>
    if endsLine c then none
    else if c = '\\' then
      match rest with
      | d :: more => if endsLine d then none else (regexRest inClass more).map (· + 2)
      | [] => none
    else if c = '/' && !inClass then some ((rest.takeWhile continuesName).length + 1)
    else
      let inClass := if c = '[' then true else if c = ']' then false else inClass
      (regexRest inClass rest).map (· + 1)

/-- A regular expression, read from the slash of the current token on. -/
def regex : Parser Node := do
  let first ← start
  match regexRest false (first.rest.drop 1) with
  | none => refuse
  | some n =>
    stopAt (first.advance (n + 1))
    resume
    finish .regex first []

/-- The number of characters of template text, and whether it ends with a backtick; otherwise
    a substitution follows. -/
def templateText : List Char → Option (Nat × Bool)
  | [] => none
  | '\\' :: _ :: rest => (templateText rest).map fun (n, last) => (n + 2, last)
  | '\x60' :: _ => some (0, true)
  | '$' :: '\x7b' :: _ => some (0, false)
  | _ :: rest => (templateText rest).map fun (n, last) => (n + 1, last)

/-- Reads template text and, if one follows, a substitution. -/
def templateStep (go : Goal → Parser Node) (done : Bool × List Node) :
    Parser (Option (Bool × List Node)) := do
  if done.1 then return none
  let inp := (← get).after
  match templateText inp.rest with
  | none => refuse
  | some (n, true) =>
    stopAt (inp.advance (n + 1))
    return some (true, done.2)
  | some (n, false) =>
    let first := inp.advance n
    stopAt (first.advance 2)
    resume
    let inner ← go (.expression true)
    require (← atPunct .closeBrace)
    stopAt (← get).after
    let part ← finish .templateSubstitution first [inner]
    return some (false, part :: done.2)

/-- A template string, read from the backtick of the current token on. -/
def template (go : Goal → Parser Node) : Parser Node := do
  let first ← start
  let (closed, parts) ← iterate (templateStep go) (false, [])
  require closed
  let node ← finish .templateString first parts.reverse
  resume
  return node

/-- The body of a function that is an expression or a block. -/
def arrowBody (go : Goal → Parser Node) (allowIn : Bool) : Parser Node := do
  if ← atPunct .openBrace then go .block else go (.assignment allowIn)

/-- `x => e`, `(x, y) => e` and the same after `async`. -/
def arrowFunction (go : Goal → Parser Node) (allowIn : Bool) : Parser Node := do
  let first ← start
  if ← atWord .async then
    let next ← following
    if next.kind != .punct .arrow then
      require !next.afterLineEnd
      advance
  let params ← if ← atPunct .openParen then parameters go else identifier
  require (!(← token).afterLineEnd)
  expect .arrow
  let body ← arrowBody go allowIn
  finish .arrowFunction first [params, body]

/-- `function name(…) {…}`, possibly asynchronous or a generator, of which `first` is the
    start. -/
def functionFrom (go : Goal → Parser Node) (first : Input) : Parser Node := do
  let _ ← eatWord .async
  expectWord .function
  let _ ← eat .star
  let name ← if ← atName then (do return [(← identifier).withRole .name]) else pure []
  let params ← parameters go
  let body ← go .block
  finish .function first (name ++ [params, body])

/-- A property after a dot. -/
def memberOf (go : Goal → Parser Node) (first : Input) (object : Node) : Parser Node := do
  match (← token).kind with
  | .name _ | .privateName =>
    let property ← propertyName go
    finish .member first [object.withRole .object, property.withRole .property]
  | _ => refuse

/-- A call with arguments in parentheses. -/
def callOf (go : Goal → Parser Node) (first : Input) (callee : Node) : Parser Node := do
  let args ← argumentList go
  finish .call first [callee.withRole .callee, args.withRole .arguments]

/-- `@name.part(args)` or `@(e)` -/
def decorator (go : Goal → Parser Node) : Parser Node := do
  let first ← start
  expect .at
  let target ← start
  let inner ←
    if ← atPunct .openParen then parenthesized go
    else do
      let path ← iterate (fun (object : Node) => do
        if ← eat .dot then some <$> memberOf go target object else return none) (← identifier)
      if ← atPunct .openParen then callOf go target path else pure path
  finish .decorator first [inner]

/-- All decorators before a class or a member. -/
def decorators (go : Goal → Parser Node) : Parser (List Node) := do
  let found ← iterate (fun (found : List Node) => do
    if ← atPunct .at then return some ((← decorator go) :: found)
    return none) []
  return found.reverse

/-- One member of a class body. -/
def classMember (go : Goal → Parser Node) : Parser Node := do
  let first ← start
  let marks ← decorators go
  if (← atWord .static) && (← following).kind == .punct .openBrace then
    advance
    let body ← go .block
    return ← finish .staticBlock first (marks ++ [body])
  let _ ← modifiers [.static, .get, .set, .async, .accessor]
  let key ← propertyName go
  if ← atPunct .openParen then
    return ← methodTail go first (marks ++ [key.withRole .name])
  let value ← if ← eat .assign then (do return [← go (.assignment true)]) else pure []
  let field ← finish .classField first (marks ++ key.withRole .property :: value)
  endStatement
  return field

/-- The body of a class, braces included. -/
def classBody (go : Goal → Parser Node) : Parser Node := do
  let first ← start
  expect .openBrace
  let members ← iterate (fun (members : List Node) => do
    if ← atPunct .closeBrace then return none
    if ← eat .semicolon then return some members
    return some ((← classMember go) :: members)) []
  expect .closeBrace
  finish .classBody first members.reverse

/-- A class, of which `first` is the start and `marks` are the decorators. -/
def classFrom (go : Goal → Parser Node) (first : Input) (marks : List Node) : Parser Node := do
  expectWord .classWord
  let name ← if ← atName then (do return [(← identifier).withRole .name]) else pure []
  let heritage ← if ← eatWord .extends then (do return [← go .leftHandSide]) else pure []
  let body ← classBody go
  finish .classDefinition first (marks ++ name ++ heritage ++ [body])

/-- A word in the place of an operand. -/
def wordOperand (go : Goal → Parser Node) (word : Option Keyword) : Parser Node := do
  match word with
  | some .this => leaf .thisWord
  | some .super => leaf .superWord
  | some .null => leaf .nullWord
  | some .trueWord => leaf .trueWord
  | some .falseWord => leaf .falseWord
  | some .undefined => leaf .undefinedWord
  | some .function => functionFrom go (← start)
  | some .classWord => classFrom go (← start) []
  | some .async =>
    let next ← following
    if next.kind == .name (some .function) && !next.afterLineEnd then functionFrom go (← start)
    else identifier
  | some .import =>
    let first ← start
    let word ← leaf .importWord
    if ← eat .dot then
      let _ ← propertyName go
      finish .metaProperty first []
    else
      return word
  | _ => identifier

/-- An operand without member accesses and calls. -/
def primary (go : Goal → Parser Node) : Parser Node := do
  match (← token).kind with
  | .number => leaf .number
  | .string => leaf .string
  | .backtick => template go
  | .name word => wordOperand go word
  | .privateName => leaf .privateIdentifier
  | .punct .openParen => parenthesized go
  | .punct .openBracket => arrayLiteral go
  | .punct .openBrace => objectLiteral go
  | .punct .slash | .punct .slashAssign => regex
  | .punct .less =>
    let node ← go .element
    resume
    return node
  | .punct .at =>
    let first ← start
    let marks ← decorators go
    classFrom go first marks
  | _ => refuse

/-- An index in brackets. -/
def subscriptOf (go : Goal → Parser Node) (first : Input) (object : Node) : Parser Node := do
  expect .openBracket
  let index ← go (.expression true)
  expect .closeBracket
  finish .subscript first [object.withRole .object, index]

/-- A template with a tag is a call. -/
def taggedBy (go : Goal → Parser Node) (first : Input) (callee : Node) : Parser Node := do
  let text ← template go
  finish .call first [callee.withRole .callee, text.withRole .arguments]

/-- One access to a member, without a call. -/
def accessStep (go : Goal → Parser Node) (first : Input) (object : Node) : Parser (Option Node) := do
  match (← token).kind with
  | .punct .dot =>
    advance
    some <$> memberOf go first object
  | .punct .openBracket => some <$> subscriptOf go first object
  | _ => return none

/-- One access or call. -/
def callStep (go : Goal → Parser Node) (first : Input) (object : Node) : Parser (Option Node) := do
  match (← token).kind with
  | .punct .optionalDot =>
    advance
    match (← token).kind with
    | .punct .openParen => some <$> callOf go first object
    | .punct .openBracket => some <$> subscriptOf go first object
    | .backtick => some <$> taggedBy go first object
    | _ => some <$> memberOf go first object
  | .punct .openParen => some <$> callOf go first object
  | .backtick => some <$> taggedBy go first object
  | _ => accessStep go first object

/-- One step to the constructor after `new`: an access, or a template that it is the tag of. -/
def constructorStep (go : Goal → Parser Node) (first : Input) (object : Node) :
    Parser (Option Node) := do
  match (← token).kind with
  | .backtick => some <$> taggedBy go first object
  | _ => accessStep go first object

/-- `new F(…)`, `new F` and `new.target` -/
def construction (go : Goal → Parser Node) : Parser Node := do
  let first ← start
  expectWord .new
  if ← eat .dot then
    let _ ← propertyName go
    return ← finish .metaProperty first []
  let target ← start
  let base ← if ← atWord .new then go .construction else primary go
  let callee ← iterate (constructorStep go target) base
  if ← atPunct .openParen then
    let args ← argumentList go
    finish .construction first [callee, args.withRole .arguments]
  else
    finish .construction first [callee]

/-- An operand with its member accesses and calls. -/
def leftHandSide (go : Goal → Parser Node) : Parser Node := do
  let first ← start
  let base ← if ← atWord .new then construction go else primary go
  iterate (callStep go first) base

/-- Whether a token is an operator before its operand, and the kind of the expression. -/
def unaryKind? (t : Token) : Option Kind :=
  match t.kind with
  | .punct .not | .punct .bitNot | .punct .plus | .punct .minus => some .unary
  | .name (some .typeof) | .name (some .void) | .name (some .delete) => some .unary
  | .punct .increment | .punct .decrement => some .update
  | .name (some .await) => some .awaiting
  | _ => none

/-- An operand with the operators before and after it. -/
def unary (go : Goal → Parser Node) : Parser Node := do
  let first ← start
  match unaryKind? (← token) with
  | some kind =>
    advance
    let operand ← go .unary
    finish kind first [operand]
  | none =>
    let operand ← leftHandSide go
    let t ← token
    if (t.kind == .punct .increment || t.kind == .punct .decrement) && !t.afterLineEnd then
      advance
      finish .update first [operand]
    else
      return operand

/-- How tightly a binary operator binds. -/
def precedence? (allowIn : Bool) (t : Token) : Option Nat :=
  match t.kind with
  | .punct .coalesce => some 1
  | .punct .or => some 2
  | .punct .and => some 3
  | .punct .bitOr => some 4
  | .punct .bitXor => some 5
  | .punct .bitAnd => some 6
  | .punct .equal | .punct .notEqual | .punct .strictEqual | .punct .strictNotEqual => some 7
  | .punct .less | .punct .lessEqual | .punct .greater | .punct .greaterEqual => some 8
  | .name (some .instanceof) => some 8
  | .name (some .in) => if allowIn then some 8 else none
  | .punct .shiftLeft | .punct .shiftRight | .punct .shiftRightUnsigned => some 9
  | .punct .plus | .punct .minus => some 10
  | .punct .star | .punct .slash | .punct .percent => some 11
  | .punct .power => some 12
  | _ => none

/-- The operand `base`, which starts at `first`, with the binary operators after it that bind
    at least as tightly as `least`.  Operators of one level group to the left, powers to the
    right. -/
def operationFrom (go : Goal → Parser Node) (allowIn : Bool) (least : Nat) (first : Input)
    (base : Node) : Parser Node :=
  iterate (fun (left : Node) => do
    let t ← token
    match precedence? allowIn t with
    | none => return none
    | some level =>
      if level < least then return none
      advance
      let right ← go (.operation allowIn (if t.kind == .punct .power then level else level + 1))
      let kind := if t.kind == .punct .plus then Kind.addition else .binary
      some <$> finish kind first [left.withRole .left, right.withRole .right]) base

/-- Operands and the binary operators between them that bind at least as tightly as `least`. -/
def operation (go : Goal → Parser Node) (allowIn : Bool) (least : Nat) : Parser Node := do
  let first ← start
  operationFrom go allowIn least first (← unary go)

/-- `yield`, `yield e` and `yield* e` -/
def yielding (go : Goal → Parser Node) (allowIn : Bool) : Parser Node := do
  let first ← start
  expectWord .yield
  let t ← token
  if ← eat .star then
    let inner ← go (.assignment allowIn)
    return ← finish .yielding first [inner]
  let bare :=
    t.afterLineEnd ||
      match t.kind with
      | .endOfInput => true
      | .punct p =>
        p == .closeParen || p == .closeBracket || p == .closeBrace || p == .comma ||
          p == .semicolon || p == .colon
      | .name (some .in) | .name (some .of) => true
      | _ => false
  if bare then finish .yielding first []
  else
    let inner ← go (.assignment allowIn)
    finish .yielding first [inner]

/-- Whether a token is an operator that assigns after an operation. -/
def isAugmentedAssign (t : Token) : Bool :=
  match t.kind with
  | .punct p =>
    [Punct.plusAssign, .minusAssign, .starAssign, .slashAssign, .percentAssign, .powerAssign,
      .shiftLeftAssign, .shiftRightAssign, .shiftRightUnsignedAssign, .bitAndAssign, .bitOrAssign,
      .bitXorAssign, .andAssign, .orAssign, .coalesceAssign].contains p
  | _ => false

/-- The operation `test`, which starts at `first`, or the conditional expression or the
    assignment of which it is the first part. -/
def conditionalFrom (go : Goal → Parser Node) (allowIn : Bool) (first : Input) (test : Node) :
    Parser Node := do
  if ← eat .question then
    let consequence ← go (.assignment true)
    expect .colon
    let alternative ← go (.assignment allowIn)
    return ← finish .conditional first [test, consequence, alternative]
  if ← eat .assign then
    let value ← go (.assignment allowIn)
    return ← finish .assignment first [test.asPattern.withRole .left, value.withRole .right]
  if isAugmentedAssign (← token) then
    advance
    let value ← go (.assignment allowIn)
    return ← finish .augmentedAssignment first [test.withRole .left, value.withRole .right]
  return test

/-- An operation, a conditional expression or an assignment. -/
def conditional (go : Goal → Parser Node) (allowIn : Bool) : Parser Node := do
  let first ← start
  conditionalFrom go allowIn first (← operation go allowIn 0)

/-- A function with an arrow.  One whose body is a block is an operand like others, so what
    follows the block may call it or access a member of it. -/
def arrowOperand (go : Goal → Parser Node) (allowIn : Bool) : Parser Node := do
  let first ← start
  let function ← arrowFunction go allowIn
  if function.children.any (·.kind == .block) then
    let operand ← iterate (callStep go first) function
    conditionalFrom go allowIn first (← operationFrom go allowIn 0 first operand)
  else
    return function

/-- An expression without commas. -/
def assignment (go : Goal → Parser Node) (allowIn : Bool) : Parser Node :=
  arrowOperand go allowIn <|> yielding go allowIn <|> conditional go allowIn

/-- Expressions with commas between them. -/
def expression (go : Goal → Parser Node) (allowIn : Bool) : Parser Node := do
  let head ← start
  let one ← go (.assignment allowIn)
  if !(← atPunct .comma) then return one
  let parts ← iterate (fun (parts : List Node) => do
    if ← eat .comma then return some ((← go (.assignment allowIn)) :: parts)
    return none) [one]
  finish .sequence head parts.reverse

end LodashStyle.JavaScript.Parser
