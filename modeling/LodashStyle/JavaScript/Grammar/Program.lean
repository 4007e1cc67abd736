import LodashStyle.JavaScript.Grammar.Jsx
import LodashStyle.JavaScript.Grammar.Module

/-! # Whole programs

`phrase` closes the circle of the productions by recursion on a bound for the nesting of
phrases, and `Tree.parse` reads a whole source with a bound that its length provides. -/

namespace LodashStyle.JavaScript

namespace Parser

/-- A statement that starts with a word. -/
def wordStatement (go : Goal → Parser Node) (word : Keyword) : Parser Node := do
  match word with
  | .if => ifStatement go
  | .for => forStatement go
  | .while | .with => whileStatement go
  | .do => doStatement go
  | .return | .throw => jumpStatement go
  | .break | .continue => labelJump
  | .switch => switchStatement go
  | .try => tryStatement go
  | .debugger => jumpStatement go
  | .classWord => classFrom go (← start) []
  | .function => functionFrom go (← start)
  | .async =>
    let next ← following
    if next.kind == .name (some .function) && !next.afterLineEnd then functionFrom go (← start)
    else labelled go <|> expressionStatement go
  | .import =>
    let next ← following
    if next.kind == .punct .openParen || next.kind == .punct .dot then expressionStatement go
    else importStatement go
  | .export => exportStatement go (← start) []
  | _ => labelled go <|> expressionStatement go

/-- A statement. -/
def statement (go : Goal → Parser Node) : Parser Node := do
  if ← atDeclaration then return ← declaration go
  match (← token).kind with
  | .punct .openBrace => block go
  | .punct .semicolon => leaf .statement
  | .punct .at =>
    let first ← start
    let marks ← decorators go
    if ← atWord .export then exportStatement go first marks
    else classFrom go first marks
  | .name (some word) => wordStatement go word
  | .name none => labelled go <|> expressionStatement go
  | _ => expressionStatement go

/-- The productions, given the recogniser of the parts. -/
def production (go : Goal → Parser Node) : Goal → Parser Node
  | .statement => statement go
  | .block => block go
  | .expression allowIn => expression go allowIn
  | .assignment allowIn => assignment go allowIn
  | .operation allowIn least => operation go allowIn least
  | .unary => unary go
  | .leftHandSide => leftHandSide go
  | .construction => construction go
  | .pattern => pattern go
  | .element => element go

/-- Recognises a phrase in which phrases nest at most `bound` levels deep. -/
def phrase : Nat → Goal → Parser Node
  | 0, _ => refuse
  | bound + 1, goal => production (phrase bound) goal

/-- A whole program, of which `first` is the start. -/
def program (bound : Nat) (first : Input) : Parser Node := do
  let body ← iterate (fun (found : List Node) => do
    if (← token).kind == .endOfInput then return none
    return some ((← phrase bound .statement) :: found)) []
  stopAt (← start)
  finish .program first body.reverse

end Parser

/-- A source as a syntax tree. -/
structure Tree where
  root : Node
  /-- Whether the source is not a program; then the tree is empty. -/
  hasError : Bool

/-- The number of characters of a first line that names an interpreter. -/
def interpreterLine (cs : List Char) : Nat :=
  let white := (cs.takeWhile isWhite).length
  match cs.drop white with
  | '#' :: '!' :: _ => white + ((cs.drop white).takeWhile (· != '\n')).length
  | _ => 0

/-- The input of a source without its interpreter line. -/
def Input.ofSource (source : List Char) : Input := Input.advance (interpreterLine source) ⟨source, {}⟩

/-- The state before the first token of an input, for repetitions of at most `limit` steps. -/
def ParserState.initial (limit : Nat) (inp : Input) : ParserState :=
  let (token, after, comments) := nextToken limit inp
  { token, after, lastEnd := inp.place, limit
    comments := comments.map fun (start, stop) => .spanning .comment start stop [] }

/-- Reads a source. -/
def Tree.parse (source : List Char) : Tree :=
  let inp := Input.ofSource source
  match Parser.program (8 * source.length + 64) inp (.initial (source.length + 1) inp) with
  | some (root, _) => ⟨root, false⟩
  | none => ⟨.spanning .program ⟨source, {}⟩ {} [], true⟩

end LodashStyle.JavaScript
