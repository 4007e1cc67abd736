/-! # Tokens

Reading the next token of JavaScript source.  A slash is read as punctuation and a backtick
alone is a token: whether a regular expression starts there, and how template text goes on,
only the grammar knows, and it reads on from the place itself.  White space, line ends and
comments before a token are passed over; whether a line end was among them decides where a
statement may end. -/

namespace LodashStyle.JavaScript

/-- A place in the source: characters and bytes before it, its row and its column in bytes. -/
structure Position where
  offset : Nat := 0
  byte : Nat := 0
  row : Nat := 0
  column : Nat := 0
  deriving DecidableEq, Repr

/-- The place after a character. -/
def Position.step (p : Position) (c : Char) : Position :=
  if c = '\n' then ⟨p.offset + 1, p.byte + 1, p.row + 1, 0⟩
  else ⟨p.offset + 1, p.byte + c.utf8Size, p.row, p.column + c.utf8Size⟩

/-- The rest of the source from a place on. -/
structure Input where
  rest : List Char
  place : Position
  deriving Repr

/-- The input `n` characters further. -/
def Input.advance : Nat → Input → Input
  | 0, inp => inp
  | n + 1, inp =>
    match inp.rest with
    | [] => inp
    | c :: rest => Input.advance n ⟨rest, inp.place.step c⟩

/-- Punctuation and operators. -/
inductive Punct where
  | openBrace
  | closeBrace
  | openParen
  | closeParen
  | openBracket
  | closeBracket
  | dot
  | ellipsis
  | semicolon
  | comma
  | colon
  | question
  | optionalDot
  | arrow
  | at
  | less
  | lessEqual
  | greater
  | greaterEqual
  | equal
  | notEqual
  | strictEqual
  | strictNotEqual
  | plus
  | minus
  | star
  | slash
  | percent
  | power
  | increment
  | decrement
  | shiftLeft
  | shiftRight
  | shiftRightUnsigned
  | bitAnd
  | bitOr
  | bitXor
  | not
  | bitNot
  | and
  | or
  | coalesce
  | assign
  | plusAssign
  | minusAssign
  | starAssign
  | slashAssign
  | percentAssign
  | powerAssign
  | shiftLeftAssign
  | shiftRightAssign
  | shiftRightUnsignedAssign
  | bitAndAssign
  | bitOrAssign
  | bitXorAssign
  | andAssign
  | orAssign
  | coalesceAssign
  deriving DecidableEq, Repr

/-- The spellings of punctuation, longer ones before their beginnings. -/
def Punct.spellings : List (List Char × Punct) :=
  [(['>', '>', '>', '='], .shiftRightUnsignedAssign), (['.', '.', '.'], .ellipsis),
   (['=', '=', '='], .strictEqual), (['!', '=', '='], .strictNotEqual),
   (['*', '*', '='], .powerAssign), (['<', '<', '='], .shiftLeftAssign),
   (['>', '>', '='], .shiftRightAssign), (['>', '>', '>'], .shiftRightUnsigned),
   (['&', '&', '='], .andAssign), (['|', '|', '='], .orAssign), (['?', '?', '='], .coalesceAssign),
   (['=', '>'], .arrow), (['=', '='], .equal), (['!', '='], .notEqual), (['<', '='], .lessEqual),
   (['>', '='], .greaterEqual), (['+', '+'], .increment), (['-', '-'], .decrement),
   (['*', '*'], .power), (['<', '<'], .shiftLeft), (['>', '>'], .shiftRight), (['&', '&'], .and),
   (['|', '|'], .or), (['?', '?'], .coalesce), (['?', '.'], .optionalDot), (['+', '='], .plusAssign),
   (['-', '='], .minusAssign), (['*', '='], .starAssign), (['/', '='], .slashAssign),
   (['%', '='], .percentAssign), (['&', '='], .bitAndAssign), (['|', '='], .bitOrAssign),
   (['^', '='], .bitXorAssign), (['('], .openParen), ([')'], .closeParen), (['['], .openBracket),
   ([']'], .closeBracket), (['\x7b'], .openBrace), (['\x7d'], .closeBrace), (['.'], .dot),
   ([','], .comma), ([';'], .semicolon), ([':'], .colon), (['?'], .question), (['='], .assign),
   (['<'], .less), (['>'], .greater), (['+'], .plus), (['-'], .minus), (['*'], .star),
   (['/'], .slash), (['%'], .percent), (['&'], .bitAnd), (['|'], .bitOr), (['^'], .bitXor),
   (['!'], .not), (['~'], .bitNot), (['@'], .at)]

/-- Words with a meaning of their own in some place of the grammar. -/
inductive Keyword where
  | break
  | case
  | catch
  | classWord
  | const
  | continue
  | debugger
  | default
  | delete
  | do
  | else
  | enum
  | export
  | extends
  | finally
  | for
  | function
  | if
  | import
  | in
  | instanceof
  | new
  | null
  | return
  | super
  | switch
  | this
  | throw
  | trueWord
  | falseWord
  | try
  | typeof
  | var
  | void
  | while
  | with
  | await
  | yield
  | undefined
  | let
  | static
  | async
  | of
  | get
  | set
  | as
  | from
  | accessor
  deriving DecidableEq, Repr

namespace Keyword

/-- The spellings of the keywords. -/
def spellings : List (List Char × Keyword) :=
  [(['b', 'r', 'e', 'a', 'k'], .break), (['c', 'a', 's', 'e'], .case),
   (['c', 'a', 't', 'c', 'h'], .catch), (['c', 'l', 'a', 's', 's'], .classWord),
   (['c', 'o', 'n', 's', 't'], .const), (['c', 'o', 'n', 't', 'i', 'n', 'u', 'e'], .continue),
   (['d', 'e', 'b', 'u', 'g', 'g', 'e', 'r'], .debugger),
   (['d', 'e', 'f', 'a', 'u', 'l', 't'], .default), (['d', 'e', 'l', 'e', 't', 'e'], .delete),
   (['d', 'o'], .do), (['e', 'l', 's', 'e'], .else), (['e', 'n', 'u', 'm'], .enum),
   (['e', 'x', 'p', 'o', 'r', 't'], .export), (['e', 'x', 't', 'e', 'n', 'd', 's'], .extends),
   (['f', 'i', 'n', 'a', 'l', 'l', 'y'], .finally), (['f', 'o', 'r'], .for),
   (['f', 'u', 'n', 'c', 't', 'i', 'o', 'n'], .function), (['i', 'f'], .if),
   (['i', 'm', 'p', 'o', 'r', 't'], .import), (['i', 'n'], .in),
   (['i', 'n', 's', 't', 'a', 'n', 'c', 'e', 'o', 'f'], .instanceof), (['n', 'e', 'w'], .new),
   (['n', 'u', 'l', 'l'], .null), (['r', 'e', 't', 'u', 'r', 'n'], .return),
   (['s', 'u', 'p', 'e', 'r'], .super), (['s', 'w', 'i', 't', 'c', 'h'], .switch),
   (['t', 'h', 'i', 's'], .this), (['t', 'h', 'r', 'o', 'w'], .throw),
   (['t', 'r', 'u', 'e'], .trueWord), (['f', 'a', 'l', 's', 'e'], .falseWord), (['t', 'r', 'y'], .try),
   (['t', 'y', 'p', 'e', 'o', 'f'], .typeof), (['v', 'a', 'r'], .var),
   (['v', 'o', 'i', 'd'], .void), (['w', 'h', 'i', 'l', 'e'], .while),
   (['w', 'i', 't', 'h'], .with), (['a', 'w', 'a', 'i', 't'], .await),
   (['y', 'i', 'e', 'l', 'd'], .yield), (['u', 'n', 'd', 'e', 'f', 'i', 'n', 'e', 'd'], .undefined),
   (['l', 'e', 't'], .let), (['s', 't', 'a', 't', 'i', 'c'], .static),
   (['a', 's', 'y', 'n', 'c'], .async), (['o', 'f'], .of), (['g', 'e', 't'], .get),
   (['s', 'e', 't'], .set), (['a', 's'], .as), (['f', 'r', 'o', 'm'], .from),
   (['a', 'c', 'c', 'e', 's', 's', 'o', 'r'], .accessor)]

/-- The keywords that are names wherever they have no other meaning. -/
def isContextual : Keyword → Bool
  | .let | .static | .async | .of | .get | .set | .as | .from | .accessor => true
  | _ => false

end Keyword

/-- What a token is. -/
inductive TokenKind where
  | name (word : Option Keyword)
  | privateName
  | punct (p : Punct)
  | string
  | number
  | backtick
  | endOfInput
  | unknown
  deriving DecidableEq, Repr

/-- A token: what it is, the input from its start on, the place of its end, and whether a line
    end stands before it. -/
structure Token where
  kind : TokenKind
  start : Input
  stop : Position
  afterLineEnd : Bool
  deriving Repr

/-- White space between tokens. -/
def isWhite (c : Char) : Bool :=
  let n := c.toNat
  n = 0x20 || (0x9 ≤ n && n ≤ 0xD) ||
    (0x80 ≤ n && (n = 0x85 || n = 0xA0 || n = 0x1680 || (0x2000 ≤ n && n ≤ 0x200B) || n = 0x2028 ||
      n = 0x2029 || n = 0x202F || n = 0x205F || n = 0x2060 || n = 0x3000 || n = 0xFEFF))

/-- The characters that end a line. -/
def endsLine (c : Char) : Bool := c = '\n' || c = '\r' || c = '\u2028' || c = '\u2029'

/-- A character that a name may start with: anything but controls, white space, digits and
    punctuation. -/
def startsName (c : Char) : Bool :=
  c.isAlpha || c = '_' || c = '$' || (0x7F ≤ c.toNat && !isWhite c)

/-- A character that a name may go on with. -/
def continuesName (c : Char) : Bool := startsName c || c.isDigit

/-- A hexadecimal digit. -/
def isHexDigit (c : Char) : Bool := c.isDigit || ('a' ≤ c && c ≤ 'f') || ('A' ≤ c && c ≤ 'F')

/-- The number of characters of the escape `\uHHHH` or `\u{…}` at the start of a text. -/
def nameEscapeLength : List Char → Nat
  | '\\' :: 'u' :: rest =>
    match rest with
    | '\x7b' :: more =>
      let digits := more.takeWhile isHexDigit
      if digits.isEmpty then 0
      else if (more.drop digits.length).head? == some '\x7d' then digits.length + 4 else 0
    | _ => if ((rest.take 4).takeWhile isHexDigit).length = 4 then 6 else 0
  | _ => 0

/-- The number of characters of a name from its start on, the first `skip` being done with. -/
def nameLengthFrom (skip : Nat) : List Char → Nat
  | [] => 0
  | c :: rest =>
    match skip with
    | skip + 1 => nameLengthFrom skip rest + 1
    | 0 =>
      if continuesName c then nameLengthFrom 0 rest + 1
      else
        match nameEscapeLength (c :: rest) with
        | 0 => 0
        | escape + 1 => nameLengthFrom escape rest + 1

/-- The number of characters of a name at the start of a text. -/
def nameLength : List Char → Nat
  | [] => 0
  | c :: rest => if c.isDigit then 0 else nameLengthFrom 0 (c :: rest)

/-- The number of characters of the rest of a string after its opening quote, closing quote
    included. -/
def stringRest (quote : Char) : List Char → Option Nat
  | [] => none
  | c :: rest =>
    if c = quote then some 1
    else if c = '\\' then
      match rest with
      | '\r' :: '\n' :: more => (stringRest quote more).map (· + 3)
      | _ :: more => (stringRest quote more).map (· + 2)
      | [] => none
    else if c = '\n' || c = '\r' then none
    else (stringRest quote rest).map (· + 1)

/-- Digits and separators at the start of a text. -/
def digitsLength (cs : List Char) : Nat := (cs.takeWhile fun c => c.isDigit || c = '_').length

/-- The number of characters of an exponent at the start of a text. -/
def exponentLength : List Char → Nat
  | e :: rest =>
    if e = 'e' || e = 'E' then
      match rest with
      | s :: d :: _ =>
        if (s = '+' || s = '-') && d.isDigit then digitsLength rest.tail + 2
        else if s.isDigit then digitsLength rest + 1
        else 0
      | [d] => if d.isDigit then 2 else 0
      | [] => 0
    else 0
  | [] => 0

/-- The number of characters of a decimal numeral that goes on with `cs` after its first
    digits: an `n`, or a fraction and an exponent. -/
def numeralTail (cs : List Char) : Nat :=
  match cs with
  | 'n' :: _ => 1
  | '.' :: rest =>
    let fraction := digitsLength rest
    fraction + 1 + exponentLength (rest.drop fraction)
  | _ => exponentLength cs

/-- The number of characters of a numeral at the start of a text. -/
def numeralLength (cs : List Char) : Nat :=
  let decimal :=
    let whole := digitsLength cs
    whole + numeralTail (cs.drop whole)
  match cs with
  | '0' :: base :: _ =>
    if base = 'x' || base = 'X' || base = 'o' || base = 'O' || base = 'b' || base = 'B' then
      (cs.takeWhile fun c => c.isAlphanum || c = '_').length
    else decimal
  | _ => decimal

/-- The punctuation at the start of a text.  `?.` before a digit is a question mark. -/
def punct? (cs : List Char) : Option (Punct × Nat) :=
  match Punct.spellings.find? fun (spelling, _) => spelling.isPrefixOf cs with
  | none => none
  | some (spelling, p) =>
    if p = .optionalDot && ((cs.drop 2).head?.any Char.isDigit) then some (.question, 1)
    else some (p, spelling.length)

/-- The kind of the token at the start of a text, and its number of characters. -/
def tokenAt (cs : List Char) : TokenKind × Nat :=
  match cs with
  | [] => (.endOfInput, 0)
  | c :: rest =>
    if startsName c || c = '\\' then
      match nameLength cs with
      | 0 => (.unknown, 1)
      | n => (.name (Keyword.spellings.lookup (cs.take n)), n)
    else if c.isDigit || (c = '.' && rest.head?.any Char.isDigit) then (.number, numeralLength cs)
    else if c = '"' || c = '\'' then
      match stringRest c rest with
      | some n => (.string, n + 1)
      | none => (.unknown, 1)
    else if c = '\x60' then (.backtick, 1)
    else if c = '#' then
      match nameLength rest with
      | 0 => (.unknown, 1)
      | n => (.privateName, n + 1)
    else
      match punct? cs with
      | some (p, n) => (.punct p, n)
      | none => (.unknown, 1)

/-- The number of characters of a comment at the start of a text. -/
def lineCommentLength (cs : List Char) : Nat := (cs.takeWhile fun c => !endsLine c).length

/-- The number of characters up to and with the end `*/` of a block comment. -/
def blockCommentRest : List Char → Option Nat
  | '*' :: '/' :: _ => some 2
  | _ :: rest => (blockCommentRest rest).map (· + 1)
  | [] => none

/-- What was passed over before a token. -/
structure Gap where
  /-- The input at the token. -/
  input : Input
  /-- Whether a line end was passed over. -/
  lineEnd : Bool
  /-- The comments, each from its start on and with the place of its end, last one first. -/
  comments : List (Input × Position)

/-- Passes over white space and comments, at most `limit` stretches of them. -/
def skipGap (limit : Nat) (gap : Gap) : Gap :=
  match limit with
  | 0 => gap
  | limit + 1 =>
    let cs := gap.input.rest
    let white := cs.takeWhile isWhite
    if !white.isEmpty then
      skipGap limit ⟨gap.input.advance white.length, gap.lineEnd || white.any endsLine, gap.comments⟩
    else
      match cs with
      | '/' :: '/' :: _ =>
        let after := gap.input.advance (lineCommentLength cs)
        skipGap limit ⟨after, gap.lineEnd, (gap.input, after.place) :: gap.comments⟩
      | '/' :: '*' :: rest =>
        match blockCommentRest rest with
        | none => gap
        | some n =>
          let after := gap.input.advance (n + 2)
          skipGap limit ⟨after, gap.lineEnd || (cs.take (n + 2)).any endsLine,
            (gap.input, after.place) :: gap.comments⟩
      | _ => gap

/-- The next token of an input, the input after it, and the comments before it. -/
def nextToken (limit : Nat) (inp : Input) : Token × Input × List (Input × Position) :=
  let gap := skipGap limit ⟨inp, false, []⟩
  let (kind, n) := tokenAt gap.input.rest
  let after := gap.input.advance n
  (⟨kind, gap.input, after.place, gap.lineEnd⟩, after, gap.comments.reverse)

end LodashStyle.JavaScript
