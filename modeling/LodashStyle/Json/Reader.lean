import LodashStyle.Json.Basic

/-! # Reading JSON

The reader accepts RFC 8259 text and, beyond it, the constants `NaN`, `Infinity` and
`-Infinity` and lone surrogates in `\u` escapes.  A fault names what was expected and the
number of characters before the place; its message adds line and column. -/

namespace LodashStyle.Json

/-- Why a text is not read. -/
inductive Fault where
  /-- The text is malformed at a position. -/
  | malformed (what : String) (position : Nat)
  /-- An integer has more digits than are converted. -/
  | numeralTooLong (digits : Nat)
  deriving DecidableEq, Repr

/-- The message of a malformed text: line and column count from one. -/
def malformedMessage (source : List Char) (what : String) (position : Nat) : Text :=
  let before := source.take position
  let line := before.count '\n' + 1
  let column := (before.reverse.takeWhile (· != '\n')).length + 1
  (what : Text) ++ (": line " : Text) ++ Text.ofNat line ++ (" column " : Text) ++
    Text.ofNat column ++ (" (char " : Text) ++ Text.ofNat position ++ (")" : Text)

/-- The rest of a text and the number of characters before it. -/
structure Cursor where
  rest : List Char
  position : Nat

/-- The cursor `n` characters further. -/
def Cursor.advance (c : Cursor) (n : Nat) : Cursor := ⟨c.rest.drop n, c.position + n⟩

/-- The cursor after blanks. -/
def Cursor.skipBlanks (c : Cursor) : Cursor :=
  c.advance (c.rest.takeWhile fun d => d == ' ' || d == '\t' || d == '\n' || d == '\r').length

/-- A fault at a cursor. -/
def Cursor.fail {α : Type} (c : Cursor) (what : String) : Except Fault α :=
  .error (.malformed what c.position)

/-- The number of four hexadecimal digits at the start of a text. -/
def fourHex? (cs : List Char) : Option Nat :=
  if cs.length < 4 then none
  else (cs.take 4).foldlM (fun n c =>
    if c.isDigit then some (n * 16 + (c.toNat - '0'.toNat))
    else if 'a' ≤ c ∧ c ≤ 'f' then some (n * 16 + (c.toNat - 'a'.toNat + 10))
    else if 'A' ≤ c ∧ c ≤ 'F' then some (n * 16 + (c.toNat - 'A'.toNat + 10))
    else none) 0

/-- The code point of an escape by one letter. -/
def letterEscape? : Char → Option Char
  | '"' => some '"'
  | '\\' => some '\\'
  | '/' => some '/'
  | 'b' => some '\x08'
  | 'f' => some '\x0c'
  | 'n' => some '\n'
  | 'r' => some '\r'
  | 't' => some '\t'
  | _ => none

/-- The code point of the escape `\u` whose `u` is at `position`, and the number of characters
    after the `u` that belong to it.  A high and a low surrogate in succession are one code
    point. -/
def unicodeEscape (position : Nat) (cs : List Char) : Except Fault (CodePoint × Nat) :=
  let refuse (p : Nat) : Except Fault (CodePoint × Nat) := .error (.malformed "Invalid \\uXXXX escape" p)
  if cs.length < 5 then refuse position
  else
    match fourHex? cs with
    | none => refuse position
    | some n =>
      let alone := ((CodePoint.ofNat? n).getD default, 4)
      match cs.drop 4 with
      | '\\' :: 'u' :: more =>
        if 0xD800 ≤ n && n < 0xDC00 && 4 < more.length then
          match fourHex? more with
          | none => refuse (position + 6)
          | some m =>
            if 0xDC00 ≤ m && m < 0xE000 then
              .ok (.scalar (Char.ofNat (0x10000 + (n - 0xD800) * 0x400 + (m - 0xDC00))), 10)
            else
              .ok alone
        else
          .ok alone
      | _ => .ok alone

/-- The value of a string whose opening quote is at `start`, and the number of characters up to
    and with the closing quote; the first `skip` of the remaining characters are done with. -/
def stringBody (start : Nat) (skip position : Nat) : List Char → Except Fault (Text × Nat)
  | [] => .error (.malformed "Unterminated string starting at" start)
  | c :: rest =>
    match skip with
    | skip + 1 => (stringBody start skip (position + 1) rest).map fun (t, n) => (t, n + 1)
    | 0 =>
      let goOn (p : CodePoint) (used : Nat) : Except Fault (Text × Nat) :=
        (stringBody start used (position + 1) rest).map fun (t, n) => (p :: t, n + 1)
      if c = '"' then .ok ([], 1)
      else if c = '\\' then
        match rest with
        | [] => .error (.malformed "Unterminated string starting at" start)
        | 'u' :: more =>
          match unicodeEscape (position + 1) more with
          | .error fault => .error fault
          | .ok (p, used) => goOn p (used + 1)
        | d :: _ =>
          match letterEscape? d with
          | some e => goOn (.scalar e) 1
          | none => .error (.malformed "Invalid \\escape" position)
      else if c.toNat < 0x20 then .error (.malformed "Invalid control character at" position)
      else goOn (.scalar c) 0

/-- The leading decimal digits of a text. -/
def digitRun (cs : List Char) : List Char := cs.takeWhile Char.isDigit

/-- The number that decimal digits denote. -/
def digitsValue (cs : List Char) : Nat := cs.foldl (fun n c => n * 10 + (c.toNat - '0'.toNat)) 0

/-- The greatest number of digits of an integer. -/
def maxDigits : Nat := 4300

/-- The fraction at the start of a text: its digits, and the number of characters with the
    point. -/
def fraction (cs : List Char) : List Char × Nat :=
  match cs with
  | '.' :: rest =>
    let digits := digitRun rest
    if digits.isEmpty then ([], 0) else (digits, digits.length + 1)
  | _ => ([], 0)

/-- The exponent at the start of a text, and its number of characters. -/
def exponent (cs : List Char) : Int × Nat :=
  let signed (sign : Int) (used : Nat) (rest : List Char) : Int × Nat :=
    let digits := digitRun rest
    if digits.isEmpty then (0, 0) else (sign * digitsValue digits, used + digits.length)
  match cs with
  | e :: '-' :: rest => if e = 'e' || e = 'E' then signed (-1) 2 rest else (0, 0)
  | e :: '+' :: rest => if e = 'e' || e = 'E' then signed 1 2 rest else (0, 0)
  | e :: rest => if e = 'e' || e = 'E' then signed 1 1 rest else (0, 0)
  | [] => (0, 0)

/-- The number at the start of a text, and its number of characters. -/
def number? (cs : List Char) : Option (Except Fault (Json × Nat)) :=
  let negative := cs.head? == some '-'
  let body := if negative then cs.drop 1 else cs
  let sign : Nat := if negative then 1 else 0
  let whole :=
    match body with
    | '0' :: _ => ['0']
    | _ => digitRun body
  if whole.isEmpty then none
  else
    let afterWhole := body.drop whole.length
    let (fractionDigits, fractionSize) := fraction afterWhole
    let (power, powerSize) := exponent (afterWhole.drop fractionSize)
    let size := sign + whole.length + fractionSize + powerSize
    if fractionSize = 0 && powerSize = 0 then
      if maxDigits < whole.length then some (.error (.numeralTooLong whole.length))
      else
        let n : Int := digitsValue whole
        some (.ok (.int (if negative then -n else n), size))
    else
      let digits := (whole ++ fractionDigits).map fun c => c.toNat - '0'.toNat
      let value :=
        match Binary64.ofDecimal? ⟨digits, power - fractionDigits.length⟩ with
        | some x => Real64.finite negative x
        | none => .infinite negative
      some (.ok (.real value, size))

/-- The constant that a text starts with, and its number of characters. -/
def constant? (cs : List Char) : Option (Json × Nat) :=
  let starts (word : String) : Bool := word.toList.isPrefixOf cs
  if starts "null" then some (.null, 4)
  else if starts "true" then some (.bool true, 4)
  else if starts "false" then some (.bool false, 5)
  else if starts "NaN" then some (.real .nan, 3)
  else if starts "Infinity" then some (.real (.infinite false), 8)
  else if starts "-Infinity" then some (.real (.infinite true), 9)
  else none

mutual

/-- Reads one value at a cursor. -/
def value : Nat → Cursor → Except Fault (Json × Cursor)
  | 0, c => c.fail "Expecting value"
  | fuel + 1, c =>
    match c.rest with
    | '"' :: rest =>
      match stringBody c.position 0 (c.position + 1) rest with
      | .error fault => .error fault
      | .ok (t, n) => .ok (.string t, c.advance (n + 1))
    | '\x7b' :: _ =>
      let c := (c.advance 1).skipBlanks
      match c.rest with
      | '\x7d' :: _ => .ok (.object [], c.advance 1)
      | _ => members fuel [] c
    | '[' :: _ =>
      let c := (c.advance 1).skipBlanks
      match c.rest with
      | ']' :: _ => .ok (.array [], c.advance 1)
      | _ => items fuel [] c
    | _ =>
      match constant? c.rest with
      | some (v, n) => .ok (v, c.advance n)
      | none =>
        match number? c.rest with
        | none => c.fail "Expecting value"
        | some (.error fault) => .error fault
        | some (.ok (v, n)) => .ok (v, c.advance n)

/-- Reads the members of an object up to its end, those before being `done`. -/
def members : Nat → Members → Cursor → Except Fault (Json × Cursor)
  | 0, _, c => c.fail "Expecting property name enclosed in double quotes"
  | fuel + 1, done, c =>
    match c.rest with
    | '"' :: rest =>
      match stringBody c.position 0 (c.position + 1) rest with
      | .error fault => .error fault
      | .ok (key, n) =>
        let c := (c.advance (n + 1)).skipBlanks
        match c.rest with
        | ':' :: _ =>
          match value fuel (c.advance 1).skipBlanks with
          | .error fault => .error fault
          | .ok (v, c) =>
            let done := Members.put key v done
            let c := c.skipBlanks
            match c.rest with
            | '\x7d' :: _ => .ok (.object done, c.advance 1)
            | ',' :: _ => members fuel done (c.advance 1).skipBlanks
            | _ => c.fail "Expecting ',' delimiter"
        | _ => c.fail "Expecting ':' delimiter"
    | _ => c.fail "Expecting property name enclosed in double quotes"

/-- Reads the items of an array up to its end, those before being `done` in reverse. -/
def items : Nat → List Json → Cursor → Except Fault (Json × Cursor)
  | 0, _, c => c.fail "Expecting value"
  | fuel + 1, done, c =>
    match value fuel c with
    | .error fault => .error fault
    | .ok (v, c) =>
      let c := c.skipBlanks
      match c.rest with
      | ']' :: _ => .ok (.array (v :: done).reverse, c.advance 1)
      | ',' :: _ => items fuel (v :: done) (c.advance 1).skipBlanks
      | _ => c.fail "Expecting ',' delimiter"

end

/-- Reads a whole text as one JSON value. -/
def parse (source : List Char) : Except Fault Json :=
  match source with
  | '\uFEFF' :: _ => .error (.malformed "Unexpected UTF-8 BOM (decode using utf-8-sig)" 0)
  | _ =>
    match value (source.length + 1) (Cursor.skipBlanks ⟨source, 0⟩) with
    | .error fault => .error fault
    | .ok (v, c) =>
      let c := c.skipBlanks
      if c.rest.isEmpty then .ok v else c.fail "Extra data"

/-- The message of a fault in `source`. -/
def Fault.message (source : List Char) : Fault → Text
  | .malformed what position => malformedMessage source what position
  | .numeralTooLong digits =>
    "Exceeds the limit (4300 digits) for integer string conversion: value has " ++
      Text.ofNat digits ++
      (" digits; use sys.set_int_max_str_digits() to increase the limit" : Text)

end LodashStyle.Json
