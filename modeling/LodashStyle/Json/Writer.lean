import LodashStyle.Decimal.Layout
import LodashStyle.Json.Basic
import LodashStyle.Text.Quoted

/-! # Writing JSON

Two layouts of one format: `compact` on a single line, and `indented` with two blanks per
level and every item on a line of its own.  All that is not printable ASCII is written as
a `\u` escape, in pairs beyond `0xFFFF`. -/

namespace LodashStyle.Json

/-- One code point inside a JSON string. -/
def escapeCodePoint (p : CodePoint) : Text :=
  if p.isChar '"' then "\\\""
  else if p.isChar '\\' then "\\\\"
  else if p.isChar '\n' then "\\n"
  else if p.isChar '\r' then "\\r"
  else if p.isChar '\t' then "\\t"
  else if p.isChar '\x08' then "\\b"
  else if p.isChar '\x0c' then "\\f"
  else if 0x20 ≤ p.val && p.val < 0x7F then [p]
  else if p.val < 0x10000 then "\\u" ++ Text.hex 4 p.val
  else
    let n := p.val - 0x10000
    ("\\u" : Text) ++ Text.hex 4 (0xD800 + n / 0x400) ++ ("\\u" : Text) ++
      Text.hex 4 (0xDC00 + n % 0x400)

/-- A text as a JSON string. -/
def stringText (t : Text) : Text := Text.ofChar '"' ++ t.flatMap escapeCodePoint ++ Text.ofChar '"'

/-- A floating point number. -/
def realText : Real64 → Text
  | .nan => "NaN"
  | .infinite negative => if negative then "-Infinity" else "Infinity"
  | .finite negative x =>
    (if negative then Text.ofChar '-' else []) ++
      if x.mantissa = 0 then ("0.0" : Text) else x.shortest.messageText

/-- A value that is neither an array nor an object. -/
def scalarText : Json → Text
  | .null => "null"
  | .bool b => if b then "true" else "false"
  | .int n => Text.ofInt n
  | .real x => realText x
  | .string t => stringText t
  | .array _ => "[]"
  | .object _ => "\x7b\x7d"

mutual

/-- The value on one line. -/
def compact : Json → Text
  | .array items => Text.ofChar '[' ++ Text.join "," (compactItems items) ++ Text.ofChar ']'
  | .object members =>
    Text.ofChar '\x7b' ++ Text.join "," (compactMembers members) ++ Text.ofChar '\x7d'
  | v => scalarText v

/-- The items on one line. -/
def compactItems : List Json → List Text
  | [] => []
  | v :: rest => compact v :: compactItems rest

/-- The members on one line. -/
def compactMembers : List (Text × Json) → List Text
  | [] => []
  | (key, v) :: rest => (stringText key ++ Text.ofChar ':' ++ compact v) :: compactMembers rest

end

/-- A line end and the indentation of a level. -/
def newline (level : Nat) : Text := .scalar '\n' :: List.replicate (2 * level) (.scalar ' ')

/-- Pieces between brackets, each on a line of its own one level deeper. -/
def block (level : Nat) (opening closing : Char) (pieces : List Text) : Text :=
  if pieces.isEmpty then Text.ofChars [opening, closing]
  else
    Text.ofChar opening ++ newline (level + 1) ++
      Text.join (Text.ofChar ',' ++ newline (level + 1)) pieces ++ newline level ++
      Text.ofChar closing

mutual

/-- The value with indentation, the first line being at `level`. -/
def indentedAt (level : Nat) : Json → Text
  | .array items => block level '[' ']' (indentedItems (level + 1) items)
  | .object members => block level '\x7b' '\x7d' (indentedMembers (level + 1) members)
  | v => scalarText v

/-- The items with indentation. -/
def indentedItems (level : Nat) : List Json → List Text
  | [] => []
  | v :: rest => indentedAt level v :: indentedItems level rest

/-- The members with indentation. -/
def indentedMembers (level : Nat) : List (Text × Json) → List Text
  | [] => []
  | (key, v) :: rest =>
    (stringText key ++ (": " : Text) ++ indentedAt level v) :: indentedMembers level rest

end

/-- The value with two blanks of indentation per level. -/
def indented (v : Json) : Text := indentedAt 0 v

end LodashStyle.Json
