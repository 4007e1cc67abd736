import LodashStyle.Json.Writer

/-! # Values in messages

How a message shows a value that was refused: texts in quotes, items and members between
brackets, and the words `True`, `False`, `None` for the constants.  A long value is cut in
the middle. -/

namespace LodashStyle.Json

/-- A floating point number in a message. -/
def displayReal : Real64 → Text
  | .nan => "nan"
  | .infinite negative => if negative then "-inf" else "inf"
  | x => realText x

mutual

/-- The value as a message shows it. -/
def display : Json → Text
  | .null => "None"
  | .bool b => if b then "True" else "False"
  | .int n => Text.ofInt n
  | .real x => displayReal x
  | .string t => t.quoted
  | .array items => Text.ofChar '[' ++ Text.join ", " (displayItems items) ++ Text.ofChar ']'
  | .object members =>
    Text.ofChar '\x7b' ++ Text.join ", " (displayMembers members) ++ Text.ofChar '\x7d'

/-- The items as a message shows them. -/
def displayItems : List Json → List Text
  | [] => []
  | v :: rest => display v :: displayItems rest

/-- The members as a message shows them. -/
def displayMembers : List (Text × Json) → List Text
  | [] => []
  | (key, v) :: rest => (Text.quoted key ++ (": " : Text) ++ display v) :: displayMembers rest

end

/-- The word for the kind of a value. -/
def kindWord : Json → String
  | .null => "NoneType"
  | .bool _ => "bool"
  | .int _ => "int"
  | .real _ => "float"
  | .string _ => "str"
  | .array _ => "list"
  | .object _ => "dict"

/-- A text of more than fifty bytes is cut to its first 25 and its last 24 bytes, as far as
    whole code points allow. -/
def shorten (t : Text) : Text :=
  if t.utf8Size ≤ 50 then t
  else Text.takeBytes 25 t ++ ("..." : Text) ++ (Text.takeBytes 24 t.reverse).reverse

end LodashStyle.Json
