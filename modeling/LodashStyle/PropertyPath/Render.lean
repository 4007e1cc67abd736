import LodashStyle.Text.Class

/-! # Writing keys as a path

Keys are written as the body of a string path (`render`), as a string literal holding
that path (`stringLiteral`), as an array literal of string literals (`arrayLiteral`), or
inside the text of a template literal (`escapeTemplate`). -/

namespace LodashStyle.PropertyPath

/-- Whether a key may be written as `.key`: a plain identifier, one line feed after it
    allowed. -/
def isDotKey (key : Text) : Bool := key.isIdentifierLine

/-- One key of a path: `.key` or `[key]`. -/
def segment (key : Text) : Text :=
  if isDotKey key then .scalar '.' :: key else .scalar '[' :: key ++ Text.ofChar ']'

/-- A text without a leading `.`. -/
def dropDot : Text → Text
  | [] => []
  | p :: rest => if p.isChar '.' then rest else p :: rest

/-- The keys as the body of a string path: `a.b[0]`. -/
def render (keys : List Text) : Text := dropDot (keys.flatMap segment)

/-- The value as it stands between the marks of a string literal: a backslash before each
    backslash and each occurrence of the mark, and line ends as escapes. -/
def escapeString (mark value : Text) : Text :=
  let escaped := Text.replace mark (.scalar '\\' :: mark) (Text.replace "\\" "\\\\" value)
  Text.replace "\r" "\\r" (Text.replace "\n" "\\n" escaped)

/-- A string literal with the given value. -/
def quote (mark value : Text) : Text := mark ++ escapeString mark value ++ mark

/-- The keys as a string literal: `'a.b[0]'`. -/
def stringLiteral (keys : List Text) : Text := quote "'" (render keys)

/-- The keys as an array literal: `['a', 'b']`. -/
def arrayLiteral (keys : List Text) : Text :=
  .scalar '[' :: Text.join ", " (keys.map (quote "'")) ++ Text.ofChar ']'

/-- A text as template characters: a backslash stands before each backslash, each backtick
    and each `$` that a brace follows. -/
def escapeTemplate : Text → Text
  | [] => []
  | p :: rest =>
    if p.isChar '\\' || p.isChar '\x60' ||
        (p.isChar '$' && rest.head?.any (·.isChar '\x7b')) then
      .scalar '\\' :: p :: escapeTemplate rest
    else
      p :: escapeTemplate rest

end LodashStyle.PropertyPath
