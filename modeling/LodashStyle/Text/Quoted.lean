import LodashStyle.Text.Class

/-! # Quoted texts in messages

Messages show a text between quotes, single quotes unless the text holds a single and no
double quote.  Backslashes, the quote and unprintable code points are escaped, so the
written form is printable, on one line, and free of surrogates. -/

namespace LodashStyle.Text

/-- The last `width` hexadecimal digits of `n`, in lower case. -/
def hex (width n : Nat) : Text :=
  ofChars ((List.range width).reverse.map fun i => Nat.digitChar (n / Nat.pow 16 i % 16))

/-- One code point inside quotes. -/
def escapeQuoted (quote : Char) (p : CodePoint) : Text :=
  if p.isChar quote || p.isChar '\\' then [.scalar '\\', p]
  else if p.isChar '\n' then "\\n"
  else if p.isChar '\r' then "\\r"
  else if p.isChar '\t' then "\\t"
  else if p.isPrintable then [p]
  else if p.val < 0x100 then "\\x" ++ hex 2 p.val
  else if p.val < 0x10000 then "\\u" ++ hex 4 p.val
  else "\\U" ++ hex 8 p.val

/-- The quote that a text is shown in. -/
def quoteMark (t : Text) : Char :=
  if t.any (·.isChar '\'') && !t.any (·.isChar '"') then '"' else '\''

/-- The text between quotes. -/
def quoted (t : Text) : Text :=
  let mark := quoteMark t
  ofChar mark ++ t.flatMap (escapeQuoted mark) ++ ofChar mark

end LodashStyle.Text
