import LodashStyle.Text.Basic
import LodashStyle.Text.Class.Word
import LodashStyle.Text.Class.Unprintable

/-! # Character classes

The four Unicode classes that the formats of this library refer to: word characters
(identifiers), white space (separators), decimal digits (numerals) and printable
characters (quoting).  The classes follow Unicode 14; a surrogate is in none of them.

* `isWord_of_isAlphanum`  every ASCII letter or digit is a word character -/

namespace LodashStyle.CodePoint

/-- Whether one of the inclusive ranges holds `n`. -/
def inRanges (ranges : List (Nat × Nat)) (n : Nat) : Bool :=
  ranges.any fun (low, high) => low ≤ n && n ≤ high

/-- A letter, a numeral or the underscore. -/
def isWord : CodePoint → Bool
  | .surrogate _ => false
  | .scalar c => c.isAlphanum || c == '_' || (128 ≤ c.toNat && inRanges wordRanges c.toNat)

/-- An ASCII letter, `_` or `$`: what a plain identifier starts with. -/
def isIdentifierStart : CodePoint → Bool
  | .surrogate _ => false
  | .scalar c => c.isAlpha || c == '_' || c == '$'

/-- A word character or `$`: what a plain identifier goes on with. -/
def isIdentifierRest (p : CodePoint) : Bool := p.isWord || p.isChar '$'

/-- White space: separators, line ends and the ASCII controls among them. -/
def isSpace : CodePoint → Bool
  | .surrogate _ => false
  | .scalar c =>
    inRanges [(0x9, 0xD), (0x1C, 0x20), (0x85, 0x85), (0xA0, 0xA0), (0x1680, 0x1680),
      (0x2000, 0x200A), (0x2028, 0x2029), (0x202F, 0x202F), (0x205F, 0x205F),
      (0x3000, 0x3000)] c.toNat

/-- The code points of the digit zero beyond ASCII; the digits one to nine follow each. -/
def zeroDigits : List Nat :=
  [0x660, 0x6F0, 0x7C0, 0x966, 0x9E6, 0xA66, 0xAE6, 0xB66, 0xBE6, 0xC66, 0xCE6, 0xD66, 0xDE6,
   0xE50, 0xED0, 0xF20, 0x1040, 0x1090, 0x17E0, 0x1810, 0x1946, 0x19D0, 0x1A80, 0x1A90, 0x1B50,
   0x1BB0, 0x1C40, 0x1C50, 0xA620, 0xA8D0, 0xA900, 0xA9D0, 0xA9F0, 0xAA50, 0xABF0, 0xFF10,
   0x104A0, 0x10D30, 0x11066, 0x110F0, 0x11136, 0x111D0, 0x112F0, 0x11450, 0x114D0, 0x11650,
   0x116C0, 0x11730, 0x118E0, 0x11950, 0x11C50, 0x11D50, 0x11DA0, 0x16A60, 0x16AC0, 0x16B50,
   0x1D7CE, 0x1D7D8, 0x1D7E2, 0x1D7EC, 0x1D7F6, 0x1E140, 0x1E2F0, 0x1E950, 0x1FBF0]

/-- The value of a decimal digit of any script. -/
def digit? : CodePoint → Option Nat
  | .surrogate _ => none
  | .scalar c =>
    if c.isDigit then some (c.toNat - 48)
    else if c.toNat < 128 then none
    else (zeroDigits.find? fun first => first ≤ c.toNat && c.toNat ≤ first + 9).map (c.toNat - ·)

/-- A decimal digit of any script. -/
def isDigit (p : CodePoint) : Bool := p.digit?.isSome

/-- A code point with a visible form of its own, the blank included. -/
def isPrintable : CodePoint → Bool
  | .surrogate _ => false
  | .scalar c =>
    if c.toNat < 128 then 32 ≤ c.toNat && c.toNat < 127
    else !inRanges unprintableRanges c.toNat

theorem isWord_of_isAlphanum {c : Char} (h : c.isAlphanum) : (scalar c).isWord = true := by
  simp [isWord, h]

end LodashStyle.CodePoint

namespace LodashStyle.Text

/-- The text without the white space at both ends. -/
def trim (t : Text) : Text :=
  ((t.dropWhile CodePoint.isSpace).reverse.dropWhile CodePoint.isSpace).reverse

/-- Whether the text is a plain identifier. -/
def isIdentifier : Text → Bool
  | [] => false
  | p :: rest => p.isIdentifierStart && rest.all CodePoint.isIdentifierRest

/-- Whether the text is a plain identifier, one line feed after it allowed. -/
def isIdentifierLine (t : Text) : Bool :=
  t.isIdentifier ||
    (t.getLast?.any (·.isChar '\n') && Text.isIdentifier t.dropLast)

end LodashStyle.Text
