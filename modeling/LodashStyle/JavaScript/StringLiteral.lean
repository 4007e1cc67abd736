import LodashStyle.Text.Basic

/-! # Values of string literals

`cook` computes the value of a string literal from its text between the quotes.  A
backslash starts an escape: `\u{…}`, `\uHHHH`, `\xHH`, a line continuation (nothing), one of
the letters `n t r b f v 0`, or any other code point, which stands for itself.  Only a
number beyond the code points has no value; then the first such escape decides the fault.

* `cookFrom_eq_drop`  passing over code points is dropping them -/

namespace LodashStyle.JavaScript

/-- Why an escape denotes no code point. -/
inductive EscapeFault where
  /-- The number is not below `0x110000`. -/
  | beyondUnicode
  /-- The number does not fit 31 bits. -/
  | beyondWord
  deriving DecidableEq, Repr

/-- The wording of a fault. -/
def EscapeFault.message : EscapeFault → String
  | .beyondUnicode => "chr() arg not in range(0x110000)"
  | .beyondWord => "the number of the escape does not fit 31 bits"

/-- The value of a hexadecimal digit. -/
def hexValue? : CodePoint → Option Nat
  | .surrogate _ => none
  | .scalar c =>
    if c.isDigit then some (c.toNat - '0'.toNat)
    else if 'a' ≤ c ∧ c ≤ 'f' then some (c.toNat - 'a'.toNat + 10)
    else if 'A' ≤ c ∧ c ≤ 'F' then some (c.toNat - 'A'.toNat + 10)
    else none

/-- The number that a sequence of hexadecimal digits denotes. -/
def hexNumber (digits : Text) : Nat :=
  digits.foldl (fun n p => n * 16 + (hexValue? p).getD 0) 0

/-- The leading hexadecimal digits of a text. -/
def hexRun (t : Text) : Text := t.takeWhile fun p => (hexValue? p).isSome

/-- The code point of an escape by number. -/
def numbered (n : Nat) : Except EscapeFault CodePoint :=
  match CodePoint.ofNat? n with
  | some p => .ok p
  | none => .error (if n < 0x80000000 then .beyondUnicode else .beyondWord)

/-- The code point of an escape by one letter; any other code point stands for itself. -/
def letterEscape (p : CodePoint) : CodePoint :=
  if p.isChar 'n' then .scalar '\n'
  else if p.isChar 't' then .scalar '\t'
  else if p.isChar 'r' then .scalar '\r'
  else if p.isChar 'b' then .scalar '\x08'
  else if p.isChar 'f' then .scalar '\x0c'
  else if p.isChar 'v' then .scalar '\x0b'
  else if p.isChar '0' then .scalar '\x00'
  else p

/-- The code points that end a line of source text. -/
def isLineEnd (p : CodePoint) : Bool :=
  p.isChar '\n' || p.isChar '\r' || p.isChar '\u2028' || p.isChar '\u2029'

/-- The value of the escape `\p` that goes on with `rest`, and the number of code points of
    `rest` that belong to it. -/
def escapeAt (p : CodePoint) (rest : Text) : Except EscapeFault (Text × Nat) :=
  let braced := hexRun rest.tail
  if p.isChar 'u' && rest.head?.any (·.isChar '\x7b') && !braced.isEmpty &&
      (rest.drop (braced.length + 1)).head?.any (·.isChar '\x7d') then
    (numbered (hexNumber braced)).map fun q => ([q], braced.length + 2)
  else if p.isChar 'u' && (hexRun (rest.take 4)).length = 4 then
    (numbered (hexNumber (rest.take 4))).map fun q => ([q], 4)
  else if p.isChar 'x' && (hexRun (rest.take 2)).length = 2 then
    (numbered (hexNumber (rest.take 2))).map fun q => ([q], 2)
  else if p.isChar '\r' && rest.head?.any (·.isChar '\n') then
    .ok ([], 1)
  else if isLineEnd p then
    .ok ([], 0)
  else
    .ok ([letterEscape p], 0)

/-- The value of the text between quotes after its first `skip` code points. -/
def cookFrom (skip : Nat) : Text → Except EscapeFault Text
  | [] => .ok []
  | p :: rest =>
    match skip with
    | skip + 1 => cookFrom skip rest
    | 0 =>
      if p.isChar '\\' then
        match rest with
        | [] => .ok [p]
        | next :: more =>
          match escapeAt next more with
          | .error fault => .error fault
          | .ok (value, used) => (cookFrom (used + 1) rest).map (value ++ ·)
      else
        (cookFrom 0 rest).map (p :: ·)

/-- The value of the text between the quotes of a string literal. -/
def cook (raw : Text) : Except EscapeFault Text := cookFrom 0 raw

/-- The value of a string literal, quotes included. -/
def stringValue (literal : Text) : Except EscapeFault Text := cook literal.tail.dropLast

theorem cookFrom_eq_drop (skip : Nat) (t : Text) : cookFrom skip t = cookFrom 0 (t.drop skip) := by
  induction t generalizing skip with
  | nil => simp [cookFrom]
  | cons p rest ih =>
    cases skip with
    | zero => rfl
    | succ skip => simpa [cookFrom] using ih skip

end LodashStyle.JavaScript
