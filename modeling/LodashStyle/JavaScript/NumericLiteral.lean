import LodashStyle.Decimal.Layout

/-! # Keys of numeric literals

A numeric literal used as a property key stands for the text of its value: `0x10` for
`16`, `1.50` for `1.5`, `1e3` for `1000`.  Separators and case do not matter.  A literal
with the suffix `n` and one whose value is beyond the floating point range have no key. -/

namespace LodashStyle.JavaScript

/-- The character in lower case, for ASCII letters. -/
def lower : CodePoint → CodePoint
  | .scalar c => .scalar c.toLower
  | p => p

/-- The value of a digit in lower case, letters counting from ten. -/
def digitValue? : CodePoint → Option Nat
  | .surrogate _ => none
  | .scalar c =>
    if c.isDigit then some (c.toNat - '0'.toNat)
    else if 'a' ≤ c ∧ c ≤ 'z' then some (c.toNat - 'a'.toNat + 10)
    else none

/-- The number that a non-empty digit sequence of a base denotes. -/
def natOfDigits? (base : Nat) (digits : Text) : Option Nat :=
  if digits.isEmpty then none
  else digits.foldlM (fun n p => do
    let d ← digitValue? p
    if d < base then some (n * base + d) else none) 0

/-- The leading decimal digits of a text, and the rest. -/
def digitRun (t : Text) : List Nat × Text :=
  let isDecimal := fun (p : CodePoint) => (digitValue? p).any (· < 10)
  ((t.takeWhile isDecimal).filterMap digitValue?, t.dropWhile isDecimal)

/-- The exponent part of a numeral: nothing, or `e`, an optional sign and digits. -/
def exponentPart? : Text → Option Int
  | [] => some 0
  | p :: rest =>
    if !p.isChar 'e' then none
    else
      let (negative, body) : Bool × Text :=
        match rest with
        | q :: more =>
          if q.isChar '-' then (true, more) else if q.isChar '+' then (false, more) else (false, rest)
        | [] => (false, [])
      (natOfDigits? 10 body).map fun n => if negative then -(n : Int) else n

/-- The decimal that a numeral denotes: digits with an optional point among them, and an
    optional exponent. -/
def decimal? (t : Text) : Option Decimal :=
  let (whole, rest) := digitRun t
  let (fraction, rest) : List Nat × Text :=
    match rest with
    | p :: more => if p.isChar '.' then digitRun more else ([], rest)
    | [] => ([], [])
  if whole.isEmpty && fraction.isEmpty then none
  else (exponentPart? rest).map fun e => ⟨whole ++ fraction, e - fraction.length⟩

/-- The base that a prefix of a numeral in lower case announces. -/
def announcedBase? : Text → Option Nat
  | z :: p :: _ =>
    if !z.isChar '0' then none
    else if p.isChar 'x' then some 16
    else if p.isChar 'o' then some 8
    else if p.isChar 'b' then some 2
    else none
  | _ => none

/-- An octal numeral of the old form: a zero and at least one octal digit. -/
def isLegacyOctal : Text → Bool
  | z :: p :: rest =>
    z.isChar '0' && (p :: rest).all fun q => (digitValue? q).any (· < 8)
  | _ => false

/-- The floating point value of a numeral in lower case without separators. -/
def numericValue? (t : Text) : Option Binary64 :=
  match announcedBase? t with
  | some base => do Binary64.round? (← natOfDigits? base (t.drop 2)) 1
  | none =>
    if isLegacyOctal t then do Binary64.round? (← natOfDigits? 8 t) 1
    else do Binary64.ofDecimal? (← decimal? t)

/-- The text of a value as a property key. -/
def valueKey (x : Binary64) : Text :=
  if x.mantissa = 0 then "0" else x.shortest.keyText

/-- The property key of a numeric literal. -/
def numericKey? (literal : Text) : Option Text :=
  let t := (literal.filter fun p => !p.isChar '_').map lower
  if t.isEmpty || t.getLast?.any (·.isChar 'n') then none
  else (numericValue? t).map valueKey

end LodashStyle.JavaScript
