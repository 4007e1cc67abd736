import LodashStyle.Text.Class

/-! # Releases

A release is a sequence of numbers such as `4.17.21`.  Missing numbers count as zero, so
`4`, `4.0` and `4.0.0` stand at the same place in the order. -/

namespace LodashStyle.Npm

/-- The numbers of a release, most significant first. -/
structure Release where
  numbers : List Nat
  deriving DecidableEq, Repr

namespace Release

/-- The first number. -/
def major (r : Release) : Nat := r.numbers.getD 0 0

/-- The second number. -/
def minor (r : Release) : Nat := r.numbers.getD 1 0

/-- The third number. -/
def patch (r : Release) : Nat := r.numbers.getD 2 0

/-- Whether the numbers `a` come before the numbers `b`, missing ones being zero. -/
def numbersLt : List Nat → List Nat → Bool
  | _, [] => false
  | [], b :: bs => 0 < b || numbersLt [] bs
  | a :: as, b :: bs => a < b || (a == b && numbersLt as bs)

/-- Whether one release comes before another. -/
def lt (a b : Release) : Bool := numbersLt a.numbers b.numbers

/-- The text of a release. -/
def text (r : Release) : Text := Text.join "." (r.numbers.map Text.ofNat)

/-- The number that a non-empty sequence of ASCII digits denotes. -/
def number? (t : Text) : Option Nat :=
  if t.isEmpty then none
  else t.foldlM (fun n p =>
    match p with
    | .scalar c => if c.isDigit then some (n * 10 + (c.toNat - '0'.toNat)) else none
    | .surrogate _ => none) 0

/-- The greatest number of digits of a number. -/
def maxDigits : Nat := 4300

end Release

end LodashStyle.Npm
