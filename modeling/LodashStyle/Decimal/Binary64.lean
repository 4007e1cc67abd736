/-! # Binary floating point with 53 bits

A finite value is `mantissa * 2 ^ exponent` with a mantissa below `2 ^ 53` and an exponent
of at least `-1074`.  `round` finds the value nearest to a quotient, an exact half going to
the even mantissa, and `shortest` the fewest decimal digits that read back as a value.
All arithmetic is exact. -/

namespace LodashStyle

/-- A non-negative finite value. -/
structure Binary64 where
  mantissa : Nat
  exponent : Int
  deriving DecidableEq, Repr

/-- The decimal `digits * 10 ^ exponent`, the digits read as a numeral, most significant
    first. -/
structure Decimal where
  digits : List Nat
  exponent : Int
  deriving DecidableEq, Repr

/-- The number that a list of decimal digits denotes. -/
def Decimal.ofDigits (digits : List Nat) : Nat := digits.foldl (fun n d => n * 10 + d) 0

/-- The decimal digits of a number, most significant first. -/
def Decimal.toDigits (n : Nat) : List Nat := (Nat.toDigits 10 n).map fun c => c.toNat - 48

namespace Binary64

/-- The least exponent. -/
def minExponent : Int := -1074

/-- The greatest exponent. -/
def maxExponent : Int := 971

/-- The quotient rounded to the nearest integer, an exact half to the even one. -/
def roundDiv (num den : Nat) : Nat :=
  let q := num / den
  let twice := 2 * (num % den)
  if twice < den || (twice = den && q % 2 = 0) then q else q + 1

/-- `num / den / base ^ power` as a quotient of natural numbers. -/
def scale (num den base : Nat) (power : Int) : Nat × Nat :=
  match power with
  | .ofNat k => (num, den * Nat.pow base k)
  | .negSucc k => (num * Nat.pow base (k + 1), den)

/-- The value nearest to `num / den`, or `none` beyond the greatest finite one. -/
def round? (num den : Nat) : Option Binary64 :=
  if num = 0 then
    some ⟨0, minExponent⟩
  else
    let log : Int := (num.log2 : Int) - (den.log2 : Int)
    let (n, d) := scale num den 2 log
    let exponent := max minExponent (if n < d then log - 53 else log - 52)
    let (n, d) := scale num den 2 exponent
    let mantissa := roundDiv n d
    let value : Binary64 :=
      if mantissa = Nat.pow 2 53 then ⟨Nat.pow 2 52, exponent + 1⟩ else ⟨mantissa, exponent⟩
    if value.exponent ≤ maxExponent then some value else none

/-- The value nearest to a decimal, or `none` beyond the greatest finite one.  A decimal far
    outside the range is decided by its size alone. -/
def ofDecimal? (d : Decimal) : Option Binary64 :=
  let digits := d.digits.dropWhile (· == 0)
  let size : Int := digits.length + d.exponent
  if digits.isEmpty || size < -400 then some ⟨0, minExponent⟩
  else if 400 < size then none
  else
    let (num, den) := scale (Decimal.ofDigits digits) 1 10 (-d.exponent)
    round? num den

/-- The value as a quotient. -/
def ratio (x : Binary64) : Nat × Nat := scale x.mantissa 1 2 (-x.exponent)

/-- Whether `digits * 10 ^ power` rounds to `x`: it lies between the halfway points to the
    neighbours of `x`, which belong to `x` exactly when its mantissa is even. -/
def admits (x : Binary64) (digits : Nat) (power : Int) : Bool :=
  let (num, den) := scale digits 1 10 (-power)
  -- distances are measured in quarters of the last binary place of `x`
  let (num, den) := scale (4 * num) den 2 x.exponent
  let below := if x.mantissa = Nat.pow 2 52 && minExponent < x.exponent then 1 else 2
  let low := (4 * x.mantissa - below) * den
  let high := (4 * x.mantissa + 2) * den
  if x.mantissa % 2 = 0 then low ≤ num && num ≤ high else low < num && num < high

/-- The number of decimal places before the point, negative for zeros after it: the `p` with
    `10 ^ (p - 1) ≤ x < 10 ^ p`, searched upwards from `p` with at most `fuel` steps. -/
def places (num den : Nat) : Nat → Int → Int
  | 0, p => p
  | fuel + 1, p =>
    let (n, d) := scale num den 10 p
    if n < d then p else places num den fuel (p + 1)

/-- The nearer one of two neighbouring numerals that read back as `x`, the even one if both are
    equally near. -/
def nearest (x : Binary64) (power : Int) : Option Nat :=
  let (num, den) := x.ratio
  let (n, d) := scale num den 10 power
  let low := n / d
  match x.admits low power && low != 0, x.admits (low + 1) power with
  | true, false => some low
  | false, true => some (low + 1)
  | true, true => some (roundDiv n d)
  | false, false => none

/-- Looks for `count` digits that read back as `x`, then for more. -/
def shortestFrom (x : Binary64) (place : Int) (count : Nat) : Nat → Decimal
  | 0 => ⟨[0], 0⟩
  | fuel + 1 =>
    let power := place - count
    match x.nearest power with
    | some n => ⟨Decimal.toDigits n, power⟩
    | none => shortestFrom x place (count + 1) fuel

/-- The fewest decimal digits that read back as `x`, and of these the nearest to it. -/
def shortest (x : Binary64) : Decimal :=
  let (num, den) := x.ratio
  shortestFrom x (places num den 700 (-330)) 1 17

end Binary64

end LodashStyle
