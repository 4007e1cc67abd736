import LodashStyle.Decimal.Binary64
import LodashStyle.Text.Basic

/-! # Layout of decimals

How a decimal is written as a property key: positionally from `10 ^ -6` up to but not
including `10 ^ 21`, and with an exponent outside that range, never with a superfluous
zero.  Configuration messages show floating point values in another layout, with a point
or an exponent always present. -/

namespace LodashStyle.Decimal

/-- The decimal without its trailing zeros. -/
def normalize (d : Decimal) : Decimal :=
  let digits := (d.digits.reverse.dropWhile (· == 0)).reverse
  ⟨digits, d.exponent + (d.digits.length - digits.length : Nat)⟩

/-- The digits as text. -/
def digitText (digits : List Nat) : Text := digits.map fun d => .scalar (Nat.digitChar d)

/-- A run of zeros. -/
def zeros (n : Nat) : Text := List.replicate n (.scalar '0')

/-- The digits with a point after the first one, if there are more. -/
def pointed (digits : List Nat) : Text :=
  match digits with
  | [] => []
  | [d] => digitText [d]
  | d :: rest => digitText [d] ++ Text.ofChar '.' ++ digitText rest

/-- The text of a positive decimal as a property key. -/
def keyText (d : Decimal) : Text :=
  let d := d.normalize
  let count : Int := d.digits.length
  let point := d.exponent + count
  if count ≤ point ∧ point ≤ 21 then
    digitText d.digits ++ zeros (point - count).toNat
  else if 0 < point ∧ point ≤ 21 then
    digitText (d.digits.take point.toNat) ++ Text.ofChar '.' ++ digitText (d.digits.drop point.toNat)
  else if -6 < point ∧ point ≤ 0 then
    "0." ++ zeros (-point).toNat ++ digitText d.digits
  else
    let e := point - 1
    pointed d.digits ++ Text.ofChar 'e' ++ Text.ofChar (if 0 ≤ e then '+' else '-') ++
      Text.ofNat e.natAbs

/-- The text of a non-negative floating point value in messages: positional from `10 ^ -4` up to
    but not including `10 ^ 16`, with a point, and otherwise with an exponent of at least two
    digits. -/
def messageText (d : Decimal) : Text :=
  let d := d.normalize
  let count : Int := d.digits.length
  let point := d.exponent + count
  if d.digits.isEmpty then
    "0.0"
  else if -4 < point ∧ point ≤ 16 then
    if count ≤ point then
      digitText d.digits ++ zeros (point - count).toNat ++ (".0" : Text)
    else if 0 < point then
      digitText (d.digits.take point.toNat) ++ Text.ofChar '.' ++
        digitText (d.digits.drop point.toNat)
    else
      "0." ++ zeros (-point).toNat ++ digitText d.digits
  else
    let e := point - 1
    let exponent := Text.ofNat e.natAbs
    pointed d.digits ++ Text.ofChar 'e' ++ Text.ofChar (if 0 ≤ e then '+' else '-') ++
      zeros (2 - exponent.length) ++ exponent

end LodashStyle.Decimal
