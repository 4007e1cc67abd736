import LodashStyle.Decimal.Layout
import Mathlib.Algebra.Order.Field.Power
import Mathlib.Data.Nat.Log
import Mathlib.Data.Rat.Cast.Order
import Mathlib.Tactic.FieldSimp
import Mathlib.Tactic.Linarith
import Mathlib.Tactic.NormNum
import Mathlib.Tactic.Positivity

/-!
# Integers in binary floating point

A floating point value is a rational number, and so is every quotient that its arithmetic compares.
Seen so, an integer up to `2 ^ 53` is its own rounding, and the shortest decimal that reads back as it
is a numeral for it: a shorter one would have to be a different integer, less than the distance of two
integers away.  At `2 ^ 53` itself the last binary place is two units, but the neighbours of this number
do not end in a zero.

## Key results

- `scale_div`: scaling a quotient divides it by the power
- `exists_round?`: an integer up to `2 ^ 53` is its own rounding
- `bounds_of_admits`, `admits_of_eq_value`: what reads back as a value is near to it, and the value does
- `IsInteger.exists_shortest`: the shortest decimal of an integer up to `2 ^ 53` has its value
-/

namespace LodashStyle.Binary64

/-! ## Quotients -/

theorem scale_snd_pos {den base : Nat} (hden : 0 < den) (hbase : 0 < base) (num : Nat) (power : Int) :
    0 < (scale num den base power).2 := by
  cases power with
  | ofNat k => exact Nat.mul_pos hden (Nat.pow_pos hbase)
  | negSucc k => exact hden

/-- Scaling divides a quotient by the power. -/
theorem scale_div (num den base : Nat) (power : Int) :
    ((scale num den base power).1 : ℚ) / (scale num den base power).2 = num / den / (base : ℚ) ^ power := by
  cases power with
  | ofNat k => simp [scale, div_div]
  | negSucc k => simp [scale, zpow_negSucc, mul_div_right_comm]

/-- A quotient is rounded down or up by less than one. -/
theorem roundDiv_eq_or (num den : Nat) : roundDiv num den = num / den ∨ roundDiv num den = num / den + 1 := by
  unfold roundDiv
  dsimp only
  split
  · exact .inl rfl
  · exact .inr rfl

/-- A quotient without a remainder needs no rounding. -/
theorem roundDiv_mul {den : Nat} (hden : 0 < den) (m : Nat) : roundDiv (m * den) den = m := by
  simp [roundDiv, Nat.mul_div_cancel m hden, hden]

/-- A quotient that is scaled to an integer is a multiple of its denominator. -/
theorem scale_fst_eq {num den base m : Nat} {power : Int} (hden : 0 < den) (hbase : 0 < base)
    (h : (num / den / (base : ℚ) ^ power : ℚ) = m) :
    (scale num den base power).1 = m * (scale num den base power).2 := by
  have hpos : (0 : ℚ) < (scale num den base power).2 := by exact_mod_cast scale_snd_pos hden hbase num power
  have hdiv := scale_div num den base power
  rw [h, div_eq_iff hpos.ne'] at hdiv
  exact_mod_cast hdiv

/-- A scaled fraction is below one if the fraction is below the power. -/
theorem scale_lt_iff {den base : Nat} (hden : 0 < den) (hbase : 0 < base) (num : Nat) (power : Int) :
    (scale num den base power).1 < (scale num den base power).2 ↔ (num / den : ℚ) < (base : ℚ) ^ power := by
  have hpos : (0 : ℚ) < (scale num den base power).2 := by exact_mod_cast scale_snd_pos hden hbase num power
  have hpow : (0 : ℚ) < (base : ℚ) ^ power := by positivity
  rw [← @Nat.cast_lt ℚ, ← div_lt_one hpos, scale_div, div_lt_one hpow]

/-! ## Rounding -/

/-- The value as a rational number. -/
def value (x : Binary64) : ℚ := x.mantissa * 2 ^ x.exponent

/-- The value of a positive integer up to `2 ^ 53`.  Its last binary place is at most one unit, or two at
    the bound. -/
structure IsInteger (x : Binary64) (v : Nat) : Prop where
  pos : 0 < v
  le : v ≤ 2 ^ 53
  mantissa : 0 < x.mantissa
  value_eq : x.value = v
  place : x.exponent ≤ 0 ∨ x.exponent = 1 ∧ v = 2 ^ 53

/-- Below `2 ^ 53` an integer is its own rounding, with a mantissa of its binary places and zeros. -/
theorem round?_of_lt {v : Nat} (hv : 0 < v) (hlt : v < 2 ^ 53) :
    ∃ x, round? v 1 = some x ∧ x.IsInteger v := by
  have hlog : v.log2 < 53 := (Nat.log2_lt hv.ne').2 hlt
  obtain ⟨k, hk⟩ := Nat.exists_eq_add_of_le (Nat.le_of_lt_succ hlog)
  -- The mantissa is the number with `k` further binary places.
  have hmantissa : v * 2 ^ k < 2 ^ 53 := by
    calc v * 2 ^ k < 2 ^ (v.log2 + 1) * 2 ^ k := Nat.mul_lt_mul_of_pos_right Nat.lt_log2_self (by positivity)
      _ = 2 ^ 53 := by rw [← Nat.pow_add]; congr 1; omega
  have hquotient : ((v : ℚ) / (1 : Nat) / ((2 : Nat) : ℚ) ^ (-(k : Int))) = (v * 2 ^ k : Nat) := by
    push_cast
    rw [zpow_neg, zpow_natCast]
    field_simp
  have hround : roundDiv (scale v 1 2 (-(k : Int))).1 (scale v 1 2 (-(k : Int))).2 = v * 2 ^ k := by
    rw [scale_fst_eq one_pos two_pos hquotient, roundDiv_mul (scale_snd_pos one_pos two_pos _ _)]
  have hself : ¬(scale v 1 2 (v.log2 : Int)).1 < (scale v 1 2 (v.log2 : Int)).2 := by
    simpa [scale] using Nat.log2_self_le hv.ne'
  have hexponent : max minExponent ((v.log2 : Int) - 52) = -(k : Int) := by
    unfold minExponent
    omega
  have hplace : -(k : Int) ≤ 0 := by omega
  refine ⟨⟨v * 2 ^ k, -(k : Int)⟩, ?_, hv, hlt.le, Nat.mul_pos hv (by positivity), ?_, .inl hplace⟩
  · have hone : Nat.log2 1 = 0 := rfl
    have hne : ¬v * 2 ^ k = Nat.pow 2 53 := hmantissa.ne
    have hle : -(k : Int) ≤ maxExponent := by
      unfold maxExponent
      omega
    simp only [round?, hv.ne', if_false, hone, Nat.cast_zero, sub_zero, hself, hexponent, hround, hne, hle,
      if_true]
  · rw [value]
    push_cast
    rw [zpow_neg, zpow_natCast]
    field_simp

/-- The integers up to `2 ^ 53` are values, so that rounding keeps them. -/
theorem exists_round? {v : Nat} (hv : 0 < v) (hle : v ≤ 2 ^ 53) :
    ∃ x, round? v 1 = some x ∧ x.IsInteger v := by
  rcases hle.eq_or_lt with rfl | hlt
  · have hround : round? (2 ^ 53) 1 = some ⟨2 ^ 52, 1⟩ := by decide +kernel
    exact ⟨_, hround, hv, le_rfl, by norm_num, by norm_num [value], .inr ⟨rfl, rfl⟩⟩
  · exact round?_of_lt hv hlt

/-! ## Reading back -/

/-- The numeral `n * 10 ^ power` in quarters of the last binary place of `x`, as a quotient. -/
def quarters (x : Binary64) (n : Nat) (power : Int) : Nat × Nat :=
  scale (4 * (scale n 1 10 (-power)).1) (scale n 1 10 (-power)).2 2 x.exponent

/-- How many quarters below `x` still read back as `x`. -/
def quartersBelow (x : Binary64) : Nat :=
  if x.mantissa = Nat.pow 2 52 && minExponent < x.exponent then 1 else 2

/-- At least one quarter below a value reads back as it, and at most two do. -/
theorem quartersBelow_bounds (x : Binary64) : 1 ≤ x.quartersBelow ∧ x.quartersBelow ≤ 2 := by
  unfold quartersBelow
  split <;> decide

theorem quarters_snd_pos (x : Binary64) (n : Nat) (power : Int) : 0 < (x.quarters n power).2 :=
  scale_snd_pos (scale_snd_pos one_pos (by decide) n (-power)) two_pos _ _

theorem quarters_fst (x : Binary64) (n : Nat) (power : Int) :
    ((x.quarters n power).1 : ℚ) = 4 * (n * 10 ^ power) / 2 ^ x.exponent * (x.quarters n power).2 := by
  have hpos : ((x.quarters n power).2 : ℚ) ≠ 0 := by exact_mod_cast (x.quarters_snd_pos n power).ne'
  rw [← div_eq_iff hpos, quarters, scale_div]
  push_cast
  rw [mul_div_assoc, scale_div, zpow_neg]
  push_cast
  rw [div_one, div_inv_eq_mul]

theorem admits_iff (x : Binary64) (n : Nat) (power : Int) :
    x.admits n power = true ↔
      if x.mantissa % 2 = 0 then
        (4 * x.mantissa - x.quartersBelow) * (x.quarters n power).2 ≤ (x.quarters n power).1 ∧
          (x.quarters n power).1 ≤ (4 * x.mantissa + 2) * (x.quarters n power).2
      else
        (4 * x.mantissa - x.quartersBelow) * (x.quarters n power).2 < (x.quarters n power).1 ∧
          (x.quarters n power).1 < (4 * x.mantissa + 2) * (x.quarters n power).2 := by
  unfold admits quarters quartersBelow
  dsimp only
  split <;> simp only [Bool.and_eq_true, decide_eq_true_eq]

/-- A numeral that reads back as `x` is at most half of the last binary place away from it. -/
theorem bounds_of_admits {x : Binary64} {n : Nat} {power : Int} (h : x.admits n power = true) :
    x.value - 2 ^ x.exponent / 2 ≤ n * 10 ^ power ∧ n * 10 ^ power ≤ x.value + 2 ^ x.exponent / 2 := by
  have hbounds : (4 * x.mantissa - x.quartersBelow) * (x.quarters n power).2 ≤ (x.quarters n power).1 ∧
      (x.quarters n power).1 ≤ (4 * x.mantissa + 2) * (x.quarters n power).2 := by
    rw [admits_iff] at h
    split at h
    · exact h
    · exact ⟨h.1.le, h.2.le⟩
  have hden : (0 : ℚ) < (x.quarters n power).2 := by exact_mod_cast x.quarters_snd_pos n power
  have hunit : (0 : ℚ) < 2 ^ x.exponent := by positivity
  -- The bounds without the common denominator.
  have hlow : (4 * x.mantissa - 2 : ℚ) ≤ 4 * (n * 10 ^ power) / 2 ^ x.exponent := by
    have hsub : 4 * x.mantissa ≤ 4 * x.mantissa - x.quartersBelow + 2 := by
      have := x.quartersBelow_bounds
      omega
    have hsub' : (4 * x.mantissa - 2 : ℚ) ≤ (4 * x.mantissa - x.quartersBelow : Nat) := by
      rw [sub_le_iff_le_add]
      exact_mod_cast hsub
    refine le_of_mul_le_mul_right (le_trans (mul_le_mul_of_nonneg_right hsub' hden.le) ?_) hden
    rw [← quarters_fst]
    exact_mod_cast hbounds.1
  have hhigh : (4 * (n * 10 ^ power) / 2 ^ x.exponent : ℚ) ≤ 4 * x.mantissa + 2 := by
    refine le_of_mul_le_mul_right ?_ hden
    rw [← quarters_fst]
    exact_mod_cast hbounds.2
  rw [le_div_iff₀ hunit] at hlow
  rw [div_le_iff₀ hunit] at hhigh
  unfold value
  constructor <;> linarith

/-- The value itself reads back. -/
theorem admits_of_eq_value {x : Binary64} {n : Nat} {power : Int} (hx : 0 < x.mantissa)
    (h : (n * 10 ^ power : ℚ) = x.value) : x.admits n power = true := by
  have hunit : (2 ^ x.exponent : ℚ) ≠ 0 := by positivity
  have hden := x.quarters_snd_pos n power
  have heq : (x.quarters n power).1 = 4 * x.mantissa * (x.quarters n power).2 := by
    have hfst := x.quarters_fst n power
    rw [h, value, ← mul_assoc, mul_div_cancel_right₀ _ hunit] at hfst
    exact_mod_cast hfst
  have hbelow := x.quartersBelow_bounds
  have hlow : (4 * x.mantissa - x.quartersBelow) * (x.quarters n power).2 < (x.quarters n power).1 := by
    rw [heq]
    exact Nat.mul_lt_mul_of_pos_right (by omega) hden
  have hhigh : (x.quarters n power).1 < (4 * x.mantissa + 2) * (x.quarters n power).2 := by
    rw [heq]
    exact Nat.mul_lt_mul_of_pos_right (by omega) hden
  rw [admits_iff]
  split
  · exact ⟨hlow.le, hhigh.le⟩
  · exact ⟨hlow, hhigh⟩

/-- The two numbers of a value are its fraction. -/
theorem ratio_div (x : Binary64) : (x.ratio.1 : ℚ) / x.ratio.2 = x.value := by
  rw [ratio, scale_div, value]
  push_cast
  rw [div_one, zpow_neg, div_inv_eq_mul]

theorem ratio_snd_pos (x : Binary64) : 0 < x.ratio.2 := scale_snd_pos one_pos two_pos _ _

/-- What the search for digits finds reads back. -/
theorem admits_of_nearest {x : Binary64} {n : Nat} {power : Int} (h : x.nearest power = some n) :
    x.admits n power = true := by
  unfold nearest at h
  dsimp only at h
  split at h
  · rename_i hlow _
    obtain rfl := Option.some.inj h
    exact (Bool.and_eq_true_iff.1 hlow).1
  · rename_i hhigh
    obtain rfl := Option.some.inj h
    exact hhigh
  · rename_i hlow hhigh
    obtain rfl := Option.some.inj h
    -- The rounded quotient is one of the two neighbours, both of which are admitted.
    rcases roundDiv_eq_or (scale x.ratio.1 x.ratio.2 10 power).1 (scale x.ratio.1 x.ratio.2 10 power).2
      with heq | heq
    · rw [heq]
      exact (Bool.and_eq_true_iff.1 hlow).1
    · rw [heq]
      exact hhigh
  · exact nomatch h

/-- Among the numerals without a power of ten the nearest one to an integer is the integer. -/
theorem IsInteger.nearest_zero {x : Binary64} {v : Nat} (h : x.IsInteger v) : x.nearest 0 = some v := by
  have hratio : ((x.ratio.1 : ℚ) / x.ratio.2 / ((10 : Nat) : ℚ) ^ (0 : Int)) = v := by
    rw [zpow_zero, div_one, ratio_div, h.value_eq]
  have hscale := scale_fst_eq x.ratio_snd_pos (by decide : 0 < 10) hratio
  have hpos := scale_snd_pos x.ratio_snd_pos (by decide : 0 < 10) x.ratio.1 0
  have hadmits : x.admits v 0 = true := admits_of_eq_value h.mantissa (by rw [zpow_zero, mul_one, h.value_eq])
  unfold nearest
  dsimp only
  have hne : (v != 0) = true := by simpa using h.pos.ne'
  rw [hscale, Nat.mul_div_cancel v hpos, roundDiv_mul hpos, hadmits, hne]
  cases x.admits (v + 1) 0 <;> rfl

/-! ## The shortest decimal -/

/-- The search for the number of places stops at the first power that is greater. -/
theorem places_eq {num den : Nat} (hden : 0 < den) {place : Int}
    (hbelow : ∀ q < place, (10 : ℚ) ^ q ≤ num / den) (hplace : (num / den : ℚ) < 10 ^ place) :
    ∀ (fuel : Nat) (start : Int), start ≤ place → place ≤ start + fuel →
      places num den fuel start = place := by
  intro fuel
  induction fuel with
  | zero =>
    intro start hstart hfuel
    rw [places]
    omega
  | succ fuel ih =>
    intro start hstart hfuel
    rw [places]
    dsimp only
    have hstop := scale_lt_iff hden (by decide : 0 < 10) num start
    rcases hstart.eq_or_lt with rfl | hlt
    · rw [if_pos (hstop.2 (by exact_mod_cast hplace))]
    · rw [if_neg, ih (start + 1) (by omega) (by push_cast at hfuel; omega)]
      rw [hstop, not_lt]
      exact_mod_cast hbelow start hlt

/-- A numeral that ends in a zero and reads back as an integer is equal to it. -/
theorem IsInteger.eq_of_admits {x : Binary64} {v n k : Nat} (h : x.IsInteger v) (hk : 0 < k)
    (hadmits : x.admits n k = true) : n * 10 ^ k = v := by
  obtain ⟨hlow, hhigh⟩ := bounds_of_admits hadmits
  rw [h.value_eq, zpow_natCast] at hlow hhigh
  rcases h.place with hexponent | ⟨hexponent, rfl⟩
  · -- Half a unit or less apart, two integers are equal.
    have hle : (2 : ℚ) ^ x.exponent ≤ 1 := zpow_le_one_of_nonpos₀ one_le_two hexponent
    have hlt : (v : ℚ) < (n * 10 ^ k : Nat) + 1 := by
      push_cast
      linarith
    have hlt' : ((n * 10 ^ k : Nat) : ℚ) < v + 1 := by
      push_cast
      linarith
    have hnat : v < n * 10 ^ k + 1 := by exact_mod_cast hlt
    have hnat' : n * 10 ^ k < v + 1 := by exact_mod_cast hlt'
    omega
  · -- The neighbours of the bound itself do not end in a zero.
    rw [hexponent] at hlow hhigh
    have hle : 2 ^ 53 ≤ n * 10 ^ k + 1 := by
      have : ((2 ^ 53 : Nat) : ℚ) ≤ (n * 10 ^ k : Nat) + 1 := by
        push_cast at hlow ⊢
        linarith
      exact_mod_cast this
    have hle' : n * 10 ^ k ≤ 2 ^ 53 + 1 := by
      have : ((n * 10 ^ k : Nat) : ℚ) ≤ (2 ^ 53 : Nat) + 1 := by
        push_cast at hhigh ⊢
        linarith
      exact_mod_cast this
    obtain ⟨j, rfl⟩ := Nat.exists_eq_succ_of_ne_zero hk.ne'
    have hten : n * 10 ^ j.succ = n * 10 ^ j * 10 := by rw [pow_succ, mul_assoc]
    omega

/-- The search for digits, with `k` places before the point left out, ends with a numeral of the
    integer. -/
theorem IsInteger.shortestFrom {x : Binary64} {v : Nat} (h : x.IsInteger v) {place : Int} :
    ∀ (fuel count k : Nat), place - count = k → k < fuel →
      ∃ n m : Nat, Binary64.shortestFrom x place count fuel = ⟨Decimal.toDigits n, m⟩ ∧ n * 10 ^ m = v := by
  intro fuel
  induction fuel with
  | zero => intro _ _ _ hlt; exact absurd hlt (Nat.not_lt_zero _)
  | succ fuel ih =>
    intro count k hk hlt
    rw [Binary64.shortestFrom, hk]
    cases k with
    | zero =>
      -- All places before the point are there, and the number itself is found.
      rw [Nat.cast_zero, h.nearest_zero]
      exact ⟨v, 0, rfl, by rw [pow_zero, mul_one]⟩
    | succ k =>
      cases hnearest : x.nearest (k + 1 : Nat) with
      | some n => exact ⟨n, k + 1, rfl, h.eq_of_admits k.succ_pos (admits_of_nearest hnearest)⟩
      | none => exact ih (count + 1) k (by push_cast at hk ⊢; omega) (by omega)

/-- The shortest decimal that reads back as an integer up to `2 ^ 53` has its value. -/
theorem IsInteger.exists_shortest {x : Binary64} {v : Nat} (h : x.IsInteger v) :
    ∃ n k : Nat, x.shortest = ⟨Decimal.toDigits n, k⟩ ∧ n * 10 ^ k = v := by
  have hlog : Nat.log 10 v < 16 := Nat.log_lt_of_lt_pow h.pos.ne' (lt_of_le_of_lt h.le (by decide))
  have hplaces : places x.ratio.1 x.ratio.2 700 (-330) = (Nat.log 10 v + 1 : Nat) := by
    refine places_eq x.ratio_snd_pos ?_ ?_ 700 (-330) (by omega) (by omega)
    · intro q hq
      rw [ratio_div, h.value_eq]
      calc (10 : ℚ) ^ q ≤ 10 ^ (Nat.log 10 v : Int) := zpow_le_zpow_right₀ (by norm_num) (by omega)
        _ = (10 ^ Nat.log 10 v : Nat) := by push_cast; rw [zpow_natCast]
        _ ≤ v := by exact_mod_cast Nat.pow_log_le_self 10 h.pos.ne'
    · rw [ratio_div, h.value_eq, zpow_natCast]
      exact_mod_cast Nat.lt_pow_succ_log_self (by decide) v
  unfold shortest
  dsimp only
  rw [hplaces]
  exact h.shortestFrom 17 1 (Nat.log 10 v) (by push_cast; omega) (by omega)

end LodashStyle.Binary64
