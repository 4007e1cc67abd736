import LodashStyle.Proofs.IntegerKeys

/-!
# Numbers as property keys

A positive decimal is laid out in one of four ways, after its trailing zeros are gone: with zeros behind
its digits, with a point among them, with zeros in front of them, or with an exponent.  `Numeral` is the
one form behind all four: digits before a point, digits behind it and an exponent, of which the latter
two may be missing.

A number lies between two powers of ten, which tell how far its digits reach to the left of the point
(`point`), and this alone decides how the number is laid out.

## Key results

- `zpow_le_value_iff`: how a decimal compares to the powers of ten
- `eq_of_value_eq`: decimals without trailing zeros are known from their values
- `Numeral.decimal?_text`: a numeral is read as its digits and its exponent
- `Layout.value_decimal`, `Layout.isCanonical`: every layout keeps the value and has no superfluous zero
- `number_keys_exact`: so keys of numbers are exact, and equal for equal numbers only
-/

namespace LodashStyle

namespace Decimal

/-! ## Values -/

/-- The number that a decimal denotes. -/
def value (d : Decimal) : ℚ := ofDigits d.digits * 10 ^ d.exponent

/-- How many places the digits take before the point; zeros behind the point count as negative. -/
def point (d : Decimal) : Int := d.exponent + d.digits.length

/-- A decimal of a positive number: digits below ten, the first of which is no zero. -/
structure IsPositive (d : Decimal) : Prop where
  digit : ∀ x ∈ d.digits, x < 10
  lead : ∃ x rest, d.digits = x :: rest ∧ x ≠ 0

/-- The digits of a number are those of Mathlib's, the other way round. -/
theorem ofDigits_eq (ds : List Nat) : ofDigits ds = Nat.ofDigits 10 ds.reverse := JavaScript.foldl_digits 10 ds

/-- Digits before others count for more by a power of ten. -/
theorem ofDigits_append (s t : List Nat) : ofDigits (s ++ t) = ofDigits s * 10 ^ t.length + ofDigits t := by
  simp only [ofDigits_eq, List.reverse_append, Nat.ofDigits_append, List.length_reverse]
  ring

theorem ofDigits_replicate_zero (n : Nat) : ofDigits (List.replicate n 0) = 0 := by
  rw [ofDigits_eq, List.reverse_replicate, Nat.ofDigits_replicate_zero]

theorem ofDigits_zeros_append (n : Nat) (ds : List Nat) :
    ofDigits (List.replicate n 0 ++ ds) = ofDigits ds := by
  rw [ofDigits_append, ofDigits_replicate_zero, Nat.zero_mul, Nat.zero_add]

theorem ofDigits_append_zeros (ds : List Nat) (n : Nat) :
    ofDigits (ds ++ List.replicate n 0) = ofDigits ds * 10 ^ n := by
  rw [ofDigits_append, ofDigits_replicate_zero, List.length_replicate, Nat.add_zero]

/-- A number is below the power of ten with as many zeros as it has digits. -/
theorem ofDigits_lt {ds : List Nat} (h : ∀ x ∈ ds, x < 10) : ofDigits ds < 10 ^ ds.length := by
  rw [ofDigits_eq, ← List.length_reverse]
  apply Nat.ofDigits_lt_base_pow_length (by decide)
  intro x hx
  exact h x (List.mem_reverse.1 hx)

/-- Digits of one number are of one kind, if there are equally many. -/
theorem eq_of_ofDigits_eq {s t : List Nat} (hs : ∀ x ∈ s, x < 10) (ht : ∀ x ∈ t, x < 10)
    (hlength : s.length = t.length) (h : ofDigits s = ofDigits t) : s = t := by
  rw [ofDigits_eq, ofDigits_eq] at h
  apply List.reverse_injective
  apply Nat.ofDigits_inj_of_len_eq (by decide) (by simpa using hlength) _ _ h
  · intro x hx
    exact hs x (List.mem_reverse.1 hx)
  · intro x hx
    exact ht x (List.mem_reverse.1 hx)

/-- A positive number is less than the power of ten that its digits reach up to, and not less than
    the one below it. -/
theorem zpow_le_value_iff {d : Decimal} (hd : d.IsPositive) (k : Int) :
    (10 : ℚ) ^ k ≤ d.value ↔ k < d.point := by
  have hpos : (0 : ℚ) < 10 ^ d.exponent := by positivity
  obtain ⟨x, rest, hdigits, hx⟩ := hd.lead
  -- The value lies between two neighbouring powers of ten.
  have hlow : (10 : ℚ) ^ (d.point - 1) ≤ d.value := by
    have hdigitsLow : (10 : ℚ) ^ rest.length ≤ ofDigits d.digits := by
      rw [hdigits]
      exact_mod_cast pow_le_ofDigits hx rest
    calc (10 : ℚ) ^ (d.point - 1) = 10 ^ rest.length * 10 ^ d.exponent := by
          rw [← zpow_natCast, ← zpow_add₀ (by norm_num), point, hdigits, List.length_cons]
          congr 1
          push_cast
          ring
      _ ≤ d.value := mul_le_mul_of_nonneg_right hdigitsLow hpos.le
  have hhigh : d.value < (10 : ℚ) ^ d.point := by
    have hdigitsHigh : (ofDigits d.digits : ℚ) < 10 ^ d.digits.length := by
      exact_mod_cast ofDigits_lt hd.digit
    calc d.value < 10 ^ d.digits.length * 10 ^ d.exponent := mul_lt_mul_of_pos_right hdigitsHigh hpos
      _ = 10 ^ d.point := by
          rw [← zpow_natCast, ← zpow_add₀ (by norm_num), point, add_comm]
  constructor
  · intro hle
    by_contra hge
    have hpow : (10 : ℚ) ^ d.point ≤ 10 ^ k := zpow_le_zpow_right₀ (by norm_num) (by omega)
    linarith
  · intro hlt
    have hpow : (10 : ℚ) ^ k ≤ 10 ^ (d.point - 1) := zpow_le_zpow_right₀ (by norm_num) (by omega)
    linarith

/-! ## Trailing zeros -/

/-- Normalizing keeps the value. -/
theorem value_normalize (d : Decimal) : d.normalize.value = d.value := by
  have hexponent : d.normalize.exponent = d.exponent + (d.digits.length - d.normalize.digits.length : Nat) := rfl
  have hdigits : ofDigits d.digits =
      ofDigits d.normalize.digits * 10 ^ (d.digits.length - d.normalize.digits.length) := by
    conv_lhs => rw [d.digits_eq_normalize, ofDigits_append_zeros]
  unfold value
  rw [hdigits, hexponent, zpow_add₀ (by norm_num), zpow_natCast]
  push_cast
  ring

/-- The point stays where it is. -/
theorem point_normalize (d : Decimal) : d.normalize.point = d.point := by
  have hexponent : d.normalize.exponent = d.exponent + (d.digits.length - d.normalize.digits.length : Nat) := rfl
  have hle := d.length_normalize_le
  unfold point
  omega

/-- No zero is left at the end. -/
theorem getLast?_normalize (d : Decimal) : d.normalize.digits.getLast? ≠ some 0 := by
  intro hlast
  have hne : d.normalize.digits ≠ [] := by
    intro hnil
    rw [hnil] at hlast
    exact nomatch hlast
  have hkept := List.rdropWhile_last_not (· == 0) d.digits hne
  rw [List.getLast?_eq_some_getLast hne, Option.some_inj] at hlast
  exact hkept (beq_iff_eq.2 hlast)

theorem IsPositive.normalize {d : Decimal} (hd : d.IsPositive) : d.normalize.IsPositive := by
  constructor
  · intro x hx
    apply hd.digit
    rw [d.digits_eq_normalize]
    exact List.mem_append_left _ hx
  · obtain ⟨x, rest, hdigits, hx⟩ := hd.lead
    have hsplit := d.digits_eq_normalize
    rw [hdigits] at hsplit
    cases hnormal : d.normalize.digits with
    | nil =>
      -- Then all digits would be zeros, the first one too.
      rw [hnormal, List.nil_append] at hsplit
      have hmem : x ∈ x :: rest := List.mem_cons_self
      rw [hsplit] at hmem
      exact absurd (List.eq_of_mem_replicate hmem) hx
    | cons y more =>
      rw [hnormal, List.cons_append] at hsplit
      exact ⟨y, more, rfl, (List.cons.inj hsplit).1 ▸ hx⟩

/-- Without trailing zeros, the longer one of two decimals of a number is as long as the other one. -/
theorem eq_of_value_eq {d e : Decimal} (hd : d.IsPositive) (he : e.IsPositive)
    (hlast : e.digits.getLast? ≠ some 0) (hle : d.digits.length ≤ e.digits.length)
    (h : d.value = e.value) : d = e := by
  -- Equal numbers reach up to the same power of ten.
  have hpoint : d.point = e.point := by
    have hdown : e.point - 1 < d.point := by
      rw [← zpow_le_value_iff hd, h, zpow_le_value_iff he]
      omega
    have hup : d.point - 1 < e.point := by
      rw [← zpow_le_value_iff he, ← h, zpow_le_value_iff hd]
      omega
    omega
  obtain ⟨k, hk⟩ := Nat.exists_eq_add_of_le hle
  -- So the digits of the one are those of the other one and zeros.
  have hdigits : d.digits ++ List.replicate k 0 = e.digits := by
    apply eq_of_ofDigits_eq
    · intro x hx
      obtain hx | hx := List.mem_append.1 hx
      · exact hd.digit x hx
      · rw [List.eq_of_mem_replicate hx]
        decide
    · exact he.digit
    · rw [List.length_append, List.length_replicate, hk]
    · have hexponent : d.exponent = k + e.exponent := by
        unfold point at hpoint
        omega
      have hpos : (10 : ℚ) ^ e.exponent ≠ 0 := by positivity
      rw [ofDigits_append_zeros]
      rw [value, value, hexponent, zpow_add₀ (by norm_num), ← mul_assoc, zpow_natCast] at h
      exact_mod_cast mul_right_cancel₀ hpos h
  cases k with
  | zero =>
    rw [List.replicate_zero, List.append_nil] at hdigits
    have hexponent : d.exponent = e.exponent := by
      unfold point at hpoint
      rw [hdigits] at hpoint
      omega
    obtain ⟨ds, exponent⟩ := d
    obtain ⟨es, exponent'⟩ := e
    obtain rfl : ds = es := hdigits
    obtain rfl : exponent = exponent' := hexponent
    rfl
  | succ k =>
    rw [← hdigits, List.replicate_succ', ← List.append_assoc, List.getLast?_concat] at hlast
    exact absurd rfl hlast

/-- Two positive decimals have the same value exactly when they are normalized alike. -/
theorem normalize_eq_iff {d e : Decimal} (hd : d.IsPositive) (he : e.IsPositive) :
    d.normalize = e.normalize ↔ d.value = e.value := by
  constructor
  · intro h
    rw [← d.value_normalize, ← e.value_normalize, h]
  · intro h
    rw [← d.value_normalize, ← e.value_normalize] at h
    rcases Nat.le_total d.normalize.digits.length e.normalize.digits.length with hle | hle
    · exact eq_of_value_eq hd.normalize he.normalize e.getLast?_normalize hle h
    · exact (eq_of_value_eq he.normalize hd.normalize d.getLast?_normalize hle h.symm).symm

/-! ## Numerals -/

/-- A number has the value of its digits. -/
theorem ofDigits_toDigits (n : Nat) : ofDigits (toDigits n) = n := by
  conv_rhs => rw [← @Nat.ofDigitChars_ten_toDigits n]
  rw [ofDigits, toDigits, List.foldl_map, Nat.ofDigitChars]
  congr 1
  funext sofar c
  rw [Nat.mul_comm]
  rfl

theorem lt_of_mem_toDigits {n x : Nat} (h : x ∈ toDigits n) : x < 10 := by
  obtain ⟨c, hc, rfl⟩ := List.mem_map.1 h
  have hdigit := Nat.isDigit_of_mem_toDigits (by decide) (by decide) hc
  obtain ⟨-, hhigh⟩ : 48 ≤ c.toNat ∧ c.toNat ≤ 57 := Char.isDigit_iff_toNat.1 hdigit
  omega

/-- A decimal numeral: digits before and behind a point, and an exponent. -/
structure Numeral where
  whole : List Nat
  fraction : List Nat
  exponent : Option Int

namespace Numeral

/-- The point and the digits behind it, if there are any. -/
def fractionText (fraction : List Nat) : Text :=
  if fraction.isEmpty then [] else .scalar '.' :: digitText fraction

/-- The exponent with its sign, if there is one. -/
def exponentText : Option Int → Text
  | none => []
  | some e => .scalar 'e' :: .scalar (if 0 ≤ e then '+' else '-') :: Text.ofNat e.natAbs

/-- The spelling of a numeral. -/
def text (n : Numeral) : Text := digitText n.whole ++ (fractionText n.fraction ++ exponentText n.exponent)

/-- The decimal that a numeral denotes: the digits behind the point count as well, each of which is a
    tenth of what it would be without the point. -/
def decimal (n : Numeral) : Decimal := ⟨n.whole ++ n.fraction, n.exponent.getD 0 - n.fraction.length⟩

/-- A numeral without superfluous zeros: none in front unless it is all there is before the point, none
    behind the digits after the point.  With an exponent, which is not zero, there is one digit before
    the point, and it is not zero. -/
structure IsCanonical (n : Numeral) : Prop where
  digit : ∀ x ∈ n.whole ++ n.fraction, x < 10
  whole_ne_nil : n.whole ≠ []
  leading : n.whole.head? = some 0 → n.whole = [0]
  trailing : n.fraction.getLast? ≠ some 0
  scientific : ∀ e, n.exponent = some e → e ≠ 0 ∧ ∃ x, x ≠ 0 ∧ n.whole = [x]

/-- A written exponent is read back; a missing one counts as zero. -/
theorem exponentPart?_exponentText (e : Option Int) :
    JavaScript.exponentPart? (exponentText e) = some (e.getD 0) := by
  cases e with
  | none => rfl
  | some e =>
    have hread : JavaScript.natOfDigits? 10 (Text.ofNat e.natAbs) = some e.natAbs := by
      have hne : toDigits e.natAbs ≠ [] := by simp [toDigits]
      rw [← digitText_toDigits, JavaScript.natOfDigits?_digitText (by decide) hne fun _ => lt_of_mem_toDigits,
        ← ofDigits_eq, ofDigits_toDigits]
    unfold exponentText JavaScript.exponentPart?
    by_cases he : 0 ≤ e
    · simp [he, hread, Int.natAbs_of_nonneg he]
    · simp [he, hread, abs_of_neg (not_le.1 he)]

/-- Neither a point nor an exponent goes on with the digits. -/
theorem not_digit_head_exponentText (e : Option Int) :
    ∀ p ∈ (exponentText e).head?, (JavaScript.digitValue? p).any (· < 10) = false := by
  cases e with
  | none => simp [exponentText]
  | some e =>
    intro p hp
    obtain rfl : .scalar 'e' = p := Option.some.inj hp
    decide

/-- A numeral is read as the decimal that it denotes. -/
theorem decimal?_text {n : Numeral} (hdigit : ∀ x ∈ n.whole ++ n.fraction, x < 10) (hwhole : n.whole ≠ []) :
    JavaScript.decimal? n.text = some n.decimal := by
  have hdigitWhole : ∀ x ∈ n.whole, x < 10 := fun x hx => hdigit x (List.mem_append_left _ hx)
  have hdigitFraction : ∀ x ∈ n.fraction, x < 10 := fun x hx => hdigit x (List.mem_append_right _ hx)
  have hexponent := exponentPart?_exponentText n.exponent
  unfold text decimal
  cases hfraction : n.fraction with
  | nil =>
    have hrun := JavaScript.digitRun_append hdigitWhole (not_digit_head_exponentText n.exponent)
    have hpoint : fractionText [] = [] := rfl
    rw [hpoint, List.nil_append, JavaScript.decimal?, hrun]
    -- What follows the digits is no point.
    cases he : n.exponent with
    | none => simp [exponentText, JavaScript.exponentPart?, hwhole]
    | some e =>
      rw [he] at hexponent
      simp [exponentText, hwhole] at hexponent ⊢
      simp [hexponent]
  | cons x rest =>
    rw [hfraction] at hdigitFraction
    have hrun := JavaScript.digitRun_append hdigitFraction (not_digit_head_exponentText n.exponent)
    have hpoint : fractionText (x :: rest) = .scalar '.' :: digitText (x :: rest) := rfl
    have hhead : ∀ p ∈ (CodePoint.scalar '.' :: (digitText (x :: rest) ++ exponentText n.exponent)).head?,
        (JavaScript.digitValue? p).any (· < 10) = false := by
      intro p hp
      obtain rfl : .scalar '.' = p := Option.some.inj hp
      decide
    rw [hpoint, List.cons_append, JavaScript.decimal?, JavaScript.digitRun_append hdigitWhole hhead]
    simp [hrun, hexponent]

/-- A numeral has an `e` in it just if it has an exponent. -/
theorem mem_text_iff {n : Numeral} (hdigit : ∀ x ∈ n.whole ++ n.fraction, x < 10) :
    .scalar 'e' ∈ n.text ↔ n.exponent ≠ none := by
  have hdigits : ∀ {ds : List Nat}, (∀ x ∈ ds, x < 10) → CodePoint.scalar 'e' ∉ digitText ds := by
    intro ds hds hmem
    obtain ⟨x, hx, heq⟩ := List.mem_map.1 hmem
    have hchars : ∀ x < 10, Nat.digitChar x ≠ 'e' := by decide
    exact hchars x (hds x hx) (CodePoint.scalar.inj heq)
  have hwhole := hdigits fun x hx => hdigit x (List.mem_append_left _ hx)
  have hfraction : CodePoint.scalar 'e' ∉ fractionText n.fraction := by
    unfold fractionText
    split
    · exact List.not_mem_nil
    · have := hdigits fun x hx => hdigit x (List.mem_append_right _ hx)
      simpa using this
  rw [text, List.mem_append, List.mem_append]
  cases n.exponent with
  | none => simp [exponentText, hwhole, hfraction]
  | some e => simp [exponentText]

end Numeral

/-! ## Layouts -/

/-- The ways to lay out a decimal without trailing zeros, by the place of the point. -/
inductive Layout (d : Decimal) : Numeral → Prop where
  | zerosBehind (hpoint : d.digits.length ≤ d.point) (hhigh : d.point ≤ 21) :
    Layout d ⟨d.digits ++ List.replicate (d.point - d.digits.length).toNat 0, [], none⟩
  | pointAmong (hpoint : d.point < d.digits.length) (hlow : 0 < d.point) (hhigh : d.point ≤ 21) :
    Layout d ⟨d.digits.take d.point.toNat, d.digits.drop d.point.toNat, none⟩
  | zerosInFront (hlow : -6 < d.point) (hhigh : d.point ≤ 0) :
    Layout d ⟨[0], List.replicate (-d.point).toNat 0 ++ d.digits, none⟩
  | scientific (hrange : ¬(-6 < d.point ∧ d.point ≤ 21)) :
    Layout d ⟨d.digits.take 1, d.digits.drop 1, some (d.point - 1)⟩

namespace Layout

variable {d : Decimal} {n : Numeral}

/-- The key of a decimal is one of the layouts. -/
theorem exists_text_eq (hd : d.IsPositive) : ∃ n, Layout d.normalize n ∧ n.text = d.keyText := by
  obtain ⟨x, rest, hdigits, -⟩ := hd.normalize.lead
  unfold keyText
  dsimp only
  rw [← point]
  split
  · rename_i hwhole
    -- The point stands behind the digits.
    refine ⟨_, .zerosBehind hwhole.1 hwhole.2, ?_⟩
    simp [Numeral.text, Numeral.fractionText, Numeral.exponentText, digitText_append, digitText_replicate_zero]
  · rename_i hwhole
    split
    · rename_i hpoint
      -- It stands among them.
      refine ⟨_, .pointAmong (by omega) hpoint.1 hpoint.2, ?_⟩
      have hsome : (d.normalize.digits.drop d.normalize.point.toNat).isEmpty = false := by
        simp only [List.isEmpty_eq_false_iff, ne_eq, List.drop_eq_nil_iff]
        omega
      simp [Numeral.text, Numeral.fractionText, Numeral.exponentText, hsome, Text.ofChar]
    · rename_i hpoint
      split
      · rename_i hsmall
        -- It stands in front of them, with zeros between.
        refine ⟨_, .zerosInFront hsmall.1 hsmall.2, ?_⟩
        have hsome : (List.replicate (-d.normalize.point).toNat 0 ++ d.normalize.digits).isEmpty = false := by
          simp [hdigits]
        have hzero : ("0." : Text) = digitText [0] ++ [.scalar '.'] := rfl
        simp [Numeral.text, Numeral.fractionText, Numeral.exponentText, hsome, hzero, digitText_append,
          digitText_replicate_zero]
      · rename_i hsmall
        -- It stands too far off, so that the power of ten is written out.
        refine ⟨_, .scientific (by omega), ?_⟩
        rw [hdigits]
        cases rest with
        | nil => simp [Numeral.text, Numeral.fractionText, Numeral.exponentText, pointed, Text.ofChar]
        | cons y rest =>
          simp [Numeral.text, Numeral.fractionText, Numeral.exponentText, pointed, Text.ofChar, digitText]

/-- Numbers are written without an exponent as long as the point is near the digits. -/
theorem exponent_eq_none_iff (h : Layout d n) : n.exponent = none ↔ -6 < d.point ∧ d.point ≤ 21 := by
  cases h with
  | zerosBehind hpoint hhigh => exact ⟨fun _ => ⟨by omega, hhigh⟩, fun _ => rfl⟩
  | pointAmong _ hlow hhigh => exact ⟨fun _ => ⟨by omega, hhigh⟩, fun _ => rfl⟩
  | zerosInFront hlow hhigh => exact ⟨fun _ => ⟨hlow, by omega⟩, fun _ => rfl⟩
  | scientific hrange => exact ⟨nofun, fun hpoint => absurd hpoint hrange⟩

/-- However a decimal is laid out, its value stays. -/
theorem value_decimal (h : Layout d n) (hd : d.IsPositive) : n.decimal.value = d.value := by
  obtain ⟨x, rest, hdigits, -⟩ := hd.lead
  have hlength : d.digits.length = rest.length + 1 := by rw [hdigits, List.length_cons]
  cases h with
  | zerosBehind hpoint _ =>
    -- The zeros make up for the power of ten.
    have hexponent : d.exponent = ((d.point - d.digits.length).toNat : Int) := by
      unfold point at hpoint ⊢
      omega
    unfold value Numeral.decimal
    rw [hexponent, zpow_natCast]
    simp [ofDigits_append_zeros]
  | pointAmong hpoint hlow _ =>
    have hexponent : (0 : Int) - (d.digits.length - d.point.toNat : Nat) = d.exponent := by
      unfold point at hpoint hlow ⊢
      omega
    simp only [value, Numeral.decimal, List.take_append_drop, Option.getD_none, List.length_drop, hexponent]
  | zerosInFront _ hhigh =>
    have hexponent : (0 : Int) - ((-d.point).toNat + d.digits.length : Nat) = d.exponent := by
      unfold point at hhigh ⊢
      omega
    have hzeros : [0] ++ (List.replicate (-d.point).toNat 0 ++ d.digits) =
        List.replicate ((-d.point).toNat + 1) 0 ++ d.digits := rfl
    simp only [value, Numeral.decimal, hzeros, ofDigits_zeros_append, Option.getD_none, List.length_append,
      List.length_replicate, hexponent]
  | scientific _ =>
    have hexponent : d.point - 1 - (d.digits.length - 1 : Nat) = d.exponent := by
      unfold point
      omega
    simp only [value, Numeral.decimal, List.take_append_drop, Option.getD_some, List.length_drop, hexponent]

/-- Zeros that are filled in are digits. -/
private theorem lt_of_mem_zeros {n y : Nat} (hy : y ∈ List.replicate n 0) : y < 10 := by
  rw [List.eq_of_mem_replicate hy]
  decide

/-- The digits before and behind a point are digits. -/
private theorem lt_of_mem_cut (hd : d.IsPositive) {k y : Nat} (hy : y ∈ d.digits.take k ++ d.digits.drop k) :
    y < 10 := by
  rw [List.take_append_drop] at hy
  exact hd.digit y hy

/-- The last digit behind a point, if there is any, is the last digit. -/
private theorem getLast?_cut (hlast : d.digits.getLast? ≠ some 0) (k : Nat) :
    (d.digits.drop k).getLast? ≠ some 0 := by
  rw [List.getLast?_drop]
  split
  · exact nofun
  · exact hlast

/-- No layout has a superfluous zero: the first digit and the last one are none. -/
theorem isCanonical (h : Layout d n) (hd : d.IsPositive) (hlast : d.digits.getLast? ≠ some 0) :
    n.IsCanonical := by
  obtain ⟨x, rest, hdigits, hx⟩ := hd.lead
  cases h with
  | zerosBehind _ _ =>
    constructor
    · intro y hy
      rw [List.append_nil] at hy
      exact (List.mem_append.1 hy).elim (hd.digit y) lt_of_mem_zeros
    · simp [hdigits]
    · simp [hdigits, hx]
    · exact nofun
    · exact nofun
  | pointAmong _ hlow _ =>
    -- There is a digit before the point, the first one.
    obtain ⟨k, hk⟩ : ∃ k, d.point.toNat = k + 1 := ⟨d.point.toNat - 1, by omega⟩
    constructor
    · exact fun y => lt_of_mem_cut hd
    · simp [hdigits, hk]
    · simp [hdigits, hk, hx]
    · exact getLast?_cut hlast _
    · exact nofun
  | zerosInFront _ _ =>
    constructor
    · intro y hy
      obtain hy | hy := List.mem_append.1 hy
      · rw [List.mem_singleton.1 hy]
        decide
      · exact (List.mem_append.1 hy).elim lt_of_mem_zeros (hd.digit y)
    · simp
    · exact fun _ => rfl
    · rw [List.getLast?_append_of_ne_nil _ (by simp [hdigits])]
      exact hlast
    · exact nofun
  | scientific hrange =>
    constructor
    · exact fun y => lt_of_mem_cut hd
    · simp [hdigits]
    · simp [hdigits, hx]
    · exact getLast?_cut hlast 1
    · intro e he
      obtain rfl : d.point - 1 = e := Option.some.inj he
      exact ⟨by omega, x, hx, by simp [hdigits]⟩

end Layout

/-! ## Keys -/

/-- The key of a positive number is a numeral of it without superfluous zeros. -/
theorem exists_numeral {d : Decimal} (hd : d.IsPositive) :
    ∃ n : Numeral, n.text = d.keyText ∧ n.IsCanonical ∧ n.decimal.value = d.value ∧
      (n.exponent = none ↔ -6 < d.point ∧ d.point ≤ 21) := by
  obtain ⟨n, hn, htext⟩ := Layout.exists_text_eq hd
  refine ⟨n, htext, hn.isCanonical hd.normalize d.getLast?_normalize, ?_, ?_⟩
  · rw [hn.value_decimal hd.normalize, value_normalize]
  · rw [hn.exponent_eq_none_iff, point_normalize]

/-- The key of a positive number reads back as this number. -/
theorem map_value_decimal?_keyText {d : Decimal} (hd : d.IsPositive) :
    (JavaScript.decimal? d.keyText).map value = some d.value := by
  obtain ⟨n, htext, hcanonical, hvalue, -⟩ := exists_numeral hd
  rw [← htext, Numeral.decimal?_text hcanonical.digit hcanonical.whole_ne_nil, Option.map_some, hvalue]

/-- **Keys of numbers.**  The key of a positive number, read as a numeral, denotes exactly this number.  It
    has an exponent exactly if the number is less than `10 ^ -6` or not less than `10 ^ 21`, and no
    superfluous zero.  So keys are equal exactly for equal numbers. -/
theorem number_keys_exact {d e : Decimal} (hd : d.IsPositive) (he : e.IsPositive) :
    (JavaScript.decimal? d.keyText).map value = some d.value ∧
    (.scalar 'e' ∈ d.keyText ↔ ¬((10 : ℚ) ^ (-6 : Int) ≤ d.value ∧ d.value < 10 ^ (21 : Int))) ∧
    (∃ n : Numeral, n.text = d.keyText ∧ n.IsCanonical) ∧
    (d.keyText = e.keyText ↔ d.value = e.value) := by
  have hreads := map_value_decimal?_keyText hd
  obtain ⟨n, htext, hcanonical, -, hexponent⟩ := exists_numeral hd
  refine ⟨hreads, ?_, ⟨n, htext, hcanonical⟩, ?_⟩
  · have hhigh : d.value < (10 : ℚ) ^ (21 : Int) ↔ d.point ≤ 21 := by
      rw [← not_le, zpow_le_value_iff hd, not_lt]
    rw [← htext, Numeral.mem_text_iff hcanonical.digit, ne_eq, hexponent, zpow_le_value_iff hd, hhigh]
  · constructor
    · intro hkeys
      rw [hkeys, map_value_decimal?_keyText he] at hreads
      exact (Option.some.inj hreads).symm
    · intro hvalue
      unfold keyText
      rw [(normalize_eq_iff hd he).2 hvalue]

/-- Two decimals of a small number, one with a superfluous zero: both are written with an exponent. -/
theorem number_keys_exact_small :
    IsPositive ⟨[1, 2, 0], -9⟩ ∧ IsPositive ⟨[1, 2], -8⟩ ∧
      keyText ⟨[1, 2, 0], -9⟩ = "1.2e-7" ∧ keyText ⟨[1, 2], -8⟩ = "1.2e-7" ∧
      value ⟨[1, 2, 0], -9⟩ = value ⟨[1, 2], -8⟩ := by
  have hlong : IsPositive ⟨[1, 2, 0], -9⟩ := ⟨by decide, 1, [2, 0], rfl, by decide⟩
  have hshort : IsPositive ⟨[1, 2], -8⟩ := ⟨by decide, 1, [2], rfl, by decide⟩
  obtain ⟨-, -, -, hequal⟩ := number_keys_exact hlong hshort
  exact ⟨hlong, hshort, by decide, by decide, hequal.1 (by decide)⟩

-- Positional notation ends just below `10 ^ 21` and starts at `10 ^ -6`.
example :
    keyText ⟨[1], 20⟩ = "100000000000000000000" ∧ keyText ⟨[1], 21⟩ = "1e+21" ∧
      keyText ⟨[1, 5], -7⟩ = "0.0000015" ∧ keyText ⟨[9, 5], -8⟩ = "9.5e-7" := by
  decide

end Decimal

end LodashStyle
