import LodashStyle.JavaScript.NumericLiteral
import LodashStyle.Proofs.ShortestIntegers
import LodashStyle.Proofs.StringValues
import Mathlib.Data.List.DropRight
import Mathlib.Data.Nat.Digits.Defs

/-!
# Keys of integer literals

`IntegerLiteral` is the grammar of the literals that are written with digits alone: decimal, announced by
a letter behind a zero, or with a zero in front, after which the digits are octal unless there is an eight
or a nine among them.  Single separators may stand between the digits.

Each notation is read in its own way, but always as the digits that it spells, so that `numericKey?` comes
to the numeral of one and the same number.

## Key results

- `Decimal.keyText_toDigits`: a decimal without places behind the point is written as a numeral
- `SpelledDigits.plainNumeral_eq`: what is left of the digits when separators and case are gone
- `IntegerLiteral.numericValue?_eq`: the value of a literal is the integer
- `integer_keys_by_value`: the key of a literal is the numeral of the integer
-/

namespace LodashStyle

namespace JavaScript

/-! ## The grammar -/

/-- The digits of a base, with single separators between them, and their values, the first digit first. -/
inductive SpelledDigits (base : Nat) : Text → List Nat → Prop where
  | one {p : CodePoint} {d : Nat} (hp : HexDigit p d) (hd : d < base) : SpelledDigits base [p] [d]
  | cons {p : CodePoint} {d : Nat} {t : Text} {ds : List Nat} (hp : HexDigit p d) (hd : d < base)
    (ht : SpelledDigits base t ds) : SpelledDigits base (p :: t) (d :: ds)
  | separated {p : CodePoint} {d : Nat} {t : Text} {ds : List Nat} (hp : HexDigit p d) (hd : d < base)
    (ht : SpelledDigits base t ds) : SpelledDigits base (p :: .scalar '_' :: t) (d :: ds)

/-- The letters that announce a base behind a zero. -/
def baseLetters : List (Char × Nat) := [('x', 16), ('X', 16), ('o', 8), ('O', 8), ('b', 2), ('B', 2)]

/-- The notations of an integer without a suffix, and the integer. -/
inductive IntegerLiteral : Text → Nat → Prop where
  | decimal {t : Text} {ds : List Nat} (ht : SpelledDigits 10 t ds) (hzero : ds.head? = some 0 → ds = [0]) :
    IntegerLiteral t (Nat.ofDigits 10 ds.reverse)
  -- a zero in front of digits that are not all octal
  | zeroDecimal {t : Text} {ds : List Nat} (ht : SpelledDigits 10 t (0 :: ds)) (hds : 8 ∈ ds ∨ 9 ∈ ds) :
    IntegerLiteral t (Nat.ofDigits 10 (0 :: ds).reverse)
  -- a zero in front of octal digits
  | zeroOctal {t : Text} {ds : List Nat} (ht : SpelledDigits 8 t (0 :: ds)) (hds : ds ≠ []) :
    IntegerLiteral t (Nat.ofDigits 8 (0 :: ds).reverse)
  | announced {letter : Char} {base : Nat} {t : Text} {ds : List Nat} (hletter : (letter, base) ∈ baseLetters)
    (ht : SpelledDigits base t ds) :
    IntegerLiteral (.scalar '0' :: .scalar letter :: t) (Nat.ofDigits base ds.reverse)

end JavaScript

/-! ## Numerals -/

/-- Numbers are told by their decimal digits. -/
theorem Text.ofNat_injective {m n : Nat} (h : Text.ofNat m = Text.ofNat n) : m = n := by
  have hchars : Nat.toDigits 10 m = Nat.toDigits 10 n :=
    List.map_injective_iff.2 (fun _ _ hc => CodePoint.scalar.inj hc) h
  rw [← Nat.ofDigitChars_ten_toDigits (n := m), hchars, Nat.ofDigitChars_ten_toDigits]

namespace Decimal

theorem digitText_append (s t : List Nat) : digitText (s ++ t) = digitText s ++ digitText t := List.map_append

/-- Zeros as digits and zeros as text. -/
theorem digitText_replicate_zero (n : Nat) : digitText (List.replicate n 0) = zeros n := List.map_replicate

/-- A decimal digit is the character of its own value. -/
theorem digitChar_of_isDigit {c : Char} (h : c.isDigit = true) : Nat.digitChar (c.toNat - 48) = c := by
  have hchars : ∀ n < 10, Nat.digitChar n = Char.ofNat (48 + n) := by decide
  obtain ⟨hlow, hhigh⟩ : 48 ≤ c.toNat ∧ c.toNat ≤ 57 := Char.isDigit_iff_toNat.1 h
  rw [hchars _ (by omega), Nat.add_sub_cancel' hlow, Char.ofNat_toNat]

/-- The digits of a number in the form of a list spell the number. -/
theorem digitText_toDigits (n : Nat) : digitText (toDigits n) = Text.ofNat n := by
  rw [digitText, toDigits, Text.ofNat, Text.ofChars, List.map_map]
  refine List.map_congr_left fun c hc => ?_
  exact congrArg _ (digitChar_of_isDigit (Nat.isDigit_of_mem_toDigits (by decide) (by decide) hc))

/-- Zeros behind a positive number multiply it by powers of ten. -/
theorem ofNat_append_zeros {n : Nat} (hn : 0 < n) (k : Nat) :
    Text.ofNat n ++ zeros k = Text.ofNat (n * 10 ^ k) := by
  induction k with
  | zero => simp [zeros]
  | succ k ih =>
    have hpos : 0 < n * 10 ^ k := Nat.mul_pos hn (Nat.pow_pos (by decide))
    have hdigits := Nat.toDigits_append_toDigits (by decide : 1 < 10) hpos (by decide : 0 < 10)
    rw [zeros, List.replicate_succ', ← List.append_assoc, ← zeros, ih, Nat.pow_succ, ← Nat.mul_assoc]
    rw [Nat.add_zero, Nat.mul_comm 10] at hdigits
    rw [Text.ofNat, Text.ofNat, ← hdigits]
    simp [Text.ofChars]

/-- The digits are those without trailing zeros and the trailing zeros. -/
theorem digits_eq_normalize (d : Decimal) :
    d.digits = d.normalize.digits ++ List.replicate (d.digits.length - d.normalize.digits.length) 0 := by
  have hsplit : d.digits = d.normalize.digits ++ d.digits.rtakeWhile (· == 0) :=
    List.rdropWhile_append_rtakeWhile.symm
  have hzeros : ∀ x ∈ d.digits.rtakeWhile (· == 0), x = 0 := by
    intro x hx
    simpa using List.mem_rtakeWhile_imp hx
  have hlength : d.digits.length - d.normalize.digits.length = (d.digits.rtakeWhile (· == 0)).length := by
    have := congrArg List.length hsplit
    rw [List.length_append] at this
    omega
  rw [hlength, ← List.eq_replicate_of_mem hzeros]
  exact hsplit

/-- Trailing zeros are only taken away. -/
theorem length_normalize_le (d : Decimal) : d.normalize.digits.length ≤ d.digits.length := by
  have := congrArg List.length d.digits_eq_normalize
  rw [List.length_append] at this
  omega

/-- An integer of at most 21 digits is written out. -/
theorem keyText_of_natural {d : Decimal} (hexponent : 0 ≤ d.exponent)
    (hlength : d.digits.length + d.exponent ≤ 21) :
    d.keyText = digitText d.digits ++ zeros d.exponent.toNat := by
  have hle := d.length_normalize_le
  have hnormal : d.normalize.exponent = d.exponent + (d.digits.length - d.normalize.digits.length : Nat) := rfl
  have hpositional : (d.normalize.digits.length : Int) ≤ d.normalize.exponent + d.normalize.digits.length ∧
      d.normalize.exponent + d.normalize.digits.length ≤ 21 := by omega
  have hzeros : (d.normalize.exponent + d.normalize.digits.length - d.normalize.digits.length).toNat =
      d.digits.length - d.normalize.digits.length + d.exponent.toNat := by omega
  unfold keyText
  dsimp only
  rw [if_pos hpositional, hzeros, zeros, List.replicate_add, ← List.append_assoc]
  conv_rhs => rw [d.digits_eq_normalize, digitText_append, digitText_replicate_zero]
  rfl

/-- The numeral of a positive number and as many zeros as its exponent says are the numeral of its
    value. -/
theorem keyText_toDigits {n k : Nat} (hn : 0 < n) (hlt : n * 10 ^ k < 10 ^ 21) :
    keyText ⟨toDigits n, k⟩ = Text.ofNat (n * 10 ^ k) := by
  have hlength : (Text.ofNat (n * 10 ^ k)).length ≤ 21 := by
    rw [Text.ofNat, Text.ofChars, List.length_map]
    exact (Nat.length_toDigits_le_iff (by decide) (by decide)).2 hlt
  rw [← ofNat_append_zeros hn, List.length_append, zeros, List.length_replicate, ← digitText_toDigits, digitText,
    List.length_map] at hlength
  have hfits : ((toDigits n).length : Int) + k ≤ 21 := by exact_mod_cast hlength
  rw [keyText_of_natural (Int.natCast_nonneg k) hfits, digitText_toDigits, Int.toNat_natCast,
    ofNat_append_zeros hn]

/-- Zeros in front count for nothing. -/
theorem ofDigits_dropWhile_zero (ds : List Nat) : ofDigits (ds.dropWhile (· == 0)) = ofDigits ds := by
  induction ds with
  | nil => rfl
  | cons d ds ih =>
    cases d with
    | zero => simpa [ofDigits] using ih
    | succ d => rfl

/-- A numeral without a leading zero is at least as great as its length says. -/
theorem pow_le_ofDigits {d : Nat} (hd : d ≠ 0) (ds : List Nat) : 10 ^ ds.length ≤ ofDigits (d :: ds) := by
  have hfold : ∀ (ds : List Nat) (n : Nat), n * 10 ^ ds.length ≤ ds.foldl (fun n d => n * 10 + d) n := by
    intro ds
    induction ds with
    | nil => intro n; simp
    | cons e ds ih =>
      intro n
      calc n * 10 ^ (e :: ds).length = n * 10 * 10 ^ ds.length := by
            rw [List.length_cons, Nat.pow_succ, Nat.mul_assoc, Nat.mul_comm 10]
        _ ≤ (n * 10 + e) * 10 ^ ds.length := Nat.mul_le_mul_right _ (Nat.le_add_right _ _)
        _ ≤ _ := ih (n * 10 + e)
  calc 10 ^ ds.length ≤ d * 10 ^ ds.length := Nat.le_mul_of_pos_left _ (Nat.pos_of_ne_zero hd)
    _ ≤ (0 * 10 + d) * 10 ^ ds.length := by rw [Nat.zero_mul, Nat.zero_add]
    _ ≤ ofDigits (d :: ds) := hfold ds _

end Decimal

/-- A numeral without point and exponent rounds as the integer that it denotes. -/
theorem Binary64.ofDecimal?_of_natural {ds : List Nat} (hle : Decimal.ofDigits ds ≤ 2 ^ 53) :
    ofDecimal? ⟨ds, 0⟩ = round? (Decimal.ofDigits ds) 1 := by
  unfold ofDecimal?
  dsimp only
  rw [Decimal.ofDigits_dropWhile_zero]
  cases hdigits : ds.dropWhile (· == 0) with
  | nil =>
    have hzero : Decimal.ofDigits ds = 0 := by
      rw [← Decimal.ofDigits_dropWhile_zero, hdigits]
      rfl
    rw [hzero]
    rfl
  | cons d rest =>
    have hd : d ≠ 0 := by
      have := List.head_dropWhile_not (· == 0) (l := ds) (by rw [hdigits]; simp)
      simpa [hdigits] using this
    -- No more than sixteen digits are left, which is far from where doubles end.
    have hpow : 10 ^ rest.length ≤ Decimal.ofDigits ds := by
      rw [← Decimal.ofDigits_dropWhile_zero, hdigits]
      exact Decimal.pow_le_ofDigits hd rest
    have hlength : rest.length < 16 :=
      (Nat.pow_lt_pow_iff_right (by decide)).1 (lt_of_le_of_lt (hpow.trans hle) (by decide : 2 ^ 53 < 10 ^ 16))
    rw [if_neg, if_neg]
    · simp [scale]
    · rw [List.length_cons]
      omega
    · simp only [List.isEmpty_cons, Bool.false_or, decide_eq_true_eq]
      omega

namespace JavaScript

/-! ## Reading digits -/

/-- The text in lower case, without separators. -/
def plainNumeral (t : Text) : Text := (t.filter fun p => !p.isChar '_').map lower

/-- In small letters a digit is the character of its value, and no separator. -/
theorem HexDigit.lower_eq {p : CodePoint} {d : Nat} (h : HexDigit p d) :
    p.isChar '_' = false ∧ lower p = .scalar (Nat.digitChar d) := by
  have hlower : ∀ i < 16, ∀ q ∈ ("0123456789abcdef" : Text)[i]?,
      q.isChar '_' = false ∧ lower q = .scalar (Nat.digitChar i) := by decide
  have hupper : ∀ i < 16, ∀ q ∈ ("0123456789ABCDEF" : Text)[i]?,
      q.isChar '_' = false ∧ lower q = .scalar (Nat.digitChar i) := by decide
  rcases h with h | h
  · exact hlower d (List.getElem?_eq_some_iff.1 h).1 p h
  · exact hupper d (List.getElem?_eq_some_iff.1 h).1 p h

/-- Without separators and capitals nothing but the digits is left. -/
theorem SpelledDigits.plainNumeral_eq {base : Nat} {t : Text} {ds : List Nat} (h : SpelledDigits base t ds) :
    plainNumeral t = Decimal.digitText ds := by
  unfold plainNumeral Decimal.digitText
  induction h with
  | one hp _ => simp [hp.lower_eq]
  | cons hp _ _ ih => simp [hp.lower_eq, ih]
  | separated hp _ _ ih => simp [hp.lower_eq, ih]

/-- Each digit is one of the base. -/
theorem SpelledDigits.lt {base : Nat} {t : Text} {ds : List Nat} (h : SpelledDigits base t ds) :
    ∀ d ∈ ds, d < base := by
  induction h with
  | one _ hd => simpa using hd
  | cons _ hd _ ih => simpa using ⟨hd, ih⟩
  | separated _ hd _ ih => simpa using ⟨hd, ih⟩

/-- There is at least one digit. -/
theorem SpelledDigits.ne_nil {base : Nat} {t : Text} {ds : List Nat} (h : SpelledDigits base t ds) :
    ds ≠ [] := by
  cases h <;> simp

/-- The character of a digit has the value of the digit. -/
theorem digitValue?_digitChar {d : Nat} (h : d < 16) : digitValue? (.scalar (Nat.digitChar d)) = some d := by
  have hall : ∀ d < 16, digitValue? (.scalar (Nat.digitChar d)) = some d := by decide
  exact hall d h

/-- Digits, the first one first, are read as the number that they denote. -/
theorem foldl_digits (base : Nat) (ds : List Nat) :
    ds.foldl (fun n d => n * base + d) 0 = Nat.ofDigits base ds.reverse := by
  rw [Nat.ofDigits_eq_foldr, List.foldr_reverse]
  congr 1
  funext n d
  simp only [Nat.cast_id]
  rw [Nat.mul_comm, Nat.add_comm]

/-- Digits of a base up to sixteen are read as the number that they are the digits of. -/
theorem natOfDigits?_digitText {base : Nat} (hbase : base ≤ 16) {ds : List Nat} (hne : ds ≠ [])
    (hlt : ∀ d ∈ ds, d < base) :
    natOfDigits? base (Decimal.digitText ds) = some (Nat.ofDigits base ds.reverse) := by
  have hfold : ∀ (ds : List Nat) (n : Nat), (∀ d ∈ ds, d < base) →
      (Decimal.digitText ds).foldlM (fun n p => do
        let d ← digitValue? p
        if d < base then some (n * base + d) else none) n = some (ds.foldl (fun n d => n * base + d) n) := by
    intro ds
    induction ds with
    | nil => intro n _; rfl
    | cons d ds ih =>
      intro n hlt
      have hd : d < base := hlt d List.mem_cons_self
      rw [Decimal.digitText, List.map_cons, List.foldlM_cons, digitValue?_digitChar (by omega)]
      simp only [Option.bind_eq_bind, Option.bind_some, hd, if_true]
      exact ih _ fun e he => hlt e (List.mem_cons_of_mem _ he)
  have hsome : (Decimal.digitText ds).isEmpty = false := by simpa [Decimal.digitText] using hne
  rw [natOfDigits?, hsome, if_neg Bool.false_ne_true, hfold ds 0 hlt, foldl_digits]

/-- Decimal digits are read one by one. -/
theorem filterMap_digitText {ds : List Nat} (hlt : ∀ d ∈ ds, d < 10) :
    (Decimal.digitText ds).filterMap digitValue? = ds := by
  induction ds with
  | nil => rfl
  | cons d ds ih =>
    have hd : d < 10 := hlt d List.mem_cons_self
    rw [Decimal.digitText, List.map_cons, List.filterMap_cons_some (digitValue?_digitChar (by omega))]
    rw [← Decimal.digitText, ih fun e he => hlt e (List.mem_cons_of_mem _ he)]

/-- A run of digits ends where something else follows. -/
theorem digitRun_append {ds : List Nat} (hlt : ∀ d ∈ ds, d < 10) {rest : Text}
    (hrest : ∀ p ∈ rest.head?, (digitValue? p).any (· < 10) = false) :
    digitRun (Decimal.digitText ds ++ rest) = (ds, rest) := by
  have hdecimal : ∀ p ∈ Decimal.digitText ds, (digitValue? p).any (· < 10) = true := by
    intro p hp
    obtain ⟨d, hd, rfl⟩ := List.mem_map.1 hp
    have := hlt d hd
    rw [digitValue?_digitChar (by omega)]
    simpa using this
  have hstop : rest.takeWhile (fun p => (digitValue? p).any (· < 10)) = [] ∧
      rest.dropWhile (fun p => (digitValue? p).any (· < 10)) = rest := by
    cases rest with
    | nil => exact ⟨rfl, rfl⟩
    | cons p rest =>
      have hp := hrest p rfl
      exact ⟨List.takeWhile_cons_of_neg (by simp [hp]), List.dropWhile_cons_of_neg (by simp [hp])⟩
  unfold digitRun
  dsimp only
  rw [List.takeWhile_append_of_pos hdecimal, List.dropWhile_append_of_pos hdecimal, hstop.1, hstop.2,
    List.append_nil, filterMap_digitText hlt]

/-- All of some decimal digits are taken as one run. -/
theorem digitRun_digitText {ds : List Nat} (hlt : ∀ d ∈ ds, d < 10) :
    digitRun (Decimal.digitText ds) = (ds, []) := by
  simpa using @digitRun_append ds hlt [] (by simp)

/-- Decimal digits alone are a whole number without an exponent. -/
theorem decimal?_digitText {ds : List Nat} (hne : ds ≠ []) (hlt : ∀ d ∈ ds, d < 10) :
    decimal? (Decimal.digitText ds) = some ⟨ds, 0⟩ := by
  rw [decimal?, digitRun_digitText hlt]
  simp [exponentPart?, hne]

/-! ## Values and keys -/

/-- Decimal digits announce no other base. -/
theorem announcedBase?_digitText {ds : List Nat} (hlt : ∀ d ∈ ds, d < 10) :
    announcedBase? (Decimal.digitText ds) = none := by
  match ds with
  | [] => rfl
  | [d] => rfl
  | d :: e :: ds =>
    have he : e < 10 := hlt e (by simp)
    have hletters : ∀ e < 10, Nat.digitChar e ≠ 'x' ∧ Nat.digitChar e ≠ 'o' ∧ Nat.digitChar e ≠ 'b' := by
      decide
    obtain ⟨hx, ho, hb⟩ := hletters e he
    simp [Decimal.digitText, announcedBase?, hx, ho, hb]

/-- Old octal numerals start with a zero and hold no eight or nine. -/
theorem isLegacyOctal_digitText {ds : List Nat} (hlt : ∀ d ∈ ds, d < 10) :
    isLegacyOctal (Decimal.digitText ds) = true ↔ ∃ e rest, ds = 0 :: e :: rest ∧ ∀ d ∈ e :: rest, d < 8 := by
  -- A digit is told by its character.
  have hdigit : ∀ d < 10, (digitValue? (.scalar (Nat.digitChar d))).any (· < 8) = true ↔ d < 8 := by decide
  have hall : ∀ rest : List Nat, (∀ d ∈ rest, d < 10) →
      (((Decimal.digitText rest).all fun q => (digitValue? q).any (· < 8)) = true ↔ ∀ d ∈ rest, d < 8) := by
    intro rest hrest
    rw [Decimal.digitText, List.all_map, List.all_eq_true]
    exact forall₂_congr fun d hd => hdigit d (hrest d hd)
  match ds with
  | [] => simp [Decimal.digitText, isLegacyOctal]
  | [d] => simp [Decimal.digitText, isLegacyOctal]
  | d :: e :: rest =>
    have hrest := hall (e :: rest) fun f hf => hlt f (List.mem_cons_of_mem _ hf)
    rw [Decimal.digitText, List.map_cons] at hrest
    rw [Decimal.digitText, List.map_cons, List.map_cons, isLegacyOctal, Bool.and_eq_true, hrest,
      CodePoint.isChar_scalar, beq_iff_eq, Nat.digitChar_eq_zero]
    constructor
    · rintro ⟨rfl, hsmall⟩
      exact ⟨e, rest, rfl, hsmall⟩
    · rintro ⟨e', rest', heq, hsmall⟩
      obtain ⟨rfl, rfl, rfl⟩ : d = 0 ∧ e = e' ∧ rest = rest' := by simpa using heq
      exact ⟨rfl, hsmall⟩

/-- Up to `2 ^ 53` the key of an integer is its numeral. -/
theorem map_valueKey_round? {v : Nat} (hle : v ≤ 2 ^ 53) :
    (Binary64.round? v 1).map valueKey = some (Text.ofNat v) := by
  rcases Nat.eq_zero_or_pos v with rfl | hv
  · decide +kernel
  · obtain ⟨x, hround, hx⟩ := Binary64.exists_round? hv hle
    obtain ⟨n, k, hshortest, rfl⟩ := hx.exists_shortest
    have hlt : n * 10 ^ k < 10 ^ 21 := lt_of_le_of_lt hle (by decide)
    rw [hround, Option.map_some, valueKey, if_neg hx.mantissa.ne', hshortest,
      Decimal.keyText_toDigits (Nat.pos_of_mul_pos_right hv) hlt]

/-- A decimal numeral that is not an old octal one is rounded as it stands. -/
theorem numericValue?_decimal {ds : List Nat} (hne : ds ≠ []) (hlt : ∀ d ∈ ds, d < 10)
    (hoctal : isLegacyOctal (Decimal.digitText ds) = false) (hle : Nat.ofDigits 10 ds.reverse ≤ 2 ^ 53) :
    numericValue? (Decimal.digitText ds) = Binary64.round? (Nat.ofDigits 10 ds.reverse) 1 := by
  rw [← foldl_digits] at hle ⊢
  rw [numericValue?, announcedBase?_digitText hlt]
  simp only [hoctal, Bool.false_eq_true, if_false, decimal?_digitText hne hlt, Option.bind_eq_bind,
    Option.bind_some]
  exact Binary64.ofDecimal?_of_natural hle

/-- The letter behind a leading zero, small or capital, announces its base. -/
theorem announcedBase?_letter {letter : Char} {base : Nat} (h : (letter, base) ∈ baseLetters) :
    (CodePoint.scalar letter).isChar '_' = false ∧ base ≤ 16 ∧
      ∀ rest, announcedBase? (.scalar '0' :: lower (.scalar letter) :: rest) = some base := by
  simp only [baseLetters, List.mem_cons, Prod.mk.injEq, List.not_mem_nil, or_false] at h
  obtain ⟨rfl, rfl⟩ | ⟨rfl, rfl⟩ | ⟨rfl, rfl⟩ | ⟨rfl, rfl⟩ | ⟨rfl, rfl⟩ | ⟨rfl, rfl⟩ := h <;>
    exact ⟨rfl, by decide, fun _ => rfl⟩

/-- The announcement is no separator, so that it stays. -/
theorem plainNumeral_announced {letter : Char} (h : (CodePoint.scalar letter).isChar '_' = false) (t : Text) :
    plainNumeral (.scalar '0' :: .scalar letter :: t) =
      .scalar '0' :: lower (.scalar letter) :: plainNumeral t := by
  simp [plainNumeral, h, lower]

/-- A literal of an integer is read as the integer, whatever its notation. -/
theorem IntegerLiteral.numericValue?_eq {literal : Text} {v : Nat} (h : IntegerLiteral literal v)
    (hle : v ≤ 2 ^ 53) : numericValue? (plainNumeral literal) = Binary64.round? v 1 := by
  cases h with
  | @decimal _ ds ht hzero =>
    rw [ht.plainNumeral_eq]
    -- A zero in front stands alone, so that the digits are not octal.
    refine numericValue?_decimal ht.ne_nil ht.lt ?_ hle
    rw [Bool.eq_false_iff, ne_eq, isLegacyOctal_digitText ht.lt]
    rintro ⟨e, rest, rfl, -⟩
    simpa using hzero rfl
  | @zeroDecimal _ ds ht hds =>
    rw [ht.plainNumeral_eq]
    -- An eight or a nine among the digits keeps them decimal.
    refine numericValue?_decimal ht.ne_nil ht.lt ?_ hle
    rw [Bool.eq_false_iff, ne_eq, isLegacyOctal_digitText ht.lt]
    rintro ⟨e, rest, heq, hsmall⟩
    obtain rfl : ds = e :: rest := (List.cons.inj heq).2
    rcases hds with hd | hd
    · exact absurd (hsmall 8 hd) (by decide)
    · exact absurd (hsmall 9 hd) (by decide)
  | @zeroOctal _ ds ht hds =>
    have hlt : ∀ d ∈ 0 :: ds, d < 10 := fun d hd => (ht.lt d hd).trans (by decide)
    have hoctal : isLegacyOctal (Decimal.digitText (0 :: ds)) = true := by
      rw [isLegacyOctal_digitText hlt]
      obtain ⟨e, rest, rfl⟩ := List.exists_cons_of_ne_nil hds
      exact ⟨e, rest, rfl, fun d hd => ht.lt d (List.mem_cons_of_mem _ hd)⟩
    rw [ht.plainNumeral_eq, numericValue?, announcedBase?_digitText hlt]
    simp only [hoctal, if_true, natOfDigits?_digitText (by decide : 8 ≤ 16) ht.ne_nil ht.lt, Option.bind_eq_bind,
      Option.bind_some]
  | @announced letter base t ds hletter ht =>
    obtain ⟨hkept, hbase, hannounced⟩ := announcedBase?_letter hletter
    rw [plainNumeral_announced hkept, ht.plainNumeral_eq, numericValue?, hannounced]
    simp only [List.drop_succ_cons, List.drop_zero, natOfDigits?_digitText hbase ht.ne_nil ht.lt,
      Option.bind_eq_bind, Option.bind_some]

/-- The last digit of a literal is no suffix. -/
theorem IntegerLiteral.getLast?_plainNumeral {literal : Text} {v : Nat} (h : IntegerLiteral literal v) :
    ∃ d, (plainNumeral literal).getLast? = some (.scalar (Nat.digitChar d)) := by
  have hlast : ∀ {base : Nat} {t : Text} {ds : List Nat}, SpelledDigits base t ds →
      ∃ d, (plainNumeral t).getLast? = some (.scalar (Nat.digitChar d)) := by
    intro base t ds ht
    refine ⟨ds.getLast ht.ne_nil, ?_⟩
    rw [ht.plainNumeral_eq, Decimal.digitText, List.getLast?_map, List.getLast?_eq_some_getLast ht.ne_nil]
    rfl
  cases h with
  | decimal ht _ => exact hlast ht
  | zeroDecimal ht _ => exact hlast ht
  | zeroOctal ht _ => exact hlast ht
  | announced hletter ht =>
    obtain ⟨hkept, -, -⟩ := announcedBase?_letter hletter
    obtain ⟨d, hget⟩ := hlast ht
    refine ⟨d, ?_⟩
    rw [plainNumeral_announced hkept, List.getLast?_cons, List.getLast?_cons, hget]
    rfl

/-- An integer up to `2 ^ 53` has its decimal digits as a key, however it is written. -/
theorem IntegerLiteral.numericKey?_eq {literal : Text} {v : Nat} (h : IntegerLiteral literal v)
    (hle : v ≤ 2 ^ 53) :
    numericKey? literal = some (Text.ofNat v) := by
  obtain ⟨d, hlast⟩ := h.getLast?_plainNumeral
  have hne : (plainNumeral literal).isEmpty = false := by
    cases hplain : plainNumeral literal with
    | nil => rw [hplain] at hlast; exact nomatch hlast
    | cons p t => rfl
  have hread :
      ((plainNumeral literal).isEmpty || (plainNumeral literal).getLast?.any (·.isChar 'n')) = false := by
    simp [hne, hlast]
  rw [plainNumeral] at hread
  rw [numericKey?]
  simp only [hread, Bool.false_eq_true, if_false]
  rw [← plainNumeral, h.numericValue?_eq hle, map_valueKey_round? hle]

/-- **Integer keys.**  Up to `2 ^ 53` the key of an integer is its decimal numeral, in whatever notation
    the integer is written; so two literals have one key exactly when they denote one integer. -/
theorem integer_keys_by_value {literal other : Text} {v w : Nat} (hliteral : IntegerLiteral literal v)
    (hv : v ≤ 2 ^ 53) (hother : IntegerLiteral other w) (hw : w ≤ 2 ^ 53) :
    numericKey? literal = some (Text.ofNat v) ∧ (numericKey? literal = numericKey? other ↔ v = w) := by
  have hkey := hliteral.numericKey?_eq hv
  have hkey' := hother.numericKey?_eq hw
  refine ⟨hkey, ?_⟩
  rw [hkey, hkey', Option.some_inj]
  exact ⟨Text.ofNat_injective, congrArg _⟩

/-- The bound in hexadecimal, and a number of the old octal form with a separator. -/
theorem integer_keys_at_bound :
    IntegerLiteral "0X20000000000000" (2 ^ 53) ∧ IntegerLiteral "0_17" 15 ∧
      numericKey? "0X20000000000000" = some "9007199254740992" ∧
      numericKey? "0X20000000000000" ≠ numericKey? "0_17" := by
  have hzeros : ∀ n, SpelledDigits 16 (Decimal.zeros (n + 1)) (List.replicate (n + 1) 0) := by
    intro n
    induction n with
    | zero => exact .one (.inl rfl) (by decide)
    | succ n ih => exact .cons (.inl rfl) (by decide) ih
  have hbound : IntegerLiteral "0X20000000000000" (2 ^ 53) :=
    .announced (by decide : ('X', 16) ∈ baseLetters)
      (.cons (.inl rfl : HexDigit (.scalar '2') 2) (by decide) (hzeros 12))
  have hoctal : IntegerLiteral "0_17" 15 :=
    .zeroOctal (.separated (.inl rfl : HexDigit (.scalar '0') 0) (by decide)
      (.cons (.inl rfl : HexDigit (.scalar '1') 1) (by decide)
        (.one (.inl rfl : HexDigit (.scalar '7') 7) (by decide)))) (by decide)
  obtain ⟨hkey, hdiffer⟩ := integer_keys_by_value hbound le_rfl hoctal (by decide)
  exact ⟨hbound, hoctal, hkey, fun h => absurd (hdiffer.1 h) (by decide)⟩

end JavaScript

end LodashStyle
