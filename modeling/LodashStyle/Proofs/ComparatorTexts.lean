import LodashStyle.Proofs.RangePieces
import Mathlib.Algebra.GroupWithZero.Nat
import Mathlib.Order.Basic

/-!
# Comparators as they are written

A comparator is a sign and an operand.  The sign is read up to the operand, and what is read from the
operand does not depend on the sign; so it is enough to know how the operand is read alone.  A release
written with its numbers and points between them is read as itself, unless one of the numbers has more
digits than are read.

## Key results

- `Comparator.parse_sign_append`: a comparator is read like its operand, with the relation of the sign
- `Release.parse_text`: a release is read as itself, or fails at its first number that is too long
-/

namespace LodashStyle.Npm

/-! ## Signs -/

/-- The signs that a comparator may start with; without one it is `bare`. -/
inductive Sign where
  | bare
  | equal
  | caret
  | tilde
  | tildeAngle
  | atLeast
  | above
  | atMost
  | below
  deriving DecidableEq, Repr

namespace Sign

/-- The sign as it is written. -/
def text : Sign → Text
  | bare => []
  | equal => "="
  | caret => "^"
  | tilde => "~"
  | tildeAngle => "~>"
  | atLeast => ">="
  | above => ">"
  | atMost => "<="
  | below => "<"

/-- The relation that the sign stands for. -/
def relation : Sign → Relation
  | bare => .exact
  | equal => .exact
  | caret => .caret
  | tilde => .tilde
  | tildeAngle => .tilde
  | atLeast => .atLeast
  | above => .above
  | atMost => .atMost
  | below => .below

end Sign

/-- The code points of signs. -/
def isSignMark (p : CodePoint) : Bool := ("<>=^~" : Text).contains p

namespace Comparator

/-- A sign is read up to the operand behind it. -/
theorem sign_append (s : Sign) {operand : Text} (h : ∀ p ∈ operand.head?, isSignMark p = false) :
    sign (s.text ++ operand) = (s.relation, operand) := by
  cases operand with
  | nil => cases s <;> rfl
  | cons p operand =>
    -- The sign ends before `p`: no longer sign starts with the same marks and goes on with it.
    have hp := h p rfl
    have hnot : ∀ c, isSignMark (.scalar c) = true → p.isChar c = false := by
      intro c hc
      rw [Bool.eq_false_iff, ne_eq, CodePoint.isChar_iff]
      rintro rfl
      rw [hp] at hc
      exact nomatch hc
    have hless := hnot '<' (by decide)
    have hgreater := hnot '>' (by decide)
    have hequal := hnot '=' (by decide)
    have hcaret := hnot '^' (by decide)
    have htilde := hnot '~' (by decide)
    cases s <;> simp [Sign.text, Sign.relation, Text.ofString, Text.ofChars, sign, hless, hgreater, hequal,
      hcaret, htilde]

/-- A comparator with a sign is read like its operand; only the relation is the one of the sign, unless
    the operand holds a wildcard. -/
theorem parse_sign_append (s : Sign) {operand : Text} (h : ∀ p ∈ operand.head?, isSignMark p = false) :
    parse (s.text ++ operand) = (parse operand).map (Option.map fun c =>
      ⟨if c.relation = .wildcard then .wildcard else s.relation, c.release, s.text ++ operand⟩) := by
  have hbare : sign operand = (.exact, operand) := sign_append .bare h
  unfold parse
  rw [sign_append s h, hbare]
  dsimp only
  -- Behind the sign the two texts are read alike, to the same error or the same numbers.
  split
  · rfl
  · split
    · rfl
    · rfl
    · simp only [Except.map, Option.map_some]
      split <;> rfl

end Comparator

/-! ## Releases -/

/-- The code points that the numbers of a release are written with. -/
def digits : Text := "0123456789"

/-- The ten digits are all there are. -/
theorem mem_digits_of_isDigit {c : Char} (h : c.isDigit = true) : .scalar c ∈ digits := by
  have hall : ∀ n < 10, .scalar (Char.ofNat (48 + n)) ∈ digits := by decide
  obtain ⟨hlow, hhigh⟩ : 48 ≤ c.toNat ∧ c.toNat ≤ 57 := Char.isDigit_iff_toNat.1 h
  have hc := hall (c.toNat - 48) (by omega)
  rwa [Nat.add_sub_cancel' hlow, Char.ofNat_toNat] at hc

/-- A number is written with digits only. -/
theorem mem_digits_of_mem_ofNat {n : Nat} {p : CodePoint} (h : p ∈ Text.ofNat n) : p ∈ digits := by
  obtain ⟨c, hc, rfl⟩ := List.mem_map.1 h
  exact mem_digits_of_isDigit (Nat.isDigit_of_mem_toDigits (by decide) (by decide) hc)

theorem isDigit_of_mem_digits : ∀ p ∈ digits, p.isDigit = true := by decide

theorem isAny_of_mem_digits : ∀ p ∈ digits, Comparator.isAny p = false := by decide

/-- A number is written with at least one digit. -/
theorem ofNat_ne_nil (n : Nat) : Text.ofNat n ≠ [] := by simp [Text.ofNat, Text.ofChars]

/-- Digits that are added up one by one make the number that they write. -/
theorem foldlM_ofChars {step : Nat → CodePoint → Option Nat}
    (hstep : ∀ n c, c.isDigit = true → step n (.scalar c) = some (n * 10 + (c.toNat - '0'.toNat)))
    {cs : List Char} (hcs : ∀ c ∈ cs, c.isDigit = true) (n : Nat) :
    (Text.ofChars cs).foldlM step n = some (Nat.ofDigitChars 10 cs n) := by
  induction cs generalizing n with
  | nil => rfl
  | cons c cs ih =>
    rw [Text.ofChars, List.map_cons, List.foldlM_cons, hstep n c (hcs c List.mem_cons_self),
      Nat.ofDigitChars_cons, Nat.mul_comm 10 n]
    exact ih (fun d hd => hcs d (List.mem_cons_of_mem _ hd)) _

/-- A written number is read back. -/
theorem number?_ofNat (n : Nat) : Release.number? (Text.ofNat n) = some n := by
  have hsome : (Text.ofNat n).isEmpty = false := by simpa using ofNat_ne_nil n
  have hdigits : ∀ c ∈ Nat.toDigits 10 n, c.isDigit = true :=
    fun c hc => Nat.isDigit_of_mem_toDigits (by decide) (by decide) hc
  rw [Release.number?, hsome, if_neg Bool.false_ne_true, Text.ofNat,
    foldlM_ofChars (fun n c hc => by simp [hc]) hdigits, Nat.ofDigitChars_ten_toDigits]

/-- A number is read up to what is no digit. -/
theorem takeWhile_ofNat_append (n : Nat) {rest : Text} (h : ∀ p ∈ rest.head?, p.isDigit = false) :
    (Text.ofNat n ++ rest).takeWhile CodePoint.isDigit = Text.ofNat n := by
  have hdigits : ∀ p ∈ Text.ofNat n, p.isDigit = true :=
    fun p hp => isDigit_of_mem_digits p (mem_digits_of_mem_ofNat hp)
  rw [List.takeWhile_append_of_pos hdigits]
  cases rest with
  | nil => simp
  | cons p rest => simp [h p rfl]

/-- The numbers behind the first one, each behind a point. -/
def pointed (ns : List Nat) : Text := ns.flatMap fun n => .scalar '.' :: Text.ofNat n

/-- Numbers behind points start with a point, which ends the number before them. -/
theorem not_isDigit_of_head?_pointed (ns : List Nat) : ∀ p ∈ (pointed ns).head?, p.isDigit = false := by
  intro p hp
  cases ns with
  | nil => simp [pointed] at hp
  | cons n ns =>
    obtain rfl : CodePoint.scalar '.' = p := by simpa [pointed] using hp
    rfl

namespace Comparator

/-- Skipping code points one by one is dropping them. -/
theorem furtherNumbers_eq_drop (skip : Nat) (t : Text) :
    furtherNumbers skip t = furtherNumbers 0 (t.drop skip) := by
  induction t generalizing skip with
  | nil => simp [furtherNumbers]
  | cons p t ih =>
    cases skip with
    | zero => rfl
    | succ skip => rw [furtherNumbers, ih, List.drop_succ_cons]

/-- Numbers behind points are read back. -/
theorem furtherNumbers_pointed (ns : List Nat) : furtherNumbers 0 (pointed ns) = ns.map Text.ofNat := by
  induction ns with
  | nil => rfl
  | cons n ns ih =>
    -- The number ends at the point of the next one, and its digits are skipped.
    have htake := takeWhile_ofNat_append n (not_isDigit_of_head?_pointed ns)
    have hsome : (Text.ofNat n).isEmpty = false := by simpa using ofNat_ne_nil n
    have hcons : pointed (n :: ns) = .scalar '.' :: (Text.ofNat n ++ pointed ns) := rfl
    rw [hcons, furtherNumbers]
    simp only [htake, hsome, CodePoint.isChar_scalar, beq_self_eq_true, Bool.not_true, Bool.not_false,
      Bool.false_eq_true, if_false, if_true]
    rw [furtherNumbers_eq_drop, List.drop_left, ih, List.map_cons]

/-- So are a first number and those behind it. -/
theorem numbers_ofNat_append (n : Nat) (ns : List Nat) :
    numbers (Text.ofNat n ++ pointed ns) = (n :: ns).map Text.ofNat := by
  have htake := takeWhile_ofNat_append n (not_isDigit_of_head?_pointed ns)
  have hsome : (Text.ofNat n).isEmpty = false := by simpa using ofNat_ne_nil n
  rw [numbers]
  simp only [htake, hsome, Bool.false_eq_true, if_false, List.drop_left, furtherNumbers_pointed,
    List.map_cons]

end Comparator

namespace Release

/-- None of the numbers has too many digits to be read. -/
def IsShort (r : Release) : Prop := ∀ n ∈ r.numbers, n < 10 ^ maxDigits

/-- A release is short if each of its numbers is. -/
theorem isShort_iff {r : Release} : r.IsShort ↔ ∀ n ∈ r.numbers, (Text.ofNat n).length ≤ maxDigits := by
  have hlength : ∀ n, (Text.ofNat n).length ≤ maxDigits ↔ n < 10 ^ maxDigits := by
    intro n
    rw [Text.ofNat, Text.ofChars, List.length_map, Nat.length_toDigits_le_iff (by decide) (by decide)]
  simp only [IsShort, hlength]

/-- The first number is written without a point. -/
theorem text_cons (n : Nat) (ns : List Nat) : text ⟨n :: ns⟩ = Text.ofNat n ++ pointed ns := by
  induction ns generalizing n with
  | nil => simp [text, Text.join, pointed]
  | cons m ns ih =>
    have hrest : Text.join "." ((m :: ns).map Text.ofNat) = Text.ofNat m ++ pointed ns := ih m
    rw [List.map_cons] at hrest
    rw [text, List.map_cons, List.map_cons, Text.join, List.intersperse_cons_cons, List.flatten_cons,
      List.flatten_cons, ← Text.join, hrest]
    rfl

/-- A release is written with digits and points. -/
theorem mem_of_mem_text {r : Release} {p : CodePoint} (h : p ∈ r.text) : p ∈ digits ++ ("." : Text) := by
  obtain ⟨ns⟩ := r
  cases ns with
  | nil => simp [text, Text.join] at h
  | cons n ns =>
    rw [text_cons, List.mem_append, pointed, List.mem_flatMap] at h
    rcases h with h | ⟨m, _, h⟩
    · exact List.mem_append_left _ (mem_digits_of_mem_ofNat h)
    · rcases List.mem_cons.1 h with rfl | h
      · decide
      · exact List.mem_append_left _ (mem_digits_of_mem_ofNat h)

/-- A release starts with a digit. -/
theorem exists_text_eq_cons {r : Release} (hne : r.numbers ≠ []) :
    ∃ p ∈ digits, ∃ rest, r.text = p :: rest := by
  obtain ⟨ns⟩ := r
  obtain ⟨n, ns, rfl⟩ := List.exists_cons_of_ne_nil hne
  obtain ⟨p, rest, hrest⟩ := List.exists_cons_of_ne_nil (ofNat_ne_nil n)
  refine ⟨p, mem_digits_of_mem_ofNat (n := n) ?_, rest ++ pointed ns, by rw [text_cons, hrest]; rfl⟩
  rw [hrest]
  exact List.mem_cons_self

/-- The numbers of a release are read off its text. -/
theorem numbers_text {r : Release} (hne : r.numbers ≠ []) :
    Comparator.numbers r.text = r.numbers.map Text.ofNat := by
  obtain ⟨ns⟩ := r
  obtain ⟨n, ns, rfl⟩ := List.exists_cons_of_ne_nil hne
  rw [text_cons, Comparator.numbers_ofNat_append]

/-- No number stands for any version, so that none ends the numbers. -/
theorem takeWhile_map_ofNat (ns : List Nat) :
    (ns.map Text.ofNat).takeWhile (fun t => !t.any Comparator.isAny) = ns.map Text.ofNat := by
  rw [List.takeWhile_eq_self_iff]
  intro t ht
  obtain ⟨n, _, rfl⟩ := List.mem_map.1 ht
  simp only [Bool.not_eq_true', List.any_eq_false, Bool.not_eq_true]
  exact fun p hp => isAny_of_mem_digits p (mem_digits_of_mem_ofNat hp)

/-- Every number is read back. -/
theorem mapM_number?_map_ofNat (ns : List Nat) : (ns.map Text.ofNat).mapM number? = some ns := by
  induction ns with
  | nil => rfl
  | cons n ns ih => rw [List.map_cons, List.mapM_cons, number?_ofNat, ih]; rfl

/-- A release as it is written is read as itself, unless one of its numbers is too long. -/
theorem parse_text {r : Release} (hne : r.numbers ≠ []) :
    Comparator.parse r.text =
      match r.numbers.find? fun n => maxDigits < (Text.ofNat n).length with
      | some n => .error (.numeralTooLong (Text.ofNat n).length)
      | none => .ok (some ⟨.exact, r, r.text⟩) := by
  have hplain : ∀ p ∈ digits, isSignMark p = false ∧ p.isSpace = false ∧ p.isChar 'v' = false := by decide
  -- A digit in front is no sign, no blank and no `v`, so that nothing is taken off the text.
  obtain ⟨p, hp, rest, htext⟩ := exists_text_eq_cons hne
  obtain ⟨hmark, hspace, hv⟩ := hplain p hp
  have hsign : Comparator.sign (p :: rest) = (.exact, p :: rest) :=
    Comparator.sign_append .bare (by rintro q ⟨⟩; exact hmark)
  have hstart : Comparator.dropV (r.text.dropWhile CodePoint.isSpace) = r.text := by
    rw [htext, List.dropWhile_cons_of_neg (by simp [hspace]), Comparator.dropV, hv]
    rfl
  have hsome : (r.numbers.map Text.ofNat).isEmpty = false := by simpa using hne
  unfold Comparator.parse
  rw [htext, hsign, ← htext]
  simp only [hstart, numbers_text hne, hsome, takeWhile_map_ofNat, mapM_number?_map_ofNat, List.find?_map,
    Function.comp_def, Bool.false_eq_true, if_false, lt_irrefl]
  cases r.numbers.find? fun n => maxDigits < (Text.ofNat n).length with
  | none => rfl
  | some n => rfl

/-- A short release is read as a comparator for exactly this release. -/
theorem IsShort.parse_text {r : Release} (hne : r.numbers ≠ []) (h : r.IsShort) :
    Comparator.parse r.text = .ok (some ⟨.exact, r, r.text⟩) := by
  have hnone : r.numbers.find? (fun n => maxDigits < (Text.ofNat n).length) = none := by
    simpa [isShort_iff, List.find?_eq_none] using h
  rw [Release.parse_text hne, hnone]

/-- A release that is not short is an error. -/
theorem exists_parse_text_of_not_isShort {r : Release} (hne : r.numbers ≠ []) (h : ¬r.IsShort) :
    ∃ n, Comparator.parse r.text = .error (.numeralTooLong n) := by
  rw [Release.parse_text hne]
  cases hfind : r.numbers.find? fun n => maxDigits < (Text.ofNat n).length with
  -- Were no number too long, the release would be short.
  | none => exact absurd (by simpa [isShort_iff, List.find?_eq_none] using hfind) h
  | some n => exact ⟨_, rfl⟩

end Release

end LodashStyle.Npm
