import LodashStyle.Proofs.ComparatorTexts
import Mathlib.Data.Prod.Lex
import Mathlib.Order.Bounds.Basic

/-!
# Bounds on versions

A bound is a sign and a full version, and says which versions it admits.  A range of bounds is a list
of them with separators between, or a span of two versions; either is read as the comparators of its
bounds, so the major of a range depends on its bounds only.

The reading fails where a version has a number with too many digits, and nowhere else.

## Key results

- `Bound.Admits`: the versions that a bound admits
- `Writes`: the ranges that bounds are written as
- `Writes.majorOf_eq_ok_iff`: the major of a range is the one that its bounds are pinned to
-/

namespace LodashStyle.Npm

/-! ## Versions -/

/-- A full version. -/
@[ext]
structure Version where
  major : Nat
  minor : Nat
  patch : Nat
  deriving DecidableEq, Repr

namespace Version

/-- Versions are compared number by number. -/
def key (v : Version) : ℕ ×ₗ ℕ ×ₗ ℕ := toLex (v.major, toLex (v.minor, v.patch))

/-- A version is its three numbers. -/
theorem key_injective : Function.Injective key := by
  intro v w h
  have hnumbers : (v.major, (v.minor, v.patch)) = (w.major, (w.minor, w.patch)) := h
  simp only [Prod.mk.injEq] at hnumbers
  exact Version.ext hnumbers.1 hnumbers.2.1 hnumbers.2.2

instance : LinearOrder Version := LinearOrder.lift' key key_injective

/-- Versions are compared by major, minor and patch number, in this order. -/
theorem lt_iff {v w : Version} :
    v < w ↔ v.major < w.major ∨ v.major = w.major ∧
      (v.minor < w.minor ∨ v.minor = w.minor ∧ v.patch < w.patch) := by
  have hkey : v < w ↔ key v < key w := Iff.rfl
  rw [hkey, key, key, Prod.Lex.toLex_lt_toLex, Prod.Lex.toLex_lt_toLex]

/-- The same, where the versions may agree. -/
theorem le_iff {v w : Version} :
    v ≤ w ↔ v.major < w.major ∨ v.major = w.major ∧
      (v.minor < w.minor ∨ v.minor = w.minor ∧ v.patch ≤ w.patch) := by
  have hkey : v ≤ w ↔ key v ≤ key w := Iff.rfl
  rw [hkey, key, key, Prod.Lex.toLex_le_toLex, Prod.Lex.toLex_le_toLex]

/-- The release of a version. -/
def release (v : Version) : Release := ⟨[v.major, v.minor, v.patch]⟩

/-- The order of versions is the one that releases are compared by. -/
theorem lt_release (v w : Version) : v.release.lt w.release = decide (v < w) := by
  rw [Bool.eq_iff_iff, decide_eq_true_iff, lt_iff]
  simp [Release.lt, release, Release.numbersLt]

theorem release_numbers_ne_nil (v : Version) : v.release.numbers ≠ [] := by simp [release]

/-- The next version with another patch. -/
def nextPatch (v : Version) : Version := ⟨v.major, v.minor, v.patch + 1⟩

/-- The next version with another minor. -/
def nextMinor (v : Version) : Version := ⟨v.major, v.minor + 1, 0⟩

/-- The next version that may break what works with this one: the first number that is not zero
    changes. -/
def nextBreaking (v : Version) : Version :=
  if v.major ≠ 0 then ⟨v.major + 1, 0, 0⟩
  else if v.minor ≠ 0 then ⟨0, v.minor + 1, 0⟩
  else ⟨0, 0, v.patch + 1⟩

theorem lt_nextPatch (v : Version) : v < v.nextPatch := by
  simp [lt_iff, nextPatch]

/-- No version lies between a version and its next patch. -/
theorem nextPatch_le_of_lt {v w : Version} (h : v < w) : v.nextPatch ≤ w := by
  rw [lt_iff] at h
  rw [le_iff]
  simp only [nextPatch]
  omega

end Version

/-! ## Bounds -/

/-- A bound on versions. -/
structure Bound where
  sign : Sign
  version : Version
  deriving DecidableEq, Repr

namespace Bound

/-- Whether a version is within the bound.  A tilde keeps the major and the minor, a caret the
    numbers up to the first one that is not zero. -/
def Admits (b : Bound) (v : Version) : Prop :=
  match b.sign with
  | .bare | .equal => v = b.version
  | .caret => b.version ≤ v ∧ v < b.version.nextBreaking
  | .tilde | .tildeAngle => b.version ≤ v ∧ v < b.version.nextMinor
  | .atLeast => b.version ≤ v
  | .above => b.version < v
  | .atMost => v ≤ b.version
  | .below => v < b.version

/-- Whether the bound is one from above only. -/
def IsUpper (b : Bound) : Prop := b.sign.relation.isUpper = true

/-- The two signs that bound from above. -/
theorem isUpper_iff {b : Bound} : b.IsUpper ↔ b.sign = .atMost ∨ b.sign = .below := by
  obtain ⟨sign, version⟩ := b
  cases sign <;> simp [IsUpper, Sign.relation, Relation.isUpper]

/-- The bound as it is written. -/
def text (b : Bound) : Text := b.sign.text ++ b.version.release.text

/-- What the bound is read as. -/
def comparator (b : Bound) : Comparator := ⟨b.sign.relation, b.version.release, b.text⟩

/-- No number of the bound has too many digits to be read. -/
def IsShort (b : Bound) : Prop := b.version.release.IsShort

/-- A bound is written with marks, digits and points. -/
theorem mem_of_mem_text {b : Bound} {p : CodePoint} (h : p ∈ b.text) :
    p ∈ ("<>=^~" : Text) ++ (digits ++ ("." : Text)) := by
  have hsign : ∀ s : Sign, ∀ q ∈ s.text, q ∈ ("<>=^~" : Text) := by
    intro s
    cases s <;> decide
  rcases List.mem_append.1 h with h | h
  · exact List.mem_append_left _ (hsign b.sign p h)
  · exact List.mem_append_right _ (Release.mem_of_mem_text h)

theorem text_ne_nil (b : Bound) : b.text ≠ [] := by
  obtain ⟨p, _, rest, htext⟩ := Release.exists_text_eq_cons b.version.release_numbers_ne_nil
  simp [text, htext]

/-- A written bound is one piece of a range, without blanks and bars. -/
theorem isPiece_text (b : Bound) : IsPiece b.text := by
  have hmarks : ∀ p ∈ ("<>=^~" : Text) ++ (digits ++ ("." : Text)),
      separates p = false ∧ p.isChar '|' = false ∧ p ≠ .scalar '-' := by decide
  have htext : ∀ p ∈ b.text, separates p = false ∧ p.isChar '|' = false ∧ p ≠ .scalar '-' :=
    fun p hp => hmarks p (mem_of_mem_text hp)
  refine ⟨⟨b.text_ne_nil, fun p hp => (htext p hp).1⟩, fun p hp => (htext p hp).2.1, fun h => ?_⟩
  exact (htext (.scalar '-') (by simp [h])).2.2 rfl

/-- A bound is read as its version is, but with its own sign. -/
theorem parse_text (b : Bound) :
    Comparator.parse b.text = (Comparator.parse b.version.release.text).map (Option.map fun c =>
      ⟨if c.relation = .wildcard then .wildcard else b.sign.relation, c.release, b.text⟩) := by
  have hmarks : ∀ p ∈ digits, isSignMark p = false := by decide
  refine Comparator.parse_sign_append b.sign fun p hp => ?_
  obtain ⟨q, hq, rest, htext⟩ := Release.exists_text_eq_cons b.version.release_numbers_ne_nil
  rw [htext] at hp
  obtain rfl : q = p := by simpa using hp
  exact hmarks q hq

/-- A short bound is read back. -/
theorem IsShort.parse_text {b : Bound} (h : b.IsShort) :
    Comparator.parse b.text = .ok (some b.comparator) := by
  rw [Bound.parse_text, Release.IsShort.parse_text b.version.release_numbers_ne_nil h]
  rfl

/-- A bound with too long a number is an error. -/
theorem exists_parse_text_of_not_isShort {b : Bound} (h : ¬b.IsShort) :
    ∃ e, Comparator.parse b.text = .error e := by
  obtain ⟨n, hn⟩ := Release.exists_parse_text_of_not_isShort b.version.release_numbers_ne_nil h
  exact ⟨_, by rw [Bound.parse_text, hn]; rfl⟩

end Bound

/-- Whether a version is within all of the bounds. -/
def Satisfies (v : Version) (bounds : List Bound) : Prop := ∀ b ∈ bounds, b.Admits v

/-! ## Ranges of bounds -/

/-- The ranges that bounds are written as: a list with separators between the bounds, or a span of two
    versions with blanks around its hyphen. -/
inductive Writes : List Bound → Text → Prop where
  | list {bounds : List Bound} {range : Text} (h : Separated (bounds.map Bound.text) range) :
    Writes bounds range
  | span {low high : Version} {gap gap' : Text} (hne : gap ≠ []) (hgap : ∀ p ∈ gap, p.isSpace = true)
    (hne' : gap' ≠ []) (hgap' : ∀ p ∈ gap', p.isSpace = true) :
    Writes [⟨.atLeast, low⟩, ⟨.atMost, high⟩]
      (low.release.text ++ (gap ++ (.scalar '-' :: (gap' ++ high.release.text))))

namespace Writes

variable {bounds : List Bound} {range : Text}

theorem ne_nil (h : Writes bounds range) : bounds ≠ [] := by
  cases h with
  | list h =>
    rintro rfl
    exact nomatch h
  | span => exact List.cons_ne_nil _ _

/-- Bounds with blanks between them are one alternative of a range. -/
theorem isAlternative (h : Writes bounds range) : IsAlternative range := by
  cases h with
  | list h =>
    refine h.isAlternative fun x hx => ?_
    obtain ⟨b, _, rfl⟩ := List.mem_map.1 hx
    exact b.isPiece_text.isAlternative
  | @span low high gap gap' hne hgap hne' hgap' =>
    have hspace : ∀ p, CodePoint.isSpace p = true → separates p = true := by
      intro p hp
      simp [separates, hp]
    -- For its ends and bars a span is a list of its two versions and the hyphen.
    have hspan : Separated [Bound.text ⟨.bare, low⟩, [.scalar '-'], Bound.text ⟨.bare, high⟩]
        (low.release.text ++ (gap ++ ([.scalar '-'] ++ (gap' ++ high.release.text)))) :=
      .cons hne (fun p hp => hspace p (hgap p hp)) (.cons hne' (fun p hp => hspace p (hgap' p hp)) (.one _))
    refine hspan.isAlternative ?_
    simp only [List.forall_mem_cons, List.not_mem_nil, IsEmpty.forall_iff, implies_true, and_true]
    have hversion : ∀ v, IsAlternative (Bound.text ⟨.bare, v⟩) := fun v => (Bound.isPiece_text _).isAlternative
    refine ⟨hversion low, ⟨by simp, ?_, ?_, ?_⟩, hversion high⟩
    · decide
    · decide
    · decide

/-- The pieces of the range are the bounds as they were written. -/
theorem comparatorTexts_eq (h : Writes bounds range) : comparatorTexts range = bounds.map Bound.text := by
  cases h with
  | list h =>
    refine h.comparatorTexts_eq fun x hx => ?_
    obtain ⟨b, _, rfl⟩ := List.mem_map.1 hx
    exact b.isPiece_text
  | @span low high gap gap' hne hgap hne' hgap' =>
    have hword : ∀ v : Version, IsWord CodePoint.isSpace v.release.text := fun v =>
      ⟨Bound.text_ne_nil ⟨.bare, v⟩, (Bound.isPiece_text ⟨.bare, v⟩).not_isSpace⟩
    rw [comparatorTexts_span (hword low) (hword high) hne hgap hne' hgap']
    rfl

/-- Bounds without long numbers are read as they are. -/
theorem comparators_eq_ok (h : Writes bounds range) (hshort : ∀ b ∈ bounds, b.IsShort) :
    comparators range = .ok (bounds.map Bound.comparator) := by
  rw [comparators_eq h.isAlternative, h.comparatorTexts_eq]
  exact readAll_eq_ok h.ne_nil (fun b hb => (hshort b hb).parse_text) range

/-- One number that is too long makes the whole range an error. -/
theorem comparators_eq_error (h : Writes bounds range) (hlong : ¬∀ b ∈ bounds, b.IsShort) :
    ∃ n, comparators range = .error (.numeralTooLong n) := by
  simp only [not_forall] at hlong
  obtain ⟨b, hb, hb'⟩ := hlong
  rw [comparators_eq h.isAlternative, h.comparatorTexts_eq]
  exact readAll_eq_error ⟨b.text, List.mem_map_of_mem hb, Bound.exists_parse_text_of_not_isShort hb'⟩ range

/-- The major of a range is the one that its bounds are pinned to. -/
theorem majorOf_eq_ok_iff (h : Writes bounds range) {m : Nat} :
    majorOf range = .ok m ↔
      (∀ b ∈ bounds, b.IsShort) ∧ pinnedMajor (bounds.map Bound.comparator) = m := by
  by_cases hshort : ∀ b ∈ bounds, b.IsShort
  · rw [majorOf, h.comparators_eq_ok hshort, and_iff_right hshort]
    exact ⟨Except.ok.inj, congrArg Except.ok⟩
  · obtain ⟨n, hn⟩ := h.comparators_eq_error hshort
    rw [majorOf, hn]
    simp [Except.map, hshort]

/-- Nothing else does. -/
theorem exists_majorOf_eq_error_iff (h : Writes bounds range) :
    (∃ n, majorOf range = .error (.numeralTooLong n)) ↔ ¬∀ b ∈ bounds, b.IsShort := by
  constructor
  · rintro ⟨n, hn⟩ hshort
    rw [majorOf, h.comparators_eq_ok hshort] at hn
    exact nomatch hn
  · intro hlong
    obtain ⟨n, hn⟩ := h.comparators_eq_error hlong
    exact ⟨n, by rw [majorOf, hn]; rfl⟩

end Writes

end LodashStyle.Npm
