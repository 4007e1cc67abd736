import LodashStyle.Proofs.VersionBounds
import Mathlib.Order.Bounds.Basic
import Mathlib.Order.MinMax

/-!
# The major that bounds are pinned to

Where there is a bound from below, the major is the one of the greatest of them, whatever the other
bounds say.  That is enough: if any version is within all of the bounds, then the greatest lower bound
is, or the version right behind it where the bound is strict.

Where there are only bounds from above, the first of the least ones decides.  A strict bound behind a
weak one of the same version is not seen, and the major is then one too high.

## Key results

- `exists_isGreatest_lowerVersions`: lower bounds are pinned to the major of the greatest
- `exists_satisfies_of_isGreatest`: that major has a version within all of the bounds, if any has
- `exists_firstLeast`: upper bounds are pinned by the first of the least
- `isGreatest_pinnedMajor`: and so to the newest major within them, unless a strict bound is hidden
- `lower_bounded_major_satisfies_iff`, `upper_bounded_major_greatest_iff`: the majors of ranges
-/

namespace LodashStyle.Npm

variable {bounds : List Bound} {range : Text}

/-! ## Lower bounds -/

/-- The versions of the bounds that are not from above only. -/
def lowerVersions (bounds : List Bound) : Set Version := {v | ∃ b ∈ bounds, ¬b.IsUpper ∧ b.version = v}

theorem exists_greatest (v : Version) (vs : List Version) :
    ∃ w, greatest v.release (vs.map Version.release) = w.release ∧ IsGreatest {x | x ∈ v :: vs} w := by
  induction vs generalizing v with
  | nil => exact ⟨v, rfl, by simp, fun x hx => by simp_all⟩
  | cons u vs ih =>
    have hstep : (if v.release.lt u.release then u.release else v.release) = (max v u).release := by
      rw [Version.lt_release]
      by_cases h : v < u
      · rw [max_eq_right h.le]
        simp [h]
      · rw [max_eq_left (not_lt.1 h)]
        simp [h]
    -- The fold goes on from the greater one of the first two.
    obtain ⟨w, hw, hmem, hle⟩ := ih (max v u)
    have hmax : max v u ≤ w := hle List.mem_cons_self
    refine ⟨w, ?_, ?_, ?_⟩
    · rw [List.map_cons, greatest, List.foldl_cons, hstep]
      exact hw
    · rcases List.mem_cons.1 hmem with rfl | hmem
      · rcases max_choice v u with h | h <;> simp [h]
      · exact List.mem_cons_of_mem _ (List.mem_cons_of_mem _ hmem)
    · intro x hx
      rcases List.mem_cons.1 hx with rfl | hx
      · exact (le_max_left _ _).trans hmax
      · rcases List.mem_cons.1 hx with rfl | hx
        · exact (le_max_right _ _).trans hmax
        · exact hle (List.mem_cons_of_mem _ hx)

/-- Bounds are pinned to the major of the greatest lower one. -/
theorem exists_isGreatest_lowerVersions (hlower : ∃ b ∈ bounds, ¬b.IsUpper) :
    ∃ v, pinnedMajor (bounds.map Bound.comparator) = v.major ∧ IsGreatest (lowerVersions bounds) v := by
  have hfilter : (bounds.map Bound.comparator).filter (!·.relation.isUpper) =
      (bounds.filter fun b => !b.sign.relation.isUpper).map Bound.comparator := by
    rw [List.filter_map]
    rfl
  have hmem : ∀ b, b ∈ (bounds.filter fun b => !b.sign.relation.isUpper) ↔ b ∈ bounds ∧ ¬b.IsUpper := by
    intro b
    simp [Bound.IsUpper]
  unfold pinnedMajor
  rw [hfilter]
  cases hlowers : bounds.filter fun b => !b.sign.relation.isUpper with
  | nil =>
    -- There is a lower bound, so that not all were filtered out.
    obtain ⟨b, hb, hnot⟩ := hlower
    have hb' := (hmem b).2 ⟨hb, hnot⟩
    rw [hlowers] at hb'
    exact absurd hb' List.not_mem_nil
  | cons first others =>
    obtain ⟨v, hv, hgreatest⟩ := exists_greatest first.version (others.map Bound.version)
    have hversions : lowerVersions bounds = {x | x ∈ first.version :: others.map Bound.version} := by
      ext x
      rw [← List.map_cons, ← hlowers]
      simp [lowerVersions, hmem, and_assoc]
    rw [List.map_map] at hv
    refine ⟨v, ?_, hversions ▸ hgreatest⟩
    simp only [List.map_cons, List.map_map]
    exact congrArg Release.major hv

/-- So the order of the bounds does not matter. -/
theorem pinnedMajor_of_perm {bounds' : List Bound} (hlower : ∃ b ∈ bounds, ¬b.IsUpper)
    (hperm : bounds'.Perm bounds) :
    pinnedMajor (bounds'.map Bound.comparator) = pinnedMajor (bounds.map Bound.comparator) := by
  obtain ⟨v, hv, hgreatest⟩ := exists_isGreatest_lowerVersions hlower
  have hlower' : ∃ b ∈ bounds', ¬b.IsUpper := by simpa only [hperm.mem_iff] using hlower
  obtain ⟨w, hw, hgreatest'⟩ := exists_isGreatest_lowerVersions hlower'
  have hversions : lowerVersions bounds' = lowerVersions bounds := by
    simp only [lowerVersions, hperm.mem_iff]
  rw [hversions] at hgreatest'
  rw [hv, hw, hgreatest'.unique hgreatest]

theorem Bound.Admits.version_le {b : Bound} {w : Version} (h : b.Admits w) (hb : ¬b.IsUpper) :
    b.version ≤ w := by
  obtain ⟨sign, version⟩ := b
  cases sign with
  | bare => exact (show w = version from h).ge
  | equal => exact (show w = version from h).ge
  | caret => exact h.1
  | tilde => exact h.1
  | tildeAngle => exact h.1
  | atLeast => exact h
  | above => exact le_of_lt h
  | atMost => exact absurd rfl hb
  | below => exact absurd rfl hb

/-- The versions within a bound are all those between the bound itself and any one of them. -/
theorem Bound.Admits.of_le {b : Bound} {u w : Version} (h : b.Admits w) (hu : u ≤ w)
    (hle : ¬b.IsUpper → b.version ≤ u) (hlt : b.sign = .above → b.version < u) : b.Admits u := by
  obtain ⟨sign, version⟩ := b
  cases sign with
  | bare => exact le_antisymm (hu.trans (show w = version from h).le) (hle nofun)
  | equal => exact le_antisymm (hu.trans (show w = version from h).le) (hle nofun)
  | caret => exact ⟨hle nofun, hu.trans_lt h.2⟩
  | tilde => exact ⟨hle nofun, hu.trans_lt h.2⟩
  | tildeAngle => exact ⟨hle nofun, hu.trans_lt h.2⟩
  | atLeast => exact hle nofun
  | above => exact hlt rfl
  | atMost => exact hu.trans h
  | below => exact hu.trans_lt h

/-- If any version is within the bounds, one with the major of the greatest lower bound is. -/
theorem exists_satisfies_of_isGreatest {v w : Version} (hgreatest : IsGreatest (lowerVersions bounds) v)
    (hw : Satisfies w bounds) : ∃ u, u.major = v.major ∧ Satisfies u bounds := by
  have hle : ∀ b ∈ bounds, ¬b.IsUpper → b.version ≤ v := fun b hb hlower => hgreatest.2 ⟨b, hb, hlower, rfl⟩
  by_cases hstrict : ⟨.above, v⟩ ∈ bounds
  · -- The greatest bound is strict: the version right behind it will do.
    have hvw : v < w := hw _ hstrict
    refine ⟨v.nextPatch, rfl, fun b hb => (hw b hb).of_le (Version.nextPatch_le_of_lt hvw) ?_ ?_⟩
    · exact fun hlower => (hle b hb hlower).trans v.lt_nextPatch.le
    · intro hsign
      have hlower : ¬b.IsUpper := by simp [Bound.isUpper_iff, hsign]
      exact (hle b hb hlower).trans_lt v.lt_nextPatch
  · -- Otherwise the version of the greatest bound is itself within them.
    have hvw : v ≤ w := by
      obtain ⟨b, hb, hlower, rfl⟩ := hgreatest.1
      exact (hw b hb).version_le hlower
    refine ⟨v, rfl, fun b hb => (hw b hb).of_le hvw (hle b hb) ?_⟩
    intro hsign
    have hlower : ¬b.IsUpper := by simp [Bound.isUpper_iff, hsign]
    refine lt_of_le_of_ne (hle b hb hlower) fun hversion => hstrict ?_
    rwa [← hsign, ← hversion]

/-- A range with a lower bound that any version is within has the major of such a version, unless one
    of its numbers is too long to be read; and the order in which the bounds are written does not
    matter. -/
theorem lower_bounded_major_satisfies_iff (h : Writes bounds range) (hlower : ∃ b ∈ bounds, ¬b.IsUpper)
    (hsatisfied : ∃ w, Satisfies w bounds) :
    ((∃ v : Version, majorOf range = .ok v.major ∧ Satisfies v bounds) ↔ ∀ b ∈ bounds, b.IsShort) ∧
      ((∃ n, majorOf range = .error (.numeralTooLong n)) ↔ ¬∀ b ∈ bounds, b.IsShort) ∧
      ∀ bounds' range', bounds'.Perm bounds → Writes bounds' range' →
        ∀ m, majorOf range' = .ok m ↔ majorOf range = .ok m := by
  refine ⟨⟨?_, ?_⟩, h.exists_majorOf_eq_error_iff, ?_⟩
  · rintro ⟨v, hv, _⟩
    exact (h.majorOf_eq_ok_iff.1 hv).1
  · intro hshort
    obtain ⟨v, hv, hgreatest⟩ := exists_isGreatest_lowerVersions hlower
    obtain ⟨w, hw⟩ := hsatisfied
    obtain ⟨u, hu, hadmits⟩ := exists_satisfies_of_isGreatest hgreatest hw
    exact ⟨u, h.majorOf_eq_ok_iff.2 ⟨hshort, hv.trans hu.symm⟩, hadmits⟩
  · intro bounds' range' hperm h' m
    rw [h.majorOf_eq_ok_iff, h'.majorOf_eq_ok_iff, pinnedMajor_of_perm hlower hperm]
    simp only [hperm.mem_iff]

/-- The major of `<4.18.0, ^4.17.0 >4.17.4` is that of a version within the bounds.  A bound with more
    digits than are read is an error, though versions satisfy it. -/
theorem lower_bounded_major_at_strict_bound :
    (∃ v : Version, majorOf "<4.18.0, ^4.17.0 >4.17.4" = .ok v.major ∧
        Satisfies v [⟨.below, ⟨4, 18, 0⟩⟩, ⟨.caret, ⟨4, 17, 0⟩⟩, ⟨.above, ⟨4, 17, 4⟩⟩]) ∧
      (∃ w, Satisfies w [⟨.atLeast, ⟨4, 10 ^ Release.maxDigits, 0⟩⟩]) ∧
      ∃ n, majorOf (Bound.text ⟨.atLeast, ⟨4, 10 ^ Release.maxDigits, 0⟩⟩) = .error (.numeralTooLong n) := by
  have hseparated : Separated
      (List.map Bound.text [⟨.below, ⟨4, 18, 0⟩⟩, ⟨.caret, ⟨4, 17, 0⟩⟩, ⟨.above, ⟨4, 17, 4⟩⟩])
      ("<4.18.0" ++ (", " ++ ("^4.17.0" ++ (" " ++ ">4.17.4")))) :=
    .cons (by decide) (by decide) (.cons (by decide) (by decide) (.one _))
  have hwithin : Satisfies ⟨4, 17, 5⟩
      [⟨.below, ⟨4, 18, 0⟩⟩, ⟨.caret, ⟨4, 17, 0⟩⟩, ⟨.above, ⟨4, 17, 4⟩⟩] := by
    simp [Satisfies, Bound.Admits, Version.lt_iff, Version.le_iff, Version.nextBreaking]
  have hleast : Satisfies ⟨4, 10 ^ Release.maxDigits, 0⟩ [⟨.atLeast, ⟨4, 10 ^ Release.maxDigits, 0⟩⟩] := by
    simp [Satisfies, Bound.Admits]
  have hone : Writes [⟨.atLeast, ⟨4, 10 ^ Release.maxDigits, 0⟩⟩]
      (Bound.text ⟨.atLeast, ⟨4, 10 ^ Release.maxDigits, 0⟩⟩) := .list (.one _)
  refine ⟨?_, ⟨_, hleast⟩, ?_⟩
  · refine (lower_bounded_major_satisfies_iff (.list hseparated) ?_ ⟨_, hwithin⟩).1.2 ?_
    · exact ⟨⟨.caret, ⟨4, 17, 0⟩⟩, by simp, by simp [Bound.isUpper_iff]⟩
    · simp only [Bound.IsShort, Release.isShort_iff]
      decide
  · refine (lower_bounded_major_satisfies_iff hone ?_ ⟨_, hleast⟩).2.1.2 ?_
    · exact ⟨⟨.atLeast, ⟨4, 10 ^ Release.maxDigits, 0⟩⟩, by simp, by simp [Bound.isUpper_iff]⟩
    · simp [Bound.IsShort, Release.IsShort, Version.release]

/-! ## Upper bounds -/

/-- The first of the bounds with the least version. -/
structure FirstLeast (bounds : List Bound) (b : Bound) : Prop where
  le : ∀ a ∈ bounds, b.version ≤ a.version
  first : bounds.find? (·.version = b.version) = some b

namespace FirstLeast

variable {b c : Bound}

theorem mem (h : FirstLeast bounds b) : b ∈ bounds := List.mem_of_find?_eq_some h.first

theorem unique (hb : FirstLeast bounds b) (hc : FirstLeast bounds c) : b = c := by
  have hversion : b.version = c.version := le_antisymm (hb.le c hc.mem) (hc.le b hb.mem)
  have hfirst := hb.first
  rw [hversion, hc.first] at hfirst
  exact (Option.some.inj hfirst).symm

/-- A bound in front that is greater changes nothing. -/
theorem cons_of_lt {a : Bound} (h : FirstLeast bounds b) (hlt : b.version < a.version) :
    FirstLeast (a :: bounds) b := by
  refine ⟨List.forall_mem_cons.2 ⟨hlt.le, h.le⟩, ?_⟩
  rw [List.find?_cons_of_neg (by simpa using hlt.ne'), h.first]

/-- Nor does a bound behind the first one that is not less than it. -/
theorem insert_of_le {first a : Bound} (h : FirstLeast (first :: bounds) b)
    (hle : first.version ≤ a.version) : FirstLeast (first :: a :: bounds) b := by
  obtain ⟨hfirst, hrest⟩ := List.forall_mem_cons.1 h.le
  refine ⟨List.forall_mem_cons.2 ⟨hfirst, List.forall_mem_cons.2 ⟨hfirst.trans hle, hrest⟩⟩, ?_⟩
  have hfind := h.first
  by_cases heq : first.version = b.version
  · rw [List.find?_cons_of_pos (by simpa using heq)] at hfind ⊢
    exact hfind
  · have hlt : b.version < a.version := (lt_of_le_of_ne hfirst (Ne.symm heq)).trans_le hle
    rw [List.find?_cons_of_neg (by simpa using heq)] at hfind ⊢
    rw [List.find?_cons_of_neg (by simpa using hlt.ne'), hfind]

end FirstLeast

theorem exists_least (first : Bound) (others : List Bound) :
    ∃ b, least first.comparator (others.map Bound.comparator) = b.comparator ∧
      FirstLeast (first :: others) b := by
  induction others generalizing first with
  | nil => exact ⟨first, rfl, by simp, by simp⟩
  | cons a others ih =>
    have hlt : a.comparator.release.lt first.comparator.release = decide (a.version < first.version) :=
      Version.lt_release _ _
    rw [List.map_cons, least, List.foldl_cons, hlt]
    by_cases h : a.version < first.version
    · -- Only a lesser bound takes the place of the one kept so far.
      obtain ⟨b, hb, hleast⟩ := ih a
      refine ⟨b, by simpa [h, least] using hb, hleast.cons_of_lt ?_⟩
      exact (hleast.le a List.mem_cons_self).trans_lt h
    · obtain ⟨b, hb, hleast⟩ := ih first
      exact ⟨b, by simpa [h, least] using hb, hleast.insert_of_le (not_lt.1 h)⟩

/-- Bounds from above are pinned by the first of the least ones. -/
theorem exists_firstLeast (hne : bounds ≠ []) (hupper : ∀ b ∈ bounds, b.IsUpper) :
    ∃ b, pinnedMajor (bounds.map Bound.comparator) = majorBelow b.comparator ∧ FirstLeast bounds b := by
  have hfilter : (bounds.map Bound.comparator).filter (!·.relation.isUpper) = [] := by
    rw [List.filter_eq_nil_iff]
    intro c hc
    obtain ⟨b, hb, rfl⟩ := List.mem_map.1 hc
    have hb' : b.comparator.relation.isUpper = true := hupper b hb
    simp [hb']
  obtain ⟨first, others, rfl⟩ := List.exists_cons_of_ne_nil hne
  obtain ⟨b, hb, hleast⟩ := exists_least first others
  refine ⟨b, ?_, hleast⟩
  unfold pinnedMajor
  rw [hfilter]
  exact congrArg majorBelow hb

/-- The majors of the versions within the bounds. -/
def majors (bounds : List Bound) : Set Nat := {m | ∃ v : Version, v.major = m ∧ Satisfies v bounds}

/-- The least version bounds all others, strictly if any bound at it is strict. -/
theorem satisfies_iff_of_firstLeast {b : Bound} (hupper : ∀ a ∈ bounds, a.IsUpper)
    (hleast : FirstLeast bounds b) {v : Version} :
    Satisfies v bounds ↔ v ≤ b.version ∧ (⟨.below, b.version⟩ ∈ bounds → v < b.version) := by
  constructor
  · intro h
    refine ⟨?_, fun hmem => h _ hmem⟩
    have hb := h b hleast.mem
    obtain ⟨sign, version⟩ := b
    rcases Bound.isUpper_iff.1 (hupper _ hleast.mem) with rfl | rfl
    · exact hb
    · exact le_of_lt hb
  · rintro ⟨hle, hlt⟩ a ha
    have hba := hleast.le a ha
    obtain ⟨sign, version⟩ := a
    rcases Bound.isUpper_iff.1 (hupper _ ha) with rfl | rfl
    · exact hle.trans hba
    · -- A strict bound excludes `v` by lying higher, or at the least version itself.
      rcases hba.lt_or_eq with hba | hba
      · exact hle.trans_lt hba
      · exact (hlt (hba ▸ ha)).trans_le hba.le

/-- The start of a major is excluded by a strict bound: the newest major within the bounds is the one
    before. -/
theorem exists_isGreatest_majors {b : Bound} (hupper : ∀ a ∈ bounds, a.IsUpper)
    (hleast : FirstLeast bounds b) (hsatisfied : ∃ w, Satisfies w bounds)
    (hstrict : ⟨.below, b.version⟩ ∈ bounds) (hstart : b.version.minor = 0 ∧ b.version.patch = 0) :
    ∃ m, IsGreatest (majors bounds) m ∧ b.version.major = m + 1 := by
  have hlt : ∀ v : Version, Satisfies v bounds → v.major < b.version.major := by
    intro v hv
    have hv := Version.lt_iff.1 (((satisfies_iff_of_firstLeast hupper hleast).1 hv).2 hstrict)
    omega
  obtain ⟨w, hw⟩ := hsatisfied
  obtain ⟨m, hm⟩ := Nat.exists_eq_add_one_of_ne_zero (Nat.ne_zero_of_lt (hlt w hw))
  -- The start of the major before is a version within the bounds.
  have hbefore : (⟨m, 0, 0⟩ : Version) < b.version := by
    refine Version.lt_iff.2 (.inl ?_)
    show m < b.version.major
    omega
  refine ⟨m, ⟨⟨⟨m, 0, 0⟩, rfl, ?_⟩, ?_⟩, hm⟩
  · exact (satisfies_iff_of_firstLeast hupper hleast).2 ⟨hbefore.le, fun _ => hbefore⟩
  · rintro _ ⟨v, rfl, hv⟩
    have hv := hlt v hv
    omega

/-- Otherwise it is the one of the least version. -/
theorem isGreatest_majors {b : Bound} (hupper : ∀ a ∈ bounds, a.IsUpper) (hleast : FirstLeast bounds b)
    (h : ⟨.below, b.version⟩ ∈ bounds → ¬(b.version.minor = 0 ∧ b.version.patch = 0)) :
    IsGreatest (majors bounds) b.version.major := by
  have hle : (⟨b.version.major, 0, 0⟩ : Version) ≤ b.version := by
    refine Version.le_iff.2 (.inr ⟨rfl, ?_⟩)
    show 0 < b.version.minor ∨ 0 = b.version.minor ∧ 0 ≤ b.version.patch
    omega
  constructor
  · refine ⟨⟨b.version.major, 0, 0⟩, rfl, ?_⟩
    refine (satisfies_iff_of_firstLeast hupper hleast).2 ⟨hle, fun hstrict => ?_⟩
    refine Version.lt_iff.2 (.inr ⟨rfl, ?_⟩)
    show 0 < b.version.minor ∨ 0 = b.version.minor ∧ 0 < b.version.patch
    have hnot := h hstrict
    omega
  · rintro _ ⟨v, rfl, hv⟩
    have hv := Version.le_iff.1 ((satisfies_iff_of_firstLeast hupper hleast).1 hv).1
    omega

/-- A strict bound is hidden behind a weak one of the same version, at which a major starts. -/
def StrictBoundHidden (bounds : List Bound) : Prop :=
  ∃ x, FirstLeast bounds ⟨.atMost, ⟨x, 0, 0⟩⟩ ∧ ⟨.below, ⟨x, 0, 0⟩⟩ ∈ bounds

theorem strictBoundHidden_iff {b : Bound} (hleast : FirstLeast bounds b) :
    StrictBoundHidden bounds ↔ b.sign = .atMost ∧ ⟨.below, b.version⟩ ∈ bounds ∧
      b.version.minor = 0 ∧ b.version.patch = 0 := by
  constructor
  · rintro ⟨x, hx, hmem⟩
    obtain rfl := hleast.unique hx
    exact ⟨rfl, hmem, rfl, rfl⟩
  · obtain ⟨sign, x, minor, patch⟩ := b
    rintro ⟨rfl, hmem, rfl, rfl⟩
    exact ⟨x, hleast, hmem⟩

theorem majorBelow_comparator (b : Bound) :
    majorBelow b.comparator = if b.sign = .below ∧ b.version.minor = 0 ∧ b.version.patch = 0 then
      b.version.major - 1 else b.version.major := by
  obtain ⟨sign, version⟩ := b
  cases sign <;> simp [majorBelow, Bound.comparator, Sign.relation, Version.release, Release.major,
    Release.minor, Release.patch]

/-- A strict bound that is hidden costs one major. -/
theorem StrictBoundHidden.exists_pinnedMajor_eq (hidden : StrictBoundHidden bounds)
    (hupper : ∀ b ∈ bounds, b.IsUpper) (hsatisfied : ∃ w, Satisfies w bounds) :
    ∃ m, IsGreatest (majors bounds) m ∧ pinnedMajor (bounds.map Bound.comparator) = m + 1 := by
  obtain ⟨x, hx, hstrict⟩ := hidden
  obtain ⟨b, hpinned, hleast⟩ := exists_firstLeast (List.ne_nil_of_mem hx.mem) hupper
  obtain rfl := hleast.unique hx
  obtain ⟨m, hm, hnext⟩ := exists_isGreatest_majors hupper hx hsatisfied hstrict ⟨rfl, rfl⟩
  exact ⟨m, hm, by rw [hpinned, majorBelow_comparator, if_neg (by simp), hnext]⟩

/-- Without such a bound, the newest major within the bounds is found. -/
theorem isGreatest_pinnedMajor (hne : bounds ≠ []) (hupper : ∀ b ∈ bounds, b.IsUpper)
    (hsatisfied : ∃ w, Satisfies w bounds) (hidden : ¬StrictBoundHidden bounds) :
    IsGreatest (majors bounds) (pinnedMajor (bounds.map Bound.comparator)) := by
  obtain ⟨b, hpinned, hleast⟩ := exists_firstLeast hne hupper
  rw [strictBoundHidden_iff hleast] at hidden
  rw [hpinned, majorBelow_comparator]
  obtain ⟨sign, version⟩ := b
  rcases Bound.isUpper_iff.1 (hupper _ hleast.mem) with rfl | rfl
  · -- The bound is weak, so no strict one at the same version is hidden behind it.
    rw [if_neg (by simp)]
    exact isGreatest_majors hupper hleast fun hstrict hstart => hidden ⟨rfl, hstrict, hstart⟩
  · -- A strict bound costs its major only if the major starts at it.
    split
    · rename_i hstart
      obtain ⟨m, hm, hnext⟩ := exists_isGreatest_majors hupper hleast hsatisfied hleast.mem hstart.2
      rwa [hnext]
    · rename_i hstart
      exact isGreatest_majors hupper hleast fun _ hzero => hstart ⟨rfl, hzero⟩

/-- A list of bounds from above that any version is within has the newest major within them, unless a
    number is too long to be read or a strict bound is hidden behind a weak one; where one is hidden the
    major is the next one, in which no version is within the bounds. -/
theorem upper_bounded_major_greatest_iff (h : Separated (bounds.map Bound.text) range)
    (hupper : ∀ b ∈ bounds, b.IsUpper) (hsatisfied : ∃ w, Satisfies w bounds) :
    ((∃ m, majorOf range = .ok m ∧ IsGreatest (majors bounds) m) ↔
        (∀ b ∈ bounds, b.IsShort) ∧ ¬StrictBoundHidden bounds) ∧
      ((∃ m, majorOf range = .ok (m + 1) ∧ IsGreatest (majors bounds) m) ↔
        (∀ b ∈ bounds, b.IsShort) ∧ StrictBoundHidden bounds) ∧
      ((∃ n, majorOf range = .error (.numeralTooLong n)) ↔ ¬∀ b ∈ bounds, b.IsShort) := by
  have hwrites : Writes bounds range := .list h
  refine ⟨⟨?_, ?_⟩, ⟨?_, ?_⟩, hwrites.exists_majorOf_eq_error_iff⟩
  · -- There is one greatest major, and behind a hidden bound another one is found.
    rintro ⟨m, hmajor, hm⟩
    obtain ⟨hshort, hpinned⟩ := hwrites.majorOf_eq_ok_iff.1 hmajor
    refine ⟨hshort, fun hidden => ?_⟩
    obtain ⟨m', hm', hnext⟩ := hidden.exists_pinnedMajor_eq hupper hsatisfied
    have hsame := hm.unique hm'
    omega
  · rintro ⟨hshort, hidden⟩
    exact ⟨_, hwrites.majorOf_eq_ok_iff.2 ⟨hshort, rfl⟩,
      isGreatest_pinnedMajor hwrites.ne_nil hupper hsatisfied hidden⟩
  · rintro ⟨m, hmajor, hm⟩
    obtain ⟨hshort, hpinned⟩ := hwrites.majorOf_eq_ok_iff.1 hmajor
    refine ⟨hshort, by_contra fun hidden => ?_⟩
    have hsame := hm.unique (isGreatest_pinnedMajor hwrites.ne_nil hupper hsatisfied hidden)
    omega
  · rintro ⟨hshort, hidden⟩
    obtain ⟨m, hm, hnext⟩ := hidden.exists_pinnedMajor_eq hupper hsatisfied
    exact ⟨m, hwrites.majorOf_eq_ok_iff.2 ⟨hshort, hnext⟩, hm⟩

/-- Of two bounds from above at the same version the first one decides: `<5.0.0 <=5.0.0` has the
    greatest major that satisfies it, and the same bounds the other way round have one more. -/
theorem upper_bounded_major_at_equal_bounds :
    (∃ m, majorOf "<5.0.0 <=5.0.0" = .ok m ∧
        IsGreatest (majors [⟨.below, ⟨5, 0, 0⟩⟩, ⟨.atMost, ⟨5, 0, 0⟩⟩]) m) ∧
      ∃ m, majorOf "<=5.0.0 <5.0.0" = .ok (m + 1) ∧
        IsGreatest (majors [⟨.atMost, ⟨5, 0, 0⟩⟩, ⟨.below, ⟨5, 0, 0⟩⟩]) m := by
  have hstrict : Separated (List.map Bound.text [⟨.below, ⟨5, 0, 0⟩⟩, ⟨.atMost, ⟨5, 0, 0⟩⟩])
      ("<5.0.0" ++ (" " ++ "<=5.0.0")) := .cons (by decide) (by decide) (.one _)
  have hweak : Separated (List.map Bound.text [⟨.atMost, ⟨5, 0, 0⟩⟩, ⟨.below, ⟨5, 0, 0⟩⟩])
      ("<=5.0.0" ++ (" " ++ "<5.0.0")) := .cons (by decide) (by decide) (.one _)
  have hwithin : Satisfies ⟨4, 0, 0⟩ [⟨.below, ⟨5, 0, 0⟩⟩, ⟨.atMost, ⟨5, 0, 0⟩⟩] ∧
      Satisfies ⟨4, 0, 0⟩ [⟨.atMost, ⟨5, 0, 0⟩⟩, ⟨.below, ⟨5, 0, 0⟩⟩] := by
    simp [Satisfies, Bound.Admits, Version.lt_iff, Version.le_iff]
  -- Of two equal bounds the first one counts.
  have hfirst : FirstLeast [⟨.below, ⟨5, 0, 0⟩⟩, ⟨.atMost, ⟨5, 0, 0⟩⟩] ⟨.below, ⟨5, 0, 0⟩⟩ :=
    ⟨by simp, by decide⟩
  have hfirst' : FirstLeast [⟨.atMost, ⟨5, 0, 0⟩⟩, ⟨.below, ⟨5, 0, 0⟩⟩] ⟨.atMost, ⟨5, 0, 0⟩⟩ :=
    ⟨by simp, by decide⟩
  constructor
  · refine (upper_bounded_major_greatest_iff hstrict ?_ ⟨_, hwithin.1⟩).1.2 ⟨?_, ?_⟩
    · simp [Bound.isUpper_iff]
    · simp only [Bound.IsShort, Release.isShort_iff]
      decide
    · rw [strictBoundHidden_iff hfirst]
      simp
  · refine (upper_bounded_major_greatest_iff hweak ?_ ⟨_, hwithin.2⟩).2.1.2 ⟨?_, ⟨5, hfirst', by simp⟩⟩
    · simp [Bound.isUpper_iff]
    · simp only [Bound.IsShort, Release.isShort_iff]
      decide

end LodashStyle.Npm
