import LodashStyle.Diagnostic.Splice

/-!
# The order of spans

Diagnostics and fixes are put in the order of their spans: by start, then by end, those of
equal spans as they came.  Both orders are one: `sortBySpan` for a given span of each item.
A list is in this order exactly when its spans are, and what it holds of each span is what
was given, in the order in which it was given.

## Key results

- `filter_span_sortBySpan`: items of equal spans keep their order
- `eq_of_filter_span`: an ordered list is known from what it holds of each span
- `filter_sortBySpan`: taking items out before or after the ordering makes no difference
- `sortBySpan_eq_of_perm`: without ties, the order in which items are given makes no difference
-/

namespace LodashStyle

/-- Whether a span may stand before another one: by start, then by end. -/
def spanLe (p q : Nat × Nat) : Bool := p.1 < q.1 || (p.1 == q.1 && p.2 ≤ q.2)

variable {α : Type} {key : α → Nat × Nat}

/-- Items in the order of their spans, those of equal spans in their given order. -/
def sortBySpan (key : α → Nat × Nat) (xs : List α) : List α :=
  xs.mergeSort fun a b => spanLe (key a) (key b)

/-! ## Spans -/

/-- Spans are compared by their starts, and by their ends if these agree. -/
theorem spanLe_iff {p q : Nat × Nat} : spanLe p q = true ↔ p.1 < q.1 ∨ p.1 = q.1 ∧ p.2 ≤ q.2 := by
  simp [spanLe]

theorem spanLe_trans {p q r : Nat × Nat} (hpq : spanLe p q = true) (hqr : spanLe q r = true) :
    spanLe p r = true := by
  rw [spanLe_iff] at *
  omega

theorem spanLe_total (p q : Nat × Nat) : (spanLe p q || spanLe q p) = true := by
  simp only [Bool.or_eq_true, spanLe_iff]
  omega

/-- Only a span itself is neither before nor behind it. -/
theorem spanLe_antisymm {p q : Nat × Nat} (hpq : spanLe p q = true) (hqp : spanLe q p = true) :
    p = q := by
  rw [spanLe_iff] at *
  exact Prod.ext (by omega) (by omega)

/-! ## Ordered lists -/

/-- What is sorted by spans is in their order. -/
theorem pairwise_sortBySpan (key : α → Nat × Nat) (xs : List α) :
    (sortBySpan key xs).Pairwise fun a b => spanLe (key a) (key b) = true := by
  apply List.pairwise_mergeSort
  · intro a b c hab hbc
    exact spanLe_trans hab hbc
  · intro a b
    exact spanLe_total (key a) (key b)

/-- Sorting loses nothing and adds nothing. -/
theorem sortBySpan_perm (key : α → Nat × Nat) (xs : List α) : (sortBySpan key xs).Perm xs :=
  List.mergeSort_perm xs _

/-- Items of equal spans keep their order. -/
theorem filter_span_sortBySpan (xs : List α) (p : Nat × Nat) :
    (sortBySpan key xs).filter (key · == p) = xs.filter (key · == p) := by
  -- Those of one span are in order already, so sorting keeps them as a sublist.
  have hties : (xs.filter (key · == p)).Pairwise fun a b => spanLe (key a) (key b) = true := by
    apply List.pairwise_of_forall_mem_list
    intro a ha b hb
    have hpa : key a = p := by simpa using (List.mem_filter.1 ha).2
    have hpb : key b = p := by simpa using (List.mem_filter.1 hb).2
    rw [hpa, hpb, spanLe_iff]
    omega
  have hsub : (xs.filter (key · == p)).Sublist (sortBySpan key xs) := by
    apply List.sublist_mergeSort _ _ hties List.filter_sublist
    · intro a b c hab hbc
      exact spanLe_trans hab hbc
    · intro a b
      exact spanLe_total (key a) (key b)
  have hsub := hsub.filter (key · == p)
  rw [List.filter_filter] at hsub
  simp only [Bool.and_self] at hsub
  have hlength := ((sortBySpan_perm key xs).filter (key · == p)).length_eq
  exact (hsub.eq_of_length hlength.symm).symm

/-- Two ordered lists that hold the same items of each span in the same order are the same. -/
theorem eq_of_filter_span {xs ys : List α}
    (hxs : xs.Pairwise fun a b => spanLe (key a) (key b) = true)
    (hys : ys.Pairwise fun a b => spanLe (key a) (key b) = true)
    (h : ∀ p, xs.filter (key · == p) = ys.filter (key · == p)) : xs = ys := by
  -- An item of one list is in the other one, among those of its span.
  have hmem : ∀ {as bs : List α}, (∀ p, as.filter (key · == p) = bs.filter (key · == p)) →
      ∀ a ∈ as, a ∈ bs := by
    intro as bs hfilter a ha
    have ha' : a ∈ as.filter (key · == key a) := List.mem_filter.2 ⟨ha, by simp⟩
    rw [hfilter] at ha'
    exact (List.mem_filter.1 ha').1
  induction xs generalizing ys with
  | nil =>
    cases ys with
    | nil => rfl
    | cons y ys => exact absurd (hmem (fun p => (h p).symm) y List.mem_cons_self) List.not_mem_nil
  | cons x xs ih =>
    cases ys with
    | nil => exact absurd (hmem h x List.mem_cons_self) List.not_mem_nil
    | cons y ys =>
      rw [List.pairwise_cons] at hxs hys
      -- Each of the first items may stand before the other, so they have one span.
      have hyx : spanLe (key y) (key x) = true := by
        obtain rfl | hx := List.mem_cons.1 (hmem h x List.mem_cons_self)
        · simp [spanLe_iff]
        · exact hys.1 x hx
      have hxy : spanLe (key x) (key y) = true := by
        obtain rfl | hy := List.mem_cons.1 (hmem (fun p => (h p).symm) y List.mem_cons_self)
        · simp [spanLe_iff]
        · exact hxs.1 y hy
      have hspan : key x = key y := spanLe_antisymm hxy hyx
      have hfirst := h (key x)
      rw [List.filter_cons_of_pos (by simp), List.filter_cons_of_pos (by simp [hspan])] at hfirst
      obtain ⟨rfl, -⟩ := List.cons.inj hfirst
      congr 1
      apply ih hxs.2 hys.2
      intro p
      have hp := h p
      simp only [List.filter_cons] at hp
      split at hp
      · exact (List.cons.inj hp).2
      · exact hp

/-- Taking items out before or after the ordering makes no difference. -/
theorem filter_sortBySpan (keep : α → Bool) (xs : List α) :
    (sortBySpan key xs).filter keep = sortBySpan key (xs.filter keep) := by
  have hkept := (pairwise_sortBySpan key xs).filter keep
  apply eq_of_filter_span hkept (pairwise_sortBySpan key _)
  intro p
  calc ((sortBySpan key xs).filter keep).filter (key · == p)
      = ((sortBySpan key xs).filter (key · == p)).filter keep := by
        simp only [List.filter_filter, Bool.and_comm]
    _ = (xs.filter (key · == p)).filter keep := by rw [filter_span_sortBySpan]
    _ = (xs.filter keep).filter (key · == p) := by simp only [List.filter_filter, Bool.and_comm]
    _ = (sortBySpan key (xs.filter keep)).filter (key · == p) := by rw [filter_span_sortBySpan]

/-- When items of equal spans are equal, the order in which the items are given makes no difference. -/
theorem sortBySpan_eq_of_perm {xs ys : List α} (hperm : xs.Perm ys)
    (hties : ∀ a ∈ xs, ∀ b ∈ xs, key a = key b → a = b) :
    sortBySpan key xs = sortBySpan key ys := by
  have hsorted : (sortBySpan key xs).Perm (sortBySpan key ys) :=
    (sortBySpan_perm key xs).trans (hperm.trans (sortBySpan_perm key ys).symm)
  refine List.Perm.eq_of_pairwise ?_ (pairwise_sortBySpan key xs) (pairwise_sortBySpan key ys) hsorted
  intro a b ha hb hab hba
  have ha' : a ∈ xs := (sortBySpan_perm key xs).mem_iff.1 ha
  have hb' : b ∈ xs := hperm.mem_iff.2 ((sortBySpan_perm key ys).mem_iff.1 hb)
  exact hties a ha' b hb' (spanLe_antisymm hab hba)

/-! ## Diagnostics and fixes -/

/-- The span of a diagnostic. -/
def Diagnostic.span (d : Diagnostic) : Nat × Nat := (d.startByte, d.endByte)

/-- The span of a fix. -/
def Fix.span (f : Fix) : Nat × Nat := (f.start, f.stop)

/-- Diagnostics are sorted by the spans they are about. -/
theorem Diagnostic.sort_eq (ds : List Diagnostic) : Diagnostic.sort ds = sortBySpan Diagnostic.span ds :=
  rfl

/-- Fixes are sorted by the spans they replace. -/
theorem Fix.sort_eq (fixes : List Fix) : Fix.sort fixes = sortBySpan Fix.span fixes := rfl

namespace Fix

/-- A fix is known from its span and its text. -/
theorem eq_of_span_of_text {f g : Fix} (hspan : f.span = g.span) (htext : f.text = g.text) : f = g := by
  obtain ⟨start, stop, text, hle⟩ := f
  obtain ⟨start', stop', text', hle'⟩ := g
  obtain ⟨rfl, rfl⟩ := Prod.mk.inj hspan
  obtain rfl : text = text' := htext
  rfl

/-- The order of fixes, by starts and then by ends. -/
theorem le_iff {f g : Fix} :
    f.le g = true ↔ f.start < g.start ∨ f.start = g.start ∧ f.stop ≤ g.stop := by
  simp [le]

/-- Sorting fixes loses none and adds none. -/
theorem sort_perm (fixes : List Fix) : (sort fixes).Perm fixes := by
  rw [sort_eq]
  exact sortBySpan_perm span fixes

theorem mem_sort {fixes : List Fix} {f : Fix} : f ∈ sort fixes ↔ f ∈ fixes := (sort_perm fixes).mem_iff

/-- Sorted fixes are in their order. -/
theorem pairwise_sort (fixes : List Fix) : (sort fixes).Pairwise fun f g => f.le g = true := by
  rw [sort_eq]
  exact pairwise_sortBySpan span fixes

end Fix

end LodashStyle
