import LodashStyle.Proofs.SpanOrder
import LodashStyle.Proofs.Splicing

/-!
# Which fixes are applied

Fixes are taken in the order of their spans, and one is skipped exactly when it reaches beyond
the source or into a fix before it that is applied.  `mark` notes for each fix in order whether
it is applied; two fixes can be equal, so whether one is applied is a matter of its place in the
order.  Replacing the spans in one sweep yields what replacing them one at a time yields, the
last one first, when no replacement moves a span that is still to be replaced.

## Key results

- `isGreedy_mark`: a fix is skipped exactly when one before it, or the end of the source, is in its way
- `select_eq_mark`: selecting fixes is marking them
- `Fits.splice_eq_replaceFromLast`: one sweep does what single replacements do
- `apply_fixes_greedily`: what applying the fixes of some diagnostics comes to
- `apply_fixes_in_any_order`: the order of the diagnostics makes no difference to it
-/

namespace LodashStyle

namespace Fix

/-! ## Marks -/

/-- A fix and whether it is applied. -/
structure Marked where
  fix : Fix
  applied : Bool

/-- The applied ones of some fixes. -/
def appliedOf (marks : List Marked) : List Fix := (marks.filter (·.applied)).map (·.fix)

/-- The skipped ones of some fixes. -/
def skippedOf (marks : List Marked) : List Fix := (marks.filter (!·.applied)).map (·.fix)

/-- Whether a fix reaches beyond a source of `size` bytes or into an applied one of the fixes
    before it. -/
def IsBlocked (size : Nat) (before : List Marked) (f : Fix) : Prop :=
  size < f.stop ∨ ∃ g ∈ before, g.applied = true ∧ f.start < g.fix.stop

/-- Each fix is skipped exactly when it is blocked by those before it. -/
def IsGreedy (size : Nat) (marks : List Marked) : Prop :=
  ∀ before m after, marks = before ++ m :: after → (m.applied = false ↔ IsBlocked size before m.fix)

/-- Marks fixes for a source of `size` bytes of which the first `cursor` are done with. -/
def mark (size cursor : Nat) : List Fix → List Marked
  | [] => []
  | f :: rest =>
    if f.start < cursor || size < f.stop then ⟨f, false⟩ :: mark size cursor rest
    else ⟨f, true⟩ :: mark size f.stop rest

variable {cursor : Nat} {fixes : List Fix}

theorem map_fix_mark (size cursor : Nat) (fixes : List Fix) :
    (mark size cursor fixes).map (·.fix) = fixes := by
  induction fixes generalizing cursor with
  | nil => rfl
  | cons f rest ih =>
    rw [mark]
    split
    · simp [ih cursor]
    · simp [ih f.stop]

/-- Selecting fixes is marking them. -/
theorem select_eq_mark (size cursor : Nat) (fixes : List Fix) :
    select size cursor fixes =
      (appliedOf (mark size cursor fixes), skippedOf (mark size cursor fixes)) := by
  induction fixes generalizing cursor with
  | nil => rfl
  | cons f rest ih =>
    rw [select, mark]
    split
    · simp [ih cursor, appliedOf, skippedOf]
    · simp [ih f.stop, appliedOf, skippedOf]

/-- Every fix is applied or skipped. -/
theorem appliedOf_append_skippedOf_perm (marks : List Marked) :
    (appliedOf marks ++ skippedOf marks).Perm (marks.map (·.fix)) := by
  rw [appliedOf, skippedOf, ← List.map_append]
  exact (List.filter_append_perm (·.applied) marks).map (·.fix)

/-- What is in the way of a fix when the first bytes of the source are done with: the end of the
    source, these bytes, or an applied fix before it. -/
theorem applied_eq_false_iff {size : Nat} {before after : List Marked} {m : Marked}
    (h : mark size cursor fixes = before ++ m :: after) :
    m.applied = false ↔ m.fix.start < cursor ∨ IsBlocked size before m.fix := by
  induction fixes generalizing cursor before with
  | nil => simp [mark] at h
  | cons f rest ih =>
    rw [mark] at h
    split at h
    · rename_i hblocked
      simp only [Bool.or_eq_true, decide_eq_true_eq] at hblocked
      cases before with
      | nil =>
        obtain ⟨rfl, -⟩ := List.cons.inj h
        simpa [IsBlocked] using hblocked
      | cons b before =>
        -- A skipped fix is in no one's way.
        obtain ⟨rfl, hrest⟩ := List.cons.inj h
        rw [ih hrest]
        simp [IsBlocked]
    · rename_i hfree
      simp only [Bool.or_eq_true, decide_eq_true_eq, not_or, Nat.not_lt] at hfree
      have hle := f.start_le_stop
      cases before with
      | nil =>
        obtain ⟨rfl, -⟩ := List.cons.inj h
        simp only [IsBlocked, List.not_mem_nil, false_and, exists_false, or_false]
        simp only [Bool.true_eq_false, false_iff, not_or, Nat.not_lt]
        exact hfree
      | cons b before =>
        -- An applied fix stands behind the bytes that were done with before it.
        obtain ⟨rfl, hrest⟩ := List.cons.inj h
        rw [ih hrest]
        simp only [IsBlocked, List.mem_cons, exists_eq_or_imp, true_and]
        constructor
        · rintro (hstart | hsize | hbefore)
          · exact .inr (.inr (.inl hstart))
          · exact .inr (.inl hsize)
          · exact .inr (.inr (.inr hbefore))
        · rintro (hstart | hsize | hstart | hbefore)
          · exact .inl (by omega)
          · exact .inr (.inl hsize)
          · exact .inl hstart
          · exact .inr (.inr hbefore)

/-- Marking from the start of the source on is greedy. -/
theorem isGreedy_mark (size : Nat) (fixes : List Fix) : IsGreedy size (mark size 0 fixes) := by
  intro before m after h
  rw [applied_eq_false_iff h]
  simp

-- Of equal fixes the first is applied; fixes may touch, and an empty one may stand between them.
example :
    let fix (start length : Nat) : Fix := ⟨start, start + length, [], Nat.le_add_right start length⟩
    select 9 0 [fix 0 2, fix 0 2, fix 1 0, fix 2 0, fix 2 3, fix 3 1, fix 5 9] =
      ([fix 0 2, fix 2 0, fix 2 3], [fix 0 2, fix 1 0, fix 3 1, fix 5 9]) := by
  decide

/-! ## Applied fixes -/

/-- Fixes that lie one after the other, from a place on. -/
theorem Fits.of_mem {size : Nat} (h : Fits size cursor fixes) {f : Fix} (hf : f ∈ fixes) :
    cursor ≤ f.start ∧ f.stop ≤ size := by
  induction fixes generalizing cursor with
  | nil => exact absurd hf List.not_mem_nil
  | cons g rest ih =>
    obtain ⟨hstart, hstop, hrest⟩ := h
    obtain rfl | hf := List.mem_cons.1 hf
    · exact ⟨hstart, hstop⟩
    · have hle := g.start_le_stop
      have hlater := ih hrest hf
      exact ⟨by omega, hlater.2⟩

/-- Each of them ends before the next ones start. -/
theorem Fits.pairwise {size : Nat} (h : Fits size cursor fixes) :
    fixes.Pairwise fun f g => f.stop ≤ g.start := by
  induction fixes generalizing cursor with
  | nil => exact .nil
  | cons f rest ih =>
    obtain ⟨-, -, hrest⟩ := h
    rw [List.pairwise_cons]
    exact ⟨fun g hg => (hrest.of_mem hg).1, ih hrest⟩

/-- Fixes that are selected in the order of their spans stay in this order. -/
theorem pairwise_select_sort (size : Nat) (fixes : List Fix) :
    (select size 0 (sort fixes)).1.Pairwise fun f g => f.le g = true :=
  (pairwise_sort fixes).sublist (select_sublist size 0 (sort fixes))

/-! ## Single replacements -/

/-- Data with the span of a fix replaced. -/
def replace (f : Fix) (data : List UInt8) : List UInt8 :=
  data.take f.start ++ (f.bytes ++ data.drop f.stop)

/-- Data with the spans of fixes replaced one at a time, the last one first. -/
def replaceFromLast (data : List UInt8) (fixes : List Fix) : List UInt8 := fixes.foldr replace data

theorem replaceFromLast_cons (data : List UInt8) (f : Fix) (rest : List Fix) :
    replaceFromLast data (f :: rest) =
      (replaceFromLast data rest).take f.start ++ (f.bytes ++ (replaceFromLast data rest).drop f.stop) :=
  rfl

/-- What stands before the first span stays. -/
theorem Fits.take_replaceFromLast {data : List UInt8} (h : Fits data.length cursor fixes) {n : Nat}
    (hn : n ≤ cursor) : (replaceFromLast data fixes).take n = data.take n := by
  induction fixes generalizing cursor n with
  | nil => rfl
  | cons f rest ih =>
    obtain ⟨hstart, hstop, hrest⟩ := h
    -- Later replacements keep what stands before this span, too.
    have hkept := ih hrest f.start_le_stop
    have hle := f.start_le_stop
    have hlength : (data.take f.start).length = f.start := by
      rw [List.length_take]
      omega
    rw [replaceFromLast_cons, hkept, List.take_append_of_le_length (by omega), List.take_take,
      Nat.min_eq_left (by omega)]

/-- Replacing the spans in one sweep does what replacing them one at a time does. -/
theorem Fits.splice_eq_replaceFromLast {data : List UInt8} (h : Fits data.length cursor fixes)
    (hbytes : ∀ f ∈ fixes, f.text.utf8? ≠ none) :
    splice data cursor fixes = some ((replaceFromLast data fixes).drop cursor) := by
  induction fixes generalizing cursor with
  | nil => rfl
  | cons f rest ih =>
    obtain ⟨hstart, hstop, hrest⟩ := h
    rw [List.forall_mem_cons] at hbytes
    have hafter := ih hrest hbytes.2
    obtain ⟨text, htext⟩ := Option.ne_none_iff_exists'.1 hbytes.1
    have hput : f.bytes = text := by rw [bytes, htext, Option.getD_some]
    -- The later replacements have left the bytes before this span alone.
    have hkept := hrest.take_replaceFromLast f.start_le_stop
    have hle := f.start_le_stop
    have hlength : (data.take f.start).length = f.start := by
      rw [List.length_take]
      omega
    have hreplaced : (replaceFromLast data (f :: rest)).drop cursor =
        (data.drop cursor).take (f.start - cursor) ++
          (text ++ (replaceFromLast data rest).drop f.stop) := by
      rw [replaceFromLast_cons, hkept, List.drop_append_of_le_length (by omega), List.drop_take, hput]
    rw [splice, htext, hafter, hreplaced, ← List.append_assoc]
    rfl

end Fix

open LodashStyle.Fix

/-- The fixes of some diagnostics that apply to a source are those marked as applied. -/
theorem chosen_eq_mark (source : List Char) (ds : List Diagnostic) :
    chosen source ds =
      (appliedOf (mark (Utf8.encode source).length 0 (Fix.sort (ds.filterMap (·.fix)))),
        skippedOf (mark (Utf8.encode source).length 0 (Fix.sort (ds.filterMap (·.fix))))) := by
  rw [chosen, select_eq_mark]

/-- Fixes that cut no character in two, with texts that have bytes, can be applied. -/
theorem exists_applyFixes {source : List Char} {ds : List Diagnostic}
    (h : ∀ f ∈ (chosen source ds).1, Between source f.start ∧ Between source f.stop ∧ f.text.utf8? ≠ none) :
    ∃ r, applyFixes source ds = .ok r := by
  have hzero : Between source 0 := ⟨[], List.nil_prefix, rfl⟩
  have hfits : Fits (Utf8.encode source).length 0 (chosen source ds).1 := fits_select _ _ _
  have hbetween : ∀ f ∈ (chosen source ds).1, Between source f.start ∧ Between source f.stop :=
    fun f hf => ⟨(h f hf).1, (h f hf).2.1⟩
  obtain ⟨out, hout⟩ := hfits.exists_splice hzero hbetween fun f hf => (h f hf).2.2
  exact ⟨⟨out, (chosen source ds).1, (chosen source ds).2⟩, applyFixes_eq_ok_iff.2 ⟨hout, rfl, rfl⟩⟩

/-- **Greedy replacement.**  The fixes of some diagnostics are marked in the order of their spans,
    each as skipped exactly if it reaches beyond the source or into an applied one before it.  The
    applied ones stand in this order, one after the other within the source, and their texts take
    the place of their spans as if one at a time from the last to the first; when they cut no
    character in two and their texts hold no surrogate, the outcome is a text. -/
theorem apply_fixes_greedily (source : List Char) (ds : List Diagnostic) :
    ∃ marks : List Marked,
      marks.map (·.fix) = Fix.sort (ds.filterMap (·.fix)) ∧
      IsGreedy (Utf8.encode source).length marks ∧
      (appliedOf marks ++ skippedOf marks).Perm (ds.filterMap (·.fix)) ∧
      (appliedOf marks).Pairwise (fun f g => f.le g = true ∧ f.stop ≤ g.start) ∧
      (∀ f ∈ appliedOf marks, f.stop ≤ (Utf8.encode source).length) ∧
      (∀ r, applyFixes source ds = .ok r ↔
        (∀ f ∈ appliedOf marks, f.text.utf8? ≠ none) ∧
        Utf8.encode r.output = replaceFromLast (Utf8.encode source) (appliedOf marks) ∧
        r.applied = appliedOf marks ∧ r.skipped = skippedOf marks) ∧
      ((∀ f ∈ appliedOf marks, Between source f.start ∧ Between source f.stop ∧ f.text.utf8? ≠ none) →
        ∃ r, applyFixes source ds = .ok r) := by
  let fixes := ds.filterMap (·.fix)
  let data := Utf8.encode source
  let marks := mark data.length 0 (Fix.sort fixes)
  have hmap : marks.map (·.fix) = Fix.sort fixes := map_fix_mark data.length 0 (Fix.sort fixes)
  have hchosen : chosen source ds = (appliedOf marks, skippedOf marks) := chosen_eq_mark source ds
  have hselect : (select data.length 0 (Fix.sort fixes)).1 = appliedOf marks := by
    rw [select_eq_mark]
  have hfits : Fits data.length 0 (appliedOf marks) := hselect ▸ fits_select data.length 0 (Fix.sort fixes)
  have hordered : (appliedOf marks).Pairwise fun f g => f.le g = true :=
    hselect ▸ pairwise_select_sort data.length fixes
  refine ⟨marks, hmap, isGreedy_mark data.length (Fix.sort fixes), ?_, ?_, ?_, ?_, ?_⟩
  · have hperm := appliedOf_append_skippedOf_perm marks
    rw [hmap] at hperm
    exact hperm.trans (Fix.sort_perm fixes)
  · exact hordered.and hfits.pairwise
  · intro f hf
    exact (hfits.of_mem hf).2
  · intro r
    rw [applyFixes_eq_ok_iff, hchosen]
    constructor
    · rintro ⟨hsplice, happlied, hskipped⟩
      -- Splicing succeeded, so every text has bytes.
      have hbytes : ∀ f ∈ appliedOf marks, f.text.utf8? ≠ none := by
        intro f hf hnone
        have hfail := (splice_eq_none_iff data 0 (appliedOf marks)).2 ⟨f, hf, hnone⟩
        rw [hfail] at hsplice
        exact nomatch hsplice
      rw [hfits.splice_eq_replaceFromLast hbytes, List.drop_zero] at hsplice
      exact ⟨hbytes, (Option.some.inj hsplice).symm, happlied, hskipped⟩
    · rintro ⟨hbytes, houtput, happlied, hskipped⟩
      rw [hfits.splice_eq_replaceFromLast hbytes, List.drop_zero, houtput]
      exact ⟨rfl, happlied, hskipped⟩
  · intro hwhole
    apply exists_applyFixes
    rw [hchosen]
    exact hwhole

/-! ## The order of diagnostics -/

/-- The outcome depends on the chosen fixes only. -/
theorem applyFixes_eq_of_chosen {source : List Char} {ds es : List Diagnostic}
    (h : chosen source ds = chosen source es) : applyFixes source ds = applyFixes source es := by
  unfold chosen at h
  unfold applyFixes
  dsimp only
  rw [h]

/-- **Any order.**  When fixes of equal spans have equal texts, diagnostics can be given in any order:
    the same fixes are applied and the same ones skipped, in the same order, and the outcome is the
    same. -/
theorem apply_fixes_in_any_order (source : List Char) {ds es : List Diagnostic} (hperm : ds.Perm es)
    (hties : ∀ f ∈ ds.filterMap (·.fix), ∀ g ∈ ds.filterMap (·.fix), f.span = g.span → f.text = g.text) :
    chosen source ds = chosen source es ∧ applyFixes source ds = applyFixes source es := by
  have hsort : Fix.sort (ds.filterMap (·.fix)) = Fix.sort (es.filterMap (·.fix)) := by
    rw [Fix.sort_eq, Fix.sort_eq]
    apply sortBySpan_eq_of_perm (hperm.filterMap _)
    intro f hf g hg hspan
    exact eq_of_span_of_text hspan (hties f hf g hg hspan)
  have hchosen : chosen source ds = chosen source es := by
    rw [chosen, chosen, hsort]
  exact ⟨hchosen, applyFixes_eq_of_chosen hchosen⟩

/-- A fix that is applied, one that overlaps it, a diagnostic without a fix, an insertion that is given
    twice and a fix beyond the end of the source, in the order of their spans and in the reverse one. -/
theorem apply_fixes_in_reverse_order :
    let fix (start length : Nat) (text : Text) : Fix :=
      ⟨start, start + length, text, Nat.le_add_right start length⟩
    let diagnostic (f : Option Fix) : Diagnostic := ⟨.pathStyle, .string, 1, 0, 1, 0, 0, 0, f, none⟩
    let x := fix 0 2 "x"
    let y := fix 2 0 "y"
    let ds := [some x, some (fix 1 2 "z"), none, some y, some y, some (fix 5 9 "w")].map diagnostic
    let result : FixResult := ⟨"xyycdef".toList, [x, y, y], [fix 1 2 "z", fix 5 9 "w"]⟩
    (∀ f ∈ ds.filterMap (·.fix), ∀ g ∈ ds.filterMap (·.fix), f.span = g.span → f.text = g.text) ∧
      applyFixes "abcdef".toList ds = .ok result ∧ applyFixes "abcdef".toList ds.reverse = .ok result := by
  intro fix diagnostic x y ds result
  have hties : ∀ f ∈ ds.filterMap (·.fix), ∀ g ∈ ds.filterMap (·.fix),
      f.span = g.span → f.text = g.text := by decide
  have hsort : Fix.sort (ds.filterMap (·.fix)) = [x, fix 1 2 "z", y, y, fix 5 9 "w"] :=
    List.mergeSort_of_pairwise (by decide)
  have happly : applyFixes "abcdef".toList ds = .ok result := by
    rw [applyFixes_eq_ok_iff, chosen, hsort]
    decide +kernel
  have hreverse := (apply_fixes_in_any_order "abcdef".toList ds.reverse_perm.symm hties).2
  exact ⟨hties, happly, hreverse ▸ happly⟩

-- Insertions of different texts at one place stand in the order in which they are given.
example :
    let fix (text : Text) : Fix := ⟨1, 1, text, Nat.le_refl 1⟩
    Fix.select 2 0 (Fix.sort [fix "x", fix "y"]) = ([fix "x", fix "y"], []) ∧
      Fix.select 2 0 (Fix.sort [fix "y", fix "x"]) = ([fix "y", fix "x"], []) := by
  intro fix
  have hsort : ∀ s t, Fix.sort [fix s, fix t] = [fix s, fix t] := by
    intro s t
    apply List.mergeSort_of_pairwise
    simp [fix, Fix.le]
  rw [hsort, hsort]
  decide

end LodashStyle
