import LodashStyle.Diagnostic.Splice
import LodashStyle.Proofs.Utf8

/-!
# Splicing fixes into a source

`Replaced` says what it is for some data to be other data with the spans of fixes replaced:
between the spans nothing changes.  The fixes that `select` lets through lie one after the
other within the source, so `splice` replaces their spans and nothing else.

## Key results

- `fits_select`: the selected fixes lie one after the other within the source
- `Fits.replaced_of_splice`: splicing replaces exactly the spans
- `splice_eq_none_iff`: splicing fails exactly on a replacement text with a surrogate
- `Fits.exists_splice`: splicing between characters yields the bytes of a text
- `applyFixes_eq_ok_iff`: what applying the fixes of some diagnostics yields
-/

namespace LodashStyle

namespace Fix

/-! ## Replaced spans -/

/-- Data that starts at `cursor`, and the same data with the spans of `fixes` replaced. -/
inductive Replaced {α : Type} (put : Fix → List α) : Nat → List Fix → List α → List α → Prop where
  | rest {cursor : Nat} {data : List α} : Replaced put cursor [] data data
  | span {cursor : Nat} {f : Fix} {fixes : List Fix} {kept cut data out : List α}
    (hkept : cursor + kept.length = f.start) (hcut : f.start + cut.length = f.stop)
    (hrest : Replaced put f.stop fixes data out) :
    Replaced put cursor (f :: fixes) (kept ++ (cut ++ data)) (kept ++ (put f ++ out))

/-- The spans lie one after the other, from `cursor` on and within `size` bytes. -/
def Fits (size : Nat) (cursor : Nat) : List Fix → Prop
  | [] => True
  | f :: rest => cursor ≤ f.start ∧ f.stop ≤ size ∧ Fits size f.stop rest

variable {α β : Type} {put : Fix → List α} {cursor : Nat} {fixes : List Fix}

/-- The data and the fixes leave no choice. -/
theorem Replaced.unique {data out out' : List α} (h : Replaced put cursor fixes data out)
    (h' : Replaced put cursor fixes data out') : out = out' := by
  induction h generalizing out' with
  | rest =>
    cases h'
    rfl
  | @span cursor f fixes kept cut data out hkept hcut hrest ih =>
    generalize hwhole : kept ++ (cut ++ data) = whole at h'
    cases h' with
    | @span _ _ _ kept' cut' data' out' hkept' hcut' hrest' =>
      -- The start and the end of the span tell where the data is cut.
      obtain ⟨hkepts, htails⟩ := List.append_inj hwhole (by omega)
      obtain ⟨-, hdata⟩ := List.append_inj htails (by omega)
      rw [hkepts, ih (hdata ▸ hrest')]

/-- Replacing spans does not look at the data. -/
theorem Replaced.map (g : α → β) {data out : List α} (h : Replaced put cursor fixes data out) :
    Replaced (fun f => (put f).map g) cursor fixes (data.map g) (out.map g) := by
  induction h with
  | rest => exact .rest
  | span hkept hcut hrest ih =>
    simp only [List.map_append]
    exact .span (by rwa [List.length_map]) (by rwa [List.length_map]) ih

/-- Data falls into what stands before a span, the span and what stands behind it. -/
private theorem drop_eq_span (data : List α) {a b c : Nat} (hab : a ≤ b) (hbc : b ≤ c) :
    data.drop a = (data.drop a).take (b - a) ++ ((data.drop b).take (c - b) ++ data.drop c) := by
  have hb : data.drop b = (data.drop a).drop (b - a) := by
    rw [List.drop_drop, Nat.add_sub_cancel' hab]
  have hc : data.drop c = (data.drop b).drop (c - b) := by
    rw [List.drop_drop, Nat.add_sub_cancel' hbc]
  rw [hc, List.take_append_drop, hb, List.take_append_drop]

/-- Spans that lie one after the other can be replaced. -/
theorem Fits.exists_replaced {put : Fix → List α} {data : List α}
    (h : Fits data.length cursor fixes) : ∃ out, Replaced put cursor fixes (data.drop cursor) out := by
  induction fixes generalizing cursor with
  | nil => exact ⟨_, .rest⟩
  | cons f rest ih =>
    obtain ⟨hstart, hstop, hrest⟩ := h
    have hle := f.start_le_stop
    obtain ⟨out, hout⟩ := ih hrest
    -- The span lies within the data, so that it has the length it claims.
    rw [drop_eq_span data hstart hle]
    refine ⟨_, .span ?_ ?_ hout⟩
    · rw [List.length_take, List.length_drop]
      omega
    · rw [List.length_take, List.length_drop]
      omega

/-! ## Selecting fixes -/

/-- The fixes to apply lie one after the other within the source. -/
theorem fits_select (size cursor : Nat) (fixes : List Fix) :
    Fits size cursor (select size cursor fixes).1 := by
  induction fixes generalizing cursor with
  | nil => exact trivial
  | cons f rest ih =>
    rw [select]
    split
    · -- A skipped fix leaves the cursor where it is.
      exact ih cursor
    · rename_i hfits
      simp only [Bool.or_eq_true, decide_eq_true_eq, not_or, Nat.not_lt] at hfits
      exact ⟨hfits.1, hfits.2, ih f.stop⟩

/-- Only given fixes are applied. -/
theorem select_sublist (size cursor : Nat) (fixes : List Fix) :
    (select size cursor fixes).1.Sublist fixes := by
  induction fixes generalizing cursor with
  | nil => exact .slnil
  | cons f rest ih =>
    rw [select]
    split
    · exact .cons f (ih cursor)
    · exact .cons_cons f (ih f.stop)

/-- When every fix lies within the source, the first of them is applied. -/
theorem select_eq_nil_iff {size : Nat} {fixes : List Fix} (h : ∀ f ∈ fixes, f.stop ≤ size) :
    (select size 0 fixes).1 = [] ↔ fixes = [] := by
  cases fixes with
  | nil => simp [select]
  | cons f rest =>
    have hstop := h f List.mem_cons_self
    have hfits : ¬(decide (f.start < 0) || decide (size < f.stop)) = true := by
      simp only [Bool.or_eq_true, decide_eq_true_eq]
      omega
    rw [select, if_neg hfits]
    simp

/-! ## Splicing -/

/-- The bytes of a replacement text. -/
def bytes (f : Fix) : List UInt8 := f.text.utf8?.getD []

/-- What splicing the first of several fixes takes. -/
theorem splice_cons_eq_some {data out : List UInt8} {cursor : Nat} {f : Fix} {rest : List Fix}
    (h : splice data cursor (f :: rest) = some out) :
    ∃ after, f.text.utf8? = some f.bytes ∧ splice data f.stop rest = some after ∧
      out = (data.drop cursor).take (f.start - cursor) ++ f.bytes ++ after := by
  rw [splice] at h
  obtain ⟨text, htext, h⟩ := Option.bind_eq_some_iff.1 h
  obtain ⟨after, hafter, h⟩ := Option.bind_eq_some_iff.1 h
  have hbytes : f.bytes = text := by rw [bytes, htext, Option.getD_some]
  rw [hbytes]
  exact ⟨after, htext, hafter, (Option.some.inj h).symm⟩

/-- Splicing replaces the spans and keeps everything between them. -/
theorem Fits.replaced_of_splice {data out : List UInt8} (h : Fits data.length cursor fixes)
    (hout : splice data cursor fixes = some out) :
    Replaced bytes cursor fixes (data.drop cursor) out := by
  induction fixes generalizing cursor out with
  | nil =>
    rw [splice] at hout
    rw [Option.some.inj hout]
    exact .rest
  | cons f rest ih =>
    obtain ⟨hstart, hstop, hrest⟩ := h
    obtain ⟨after, -, hafter, rfl⟩ := splice_cons_eq_some hout
    have hle := f.start_le_stop
    have hkept : cursor + ((data.drop cursor).take (f.start - cursor)).length = f.start := by
      rw [List.length_take, List.length_drop]
      omega
    have hcut : f.start + ((data.drop f.start).take (f.stop - f.start)).length = f.stop := by
      rw [List.length_take, List.length_drop]
      omega
    have hall := Replaced.span hkept hcut (ih hrest hafter)
    rwa [← drop_eq_span data hstart hle, ← List.append_assoc] at hall

/-- Splicing fails exactly on a replacement text without bytes. -/
theorem splice_eq_none_iff (data : List UInt8) (cursor : Nat) (fixes : List Fix) :
    splice data cursor fixes = none ↔ ∃ f ∈ fixes, f.text.utf8? = none := by
  induction fixes generalizing cursor with
  | nil => simp [splice]
  | cons f rest ih =>
    simp only [splice, List.mem_cons, exists_eq_or_imp]
    -- Either this text or a later one has no bytes.
    cases htext : f.text.utf8? with
    | none => simp
    | some text =>
      cases hafter : splice data f.stop rest with
      | none => simpa using (ih f.stop).1 hafter
      | some after =>
        have hrest : ¬∃ g ∈ rest, g.text.utf8? = none := by
          rw [← ih f.stop, hafter]
          simp
        simp only [reduceCtorEq, false_or, hrest, iff_false]
        simp

/-! ## Whole characters -/

/-- A place in a source that is counted in bytes and lies between two characters. -/
def Between (source : List Char) (place : Nat) : Prop :=
  ∃ before, before <+: source ∧ place = (Utf8.encode before).length

/-- What lies between two such places is made of whole characters. -/
theorem Between.exists_slice {source : List Char} {a b : Nat} (ha : Between source a)
    (hb : Between source b) (hle : a ≤ b) :
    ∃ inside, ((Utf8.encode source).drop a).take (b - a) = Utf8.encode inside := by
  obtain ⟨before, hbefore, rfl⟩ := ha
  obtain ⟨both, hboth, rfl⟩ := hb
  obtain ⟨inside, rfl⟩ := Utf8.prefix_of_length_le hbefore hboth hle
  obtain ⟨rest, rfl⟩ := hboth
  refine ⟨inside, ?_⟩
  rw [List.append_assoc, Utf8.encode_append, Utf8.encode_append, Utf8.encode_append,
    List.length_append, Nat.add_sub_cancel_left, List.drop_left, List.take_left]

/-- Splicing texts in at such places yields the bytes of a text. -/
theorem Fits.exists_splice {source : List Char} (h : Fits (Utf8.encode source).length cursor fixes)
    (hcursor : Between source cursor)
    (hbetween : ∀ f ∈ fixes, Between source f.start ∧ Between source f.stop)
    (hbytes : ∀ f ∈ fixes, f.text.utf8? ≠ none) :
    ∃ out, splice (Utf8.encode source) cursor fixes = some (Utf8.encode out) := by
  induction fixes generalizing cursor with
  | nil =>
    obtain ⟨before, ⟨rest, rfl⟩, rfl⟩ := hcursor
    exact ⟨rest, by rw [splice, Utf8.encode_append, List.drop_left]⟩
  | cons f rest ih =>
    obtain ⟨hstart, -, hrest⟩ := h
    rw [List.forall_mem_cons] at hbetween hbytes
    obtain ⟨⟨hfirst, hlast⟩, hbetween⟩ := hbetween
    obtain ⟨after, hafter⟩ := ih hrest hlast hbetween hbytes.2
    -- What is kept, what is put in and what comes behind are texts each.
    obtain ⟨kept, hkept⟩ := hcursor.exists_slice hfirst hstart
    obtain ⟨bytes, htext⟩ := Option.ne_none_iff_exists'.1 hbytes.1
    obtain ⟨text, -, rfl⟩ := Option.map_eq_some_iff.1 htext
    refine ⟨kept ++ text ++ after, ?_⟩
    rw [splice, htext, hafter, hkept]
    simp [Utf8.encode_append]

end Fix

open LodashStyle.Fix

/-- The fixes of some diagnostics that apply to a source, and those that do not. -/
def chosen (source : List Char) (ds : List Diagnostic) : List Fix × List Fix :=
  select (Utf8.encode source).length 0 (Fix.sort (ds.filterMap (·.fix)))

/-- Applying fixes yields a text whose bytes are those of the source with the chosen fixes
    spliced in. -/
theorem applyFixes_eq_ok_iff {source : List Char} {ds : List Diagnostic} {r : FixResult} :
    applyFixes source ds = .ok r ↔
      splice (Utf8.encode source) 0 (chosen source ds).1 = some (Utf8.encode r.output) ∧
        r.applied = (chosen source ds).1 ∧ r.skipped = (chosen source ds).2 := by
  rw [applyFixes, ← chosen]
  cases hsplice : splice (Utf8.encode source) 0 (chosen source ds).1 with
  | none => simp [hsplice]
  | some bytes =>
    simp only [hsplice, Option.some.injEq]
    -- The output is the text that the spliced bytes are read as.
    rw [← Utf8.decode_eq_ok_iff]
    cases hdecode : Utf8.decode bytes with
    | error fault => simp
    | ok output =>
      obtain ⟨output', applied, skipped⟩ := r
      simp only [Except.ok.injEq, FixResult.mk.injEq, eq_comm]

end LodashStyle
