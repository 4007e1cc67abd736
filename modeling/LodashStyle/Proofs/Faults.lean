import LodashStyle.Proofs.FixPasses
import LodashStyle.Proofs.PlainPaths
import LodashStyle.Proofs.ReadStrings
import LodashStyle.Proofs.StringFix

/-!
# When linting and fixing fail

Linting fails on a string that writes a number beyond the code points, and on nothing else.  A fix
fails on such a string in one of its passes, or on a surrogate that a path to be replaced writes:
its new text has no bytes.  Neither building a fix nor reading the fixed source back can fail, for
spans of paths are made of whole characters.

All of this is about sources without syntax errors.  The tree of any other is empty, so that its strings
are not looked at and it is linted without a fault.

## Key results

- `rewritten_plain_iff`: the new text of a path holds the surrogates that its strings write
- `pass_isOk_iff`: when a pass succeeds
- `lint_and_fix_succeed_iff`: when linting and fixing succeed
-/

namespace LodashStyle

open JavaScript

/-- A string literal whose value, if it has one, holds no surrogate. -/
def PlainValue (literal : Node) : Prop := ∀ v, stringValue literal.text = .ok v → v.Plain

/-- The text of a literal between its quotes. -/
def quoted (literal : Node) : Text := literal.text.tail.dropLast

theorem hasValue_iff (l : Node) : HasValue l ↔ ∀ n, Writes (quoted l) n → n < 0x110000 :=
  cook_isOk_iff (quoted l)

/-- A literal of characters has a surrogate in its value only by writing its number. -/
theorem plainValue_iff {l : Node} (htext : l.text.Plain) (hvalue : HasValue l) :
    PlainValue l ↔ ∀ n, Writes (quoted l) n → ¬(0xD800 ≤ n ∧ n < 0xE000) := by
  obtain ⟨v, hv⟩ := hvalue
  -- The text between the quotes is made of characters too.
  have hsub : (quoted l).Sublist l.text := (List.dropLast_sublist _).trans (List.tail_sublist _)
  have hquoted : (quoted l).Plain := fun p hp => htext p (hsub.subset hp)
  rw [← cook_plain_iff hquoted hv]
  constructor
  · intro h
    exact h v hv
  · intro h w hw
    rw [← Except.ok.inj (hv.symm.trans hw)]
    exact h

/-- The texts with bytes are those without surrogates. -/
theorem Text.utf8?_ne_none_iff (t : Text) : t.utf8? ≠ none ↔ t.Plain := by
  rw [utf8?, ne_eq, Option.map_eq_none_iff]
  induction t with
  | nil => simp [toChars?]
  | cons p t ih =>
    cases p with
    | scalar c => simp [toChars?, ih]
    | surrogate index => simp [toChars?]

namespace PathStyle

/-! ## Rewritten paths -/

/-- The key of a literal holds the surrogates of its value. -/
theorem literalKey_plain_iff {n : Node} {key : Text} (h : literalKey n = .ok (some key))
    (htext : n.text.Plain) : key.Plain ↔ (n.kind = .string → PlainValue n) := by
  unfold literalKey at h
  split at h
  · rename_i hkind
    obtain ⟨v, hv, hkey⟩ := map_eq_ok h
    obtain rfl := Option.some.inj hkey
    simp only [hkind, true_implies, PlainValue, hv, Except.ok.injEq, forall_eq']
  · rename_i hkind
    simp [hkind, plain_numericKey (Except.ok.inj h)]
  · rename_i hkind _
    obtain rfl := Option.some.inj (Except.ok.inj h)
    simp only [htext, true_iff]
    exact fun hstring => (hkind hstring).elim

theorem literalPath_plain_iff {n : Node} {text : Text} (h : literalPath n = .ok (some text))
    (htexts : ∀ c ∈ n.parts, c.text.Plain) :
    text.Plain ↔ ∀ l ∈ n.parts.filter (·.kind == .string), PlainValue l := by
  obtain ⟨keys, hkeys, rfl⟩ := literalPath_eq_some h
  rw [PropertyPath.plain_stringLiteral]
  simp only [List.mem_filter, beq_iff_eq, and_imp]
  -- By induction on the elements, each of which has one of the keys.
  clear h
  generalize n.parts = parts at hkeys htexts
  induction hkeys with
  | nil => simp
  | cons hkey _ ih =>
    rw [List.forall_mem_cons] at htexts
    rw [List.forall_mem_cons, List.forall_mem_cons, literalKey_plain_iff hkey htexts.1, ih htexts.2]

theorem templateSegments_plain_iff {ns : List Node} {text : Text}
    (h : templateSegments ns = .ok (some text)) (htexts : ∀ c ∈ ns, c.text.Plain) :
    text.Plain ↔ ∀ l ∈ (ns.takeWhile hasKey).filter (·.kind == .string), PlainValue l := by
  induction ns generalizing text with
  | nil =>
    obtain rfl := Option.some.inj (Except.ok.inj h)
    simp
  | cons n rest ih =>
    rw [List.forall_mem_cons] at htexts
    rw [takeWhile_hasKey_cons]
    by_cases hliteral : n.isLiteral = true
    · cases hkey : literalKey n with
      | error fault =>
        rw [templateSegments, if_pos hliteral, hkey] at h
        cases h
      | ok key =>
        cases key with
        | none =>
          rw [templateSegments, if_pos hliteral, hkey] at h
          cases h
        | some key =>
          rw [templateSegments_literal hliteral hkey] at h
          obtain ⟨found, hfound, hsome⟩ := map_eq_ok h
          obtain ⟨after, rfl, rfl⟩ := Option.map_eq_some_iff.1 hsome
          rw [hasKey_of_literalKey hkey, Text.plain_append, PropertyPath.plain_escapeTemplate,
            PropertyPath.plain_segment, literalKey_plain_iff hkey htexts.1, ih hfound htexts.2]
          simp
    · rw [templateSegments_variable hliteral] at h
      obtain ⟨found, hfound, hsome⟩ := map_eq_ok h
      obtain ⟨after, rfl, rfl⟩ := Option.map_eq_some_iff.1 hsome
      -- An element that is no literal is put in as it stands.
      have hkind := not_string_of_not_isLiteral hliteral
      simp only [hasKey_of_not_isLiteral hliteral, Text.plain_append, hkind, htexts.1, ← ih hfound htexts.2]
      simp [Text.ofString]

/-- The elements of an array are made of characters. -/
theorem placed_parts {src : List Char} {n c : Node} (hn : Placed src n) (hc : c ∈ n.parts) : c.text.Plain := by
  obtain ⟨cs, hcs⟩ := (hn.child (List.mem_filter.1 hc).1).text
  rw [hcs]
  exact Text.plain_ofChars cs

/-- The strings of a path are made of characters. -/
theorem plain_keyStrings {src : List Char} {style : PathStyle} {n l : Node} (hn : Placed src n)
    (hl : l ∈ keyStrings style n) : l.text.Plain := by
  have hparts : ∀ ns : List Node, (∀ c ∈ ns, c ∈ n.parts) → l ∈ ns.filter (·.kind == .string) →
      l.text.Plain := by
    intro ns hns hl
    exact placed_parts hn (hns l (List.mem_filter.1 hl).1)
  unfold keyStrings at hl
  cases style with
  | asNeeded =>
    dsimp only at hl
    split at hl
    · exact hparts n.parts (fun _ hc => hc) hl
    · exact absurd hl List.not_mem_nil
  | array =>
    dsimp only at hl
    split at hl
    · -- The path itself is the only string here.
      obtain ⟨cs, hcs⟩ := hn.text
      rw [List.mem_singleton.1 hl, hcs]
      exact Text.plain_ofChars cs
    · exact absurd hl List.not_mem_nil
  | string =>
    dsimp only at hl
    split at hl
    · apply hparts _ _ hl
      -- The key parts of a literal array are all its parts, otherwise those before the first other one.
      intro c hc
      split at hc
      · exact hc
      · exact (List.takeWhile_sublist _).subset hc
    · exact absurd hl List.not_mem_nil

/-- The new text of a path holds the surrogates of the strings that it is made from. -/
theorem rewritten_plain_iff {src : List Char} {style : PathStyle} {n : Node} {text : Text}
    (hn : Placed src n) (h : rewritten style n = .ok (some text)) :
    text.Plain ↔ ∀ l ∈ keyStrings style n, PlainValue l := by
  have hparts : ∀ c ∈ n.parts, c.text.Plain := fun c hc => placed_parts hn hc
  unfold rewritten at h
  unfold keyStrings
  cases style with
  | asNeeded =>
    dsimp only at h ⊢
    split at h
    · rename_i hliteral
      rw [if_pos hliteral]
      exact literalPath_plain_iff h hparts
    · exact nomatch h
  | array =>
    dsimp only at h ⊢
    split at h
    · rename_i hkind
      rw [if_pos hkind]
      obtain ⟨written, hwritten, hsome⟩ := map_eq_ok h
      obtain rfl := Option.some.inj hsome
      obtain ⟨path, hpath, rfl⟩ := map_eq_ok hwritten
      rw [PropertyPath.plain_arrayLiteral, PropertyPath.plain_split]
      simp [PlainValue, hpath]
    · exact nomatch h
  | string =>
    dsimp only at h ⊢
    split at h
    · rename_i harray
      rw [if_pos harray]
      -- A literal array becomes a string, any other one a template.
      unfold stringStyle at h
      split at h
      · rename_i hliteral
        rw [if_pos hliteral]
        exact literalPath_plain_iff h hparts
      · rename_i hliteral
        rw [if_neg hliteral]
        obtain ⟨found, hfound, hsome⟩ := bind_eq_ok h
        obtain ⟨body, rfl, rfl⟩ := Option.map_eq_some_iff.1 (Except.ok.inj hsome)
        rw [← templateSegments_plain_iff hfound hparts]
        simp [PropertyPath.plain_dropDot, Text.ofChar]
    · exact nomatch h

end PathStyle

namespace Lint

/-! ## Fixes of paths -/

variable {config : Config} {file : Option Text}

/-- A path of a tree has no parentheses around it. -/
theorem unwrap_of_mem_paths {root n : Node} (h : n ∈ paths config root) : n.unwrap = some n := by
  unfold paths at h
  split at h
  · obtain ⟨s, -, hpath⟩ := List.mem_filterMap.1 h
    obtain ⟨argument, -, hn⟩ := Option.bind_eq_some_iff.1 hpath
    exact unwrap_unwrap hn
  · exact absurd h List.not_mem_nil

/-- The text of a fix holds the surrogates that the strings of its path write. -/
theorem fix_plain_iff {source : List Char} {n : Node} {f : Fix}
    (hn : n ∈ paths config (Tree.parse source).root) (hf : IsFixOf config.pathStyle n f) :
    f.text.Plain ↔ ∀ l ∈ PathStyle.keyStrings config.pathStyle n, ∀ k, Writes (quoted l) k →
      ¬(0xD800 ≤ k ∧ k < 0xE000) := by
  obtain ⟨advice, hjudge, -, -⟩ := hf
  have hplaced := placed_paths (placed_parse source) hn
  have hreplacement : (PathStyle.judge config.pathStyle n).map (·.replacement) = _ :=
    PathStyle.judge_replacement_eq (unwrap_of_mem_paths hn)
  rw [hjudge] at hreplacement
  obtain ⟨shape, -, hrewritten⟩ := bind_eq_ok hreplacement.symm
  rw [PathStyle.rewritten_plain_iff hplaced hrewritten]
  -- The path was rewritten, so that its strings have values.
  have hvalues := (PathStyle.rewritten_isOk_iff config.pathStyle n).1 ⟨_, hrewritten⟩
  constructor
  · intro h l hl
    exact (plainValue_iff (PathStyle.plain_keyStrings hplaced hl) (hvalues l hl)).1 (h l hl)
  · intro h l hl
    exact (plainValue_iff (PathStyle.plain_keyStrings hplaced hl) (hvalues l hl)).2 (h l hl)

/-- The fixes that are applied come from diagnostics. -/
theorem mem_chosen {source : List Char} {ds : List Diagnostic} {f : Fix} (h : f ∈ (chosen source ds).1) :
    ∃ d ∈ ds, d.fix = some f := by
  have hmem := (Fix.select_sublist _ _ _).subset h
  rw [Fix.sort, List.mem_mergeSort] at hmem
  exact List.mem_filterMap.1 hmem

/-- The fixes of a source are applied when none of their texts holds a surrogate: they cut no
    character in two. -/
theorem applyFixes_isOk_iff {source : List Char} {ds : List Diagnostic}
    (h : (lint config file source).outcome = .ok ds) :
    (∃ r, applyFixes source ds = .ok r) ↔ ∀ f ∈ (chosen source ds).1, f.text.Plain := by
  constructor
  · rintro ⟨r, hr⟩ f hf
    obtain ⟨hsplice, -, -⟩ := applyFixes_eq_ok_iff.1 hr
    rw [← Text.utf8?_ne_none_iff]
    intro hnone
    have hfail := (Fix.splice_eq_none_iff (Utf8.encode source) 0 _).2 ⟨f, hf, hnone⟩
    rw [hfail] at hsplice
    exact nomatch hsplice
  · intro hplain
    -- Fixes start and end between characters, as the nodes of the tree do.
    have hbetween : ∀ f ∈ (chosen source ds).1, Fix.Between source f.start ∧ Fix.Between source f.stop := by
      intro f hf
      obtain ⟨d, hd, hfix⟩ := mem_chosen hf
      obtain ⟨e, ⟨before, inside, rest, hsource, hstart, hstop⟩, hfirst, hlast⟩ := lint_fix_spans h hd hfix
      constructor
      · exact ⟨before, ⟨inside ++ rest, hsource.symm⟩, hfirst.trans hstart⟩
      · refine ⟨before ++ inside, ⟨rest, ?_⟩, hlast.trans hstop⟩
        rw [hsource, List.append_assoc]
    have hfits := Fix.fits_select (Utf8.encode source).length 0 (Fix.sort (ds.filterMap (·.fix)))
    obtain ⟨out, hout⟩ := hfits.exists_splice ⟨[], List.nil_prefix, rfl⟩ hbetween
      fun f hf => (Text.utf8?_ne_none_iff f.text).2 (hplain f hf)
    exact ⟨⟨out, _, _⟩, applyFixes_eq_ok_iff.2 ⟨hout, rfl, rfl⟩⟩

/-! ## Passes -/

/-- A source in which the strings that are read write numbers of code points only. -/
def Legible (config : Config) (source : List Char) : Prop :=
  ∀ l ∈ readStrings config (Tree.parse source).root, ∀ n, Writes (quoted l) n → n < 0x110000

/-- A source in which the strings of the paths that are replaced write no surrogates. -/
def Encodable (config : Config) (file : Option Text) (source : List Char) : Prop :=
  ∀ ds, (lint config file source).outcome = .ok ds → ∀ f ∈ (chosen source ds).1,
    ∀ n ∈ paths config (Tree.parse source).root, IsFixOf config.pathStyle n f →
      ∀ l ∈ PathStyle.keyStrings config.pathStyle n, ∀ k, Writes (quoted l) k → ¬(0xD800 ≤ k ∧ k < 0xE000)

theorem lint_isOk_iff_legible {source : List Char} :
    (∃ ds, (lint config file source).outcome = .ok ds) ↔ Legible config source := by
  simp only [lint_isOk_iff, hasValue_iff, Legible]

/-- When a pass succeeds. -/
theorem pass_isOk_iff {source : List Char} :
    (∃ r, pass config file source = .ok r) ↔ Legible config source ∧ Encodable config file source := by
  -- Once a source is linted, only the texts of the chosen fixes matter.
  have hplain : ∀ ds, (lint config file source).outcome = .ok ds →
      ((∃ r, applyFixes source ds = .ok r) ↔ Encodable config file source) := by
    intro ds hds
    rw [applyFixes_isOk_iff hds]
    constructor
    · intro h ds' hds' f hf n hn hfix
      obtain rfl := Except.ok.inj (hds.symm.trans hds')
      exact (fix_plain_iff hn hfix).1 (h f hf)
    · intro h f hf
      obtain ⟨d, hd, hfix⟩ := mem_chosen hf
      obtain ⟨n, hn, hisFix⟩ := lint_fix_path hds hd hfix
      exact (fix_plain_iff hn hisFix).2 (h ds hds f hf n hn hisFix)
  simp only [pass_eq_ok_iff]
  rw [← lint_isOk_iff_legible]
  constructor
  · rintro ⟨r, ds, hds, hr⟩
    exact ⟨⟨ds, hds⟩, (hplain ds hds).1 ⟨r, hr⟩⟩
  · rintro ⟨⟨ds, hds⟩, hencodable⟩
    obtain ⟨r, hr⟩ := (hplain ds hds).2 hencodable
    exact ⟨r, ds, hds, hr⟩

/-- A fix succeeds when every pass does that follows fewer passes than it may make. -/
theorem fixSource_isOk_iff {source : List Char} :
    (∃ r, (fixSource config file source).outcome = .ok r) ↔
      ∀ k < maxPasses, ∀ fixes s, Passes config file k source fixes s → ∃ r, pass config file s = .ok r := by
  rw [fixSource]
  constructor
  · rintro ⟨r, hr⟩ k hk fixes s hpasses
    cases hpass : pass config file s with
    | ok r => exact ⟨r, rfl⟩
    | error e =>
      have herror : (fixFrom config file maxPasses { output := source }).outcome = .error e :=
        fixFrom_error_iff.2 ⟨k, hk, fixes, s, hpasses, hpass⟩
      rw [hr] at herror
      exact nomatch herror
  · intro h
    cases hfix : (fixFrom config file maxPasses { output := source }).outcome with
    | ok r => exact ⟨r, rfl⟩
    | error e =>
      obtain ⟨k, hk, fixes, s, hpasses, hpass⟩ := fixFrom_error_iff.1 hfix
      obtain ⟨r, hr⟩ := h k hk fixes s hpasses
      rw [hr] at hpass
      exact nomatch hpass

/-- **Faults.**  Linting succeeds exactly when the strings that are read write numbers of code
    points only.  A fix succeeds exactly when this holds of every source that it lints and the
    strings of the paths that it replaces there write no surrogates.  Every path has a fix for
    every text. -/
theorem lint_and_fix_succeed_iff (config : Config) (file : Option Text) (source : List Char) :
    ((∃ ds, (lint config file source).outcome = .ok ds) ↔ Legible config source) ∧
      ((∃ r, (fixSource config file source).outcome = .ok r) ↔
        ∀ k < maxPasses, ∀ fixes s, Passes config file k source fixes s →
          Legible config s ∧ Encodable config file s) ∧
      ∀ n ∈ paths config (Tree.parse source).root, ∀ text, ∃ f, Verdict.fixAt n.extent text = some f := by
  refine ⟨lint_isOk_iff_legible, ?_, ?_⟩
  · simp only [fixSource_isOk_iff, pass_isOk_iff]
  · intro n hn text
    have hspans := (placed_paths (placed_parse source) hn).spans
    exact ⟨_, dif_pos hspans.start_le_stop⟩

-- A number beyond the code points, and a surrogate in a path that is replaced.
example : (lint {} none "_.get(o, ['\\u\x7b110000\x7d']);".toList).outcome.toOption = none := by
  decide +kernel

example : (fixSource {} none "_.get(o, ['\\uD800']);".toList).outcome.toOption = none := by
  decide +kernel

end Lint

end LodashStyle
