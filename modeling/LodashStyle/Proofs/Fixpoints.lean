import LodashStyle.Proofs.RewritingPasses

/-!
# How far a fix gets

Of paths to replace that stand inside one another each pass rewrites the outermost ones.  A fix makes ten
passes at most, so it leaves nothing to fix exactly where no more than ten such paths stand inside one
another.  How many stand beside one another does not matter.

What a pass writes is parsed again by the next one.  `Reparses` says what is taken for granted of that,
for sources without errors: the tree is that of the source before with the paths replaced, and the names
of the library are the same.

## Key results

- `Passes.rewritings`: passes whose outcomes are parsed like this are rewriting passes of trees
- `fix_reaches_fixpoint_iff`: a fix leaves nothing to fix exactly when its passes suffice for the paths
  inside one another
- `nested_paths_outlast_passes`: eleven paths inside one another are too many
-/

namespace LodashStyle.Lint

open JavaScript

variable {config : Config} {u : Usage} {file : Option Text} {source last : List Char}

/-! ## Passes over sources -/

/-- What a pass over a source writes is parsed as the tree of the source with the paths replaced, its
    nodes are laid out as those of any tree, and the names of the library are what they were. -/
structure Reparses (config : Config) (u : Usage) (source : List Char) (r : FixResult) : Prop where
  alike : (replacePaths config u r.applied (Tree.parse source).root).alike (Tree.parse r.output).root = true
  laidOut : ∀ n ∈ (Tree.parse r.output).root.nodes, n.LaidOut
  usage : (usage config.settings (Tree.parse r.output).root).outcome = .ok u

/-- A pass applies the fixes of the findings in the tree of its source. -/
theorem exists_findings_of_pass {r : FixResult} (h : pass config file source = .ok r) :
    ∃ u findings, (usage config.settings (Tree.parse source).root).outcome = .ok u ∧
      (visitAll config u (Site.calls (Tree.parse source).root)).outcome = .ok findings ∧
      applyFixes source (diagnostics file findings) = .ok r := by
  obtain ⟨ds, hlint, happly⟩ := pass_eq_ok_iff.1 h
  rw [outcome_lint, lintTree_ok_iff] at hlint
  obtain ⟨u, findings, hu, hfindings, rfl⟩ := hlint
  exact ⟨u, findings, hu, hfindings, happly⟩

/-- Passes whose outcomes are parsed like this rewrite one tree after the other. -/
theorem Passes.rewritings {count : Nat} {fixes : List Fix} (h : Passes config file count source fixes last)
    (hu : (usage config.settings (Tree.parse source).root).outcome = .ok u)
    (hreparses : ∀ k < count, ∀ fixes s r, Passes config file k source fixes s →
      pass config file s = .ok r → r.changed = true → Reparses config u s r) :
    Rewritings config u file count source (Tree.parse source).root last (Tree.parse last).root ∧
      (usage config.settings (Tree.parse last).root).outcome = .ok u := by
  induction h with
  | none => exact ⟨.none, hu⟩
  | @more count s t r fixes hpass hchanged _ ih =>
    obtain ⟨u', findings, hu', hfindings, happly⟩ := exists_findings_of_pass hpass
    obtain rfl : u = u' := Except.ok.inj (hu.symm.trans hu')
    have hfirst := hreparses 0 (by omega) [] s r .none hpass hchanged
    -- The other passes come one later in the row.
    obtain ⟨hrest, hlast⟩ := ih hfirst.usage fun k hk fixes m next hrow =>
      hreparses (k + 1) (by omega) (r.applied ++ fixes) m next (.more hpass hchanged hrow)
    have htree : IsTreeOf r.output (Tree.parse r.output).root := ⟨placed_parse r.output, hfirst.laidOut⟩
    exact ⟨.more hfindings happly hchanged htree hfirst.alike hrest, hlast⟩

/-- A source is linted without a fix when none of its diagnostics can be fixed. -/
theorem fixFree_iff_fixable {findings : List Finding}
    (hu : (usage config.settings (Tree.parse source).root).outcome = .ok u)
    (h : (visitAll config u (Site.calls (Tree.parse source).root)).outcome = .ok findings) :
    FixFree config file source ↔ fixable file findings = [] := by
  have hlint : (lint config file source).outcome = .ok (diagnostics file findings) := by
    rw [outcome_lint]
    exact lintTree_ok_iff.2 ⟨u, findings, hu, h, rfl⟩
  have hnone : fixable file findings = [] ↔ ∀ d ∈ diagnostics file findings, d.fix = none := by
    rw [fixable, List.filter_eq_nil_iff]
    refine forall₂_congr fun d hd => ?_
    cases hfix : d.fix with
    | none => simp
    | some f => simp [rule_of_fix h hd hfix]
  rw [hnone]
  constructor
  · rintro ⟨ds, hds, hfree⟩
    rw [Except.ok.inj (hlint.symm.trans hds)]
    exact hfree
  · intro hfree
    exact ⟨_, hlint, hfree⟩

/-! ## Whole fixes -/

/-- The passes of a fix rewrite trees: the tree of the source is laid out as any tree is, and what a pass
    that rewrites a source writes is parsed as `Reparses` says, as far as passes are made. -/
structure RewritesTrees (config : Config) (u : Usage) (file : Option Text) (source : List Char) : Prop where
  laidOut : ∀ n ∈ (Tree.parse source).root.nodes, n.LaidOut
  reparses : ∀ k < maxPasses, ∀ fixes s r, Passes config file k source fixes s →
    pass config file s = .ok r → r.changed = true → Reparses config u s r

/-- A fix makes a pass at least. -/
theorem exists_pass_of_fixSource {r : FixResult} (h : (fixSource config file source).outcome = .ok r) :
    ∃ first, pass config file source = .ok first := by
  rw [fixSource, maxPasses, outcome_fixFrom_succ] at h
  obtain ⟨first, hfirst, -⟩ := bind_eq_ok h
  exact ⟨first, hfirst⟩

/-- **Fixpoints.**  A source without fixes is left as it is by a fix.  And where the passes of a fix rewrite
    trees, it makes as many passes that rewrite the source as paths to replace stand inside one another in
    the tree, if it may make so many, and leaves nothing to fix exactly when it may. -/
theorem fix_reaches_fixpoint_iff (config : Config) (file : Option Text) (source : List Char)
    {r : FixResult} (h : (fixSource config file source).outcome = .ok r) :
    (FixFree config file r.output →
      (fixSource config file r.output).outcome = .ok { output := r.output }) ∧
    ∀ u, (usage config.settings (Tree.parse source).root).outcome = .ok u →
      RewritesTrees config u file source →
      ∃ depth, IsGreatest {k | NestedPaths config u k (Tree.parse source).root} depth ∧
        Passes config file (min depth maxPasses) source r.applied r.output ∧
        (FixFree config file r.output ↔ depth ≤ maxPasses) := by
  constructor
  · intro hfree
    exact fixFrom_of_fixFree maxPasses { output := r.output } hfree
  intro u hu htrees
  obtain ⟨first, hfirst⟩ := exists_pass_of_fixSource h
  obtain ⟨u', findings, hu', hfindings, -⟩ := exists_findings_of_pass hfirst
  obtain rfl : u = u' := Except.ok.inj (hu.symm.trans hu')
  rw [fixSource] at h
  obtain ⟨count, fixes, hpasses, happlied, hend⟩ := fixFrom_ok h
  obtain rfl : r.applied = fixes := happlied
  have hmax : count ≤ maxPasses := by omega
  -- The passes that were made are a row of passes over trees, which the paths in the first one bound.
  obtain ⟨hrow, hlastUsage⟩ := hpasses.rewritings hu fun k hk => htrees.reparses k (by omega)
  have htree : IsTreeOf source (Tree.parse source).root := ⟨placed_parse source, htrees.laidOut⟩
  obtain ⟨depth, hdepth⟩ := exists_isGreatest_nestedPaths config u (Tree.parse source).root
  obtain ⟨hle, hnothing⟩ := hrow.count_le htree hfindings hdepth
  obtain ⟨hlastTree, -, left, hleft, -⟩ := hrow.left htree hfindings
  have hfree : FixFree config file r.output ↔ count = depth := by
    rw [fixFree_iff_fixable hlastUsage hleft, ← hnothing, ← List.length_eq_zero_iff,
      length_fixable hlastTree hleft, List.length_eq_zero_iff]
  -- A fix that was not cut off has settled, so that it made as many passes as there are paths.
  have hsettled : count < maxPasses → count = depth := by
    intro hlt
    obtain rfl | ⟨-, hsettled⟩ := hend
    · omega
    · exact hfree.1 (settled_iff_fixFree.1 hsettled)
  have hcount : count = min depth maxPasses := by omega
  refine ⟨depth, hdepth, hcount ▸ hpasses, ?_⟩
  rw [hfree]
  omega

/-! ## Paths inside one another -/

/-- Without bindings in a tree the names of the library are those of the settings. -/
theorem usage_of_collect {root : Node} (h : ({} : Bindings).collect root = ({}, none)) :
    (usage config.settings root).outcome = .ok (Usage.ofSettings config.settings) := by
  rw [usage_eq_ok_iff]
  have hbindings : (Usage.ofSettings config.settings).bindings.collect root = ({}, none) := h
  rw [usageOf, hbindings]
  exact ⟨rfl, rfl⟩

/-- A source from which passes that are parsed as `Reparses` says lead to one where a pass applies
    nothing. -/
inductive Settles (config : Config) (u : Usage) : List Char → Prop where
  | done {s : List Char} (hsettled : Settled config none s) : Settles config u s
  | next {s : List Char} {r : FixResult} (hpass : pass config none s = .ok r) (hreparses : Reparses config u s r)
    (hrest : Settles config u r.output) : Settles config u s

/-- Passes lead along the way to the end. -/
theorem Settles.of_passes {count : Nat} {fixes : List Fix} (h : Settles config u source)
    (hpasses : Passes config none count source fixes last) : Settles config u last := by
  induction hpasses with
  | none => exact h
  | @more count s t r fixes hpass hchanged _ ih =>
    cases h with
    | done hsettled =>
      -- The pass would rewrite what has settled.
      obtain ⟨r', hpass', hunchanged⟩ := hsettled
      rw [Except.ok.inj (hpass.symm.trans hpass'), hunchanged] at hchanged
      exact nomatch hchanged
    | next hpass' _ hrest =>
      obtain rfl := Except.ok.inj (hpass.symm.trans hpass')
      exact ih hrest

/-- A pass on the way to the end returns. -/
theorem Settles.exists_pass (h : Settles config u source) : ∃ r, pass config none source = .ok r := by
  cases h with
  | done hsettled =>
    obtain ⟨r, hpass, -⟩ := hsettled
    exact ⟨r, hpass⟩
  | next hpass => exact ⟨_, hpass⟩

/-- A fix on the way to the end returns. -/
theorem Settles.exists_fixSource (h : Settles config u source) :
    ∃ r, (fixSource config none source).outcome = .ok r := by
  cases hfix : (fixSource config none source).outcome with
  | ok r => exact ⟨r, rfl⟩
  | error e =>
    obtain ⟨k, -, fixes, s, hpasses, herror⟩ := fixFrom_error_iff.1 hfix
    obtain ⟨r, hpass⟩ := (h.of_passes hpasses).exists_pass
    rw [hpass] at herror
    exact nomatch herror

/-- The passes on the way to the end rewrite trees. -/
theorem Settles.rewritesTrees (h : Settles config u source)
    (hlaidOut : ∀ n ∈ (Tree.parse source).root.nodes, n.LaidOut) :
    RewritesTrees config u none source where
  laidOut := hlaidOut
  reparses := by
    intro k _ fixes s r hpasses hpass hchanged
    cases h.of_passes hpasses with
    | done hsettled =>
      obtain ⟨r', hpass', hunchanged⟩ := hsettled
      rw [Except.ok.inj (hpass.symm.trans hpass'), hunchanged] at hchanged
      exact nomatch hchanged
    | next hpass' hreparses =>
      rw [Except.ok.inj (hpass.symm.trans hpass')]
      exact hreparses

/-- Whether passes lead from each text to the next one, none of which binds names, and the last one has
    nothing to find. -/
def settlesAlong (config : Config) : List (List Char) → Bool
  | [] => false
  | [s] =>
    decide (({} : Bindings).collect (Tree.parse s).root = ({}, none)) &&
      (visitAll config (Usage.ofSettings config.settings)
        (Site.calls (Tree.parse s).root)).outcome.toOption.any List.isEmpty
  | s :: t :: rest =>
    decide (({} : Bindings).collect (Tree.parse s).root = ({}, none)) &&
      rewritesTo config (Usage.ofSettings config.settings) s t && settlesAlong config (t :: rest)

/-- The names of the library are those of the settings in each of the texts. -/
theorem usage_of_settlesAlong {rest : List (List Char)} (h : settlesAlong config (source :: rest) = true) :
    (usage config.settings (Tree.parse source).root).outcome = .ok (Usage.ofSettings config.settings) := by
  apply usage_of_collect
  cases rest with
  | nil =>
    rw [settlesAlong, Bool.and_eq_true] at h
    exact of_decide_eq_true h.1
  | cons t rest =>
    rw [settlesAlong, Bool.and_eq_true, Bool.and_eq_true] at h
    exact of_decide_eq_true h.1.1

/-- The texts are those that the passes come to. -/
theorem settles_of_settlesAlong {rest : List (List Char)} (h : settlesAlong config (source :: rest) = true) :
    Settles config (Usage.ofSettings config.settings) source := by
  have hu := usage_of_settlesAlong h
  induction rest generalizing source with
  | nil =>
    rw [settlesAlong, Bool.and_eq_true] at h
    obtain ⟨findings, hfindings, hnil⟩ := (Option.any_eq_true _ _).1 h.2
    refine .done ?_
    rw [settled_iff_fixFree, fixFree_iff_fixable hu (eq_ok_of_toOption hfindings), fixable, diagnostics,
      List.isEmpty_iff.1 hnil, List.filterMap_nil, Diagnostic.sort, List.mergeSort_nil]
    rfl
  | cons t rest ih =>
    rw [settlesAlong, Bool.and_eq_true, Bool.and_eq_true] at h
    obtain ⟨findings, r, hfindings, happly, -, rfl, halike, hlaidOut⟩ := exists_result_of_rewritesTo h.1.2
    have hu' := usage_of_settlesAlong h.2
    have hpass : pass config none source = .ok r := by
      refine pass_eq_ok_iff.2 ⟨_, ?_, happly⟩
      rw [outcome_lint]
      exact lintTree_ok_iff.2 ⟨_, findings, hu, hfindings, rfl⟩
    exact .next hpass ⟨halike, hlaidOut, hu'⟩ (ih h.2 hu')

/-- Eleven paths inside one another, of which the outer `n` have been fixed. -/
def nestedPaths (n : Nat) : List Char :=
  (if n ≤ 10 then inTemplates (nestedArrays (10 - n)) n else inTemplates "_.get(o, 'a')".toList 10) ++ [';']

/-- Twelve paths beside one another, before and after they have been fixed. -/
def pathsInARow (n : Nat) : List Char :=
  (List.replicate 12 (if n = 0 then "_.get(o, ['a']);".toList else "_.get(o, 'a');".toList)).flatten

/-- Eleven paths inside one another outlast the passes, though the source has no error.  Twelve paths beside
    one another do not: after their fix nothing is left, and a second fix changes nothing. -/
theorem nested_paths_outlast_passes :
    (Tree.parse (nestedPaths 0)).hasError = false ∧
    (∃ r, (fixSource stringPaths none (nestedPaths 0)).outcome = .ok r ∧
      ¬FixFree stringPaths none r.output) ∧
    ∃ r, (fixSource stringPaths none (pathsInARow 0)).outcome = .ok r ∧ FixFree stringPaths none r.output ∧
      (fixSource stringPaths none r.output).outcome = .ok { output := r.output } := by
  let u := Usage.ofSettings stringPaths.settings
  -- A pass fixes the outermost array only, for the others lie inside its span.
  have hnested : settlesAlong stringPaths ((List.range 12).map nestedPaths) = true := by decide +kernel
  -- Paths beside one another are fixed all at once.
  have hrow : settlesAlong stringPaths ((List.range 2).map pathsInARow) = true := by decide +kernel
  obtain ⟨hvalid, hnestedLaidOut, heleven⟩ : (Tree.parse (nestedPaths 0)).hasError = false ∧
      (∀ n ∈ (Tree.parse (nestedPaths 0)).root.nodes, n.LaidOut) ∧
      NestedPaths stringPaths u 11 (Tree.parse (nestedPaths 0)).root := by
    decide +kernel
  obtain ⟨hrowLaidOut, hflat⟩ : (∀ n ∈ (Tree.parse (pathsInARow 0)).root.nodes, n.LaidOut) ∧
      ¬NestedPaths stringPaths u 2 (Tree.parse (pathsInARow 0)).root := by
    decide +kernel
  refine ⟨hvalid, ?_, ?_⟩
  · have hsettles : Settles stringPaths u (nestedPaths 0) := settles_of_settlesAlong hnested
    obtain ⟨r, hfix⟩ := hsettles.exists_fixSource
    obtain ⟨-, hpaths⟩ := fix_reaches_fixpoint_iff stringPaths none (nestedPaths 0) hfix
    obtain ⟨depth, hdepth, -, hfree⟩ :=
      hpaths u (usage_of_settlesAlong hnested) (hsettles.rewritesTrees hnestedLaidOut)
    have hle : 11 ≤ depth := hdepth.2 heleven
    refine ⟨r, hfix, ?_⟩
    rw [hfree, maxPasses]
    omega
  · have hsettles : Settles stringPaths u (pathsInARow 0) := settles_of_settlesAlong hrow
    obtain ⟨r, hfix⟩ := hsettles.exists_fixSource
    obtain ⟨hagain, hpaths⟩ := fix_reaches_fixpoint_iff stringPaths none (pathsInARow 0) hfix
    obtain ⟨depth, hdepth, -, hfree⟩ :=
      hpaths u (usage_of_settlesAlong hrow) (hsettles.rewritesTrees hrowLaidOut)
    have hone : depth ≤ 1 := by
      by_contra hmore
      exact hflat (hdepth.1.of_le (by omega))
    have hnothing := hfree.2 (hone.trans (by decide))
    exact ⟨r, hfix, hnothing, hagain hnothing⟩

end LodashStyle.Lint
