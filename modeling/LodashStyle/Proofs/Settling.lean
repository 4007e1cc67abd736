import LodashStyle.Config.Given
import LodashStyle.Proofs.FixPasses
import LodashStyle.Proofs.Findings

/-!
# When fixing settles

A pass that applies nothing leaves nothing to fix: fixes lie within the source, so the first of
them is always applied.  Hence a fix that stops by itself leaves a source without fixes, and a fix of
such a source leaves it as it is.  A source with a syntax error has an empty tree and nothing to fix,
so what is said here is about sources without errors.

The sources at the end, with paths inside one another, are examples for this and for other modules.

## Key results

- `settled_iff_fixFree`: a pass applies nothing exactly when no diagnostic carries a fix
- `fixFrom_of_fixFree`: a fix stops where there is nothing to fix
- `lint_of_inTreeOrder`: diagnostics that come in the order of their spans need no sorting
-/

namespace LodashStyle.Lint

open JavaScript

/-- A source that is linted without a fix. -/
def FixFree (config : Config) (file : Option Text) (s : List Char) : Prop :=
  ∃ ds, (lint config file s).outcome = .ok ds ∧ ∀ d ∈ ds, d.fix = none

variable {config : Config} {file : Option Text}

/-! ## Passes that apply nothing -/

/-- Without fixes a pass yields the source. -/
theorem pass_of_fixFree {s : List Char} (h : FixFree config file s) :
    pass config file s = .ok { output := s } := by
  obtain ⟨ds, hlint, hfree⟩ := h
  refine pass_eq_ok_iff.2 ⟨ds, hlint, applyFixes_eq_ok_iff.2 ?_⟩
  have hnone : ds.filterMap (·.fix) = [] := List.filterMap_eq_nil_iff.2 hfree
  have hchosen : chosen s ds = ([], []) := by
    rw [chosen, hnone, Fix.sort, List.mergeSort_nil]
    rfl
  rw [hchosen]
  exact ⟨rfl, rfl, rfl⟩

/-- A pass that applies nothing found no fix: every fix lies within the source, so the first one
    would have been applied. -/
theorem fixFree_of_settled {s : List Char} (h : Settled config file s) : FixFree config file s := by
  obtain ⟨r, hpass, hchanged⟩ := h
  obtain ⟨ds, hlint, happly⟩ := pass_eq_ok_iff.1 hpass
  obtain ⟨-, happlied, -⟩ := applyFixes_eq_ok_iff.1 happly
  have hnil : (chosen s ds).1 = [] := by
    rw [← happlied]
    simpa [FixResult.changed] using hchanged
  -- No fix reaches beyond the source, so none is skipped for that.
  have hwithin : ∀ f ∈ Fix.sort (ds.filterMap (·.fix)), f.stop ≤ (Utf8.encode s).length := by
    intro f hf
    rw [Fix.sort, List.mem_mergeSort] at hf
    obtain ⟨d, hd, hfix⟩ := List.mem_filterMap.1 hf
    obtain ⟨e, hspans, -, hstop⟩ := lint_fix_spans hlint hd hfix
    rw [hstop]
    exact hspans.stop_le
  have hsorted : Fix.sort (ds.filterMap (·.fix)) = [] := (Fix.select_eq_nil_iff hwithin).1 hnil
  have hlength : (ds.filterMap (·.fix)).length = 0 := by
    rw [← (List.mergeSort_perm (ds.filterMap (·.fix)) Fix.le).length_eq]
    exact congrArg List.length hsorted
  exact ⟨ds, hlint, List.filterMap_eq_nil_iff.1 (List.eq_nil_of_length_eq_zero hlength)⟩

theorem settled_iff_fixFree {s : List Char} : Settled config file s ↔ FixFree config file s := by
  constructor
  · exact fixFree_of_settled
  · intro h
    exact ⟨_, pass_of_fixFree h, rfl⟩

/-! ## Whole fixes -/

/-- A fix stops where a pass applies nothing. -/
theorem fixFrom_of_fixFree (n : Nat) (done : FixResult) (h : FixFree config file done.output) :
    (fixFrom config file n done).outcome = .ok done := by
  cases n with
  | zero => rfl
  | succ n =>
    rw [outcome_fixFrom_succ, pass_of_fixFree h]
    rfl

/-! ## Paths inside one another -/

/-- The diagnostics of a source in the order of the tree. -/
def inTreeOrder (config : Config) (file : Option Text) (s : List Char) : Option (List Diagnostic) := do
  let root := (Tree.parse s).root
  let u ← (usage config.settings root).outcome.toOption
  let findings ← (visitAll config u (Site.calls root)).outcome.toOption
  return findings.filterMap fun f => f.verdict.diagnostic? f.rule file

/-- Diagnostics that come in the order of their spans need no sorting. -/
theorem lint_of_inTreeOrder {s : List Char} {ds : List Diagnostic}
    (h : inTreeOrder config file s = some ds) (hsorted : ds.Pairwise fun a b => Diagnostic.le a b) :
    (lint config file s).outcome = .ok ds := by
  obtain ⟨u, hu, h⟩ := Option.bind_eq_some_iff.1 h
  obtain ⟨findings, hfindings, h⟩ := Option.bind_eq_some_iff.1 h
  rw [outcome_lint, lintTree_ok_iff]
  refine ⟨u, findings, eq_ok_of_toOption hu, eq_ok_of_toOption hfindings, ?_⟩
  rw [← Option.some.inj h] at hsorted ⊢
  exact (List.mergeSort_of_pairwise hsorted).symm

/-- The path rule alone, in style `string`. -/
def stringPaths : Config :=
  Given.complete
    { settings := none
      chaining := none
      pathStyle := some { style := some .string }
      rules := RuleSet.ofList? [.pathStyle] }

/-- Arrays as paths, `n` of them around another one. -/
def nestedArrays : Nat → List Char
  | 0 => "_.get(o, ['a'])".toList
  | n + 1 => "_.get(o, [".toList ++ nestedArrays n ++ "])".toList

/-- Templates as paths, `n` of them around a source. -/
def inTemplates (inner : List Char) : Nat → List Char
  | 0 => inner
  | n + 1 => "_.get(o, \x60[$\x7b".toList ++ inTemplates inner n ++ "\x7d]\x60)".toList

end LodashStyle.Lint
