import LodashStyle.Lint.Basic

/-! # Fixing a source

The fixes of a pass are applied, and the outcome is linted and fixed again until a pass
applies nothing.  At most ten passes are made. -/

namespace LodashStyle

open JavaScript

/-- Why a source could not be linted or fixed. -/
inductive LintError where
  | escape (fault : EscapeFault)
  | splice (error : SpliceError)
  deriving DecidableEq, Repr

namespace Lint

/-- The greatest number of passes. -/
def maxPasses : Nat := 10

/-- Applies the fixes of some diagnostics; skipped ones are logged once the bytes of the outcome
    are known. -/
def applyLogged (source : List Char) (ds : List Diagnostic) : Run SpliceError FixResult :=
  let outcome := applyFixes source ds
  let skipped := (Fix.select (Utf8.encode source).length 0 (Fix.sort (ds.filterMap (·.fix)))).2
  match outcome with
  | .error .unencodable => Run.fail .unencodable
  | _ => do
    if !skipped.isEmpty then
      Run.debug "analysis.fixer"
        ("Skipped " ++ Text.ofNat skipped.length ++ (" overlapping fixes" : Text))
    Run.ofExcept outcome

/-- Makes up to `passes` passes over a source of which `done` is the state so far. -/
def fixFrom (config : Config) (file : Option Text) : Nat → FixResult → Run LintError FixResult
  | 0, done => pure done
  | passes + 1, done => do
    let ds ← (lint config file done.output).mapError .escape
    let fixed ← (applyLogged done.output ds).mapError .splice
    if fixed.changed then
      fixFrom config file passes
        ⟨fixed.output, done.applied ++ fixed.applied, fixed.skipped⟩
    else
      return done

end Lint

/-- A source after fixing until nothing is fixable or the passes are used up.  All fixes that
    were applied are listed, and those that the last applying pass skipped. -/
def fixSource (config : Config) (file : Option Text) (source : List Char) : Run LintError FixResult :=
  Lint.fixFrom config file Lint.maxPasses { output := source }

end LodashStyle
