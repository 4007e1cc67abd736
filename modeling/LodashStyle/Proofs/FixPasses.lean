import LodashStyle.Lint.Fixing
import LodashStyle.Proofs.Splicing

/-!
# The passes of a fix

Fixing makes passes over a source until one applies nothing, or ten have been made.  `pass` is
one of them without its log, and `Passes` a number of them in a row that apply fixes, so that
what a fix comes to is read off one pass at a time.  The results are about sources without syntax
errors: a pass finds nothing in any other, as its tree is empty.

## Key results

- `fixFrom_ok`: a fix that succeeds is a row of passes, cut off or ending in one that applies nothing
- `fixFrom_error_iff`: a fix fails exactly when one of its passes does
-/

namespace LodashStyle.Lint

/-- One pass: a source is linted and the fixes are applied. -/
def pass (config : Config) (file : Option Text) (source : List Char) : Except LintError FixResult := do
  let ds ← (lint config file source).outcome.mapError .escape
  (applyFixes source ds).mapError .splice

/-- A number of passes in a row that apply fixes: the source, the fixes and the outcome. -/
inductive Passes (config : Config) (file : Option Text) :
    Nat → List Char → List Fix → List Char → Prop where
  | none {s : List Char} : Passes config file 0 s [] s
  | more {n : Nat} {s t : List Char} {r : FixResult} {fixes : List Fix}
    (hpass : pass config file s = .ok r) (hchanged : r.changed = true)
    (hrest : Passes config file n r.output fixes t) :
    Passes config file (n + 1) s (r.applied ++ fixes) t

/-- A source to which a pass applies nothing. -/
def Settled (config : Config) (file : Option Text) (s : List Char) : Prop :=
  ∃ r, pass config file s = .ok r ∧ r.changed = false

variable {config : Config} {file : Option Text}

/-! ## One pass -/

theorem pass_eq_ok_iff {s : List Char} {r : FixResult} :
    pass config file s = .ok r ↔
      ∃ ds, (lint config file s).outcome = .ok ds ∧ applyFixes s ds = .ok r := by
  rw [pass]
  constructor
  · intro h
    obtain ⟨ds, hds, hfix⟩ := bind_eq_ok h
    exact ⟨ds, mapError_eq_ok_iff.1 hds, mapError_eq_ok_iff.1 hfix⟩
  · rintro ⟨ds, hds, hfix⟩
    rw [hds]
    exact mapError_eq_ok_iff.2 hfix

/-- The log has no part in the outcome of applying fixes. -/
theorem outcome_applyLogged (s : List Char) (ds : List Diagnostic) :
    (applyLogged s ds).outcome = applyFixes s ds := by
  unfold applyLogged
  dsimp only
  split
  · rename_i houtcome
    rw [houtcome]
    rfl
  · split <;> rfl

/-- What the first of several passes comes to decides how the fix goes on. -/
theorem outcome_fixFrom_succ (n : Nat) (done : FixResult) :
    (fixFrom config file (n + 1) done).outcome = pass config file done.output >>= fun fixed =>
      if fixed.changed then
        (fixFrom config file n ⟨fixed.output, done.applied ++ fixed.applied, fixed.skipped⟩).outcome
      else .ok done := by
  -- The log is written between the steps, which are the same on both sides.
  rw [fixFrom, Run.outcome_bind, pass, bind_assoc]
  congr 1
  funext ds
  rw [Run.outcome_bind, Run.mapError, outcome_applyLogged]
  congr 1
  funext fixed
  split <;> rfl

/-! ## Rows of passes -/

/-- A fix that succeeds has made some passes that apply fixes, and stopped because they were all
    it may make or because the next one applies nothing. -/
theorem fixFrom_ok {n : Nat} {done r : FixResult} (h : (fixFrom config file n done).outcome = .ok r) :
    ∃ k fixes, Passes config file k done.output fixes r.output ∧ r.applied = done.applied ++ fixes ∧
      (k = n ∨ k < n ∧ Settled config file r.output) := by
  induction n generalizing done with
  | zero =>
    obtain rfl : done = r := Except.ok.inj h
    exact ⟨0, [], .none, (List.append_nil _).symm, .inl rfl⟩
  | succ n ih =>
    rw [outcome_fixFrom_succ] at h
    cases hpass : pass config file done.output with
    | error e =>
      rw [hpass] at h
      exact nomatch h
    | ok fixed =>
      rw [hpass] at h
      change (if fixed.changed then _ else _) = _ at h
      split at h
      · -- The first pass applies fixes, and the others are a fix of their own.
        rename_i hchanged
        obtain ⟨k, fixes, hpasses, happlied, hend⟩ := ih h
        refine ⟨k + 1, fixed.applied ++ fixes, .more hpass hchanged hpasses, ?_, ?_⟩
        · rw [happlied, List.append_assoc]
        · obtain rfl | ⟨hlt, hsettled⟩ := hend
          · exact .inl rfl
          · exact .inr ⟨by omega, hsettled⟩
      · -- The first pass applies nothing, so the fix ends here.
        rename_i hchanged
        obtain rfl : done = r := Except.ok.inj h
        exact ⟨0, [], .none, (List.append_nil _).symm,
          .inr ⟨by omega, fixed, hpass, eq_false_of_ne_true hchanged⟩⟩

/-- A fix fails exactly when a pass fails that follows fewer passes than it may make. -/
theorem fixFrom_error_iff {n : Nat} {done : FixResult} {e : LintError} :
    (fixFrom config file n done).outcome = .error e ↔
      ∃ k < n, ∃ fixes s, Passes config file k done.output fixes s ∧ pass config file s = .error e := by
  induction n generalizing done with
  | zero =>
    constructor
    · intro h
      exact nomatch h
    · rintro ⟨k, hk, -⟩
      exact absurd hk (Nat.not_lt_zero k)
  | succ n ih =>
    rw [outcome_fixFrom_succ]
    constructor
    · intro h
      cases hpass : pass config file done.output with
      -- The first pass fails itself, or a pass of the fix that goes on from its outcome does.
      | error e' =>
        rw [hpass] at h
        obtain rfl : e' = e := Except.error.inj h
        exact ⟨0, by omega, [], done.output, .none, hpass⟩
      | ok fixed =>
        rw [hpass] at h
        change (if fixed.changed then _ else _) = _ at h
        split at h
        · rename_i hchanged
          obtain ⟨k, hk, fixes, s, hpasses, hs⟩ := ih.1 h
          exact ⟨k + 1, by omega, fixed.applied ++ fixes, s, .more hpass hchanged hpasses, hs⟩
        · exact nomatch h
    · rintro ⟨k, hk, fixes, s, hpasses, hs⟩
      cases hpasses with
      -- Without passes before it the failing pass is the first one.
      | none =>
        rw [hs]
        rfl
      | more hpass hchanged hrest =>
        rw [hpass]
        change (if _ then _ else _) = _
        rw [if_pos hchanged]
        exact ih.2 ⟨_, by omega, _, s, hrest, hs⟩

end LodashStyle.Lint
