import LodashStyle.Log

/-!
# What outcomes come to

Computations that can fail, taken apart: when a sequence, a changed result or a list of results is
there, and what it is made from.
-/

namespace LodashStyle

variable {ε α β : Type}

/-- A result that is there is the outcome. -/
theorem eq_ok_of_toOption {outcome : Except ε α} {x : α} (h : outcome.toOption = some x) :
    outcome = .ok x := by
  cases outcome with
  | error e => exact nomatch h
  | ok y => rw [Option.some.inj h]

/-- What a sequence of outcomes comes to. -/
theorem bind_eq_ok {x : Except ε α} {f : α → Except ε β} {y : β} (h : x >>= f = .ok y) :
    ∃ a, x = .ok a ∧ f a = .ok y := by
  cases x with
  | error e => exact nomatch h
  | ok a => exact ⟨a, rfl, h⟩

theorem map_eq_ok {x : Except ε α} {f : α → β} {y : β} (h : x.map f = .ok y) :
    ∃ a, x = .ok a ∧ f a = y := by
  cases x with
  | error e => exact nomatch h
  | ok a => exact ⟨a, rfl, Except.ok.inj h⟩

/-- A change of the result does not touch the failures. -/
theorem map_eq_error_iff {x : Except ε α} {f : α → β} {e : ε} : x.map f = .error e ↔ x = .error e := by
  cases x <;> simp [Except.map]

/-- A result that is changed is there when the one before is. -/
theorem map_isOk_iff {x : Except ε α} {f : α → β} : (∃ y, x.map f = .ok y) ↔ ∃ a, x = .ok a := by
  cases x with
  | error e => simp [Except.map]
  | ok a => simp [Except.map]

/-- Another name for the failures does not touch the results. -/
theorem mapError_eq_ok_iff {ε' : Type} {f : ε → ε'} {x : Except ε α} {a : α} :
    x.mapError f = .ok a ↔ x = .ok a := by
  cases x with
  | error e =>
    constructor
    · intro h
      cases h
    · intro h
      cases h
  | ok b =>
    constructor
    · intro h
      rw [Except.ok.inj h]
    · intro h
      rw [Except.ok.inj h]
      rfl

/-- Results that are computed one by one are there when each of them is. -/
theorem mapM_isOk_iff {f : α → Except ε β} {xs : List α} :
    (∃ ys, xs.mapM f = .ok ys) ↔ ∀ x ∈ xs, ∃ y, f x = .ok y := by
  induction xs with
  | nil => simp [pure, Except.pure]
  | cons x xs ih =>
    rw [List.mapM_cons, List.forall_mem_cons, ← ih]
    cases f x with
    | error e => simp [bind, Except.bind]
    | ok y =>
      cases xs.mapM f with
      | error e => simp [bind, Except.bind]
      | ok ys => simp [bind, Except.bind, pure, Except.pure]

/-- Where results are computed one by one, the failure is the one of an item. -/
theorem exists_of_mapM_eq_error {f : α → Except ε β} {xs : List α} {e : ε} (h : xs.mapM f = .error e) :
    ∃ x ∈ xs, f x = .error e := by
  induction xs with
  | nil => exact nomatch h
  | cons x xs ih =>
    rw [List.mapM_cons] at h
    -- The first item that fails decides; those behind it are not computed.
    cases hx : f x with
    | error e' =>
      rw [hx] at h
      obtain rfl : e' = e := Except.error.inj h
      exact ⟨x, List.mem_cons_self, hx⟩
    | ok y =>
      cases hxs : xs.mapM f with
      | error e' =>
        rw [hx, hxs] at h
        obtain rfl : e' = e := Except.error.inj h
        obtain ⟨z, hz, hfz⟩ := ih hxs
        exact ⟨z, List.mem_cons_of_mem _ hz, hfz⟩
      | ok ys =>
        rw [hx, hxs] at h
        exact nomatch h

namespace Run

/-- A sequence succeeds when both of its parts do. -/
theorem bind_eq_ok_iff {r : Run ε α} {f : α → Run ε β} {y : β} :
    (r >>= f).outcome = .ok y ↔ ∃ x, r.outcome = .ok x ∧ (f x).outcome = .ok y := by
  rw [outcome_bind]
  cases r.outcome with
  | error e => simp [bind, Except.bind]
  | ok x => simp [bind, Except.bind]

/-- Writing entries one after the other succeeds. -/
theorem outcome_forIn_debug (origin : String) (messages : List Text) :
    (forIn messages PUnit.unit fun message (_ : PUnit) => do
      debug origin message
      pure (ForInStep.yield PUnit.unit) : Run ε PUnit).outcome = .ok PUnit.unit := by
  induction messages with
  | nil => rfl
  | cons message rest ih =>
    rw [List.forIn_cons, outcome_bind]
    exact ih

end Run

end LodashStyle
