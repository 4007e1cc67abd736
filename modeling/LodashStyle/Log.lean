import LodashStyle.Text.Basic

/-! # Logged runs

A `Run` is an outcome together with the log entries written on the way.  The entries of a
run that fails are kept.

* `outcome_bind`  the outcome of a sequence does not depend on logs -/

namespace LodashStyle

namespace Log

/-- How important an entry is. -/
inductive Level where
  | debug
  | info
  | warning
  deriving DecidableEq, Repr

/-- The name of a level. -/
def Level.name : Level → String
  | .debug => "DEBUG"
  | .info => "INFO"
  | .warning => "WARNING"

/-- A log entry: its level, the part of the program that wrote it, and the message. -/
structure Entry where
  level : Level
  origin : String
  message : Text
  deriving DecidableEq, Repr

/-- The entry on one line. -/
def Entry.text (e : Entry) : Text :=
  (e.level.name : Text) ++ (" " : Text) ++ (e.origin : Text) ++ (": " : Text) ++ e.message

end Log

/-- An outcome with the log entries written on the way. -/
structure Run (ε α : Type) where
  log : List Log.Entry
  outcome : Except ε α

namespace Run

variable {ε α β : Type}

/-- A run that yields a value. -/
def value (x : α) : Run ε α := ⟨[], .ok x⟩

/-- A run that fails. -/
def fail (e : ε) : Run ε α := ⟨[], .error e⟩

/-- A run that goes on after another one. -/
def andThen (r : Run ε α) (f : α → Run ε β) : Run ε β :=
  match r.outcome with
  | .ok x => ⟨r.log ++ (f x).log, (f x).outcome⟩
  | .error e => ⟨r.log, .error e⟩

instance : Monad (Run ε) where
  pure := value
  bind := andThen

/-- Writes an entry. -/
def write (entry : Log.Entry) : Run ε Unit := ⟨[entry], .ok ()⟩

/-- Writes a debugging message. -/
def debug (origin : String) (message : Text) : Run ε Unit := write ⟨.debug, origin, message⟩

/-- The run of an outcome without entries. -/
def ofExcept (outcome : Except ε α) : Run ε α := ⟨[], outcome⟩

/-- The run with its failure put into other terms. -/
def mapError {ε' : Type} (f : ε → ε') (r : Run ε α) : Run ε' α := ⟨r.log, r.outcome.mapError f⟩

@[simp] theorem outcome_pure (x : α) : (pure x : Run ε α).outcome = .ok x := rfl

theorem outcome_bind (r : Run ε α) (f : α → Run ε β) :
    (r >>= f).outcome = r.outcome >>= fun x => (f x).outcome := by
  obtain ⟨log, outcome⟩ := r
  cases outcome <;> rfl

@[simp] theorem outcome_write (entry : Log.Entry) : (write entry : Run ε Unit).outcome = .ok () := rfl

@[simp] theorem outcome_ofExcept (outcome : Except ε α) : (ofExcept outcome).outcome = outcome := rfl

end Run

end LodashStyle
