import LodashStyle.Config.Options

/-! # Diagnostics

A diagnostic says which rule a piece of source violates, how to mend it in words, where it
stands, and, when the mending is safe, the fix: a span of bytes and the text that takes its
place. -/

namespace LodashStyle

/-- What a diagnostic advises. -/
inductive Advice where
  | single
  | never
  | always
  | stringForSimple
  | arrayForVars
  | array
  | string
  deriving DecidableEq, Repr

namespace Advice

/-- All advice. -/
def all : List Advice :=
  [.single, .never, .always, .stringForSimple, .arrayForVars, .array, .string]

/-- The identifier of an advice. -/
def name : Advice → String
  | .single => "single"
  | .never => "never"
  | .always => "always"
  | .stringForSimple => "stringForSimple"
  | .arrayForVars => "arrayForVars"
  | .array => "array"
  | .string => "string"

/-- The wording of an advice. -/
def message : Advice → String
  | .single => "Do not use chain syntax for single method"
  | .never => "Prefer composition to Lodash chaining"
  | .always => "Prefer chaining to composition"
  | .stringForSimple => "Use a string for simple paths"
  | .arrayForVars => "Use an array for paths with variables"
  | .array => "Use an array for paths"
  | .string => "Use a string for paths"

end Advice

/-- The replacement of the bytes from `start` up to, not including, `stop`. -/
structure Fix where
  start : Nat
  stop : Nat
  text : Text
  start_le_stop : start ≤ stop
  deriving DecidableEq, Repr

/-- A violation of a rule.  Lines count from one, columns from zero in bytes. -/
structure Diagnostic where
  rule : Rule
  advice : Advice
  line : Nat
  column : Nat
  endLine : Nat
  endColumn : Nat
  startByte : Nat
  endByte : Nat
  fix : Option Fix
  file : Option Text
  deriving DecidableEq, Repr

namespace Diagnostic

/-- Whether the diagnostic carries a fix. -/
def fixable (d : Diagnostic) : Bool := d.fix.isSome

/-- The diagnostic on one line: place, wording and rule. -/
def format (d : Diagnostic) : Text :=
  let place := Text.ofNat d.line ++ (":" : Text) ++ Text.ofNat (d.column + 1)
  let place :=
    match d.file with
    | some file => if file.isEmpty then place else file ++ (":" : Text) ++ place
    | none => place
  place ++ ("  " : Text) ++ (d.advice.message : Text) ++ ("  " : Text) ++ (d.rule.name : Text)

/-- Whether `a` may stand before `b`: by start, then by end. -/
def le (a b : Diagnostic) : Bool :=
  a.startByte < b.startByte || (a.startByte == b.startByte && a.endByte ≤ b.endByte)

/-- The diagnostics by start and end, those of equal spans in their given order. -/
def sort (ds : List Diagnostic) : List Diagnostic := ds.mergeSort le

end Diagnostic

end LodashStyle
