import LodashStyle.Diagnostic.Basic
import LodashStyle.JavaScript.Node

/-! # Verdicts

The outcome of judging a call or a path: the node at fault, what is advised, and the text
that may safely take the place of the node.  A verdict without advice is no violation, and
one without a node is not reported. -/

namespace LodashStyle

open JavaScript

/-- The outcome of judging a call or a path. -/
structure Verdict where
  extent : Option Extent := none
  advice : Option Advice := none
  replacement : Option Text := none
  deriving DecidableEq, Repr

namespace Verdict

/-- Nothing is wrong. -/
def compliant : Verdict := {}

/-- A node is at fault, and possibly has a replacement. -/
def violation (n : Node) (advice : Advice) (replacement : Option Text) : Verdict :=
  ⟨some n.extent, some advice, replacement⟩

/-- Whether something is wrong. -/
def isViolation (v : Verdict) : Bool := v.advice.isSome

/-- Whether there is a replacement. -/
def isFixable (v : Verdict) : Bool := v.replacement.isSome

/-- The fix of the text at an extent. -/
def fixAt (e : Extent) (text : Text) : Option Fix :=
  if h : e.start ≤ e.stop then some ⟨e.start, e.stop, text, h⟩ else none

/-- The diagnostic of a verdict on a file. -/
def diagnostic? (rule : Rule) (file : Option Text) (v : Verdict) : Option Diagnostic :=
  match v.extent, v.advice with
  | some e, some advice =>
    some
      { rule, advice, file
        line := e.startRow + 1
        column := e.startColumn
        endLine := e.endRow + 1
        endColumn := e.endColumn
        startByte := e.start
        endByte := e.stop
        fix := v.replacement.bind (fixAt e) }
  | _, _ => none

end Verdict

end LodashStyle
