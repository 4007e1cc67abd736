import LodashStyle.Diagnostic.Basic
import LodashStyle.Text.Utf8

/-! # Applying fixes

The fixes of some diagnostics are taken in the order of their spans.  One that starts before
the end of the last one applied, or ends beyond the source, is skipped; the others replace
their spans.  Spans count bytes, so the result is assembled from bytes and read back. -/

namespace LodashStyle

/-- Why the fixed source is not a text. -/
inductive SpliceError where
  /-- A replacement text holds a surrogate. -/
  | unencodable
  /-- A fix cut a character in two. -/
  | undecodable (fault : Utf8.DecodeFault)
  deriving DecidableEq, Repr

/-- A source after fixing. -/
structure FixResult where
  output : List Char
  applied : List Fix := []
  skipped : List Fix := []
  deriving DecidableEq, Repr

/-- Whether any fix was applied. -/
def FixResult.changed (r : FixResult) : Bool := !r.applied.isEmpty

namespace Fix

/-- Whether `a` may stand before `b`: by start, then by end. -/
def le (a b : Fix) : Bool := a.start < b.start || (a.start == b.start && a.stop ≤ b.stop)

/-- The fixes in the order of their spans, those of equal spans in their given order. -/
def sort (fixes : List Fix) : List Fix := fixes.mergeSort le

/-- The fixes to apply and those to skip, for a source of `size` bytes of which the first
    `cursor` are done with. -/
def select (size cursor : Nat) : List Fix → List Fix × List Fix
  | [] => ([], [])
  | f :: rest =>
    if f.start < cursor || size < f.stop then
      let (applied, skipped) := select size cursor rest
      (applied, f :: skipped)
    else
      let (applied, skipped) := select size f.stop rest
      (f :: applied, skipped)

/-- The bytes of a source from `cursor` on with the spans of the fixes replaced, if every
    replacement text has bytes. -/
def splice (data : List UInt8) (cursor : Nat) : List Fix → Option (List UInt8)
  | [] => some (data.drop cursor)
  | f :: rest => do
    let text ← f.text.utf8?
    let after ← splice data f.stop rest
    some ((data.drop cursor).take (f.start - cursor) ++ text ++ after)

end Fix

/-- Applies the fixes of some diagnostics to a source. -/
def applyFixes (source : List Char) (diagnostics : List Diagnostic) : Except SpliceError FixResult :=
  let data := Utf8.encode source
  let (applied, skipped) := Fix.select data.length 0 (Fix.sort (diagnostics.filterMap (·.fix)))
  match Fix.splice data 0 applied with
  | none => .error .unencodable
  | some bytes =>
    match Utf8.decode bytes with
    | .error fault => .error (.undecodable fault)
    | .ok output => .ok ⟨output, applied, skipped⟩

end LodashStyle
