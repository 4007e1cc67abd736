import LodashStyle.Config.Schema
import LodashStyle.Diagnostic.Basic

/-! # Diagnostics from JSON

Checks that read fixes and diagnostics from JSON values. -/

namespace LodashStyle

open Schema

/-- The end of a fix: it must not come before the start, if the start is known. -/
def Fix.checkStop (start : Checked { n : Nat // 0 ≤ n }) (v : Json) : Checked Nat :=
  match natural 0 v with
  | .error issues => .error issues
  | .ok stop =>
    match start with
    | .ok first =>
      if stop.val < first.val then refuse (.refused "end_byte must not precede start_byte") v
      else .ok stop.val
    | .error _ => .ok stop.val

/-- Reads a fix. -/
def Fix.check (v : Json) : Checked Fix :=
  match object "Fix" v with
  | .error issues => .error issues
  | .ok members =>
    let start := required "start_byte" (natural 0) members
    let stop := required "end_byte" (Fix.checkStop start) members
    match both (both (both start stop) (required "text" Schema.text members))
        (onlyKeys ["start_byte", "end_byte", "text"] members) with
    | .error issues => .error issues
    | .ok (((start, stop), t), _) =>
      if h : start.val ≤ stop then .ok ⟨start.val, stop, t, h⟩
      else refuse (.refused "end_byte must not precede start_byte") v

/-- Reads a fix or nothing. -/
def Fix.check? : Json → Checked (Option Fix)
  | .null => .ok none
  | v => (Fix.check v).map some

/-- Reads a diagnostic. -/
def Diagnostic.check (v : Json) : Checked Diagnostic :=
  match object "Diagnostic" v with
  | .error issues => .error issues
  | .ok m =>
    let rule := required "rule" (choice [.chaining, .pathStyle] Rule.name) m
    let advice := required "message_id" (choice Advice.all Advice.name) m
    let line := required "line" (natural 1) m
    let column := required "column" (natural 0) m
    let endLine := required "end_line" (natural 1) m
    let endColumn := required "end_column" (natural 0) m
    let startByte := required "start_byte" (natural 0) m
    let endByte := required "end_byte" (natural 0) m
    let fix := optional "fix" Fix.check? m
    let file := optional "file_path" text? m
    let known := onlyKeys ["rule", "message_id", "line", "column", "end_line", "end_column",
      "start_byte", "end_byte", "fix", "file_path"] m
    (both (both (both (both rule advice) (both line column)) (both endLine endColumn))
      (both (both startByte endByte) (both (both fix file) known))).map
        fun ((((r, a), (l, c)), (el, ec)), ((sb, eb), ((fx, fp), _))) =>
          { rule := r, advice := a, line := l.val, column := c.val, endLine := el.val,
            endColumn := ec.val, startByte := sb.val, endByte := eb.val, fix := fx.join,
            file := fp.join }

end LodashStyle
