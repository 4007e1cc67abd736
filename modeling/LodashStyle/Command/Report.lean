import LodashStyle.Command.Flag
import LodashStyle.Diagnostic.Basic
import LodashStyle.Json.Writer

/-! # Reports

The diagnostics of a run as lines with a summary, or as a JSON array. -/

namespace LodashStyle.Command

/-- A diagnostic as JSON. -/
def diagnosticJson (d : Diagnostic) : Json :=
  let fix : Json := match d.fix with
    | none => .null
    | some f => .object [("start_byte", .int f.start), ("end_byte", .int f.stop),
        ("text", .string f.text)]
  .object [("rule", .string d.rule.name), ("message_id", .string d.advice.name),
    ("line", .int d.line), ("column", .int d.column),
    ("end_line", .int d.endLine), ("end_column", .int d.endColumn),
    ("start_byte", .int d.startByte), ("end_byte", .int d.endByte),
    ("fix", fix), ("file_path", (d.file.map Json.string).getD .null),
    ("message", .string d.advice.message)]

/-- The line that sums diagnostics up. -/
def summary (ds : List Diagnostic) : Text :=
  Text.ofNat ds.length ++ (" problems (" : Text) ++
    Text.ofNat (ds.countP (·.fixable)) ++ (" fixable with --fix)" : Text)

/-- The report on diagnostics; in lines, nothing is reported as nothing. -/
def report (format : Format) (ds : List Diagnostic) : Text :=
  match format with
  | .json => (Json.array (ds.map diagnosticJson)).indented
  | .text =>
    if ds.isEmpty then []
    else Text.join "\n" (ds.map (·.format) ++ [[], summary ds])

end LodashStyle.Command
