import LodashStyle.Files.Store
import LodashStyle.Json.Reader

/-! # JSON files

A file that is missing or malformed is an expected case, with a reason to report.  Bytes
that are not UTF-8 and numerals beyond the limit are faults of the data, for which no
reader here has an answer. -/

namespace LodashStyle

/-- What a JSON file yields. -/
inductive Document where
  | value (v : Json)
  | unreadable (reason : Text)
  deriving Repr

/-- Data that is refused without a report of its own. -/
inductive DataFault where
  | undecodable (fault : Utf8.DecodeFault)
  | numeralTooLong (digits : Nat)
  deriving DecidableEq, Repr

/-- The JSON file that a path leads to. -/
def Store.readDocument (s : Store) (p : FilePath) : Except DataFault Document :=
  match s.readText p with
  | .error (.undecodable fault) => .error (.undecodable fault)
  | .error error => .ok (.unreadable error.message)
  | .ok source =>
    match Json.parse source with
    | .ok v => .ok (.value v)
    | .error (.malformed what position) =>
      .ok (.unreadable (Json.malformedMessage source what position))
    | .error (.numeralTooLong digits) => .error (.numeralTooLong digits)

end LodashStyle
