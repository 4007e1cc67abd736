import LodashStyle.JavaScript.Access
import LodashStyle.JavaScript.NumericLiteral
import LodashStyle.JavaScript.StringLiteral
import LodashStyle.PropertyPath.Render
import LodashStyle.PropertyPath.Split
import LodashStyle.Rule.Verdict

/-! # The path rule

A property path can be a string, `'a.b[0]'`, an array, `['a', 'b', 0]`, or built from
variables, as a template or by addition.

* In style `asNeeded`, an array of literals should be a string, and a string that glues a
  variable to a `.` or `[` should be an array.
* In style `array`, every string and every template should be an array.
* In style `string`, every array should be a string.

A replacement is offered where it keeps the meaning of the path. -/

namespace LodashStyle.PathStyle

open JavaScript

/-- The shapes of path arguments. -/
inductive Shape where
  | literalArray
  | array
  | string
  | template
  | gluedTemplate
  | addition
  | gluedAddition
  | dynamic
  deriving DecidableEq, Repr

/-- The name of a shape. -/
def Shape.name : Shape → String
  | .literalArray => "array_of_literals"
  | .array => "array"
  | .string => "string"
  | .template => "template"
  | .gluedTemplate => "unsafe_template"
  | .addition => "concatenation"
  | .gluedAddition => "unsafe_concatenation"
  | .dynamic => "dynamic"

/-- A `.` or `[`, after which a key comes. -/
def isAccess (p : CodePoint) : Bool := p.isChar '.' || p.isChar '['

/-- Whether a text ends where a key comes. -/
def endsWithAccess (t : Text) : Bool := t.getLast?.any isAccess

/-- Whether a text starts where a key comes. -/
def startsWithAccess (t : Text) : Bool := t.head?.any isAccess

/-- A non-empty array of literals only. -/
def isLiteralArray (n : Node) : Bool :=
  n.kind == .array && !n.parts.isEmpty && n.parts.all Node.isLiteral

/-- Whether two neighbours among some operands, one a string and the other no literal, meet at
    a `.` or `[` of the string. -/
def gluedOperands : List Node → Except EscapeFault Bool
  | a :: b :: rest => do
    if a.kind == .string && !b.isLiteral then
      if endsWithAccess (← stringValue a.text) then return true
    if !a.isLiteral && b.kind == .string then
      if startsWithAccess (← stringValue b.text) then return true
    gluedOperands (b :: rest)
  | _ => return false

/-- An addition that glues a variable to a `.` or `[` of a string. -/
def isGluedAddition (n : Node) : Except EscapeFault Bool :=
  if n.kind == .addition then gluedOperands n.operands else .ok false

/-- Whether the substitution between two texts is next to a `.` or `[`. -/
def gluedQuasis : List Text → Bool
  | a :: b :: rest => endsWithAccess a || startsWithAccess b || gluedQuasis (b :: rest)
  | _ => false

/-- A template with a substitution next to a `.` or `[`. -/
def isGluedTemplate (n : Node) : Bool := n.kind == .templateString && gluedQuasis n.quasis

/-- The shape of an argument without parentheses around it. -/
def shapeOf (n : Node) : Except EscapeFault Shape :=
  match n.kind with
  | .array => .ok (if isLiteralArray n then .literalArray else .array)
  | .string => .ok .string
  | .templateString => .ok (if isGluedTemplate n then .gluedTemplate else .template)
  | .addition => do return if ← isGluedAddition n then .gluedAddition else .addition
  | _ => .ok .dynamic

/-- The shape of an argument, which may be missing. -/
def shape (n : Option Node) : Except EscapeFault Shape :=
  match n.bind Node.unwrap with
  | some inner => shapeOf inner
  | none => .ok .dynamic

/-- The key that a literal stands for in a path, if it has a text. -/
def literalKey (n : Node) : Except EscapeFault (Option Text) :=
  match n.kind with
  | .string => (stringValue n.text).map some
  | .number => .ok (numericKey? n.text)
  | _ => .ok (some n.text)

/-- An array of literals as a string literal, if every element has a key. -/
def literalPath (n : Node) : Except EscapeFault (Option Text) := do
  let keys ← n.parts.mapM literalKey
  return (keys.mapM id).map PropertyPath.stringLiteral

/-- The template text of the elements of an array, if every literal has a key: literals as
    keys, others as substitutions. -/
def templateSegments : List Node → Except EscapeFault (Option Text)
  | [] => .ok (some [])
  | n :: rest =>
    if n.isLiteral then do
      match ← literalKey n with
      | none => return none
      | some key =>
        return (← templateSegments rest).map
          (PropertyPath.escapeTemplate (PropertyPath.segment key) ++ ·)
    else do
      return (← templateSegments rest).map fun after =>
        ("[$\x7b" : Text) ++ n.text ++ ("\x7d]" : Text) ++ after

/-- An array as a template string, if every literal has a key. -/
def templatePath (n : Node) : Except EscapeFault (Option Text) := do
  return (← templateSegments n.parts).map fun body =>
    Text.ofChar '\x60' ++ PropertyPath.dropDot body ++ Text.ofChar '\x60'

/-- An array as a string or, with variables in it, as a template. -/
def stringStyle (n : Node) : Except EscapeFault (Option Text) :=
  if isLiteralArray n then literalPath n else templatePath n

/-- A string as an array of string literals. -/
def arrayStyle (n : Node) : Except EscapeFault Text :=
  (stringValue n.text).map fun path => PropertyPath.arrayLiteral (PropertyPath.split path)

/-- Whether an array has a string form: it is not empty and spreads nothing. -/
def isConvertible (n : Node) : Bool := !n.parts.isEmpty && !n.parts.any (·.kind == .spread)

/-- Judges an argument in style `asNeeded`. -/
def judgeAsNeeded (n : Node) : Shape → Except EscapeFault Verdict
  | .literalArray => return .violation n .stringForSimple (← literalPath n)
  | .gluedAddition | .gluedTemplate => return .violation n .arrayForVars none
  | _ => return .compliant

/-- Judges an argument in style `array`. -/
def judgeArray (n : Node) : Shape → Except EscapeFault Verdict
  | .string => return .violation n .array (some (← arrayStyle n))
  | .template | .gluedTemplate => return .violation n .array none
  | _ => return .compliant

/-- Judges an argument in style `string`. -/
def judgeString (n : Node) : Shape → Except EscapeFault Verdict
  | .literalArray | .array =>
    if isConvertible n then do return .violation n .string (← stringStyle n)
    else return .violation n .string none
  | _ => return .compliant

/-- Judges a path argument. -/
def judge (style : PathStyle) (argument : Node) : Except EscapeFault Verdict :=
  match argument.unwrap with
  | none => return .compliant
  | some n => do
    let shape ← shapeOf n
    match style with
    | .asNeeded => judgeAsNeeded n shape
    | .array => judgeArray n shape
    | .string => judgeString n shape

/-- The array that a path argument is, if style `string` asks for a string form and it has
    none. -/
def unconvertible? (style : PathStyle) (argument : Node) : Option Node :=
  argument.unwrap.filter fun n => style == .string && n.kind == .array && !isConvertible n

end LodashStyle.PathStyle
