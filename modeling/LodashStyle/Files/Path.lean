import LodashStyle.Text.Basic

/-! # Paths

A path is an anchor and a list of names.  Reading one drops empty names and the name `.`,
so a path has one spelling; the name `..` is kept, since only a file system knows where it
leads.

* `parts_parse`  the names of a path that was read are proper names -/

namespace LodashStyle

/-- Where a path starts.  Exactly two slashes at the start are kept apart from one. -/
inductive Anchor where
  | relative
  | root
  | doubleRoot
  deriving DecidableEq, Repr

/-- The slashes of an anchor. -/
def Anchor.text : Anchor → Text
  | .relative => []
  | .root => "/"
  | .doubleRoot => "//"

/-- The anchor that a number of slashes at the start means. -/
def Anchor.ofSlashes : Nat → Anchor
  | 0 => .relative
  | 2 => .doubleRoot
  | _ => .root

/-- A path of a file or a directory. -/
structure FilePath where
  anchor : Anchor
  parts : List Text
  deriving DecidableEq, Repr

namespace FilePath

/-- Whether a piece between slashes is a name to be kept. -/
def isName (piece : Text) : Bool := !piece.isEmpty && piece != ("." : Text)

/-- Reads a path. -/
def parse (t : Text) : FilePath :=
  ⟨.ofSlashes (t.takeWhile (·.isChar '/')).length, (t.splitOn '/').filter isName⟩

theorem parts_parse (t : Text) : ∀ name ∈ (parse t).parts, isName name = true := by
  simp [parse]

/-- The spelling of a path; the empty relative path is written `.`. -/
def text (p : FilePath) : Text :=
  let written := p.anchor.text ++ Text.join "/" p.parts
  if written.isEmpty then "." else written

/-- The path of `rest` below a directory. -/
def below (p : FilePath) (rest : List Text) : FilePath := { p with parts := p.parts ++ rest }

/-- The part of a name from its last dot on, unless the dot is the first or the last code
    point. -/
def extension (name : Text) : Text :=
  let after := name.reverse.takeWhile (!·.isChar '.')
  if after.isEmpty || name.length ≤ after.length + 1 then []
  else .scalar '.' :: after.reverse

/-- A code point in lower case, as far as ASCII goes. -/
def lower : CodePoint → CodePoint
  | .scalar c => .scalar c.toLower
  | p => p

/-- The extensions of JavaScript files. -/
def lintableExtensions : List Text := [".js", ".jsx", ".mjs", ".cjs"]

/-- Whether the last name of a path has the extension of a JavaScript file, in either case. -/
def isLintable (p : FilePath) : Bool :=
  match p.parts.getLast? with
  | none => false
  | some name => lintableExtensions.contains ((extension name).map lower)

/-- Comparison of lists of names, name by name. -/
def partsLe : List Text → List Text → Bool
  | [], _ => true
  | _ :: _, [] => false
  | a :: s, b :: t => if a = b then partsLe s t else Text.le a b

end FilePath

end LodashStyle
