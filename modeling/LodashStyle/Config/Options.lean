import LodashStyle.Text.Basic

/-! # Options

What the user chooses: which release of the library the code is written for, the name it is
known by, the policies of the two rules and which of the rules run.  The types admit only
usable choices: a supported release, a nesting depth of at least two and at least one
rule. -/

namespace LodashStyle

/-- The releases whose methods are known. -/
inductive Library where
  | v3
  | v4
  deriving DecidableEq, Repr

/-- The major version of a release. -/
def Library.major : Library → Nat
  | .v3 => 3
  | .v4 => 4

/-- The release with a major version. -/
def Library.ofMajor? (n : Int) : Option Library :=
  if n = 3 then some .v3 else if n = 4 then some .v4 else none

theorem Library.ofMajor?_major (l : Library) : Library.ofMajor? l.major = some l := by
  cases l <;> rfl

/-- The two rules. -/
inductive Rule where
  | chaining
  | pathStyle
  deriving DecidableEq, Repr

/-- The name of a rule. -/
def Rule.name : Rule → String
  | .chaining => "chaining"
  | .pathStyle => "path-style"

/-- The policies on chains. -/
inductive ChainMode where
  | always
  | never
  | implicit
  deriving DecidableEq, Repr

/-- The name of a policy. -/
def ChainMode.name : ChainMode → String
  | .always => "always"
  | .never => "never"
  | .implicit => "implicit"

/-- The notations of property paths. -/
inductive PathStyle where
  | asNeeded
  | array
  | string
  deriving DecidableEq, Repr

/-- The name of a notation. -/
def PathStyle.name : PathStyle → String
  | .asNeeded => "as-needed"
  | .array => "array"
  | .string => "string"

/-- The library as the checked code knows it: the identifier that stands for it without an
    import, if any, and its release. -/
structure Settings where
  pragma : Option Text := some "_"
  library : Library := .v4
  deriving DecidableEq, Repr

/-- The policy on chains, and the number of nested calls from which on a composition should be
    a chain. -/
structure ChainingOptions where
  mode : ChainMode := .never
  depth : Nat := 3
  two_le_depth : 2 ≤ depth := by decide
  deriving DecidableEq, Repr

/-- What holds when nothing is said on chains. -/
def ChainingOptions.standard : ChainingOptions := {}

/-- A non-empty set of rules. -/
structure RuleSet where
  chaining : Bool
  pathStyle : Bool
  nonempty : (chaining || pathStyle) = true := by decide
  deriving DecidableEq, Repr

namespace RuleSet

/-- Both rules. -/
def all : RuleSet := { chaining := true, pathStyle := true }

/-- Whether a rule is in the set. -/
def contains (s : RuleSet) : Rule → Bool
  | .chaining => s.chaining
  | .pathStyle => s.pathStyle

/-- The set of the rules in a list, if there are any. -/
def ofList? (rules : List Rule) : Option RuleSet :=
  let chaining := decide (Rule.chaining ∈ rules)
  let pathStyle := decide (Rule.pathStyle ∈ rules)
  if h : (chaining || pathStyle) = true then some ⟨chaining, pathStyle, h⟩ else none

/-- The rules of the set, in the order of their names. -/
def toList (s : RuleSet) : List Rule := [Rule.chaining, .pathStyle].filter s.contains

theorem mem_toList (s : RuleSet) (r : Rule) : r ∈ s.toList ↔ s.contains r = true := by
  cases r <;> simp [toList]

end RuleSet

/-- All options. -/
structure Config where
  settings : Settings := {}
  chaining : ChainingOptions := .standard
  pathStyle : PathStyle := .asNeeded
  rules : RuleSet := .all
  deriving DecidableEq, Repr

end LodashStyle
