import LodashStyle.Methods.Builtin
import LodashStyle.Usage.Bindings

/-! # Uses of the library

What a call means, given the names that denote the library in one source: a direct library
call, a call of a single imported method, the start of a chain, or a step of a chain on a
wrapped value. -/

namespace LodashStyle

open JavaScript

/-- The names that denote the library in one source, and what is known of its methods. -/
structure Usage where
  pragma : Option Text
  methods : Methods
  bindings : Bindings := {}
  deriving Repr

/-- How a library method is called. -/
inductive CallForm where
  /-- `_.get(object, path)` -/
  | direct
  /-- `_(object).get(path)` -/
  | chained
  /-- `get(object, path)` with an imported `get` -/
  | imported
  deriving DecidableEq, Repr

/-- The name of a form. -/
def CallForm.name : CallForm → String
  | .direct => "method"
  | .chained => "chained"
  | .imported => "single"

namespace Usage

/-- The use of the library that settings describe, before any import. -/
def ofSettings (s : Settings) : Usage := { pragma := s.pragma, methods := s.library.methods }

/-- The names of the whole library: the imported ones and the pragma. -/
def libraryNames (u : Usage) : List Text :=
  match u.pragma with
  | some name => if u.bindings.library.contains name then u.bindings.library else u.bindings.library ++ [name]
  | none => u.bindings.library

/-- Whether a node is an identifier of the library. -/
def isLibrary (u : Usage) (n : Node) : Bool := n.identifierName?.any u.libraryNames.contains

/-- A direct library call: `_.map(…)`. -/
def isLibraryCall (u : Usage) (n : Node) : Bool :=
  n.isMethodCall && n.receiver?.any u.isLibrary && n.methodName?.isSome

/-- The method behind a call of an imported method: `map(…)`. -/
def importedMethod? (u : Usage) (n : Node) : Option Text :=
  if n.isCall then
    (n.callee?.bind (·.identifierName?)).bind fun name => u.bindings.methods.lookup name
  else none

/-- The method that a direct library call or a call of an imported method invokes. -/
def libraryMethod? (u : Usage) (n : Node) : Option Text :=
  if u.isLibraryCall n then n.methodName? else u.importedMethod? n

/-- The start of an explicit chain: `_.chain(…)`. -/
def isExplicitStart (u : Usage) (n : Node) : Bool :=
  (u.libraryMethod? n).any (u.methods.isNameOf "chain")

/-- The start of a chain: `_(…)` or `_.chain(…)`. -/
def isChainStart (u : Usage) (n : Node) : Bool :=
  n.isCall && (n.callee?.any u.isLibrary || u.isExplicitStart n)

/-- A chain seen from its last step: whether it is explicit, and the names of the steps, last
    one first; a private method has no name. -/
structure Chain where
  explicit : Bool
  steps : List (Option Text)
  deriving DecidableEq, Repr

/-- The chain that a node ends, found by going from receiver to receiver at most `fuel` times. -/
def chainFrom (u : Usage) : Nat → Node → Option Chain
  | 0, _ => none
  | fuel + 1, n =>
    if u.isChainStart n then some ⟨u.isExplicitStart n, []⟩
    else if n.isMethodCall then
      match n.receiver?.bind Node.unwrap with
      | some receiver =>
        (u.chainFrom fuel receiver).map fun c => { c with steps := n.methodName? :: c.steps }
      | none => none
    else none

/-- Whether a step keeps a chain wrapped. -/
def keepsWrapped (u : Usage) (explicit : Bool) : Option Text → Bool
  | none => false
  | some name => !u.methods.isBreaker name && (explicit || u.methods.isChainable name)

/-- Whether a node evaluates to a wrapped value that further steps can chain on. -/
def isWrapper (u : Usage) (n : Node) : Bool :=
  match n.unwrap.bind fun inner => u.chainFrom n.size inner with
  | some chain => chain.steps.all (u.keepsWrapped chain.explicit)
  | none => false

/-- The library method that a call invokes, and in which form. -/
def classify? (u : Usage) (n : Node) : Option (Text × CallForm) :=
  let chained :=
    if n.isMethodCall && n.receiver?.any u.isWrapper then n.methodName?.map (·, CallForm.chained)
    else none
  if u.isLibraryCall n then n.methodName?.map (·, .direct)
  else chained <|> (u.importedMethod? n).map (·, .imported)

/-- The path argument of a call of a method, if it takes one and it is there.  A chained call
    gets its object from the chain, so its arguments are one fewer. -/
def pathArgument? (u : Usage) (n : Node) (method : Text) (form : CallForm) : Option Node :=
  match u.methods.pathIndex? method, form with
  | some 0, .chained => none
  | some (index + 1), .chained => n.argument? index
  | some index, _ => n.argument? index
  | none, _ => none

end Usage

end LodashStyle
