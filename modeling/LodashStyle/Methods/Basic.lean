import LodashStyle.Text.Basic

/-! # Library methods

What the rules need to know about the methods of one release: other names of a method,
the methods that keep an implicit chain wrapped, the names that end a chain, and the
methods that take a property path.

`MethodTables` holds such knowledge for several releases, table by table.  A question that
needs a table without an entry for the release fails. -/

namespace LodashStyle

/-- The methods of one release. -/
structure Methods where
  /-- Other names, each with the method that it stands for. -/
  aliases : List (Text × Text)
  /-- The methods that keep an implicit chain wrapped. -/
  chainable : List Text
  /-- The names, aliases included, that take the value out of a chain. -/
  breakers : List Text
  deriving DecidableEq, Repr

namespace Methods

/-- The method that a name stands for. -/
def canonicalName (m : Methods) (name : Text) : Text := (m.aliases.lookup name).getD name

/-- Whether a name is registered as another name of a method. -/
def isAlias (m : Methods) (name method : Text) : Bool := m.aliases.lookup name == some method

/-- Whether a name is a method or another name of it. -/
def isNameOf (m : Methods) (method name : Text) : Bool := name == method || m.isAlias name method

/-- Whether a method keeps an implicit chain wrapped. -/
def isChainable (m : Methods) (name : Text) : Bool := m.chainable.contains (m.canonicalName name)

/-- Whether a name takes the value out of a chain. -/
def isBreaker (m : Methods) (name : Text) : Bool := m.breakers.contains name

/-- The methods that take a property path, with the index of the path among the arguments of
    a direct call. -/
def pathMethods : List (Text × Nat) :=
  [("get", 1), ("has", 1), ("hasIn", 1), ("set", 1), ("unset", 1), ("invoke", 1), ("result", 1),
   ("setWith", 1), ("update", 1), ("updateWith", 1), ("property", 0), ("matchesProperty", 0)]

/-- The index of the path argument in a direct call of a method. -/
def pathIndex? (m : Methods) (name : Text) : Option Nat :=
  (pathMethods.find? fun (method, _) => m.isNameOf method name).map (·.2)

end Methods

/-- Tables of method data, each keyed by major version. -/
structure MethodTables where
  aliases : List (Int × List (Text × Text))
  chainable : List (Int × List Text)
  breakers : List (Int × List Text)
  deriving Repr

/-- The tables have no entry for a version. -/
structure NoMethodData where
  version : Int
  deriving DecidableEq, Repr

/-- The wording of the error. -/
def NoMethodData.message (e : NoMethodData) : Text :=
  "No method data for lodash version " ++ Text.ofInt e.version

namespace MethodTables

/-- The methods of a version, as far as the tables cover it. -/
def methods (t : MethodTables) (version : Int) : Methods :=
  ⟨(t.aliases.lookup version).getD [], (t.chainable.lookup version).getD [],
    (t.breakers.lookup version).getD []⟩

/-- The answer to a question about the methods of a version, provided that the tables that it
    needs cover the version. -/
def ask {α : Type} (t : MethodTables) (version : Int) (covered : Bool) (question : Methods → α) :
    Except NoMethodData α :=
  if covered then .ok (question (t.methods version)) else .error ⟨version⟩

/-- Whether the table of other names covers a version. -/
def hasAliases (t : MethodTables) (version : Int) : Bool := (t.aliases.lookup version).isSome

/-- Whether the table of chainable methods covers a version. -/
def hasChainable (t : MethodTables) (version : Int) : Bool := (t.chainable.lookup version).isSome

/-- Whether the table of chain breakers covers a version. -/
def hasBreakers (t : MethodTables) (version : Int) : Bool := (t.breakers.lookup version).isSome

/-- The versions with other names, in increasing order. -/
def versions (t : MethodTables) : List Int := (t.aliases.map (·.1)).mergeSort

/-- The method that a name stands for. -/
def canonicalName (t : MethodTables) (version : Int) (name : Text) : Except NoMethodData Text :=
  t.ask version (t.hasAliases version) (·.canonicalName name)

/-- Whether a name is registered as another name of a method. -/
def isAlias (t : MethodTables) (version : Int) (name method : Text) : Except NoMethodData Bool :=
  t.ask version (t.hasAliases version) (·.isAlias name method)

/-- Whether a name, if there is one, is a method or another name of it.  A name that equals the
    method needs no table. -/
def isNameOf (t : MethodTables) (version : Int) (method : Text) :
    Option Text → Except NoMethodData Bool
  | none => .ok false
  | some name =>
    t.ask version (name == method || t.hasAliases version) (·.isNameOf method name)

/-- Whether a method keeps an implicit chain wrapped. -/
def isChainable (t : MethodTables) (version : Int) (name : Text) : Except NoMethodData Bool :=
  t.ask version (t.hasAliases version && t.hasChainable version) (·.isChainable name)

/-- The names that take the value out of a chain. -/
def chainBreakers (t : MethodTables) (version : Int) : Except NoMethodData (List Text) :=
  t.ask version (t.hasBreakers version) (·.breakers)

/-- Whether a name, if there is one, takes the value out of a chain. -/
def isChainBreaker (t : MethodTables) (version : Int) : Option Text → Except NoMethodData Bool
  | none => .ok false
  | some name => t.ask version (t.hasBreakers version) (·.isBreaker name)

/-- The index of the path argument of a method.  The first method of the list of those with a
    path needs no table. -/
def pathIndex? (t : MethodTables) (version : Int) (name : Text) : Except NoMethodData (Option Nat) :=
  t.ask version (Methods.pathMethods.head?.any (·.1 == name) || t.hasAliases version)
    (·.pathIndex? name)

end MethodTables

end LodashStyle
