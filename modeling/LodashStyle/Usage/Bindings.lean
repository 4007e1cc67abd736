import LodashStyle.JavaScript.Access
import LodashStyle.JavaScript.Site
import LodashStyle.JavaScript.StringLiteral
import LodashStyle.Text.Quoted
import LodashStyle.Text.Class

/-! # Names bound to the library

Imports and `require` declarations bind local names to the whole library or to one of its
methods.  The modules `lodash` and `lodash-es` are the library; `lodash/map` and the like
are single methods, of which only default imports are understood.

`Bindings.collect` registers all bindings below a node in source order.  A module or method
name whose escapes denote no text stops it; what was registered before stays. -/

namespace LodashStyle

open JavaScript

/-- What one local name is bound to. -/
inductive Binding where
  | library (name : Text)
  | method (name : Text) (method : Text)
  deriving DecidableEq, Repr

/-- The names that are bound so far, in the order in which they were first bound. -/
structure Bindings where
  library : List Text := []
  methods : List (Text × Text) := []
  deriving DecidableEq, Repr

namespace Bindings

/-- Binds a name to a method, in place if it was bound to one already. -/
def putMethod (name method : Text) : List (Text × Text) → List (Text × Text)
  | [] => [(name, method)]
  | (n, m) :: rest => if n = name then (n, method) :: rest else (n, m) :: putMethod name method rest

/-- Registers one binding. -/
def add (b : Bindings) : Binding → Bindings
  | .library name => if b.library.contains name then b else { b with library := b.library ++ [name] }
  | .method name method => { b with methods := putMethod name method b.methods }

/-- Registers bindings up to the first one that is at fault. -/
def addAll (b : Bindings) : List (Except EscapeFault Binding) → Bindings × Option EscapeFault
  | [] => (b, none)
  | .error fault :: _ => (b, some fault)
  | .ok binding :: rest => addAll (b.add binding) rest

/-- The method of a single-method module, if the rest of its name after the library's is one;
    one line feed after it is dropped. -/
def methodName? (rest : Text) : Option Text :=
  let name := if rest.getLast?.any (·.isChar '\n') then rest.dropLast else rest
  if Text.isIdentifier name && name != ("fp" : Text) then some name else none

/-- What a module is: the library, one of its methods, or neither. -/
inductive Module where
  | library
  | method (name : Text)
  | other
  deriving DecidableEq, Repr

/-- The rest of a text after a beginning. -/
def after? (beginning t : Text) : Option Text :=
  if beginning.isPrefixOf t then some (t.drop beginning.length) else none

/-- What the module of a name is. -/
def moduleOf (name : Text) : Module :=
  if name = ("lodash" : Text) || name = ("lodash-es" : Text) then .library
  else
    match (after? "lodash/" name <|> after? "lodash-es/" name).bind methodName? with
    | some method => .method method
    | none => .other

/-- The binding of a local name to a whole module. -/
def whole (module : Module) (name : Text) : List (Except EscapeFault Binding) :=
  match module with
  | .library => [.ok (.library name)]
  | .method method => [.ok (.method name method)]
  | .other => []

/-- The binding of an import specifier; the export `default` is the library itself. -/
def ofSpecifier (n : Node) : List (Except EscapeFault Binding) :=
  match n.kind, n.child? .name with
  | .importSpecifier, some imported =>
    let name := ((n.child? .localName).getD imported).text
    let exported := if imported.kind == .string then stringValue imported.text else .ok imported.text
    [exported.map fun e => if e = ("default" : Text) then .library name else .method name e]
  | _, _ => []

/-- The bindings of one child of an import clause. -/
def ofClausePart (module : Module) (n : Node) : List (Except EscapeFault Binding) :=
  match n.kind, module with
  | .identifier, _ => whole module n.text
  | .namespaceImport, .library =>
    (n.children.filter (·.kind == .identifier)).map fun name => .ok (.library name.text)
  | .namedImports, .library => n.children.flatMap ofSpecifier
  | _, _ => []

/-- The binding of one property of a destructuring pattern. -/
def ofProperty (n : Node) : List (Except EscapeFault Binding) :=
  match n.kind with
  | .shorthandPattern => [.ok (.method n.text n.text)]
  | .pairPattern =>
    match n.child? .key, n.child? .value with
    | some key, some value => if value.kind == .identifier then [.ok (.method value.text key.text)] else []
    | _, _ => []
  | _ => []

/-- The bindings of the target of a `require` declaration. -/
def ofTarget (module : Module) (target : Node) : List (Except EscapeFault Binding) :=
  match target.kind, module with
  | .identifier, _ => whole module target.text
  | .objectPattern, .library => target.children.flatMap ofProperty
  | _, _ => []

/-- The bindings that `bind` yields for the module named by a string literal. -/
def fromModule (source : Node) (bind : Module → List (Except EscapeFault Binding)) :
    List (Except EscapeFault Binding) :=
  match stringValue source.text with
  | .error fault => [.error fault]
  | .ok name => bind (moduleOf name)

/-- The bindings of an import statement. -/
def ofImport (n : Node) : List (Except EscapeFault Binding) :=
  match n.children.find? (·.kind == .importClause), n.child? .source with
  | some clause, some source =>
    if source.kind == .string then
      fromModule source fun module => clause.children.flatMap (ofClausePart module)
    else []
  | _, _ => []

/-- The string that a declared value `require('…')` names: the very first child of the argument
    list. -/
def requiredModule? (value : Node) : Option Node :=
  match value.kind, value.callee?, value.child? .arguments with
  | .call, some callee, some args =>
    if callee.kind == .identifier && callee.text == ("require" : Text) && args.kind == .arguments then
      (args.children.find? (·.kind.isNamed)).filter (·.kind == .string)
    else none
  | _, _, _ => none

/-- The bindings of a declarator. -/
def ofDeclarator (n : Node) : List (Except EscapeFault Binding) :=
  match n.child? .name, (n.child? .value).bind requiredModule? with
  | some target, some source => fromModule source fun module => ofTarget module target
  | _, _ => []

/-- The bindings of one node of a tree. -/
def ofNode (n : Node) : List (Except EscapeFault Binding) :=
  match n.kind with
  | .importStatement => ofImport n
  | .declarator => ofDeclarator n
  | _ => []

/-- Registers all bindings below a node. -/
def collect (b : Bindings) (root : Node) : Bindings × Option EscapeFault :=
  b.addAll ((Site.visits root).flatMap fun s => ofNode s.node)

/-- Whether nothing is bound. -/
def isEmpty (b : Bindings) : Bool := b.library.isEmpty && b.methods.isEmpty

/-- The bindings as a log entry shows them. -/
def summary (b : Bindings) : Text :=
  let names := (b.library.mergeSort Text.le).map Text.quoted
  let methods := b.methods.map fun (name, method) => name.quoted ++ (": " : Text) ++ method.quoted
  ("lodash imports: library=[" : Text) ++ Text.join ", " names ++ ("] methods=\x7b" : Text) ++
    Text.join ", " methods ++ ("\x7d" : Text)

end Bindings

end LodashStyle
