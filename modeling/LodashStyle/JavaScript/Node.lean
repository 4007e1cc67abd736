import LodashStyle.Text.Basic

/-! # Syntax trees

A tree of JavaScript source.  Every node knows its kind, the role it plays in its parent,
where it stands and the source text it covers.  Comments are nodes and may stand among the
children of any node.  Punctuation leaves no node, with one exception: the place of a
missing array element is an `elision`, which is not counted as a named child. -/

namespace LodashStyle.JavaScript

/-- What a node is. -/
inductive Kind where
  | program
  | comment
  | elision
  -- names and literals
  | identifier
  | propertyIdentifier
  | privateIdentifier
  | shorthandProperty
  | thisWord
  | superWord
  | importWord
  | undefinedWord
  | nullWord
  | trueWord
  | falseWord
  | string
  | number
  | regex
  | templateString
  | templateSubstitution
  -- expressions
  | array
  | object
  | pair
  | spread
  | parenthesized
  | sequence
  | call
  | arguments
  | construction
  | member
  | subscript
  | metaProperty
  | unary
  | update
  | addition
  | binary
  | assignment
  | augmentedAssignment
  | conditional
  | awaiting
  | yielding
  | arrowFunction
  | function
  | parameters
  | classDefinition
  | classBody
  | method
  | classField
  | staticBlock
  | computedName
  | decorator
  | jsxElement
  | jsxExpression
  -- patterns
  | objectPattern
  | arrayPattern
  | pairPattern
  | shorthandPattern
  | objectAssignmentPattern
  | assignmentPattern
  | restPattern
  -- modules
  | importStatement
  | importClause
  | namespaceImport
  | namedImports
  | importSpecifier
  | exportStatement
  | exportSpecifier
  -- statements
  | declaration
  | declarator
  | block
  | statement
  | switchCase
  deriving DecidableEq, Repr

/-- The role of a node in its parent. -/
inductive Role where
  | callee
  | arguments
  | object
  | property
  | left
  | right
  | name
  | localName
  | source
  | key
  | value
  deriving DecidableEq, Repr

/-- Where a node stands: bytes from the start of the source, and rows and columns from zero,
    columns in bytes. -/
structure Extent where
  start : Nat
  stop : Nat
  startRow : Nat
  startColumn : Nat
  endRow : Nat
  endColumn : Nat
  deriving DecidableEq, Repr

/-- All of a node but its children. -/
structure Label where
  kind : Kind
  role : Option Role
  extent : Extent
  text : Text
  deriving DecidableEq, Repr

/-- A syntax tree. -/
inductive Node where
  | mk (label : Label) (children : List Node)
  deriving Repr

namespace Node

/-- The label of the root. -/
def label : Node → Label
  | mk label _ => label

/-- The children of the root, in source order. -/
def children : Node → List Node
  | mk _ children => children

/-- What the root is. -/
def kind (n : Node) : Kind := n.label.kind

/-- The role of the root. -/
def role (n : Node) : Option Role := n.label.role

/-- Where the tree stands. -/
def extent (n : Node) : Extent := n.label.extent

/-- The source text of the tree. -/
def text (n : Node) : Text := n.label.text

/-- The tree in another role. -/
def withRole (role : Role) : Node → Node
  | mk label children => mk { label with role := some role } children

/-- The tree as another kind. -/
def withKind (kind : Kind) : Node → Node
  | mk label children => mk { label with kind := kind } children

@[simp] theorem label_mk (l : Label) (cs : List Node) : (mk l cs).label = l := rfl

@[simp] theorem children_mk (l : Label) (cs : List Node) : (mk l cs).children = cs := rfl

mutual

/-- The number of nodes of a tree. -/
def size : Node → Nat
  | mk _ children => sizeAll children + 1

/-- The number of nodes of some trees. -/
def sizeAll : List Node → Nat
  | [] => 0
  | n :: rest => n.size + sizeAll rest

end

end Node

end LodashStyle.JavaScript
