import LodashStyle.JavaScript.Node

/-! # Parts of expressions

The parts of a node by their meaning: the callee and the arguments of a call, the receiver
and the name of a method call, the operand inside parentheses.  Comments are passed over
everywhere. -/

namespace LodashStyle.JavaScript

/-- Whether nodes of the kind are counted as children. -/
def Kind.isNamed : Kind → Bool
  | .elision => false
  | _ => true

/-- The literals that stand for a value of their own: strings, numbers, regular expressions
    and the constants. -/
def Kind.isLiteral : Kind → Bool
  | .string | .number | .trueWord | .falseWord | .nullWord | .regex => true
  | _ => false

namespace Node

/-- Whether a child counts: it is named and no comment. -/
def isPart (n : Node) : Bool := n.kind.isNamed && n.kind != .comment

/-- The children that count. -/
def parts (n : Node) : List Node := n.children.filter isPart

/-- The first child in a role. -/
def child? (n : Node) (role : Role) : Option Node := n.children.find? (·.role == some role)

/-- The index of the first child in a role. -/
def childIndex? (n : Node) (role : Role) : Option Nat := n.children.findIdx? (·.role == some role)

mutual

/-- The expression inside any number of parentheses. -/
def unwrap : Node → Option Node
  | .mk label children => if label.kind = .parenthesized then unwrapFirst children else some (.mk label children)

/-- The expression inside the first child that counts. -/
def unwrapFirst : List Node → Option Node
  | [] => none
  | n :: rest => if n.isPart then n.unwrap else unwrapFirst rest

end

/-- A call, a tagged template included. -/
def isCall (n : Node) : Bool := n.kind == .call

/-- The function that a call calls. -/
def callee? (n : Node) : Option Node := n.child? .callee

/-- The arguments of a call; a tagged template has none. -/
def arguments (n : Node) : List Node :=
  match n.child? .arguments with
  | some list => if list.kind == .arguments then list.parts else []
  | none => []

/-- One argument of a call, without parentheses around it. -/
def argument? (n : Node) (index : Nat) : Option Node := n.arguments[index]?.bind unwrap

/-- The callee of a call if it is a member access. -/
def memberCallee? (n : Node) : Option Node := n.callee?.filter (·.kind == .member)

/-- A call whose callee is a member access. -/
def isMethodCall (n : Node) : Bool := n.isCall && n.memberCallee?.isSome

/-- What a method is called on: `a.b` in `a.b.c()`. -/
def receiver? (n : Node) : Option Node := n.memberCallee?.bind (·.child? .object)

/-- The name of a called method, unless it is private. -/
def methodName? (n : Node) : Option Text :=
  match n.memberCallee?.bind (·.child? .property) with
  | some property => if property.kind == .propertyIdentifier then some property.text else none
  | none => none

/-- The name of an identifier. -/
def identifierName? (n : Node) : Option Text := if n.kind == .identifier then some n.text else none

/-- Whether the node is a literal. -/
def isLiteral (n : Node) : Bool := n.kind.isLiteral

/-- The substitutions of a template string. -/
def substitutions (n : Node) : List Node := n.children.filter (·.kind == .templateSubstitution)

/-- The texts of a template around substitutions, from the byte `cursor` of the template text on;
    `base` is the place of the template. -/
def quasisFrom (text : Text) (base cursor : Nat) : List Node → List Text
  | [] => [Text.sliceBytes cursor (text.utf8Size - 1) text]
  | s :: rest =>
    Text.sliceBytes cursor (s.extent.start - base) text ::
      quasisFrom text base (s.extent.stop - base) rest

/-- The texts of a template string around its substitutions, one more than these. -/
def quasis (n : Node) : List Text := quasisFrom n.text n.extent.start 1 n.substitutions

mutual

/-- The operands of a chain of additions, from left to right. -/
def operands : Node → List Node
  | .mk label children =>
    if label.kind = .addition then
      sideOperands .left children ++ sideOperands .right children
    else [.mk label children]

/-- The operands of the first node in a role. -/
def sideOperands (role : Role) : List Node → List Node
  | [] => []
  | n :: rest => if n.role = some role then n.operands else sideOperands role rest

end

end Node

end LodashStyle.JavaScript
