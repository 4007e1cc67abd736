import LodashStyle.JavaScript.Access

/-! # Places in a tree

A `Site` is a node together with the way up to the root: the parent, the index of the node
among the parent's children, and so on.  Two nodes of one tree are the same exactly when
their ways are.  `Site.visits` lists all sites of a tree with a stack of pending ones, in
the order in which they start. -/

namespace LodashStyle.JavaScript

/-- One step up: the parent and the index in it. -/
structure Crumb where
  parent : Node
  index : Nat

/-- A node in a tree. -/
structure Site where
  node : Node
  above : List Crumb

namespace Site

/-- The root of a tree. -/
def root (n : Node) : Site := ⟨n, []⟩

/-- The indices on the way from the node up to the root. -/
def path (s : Site) : List Nat := s.above.map (·.index)

/-- The children of a site, in order. -/
def children (s : Site) : List Site :=
  s.node.children.mapIdx fun i n => ⟨n, ⟨s.node, i⟩ :: s.above⟩

/-- The sites of the trees on a stack: the first one, then those of its children, then the
    others; at most `fuel` sites. -/
def visitFrom : Nat → List Site → List Site
  | 0, _ => []
  | _ + 1, [] => []
  | fuel + 1, s :: stack => s :: visitFrom fuel (s.children ++ stack)

/-- All sites of a tree. -/
def visits (n : Node) : List Site := visitFrom n.size [root n]

/-- All calls of a tree. -/
def calls (n : Node) : List Site := (visits n).filter (·.node.isCall)

/-- The outermost parentheses around a node, or the node itself. -/
def enclosing (n : Node) : List Crumb → Site
  | [] => ⟨n, []⟩
  | c :: rest => if c.parent.kind = .parenthesized then enclosing c.parent rest else ⟨n, c :: rest⟩

/-- Whether the node is the child in a role of a parent of a kind. -/
def isChildOf (s : Site) (kind : Kind) (role : Role) : Bool :=
  match s.above with
  | [] => false
  | c :: _ => c.parent.kind == kind && c.parent.childIndex? role == some c.index

/-- The parent. -/
def parent? (s : Site) : Option Site :=
  match s.above with
  | [] => none
  | c :: rest => some ⟨c.parent, rest⟩

/-- Whether the node is the object of a member access. -/
def isObjectOfMember (s : Site) : Bool := s.isChildOf .member .object

/-- The call of a method directly on the node, parentheses around the node aside. -/
def methodCallOn? (s : Site) : Option Site :=
  let outer := enclosing s.node s.above
  if outer.isObjectOfMember then
    match outer.parent? with
    | some access => if access.isChildOf .call .callee then access.parent? else none
    | none => none
  else none

end Site

end LodashStyle.JavaScript
