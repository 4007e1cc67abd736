import LodashStyle.Proofs.NestedFixes
import Mathlib.Algebra.Order.BigOperators.Group.List
import Mathlib.Algebra.Order.Group.Nat
import Mathlib.Data.List.Forall2

/-!
# Trees that mirror one another

What a call means, which of its arguments is a path and whether this path can be replaced rest on few
things: on the kinds and roles of nodes, on the spelling of names and literals, and for a call on what is
called.  Trees that agree in these are judged alike, wherever they stand and whatever the arguments of
the calls in them are.

## Key results

- `Mirrors.classify?`, `Mirrors.pathIndex?`: mirrored calls mean the same
- `chainFrom_of_le`: a chain is found whenever there is fuel for the whole tree
- `PathStyle.mirrors_judge`: mirrored paths can be replaced alike
-/

namespace LodashStyle

open JavaScript

namespace JavaScript

/-- The nodes that are told from others by their spelling: names and literals. -/
def Kind.isSpelled : Kind → Bool
  | .identifier | .propertyIdentifier => true
  | kind => kind.isLiteral

/-- A relation between trees with the same kinds and roles and the same spelling of names and literals,
    whose children are related in turn.  Of a call only the callee has to be. -/
structure Mirrors (R : Node → Node → Prop) : Prop where
  kind : ∀ {n m : Node}, R n m → m.kind = n.kind
  role : ∀ {n m : Node}, R n m → m.role = n.role
  text : ∀ {n m : Node}, R n m → n.kind.isSpelled = true → m.text = n.text
  children : ∀ {n m : Node}, R n m → n.kind ≠ .call → List.Forall₂ R n.children m.children
  callee : ∀ {n m : Node}, R n m → Option.Rel R n.callee? m.callee?

/-- Of two related options both are missing or both are there. -/
theorem rel_cases {α β : Type} {R : α → β → Prop} {a : Option α} {b : Option β}
    (h : Option.Rel R a b) : a = none ∧ b = none ∨ ∃ x y, a = some x ∧ b = some y ∧ R x y := by
  cases h with
  | none => exact .inl ⟨rfl, rfl⟩
  | some hxy => exact .inr ⟨_, _, rfl, rfl, hxy⟩

/-- The first nodes in a role correspond. -/
theorem rel_find_role {R : Node → Node → Prop} {ns ms : List Node}
    (hrole : ∀ {n m : Node}, R n m → m.role = n.role) (h : List.Forall₂ R ns ms) (role : Role) :
    Option.Rel R (ns.find? (·.role == some role)) (ms.find? (·.role == some role)) := by
  induction h with
  | nil => exact .none
  | cons hab _ ih =>
    rw [List.find?_cons, List.find?_cons, hrole hab]
    split
    · exact .some hab
    · exact ih

namespace Node

/-- A child is smaller than its parent. -/
theorem size_lt_of_child {n c : Node} (h : c ∈ n.children) : c.size < n.size := by
  have hle : c.size ≤ (n.children.map size).sum := List.le_sum_of_mem (List.mem_map_of_mem h)
  rw [size_eq n]
  omega

/-- No node of a tree is larger than the tree. -/
theorem size_le_of_mem_nodes {n m : Node} (h : m ∈ n.nodes) : m.size ≤ n.size := by
  induction n using Node.induction with
  | mk label children ih =>
    rw [nodes_eq] at h
    obtain rfl | h := List.mem_cons.1 h
    · exact Nat.le_refl _
    · obtain ⟨c, hc, h⟩ := List.mem_flatMap.1 h
      have hchild : c.size < (mk label children).size := size_lt_of_child hc
      have hbelow := ih c hc h
      omega

/-- What stands inside parentheses is no parenthesis. -/
theorem kind_of_unwrap {n p : Node} (h : n.unwrap = some p) : p.kind ≠ .parenthesized := by
  induction n using Node.induction with
  | mk label children ih =>
    rw [unwrap] at h
    split at h
    · obtain ⟨c, hc, h⟩ := exists_mem_of_unwrapFirst h
      exact ih c hc h
    · rename_i hkind
      obtain rfl := Option.some.inj h
      exact hkind

/-- What is no parenthesis holds itself. -/
theorem unwrap_of_kind {n : Node} (h : n.kind ≠ .parenthesized) : n.unwrap = some n := by
  obtain ⟨label, children⟩ := n
  have hkind : ¬label.kind = .parenthesized := h
  rw [unwrap, if_neg hkind]

end Node

namespace Mirrors

variable {R : Node → Node → Prop} {n m : Node} {ns ms : List Node}

/-! ## Parts -/

/-- Parts correspond to parts. -/
theorem isPart (hR : Mirrors R) (h : R n m) : m.isPart = n.isPart := by
  rw [Node.isPart, Node.isPart, hR.kind h]

/-- Literals correspond to literals. -/
theorem isLiteral (hR : Mirrors R) (h : R n m) : m.isLiteral = n.isLiteral := by
  rw [Node.isLiteral, Node.isLiteral, hR.kind h]

/-- The parts among related children are related. -/
theorem filter_isPart (hR : Mirrors R) (h : List.Forall₂ R ns ms) :
    List.Forall₂ R (ns.filter Node.isPart) (ms.filter Node.isPart) := by
  induction h with
  | nil => exact .nil
  | cons hab _ ih =>
    rw [List.filter_cons, List.filter_cons, hR.isPart hab]
    split
    · exact .cons hab ih
    · exact ih

/-- The children in a role correspond, unless the node is a call. -/
theorem child? (hR : Mirrors R) (h : R n m) (hkind : n.kind ≠ .call) (role : Role) :
    Option.Rel R (n.child? role) (m.child? role) := rel_find_role hR.role (hR.children h hkind) role

/-- What is inside the parentheses corresponds. -/
theorem unwrap (hR : Mirrors R) (h : R n m) : Option.Rel R n.unwrap m.unwrap := by
  induction n using Node.induction generalizing m with
  | mk label children ih =>
    obtain ⟨label', children'⟩ := m
    have hkind : label'.kind = label.kind := hR.kind h
    rw [Node.unwrap, Node.unwrap, hkind]
    split
    · rename_i hparenthesized
      have hchildren := hR.children h (by rw [Node.kind, Node.label_mk, hparenthesized]; decide)
      rw [Node.children_mk, Node.children_mk] at hchildren
      clear h hkind hparenthesized
      -- The first child that counts is the same on both sides.
      induction hchildren with
      | nil => exact .none
      | cons hab _ ihrest =>
        rw [Node.unwrapFirst, Node.unwrapFirst, hR.isPart hab]
        split
        · exact ih _ List.mem_cons_self hab
        · exact ihrest fun c hc => ih c (List.mem_cons_of_mem _ hc)
    · exact .some h

/-- Arguments of calls whose children are related throughout. -/
theorem argument? (hR : Mirrors R) (h : List.Forall₂ R n.children m.children) (index : Nat) :
    Option.Rel R (n.argument? index) (m.argument? index) := by
  have harguments : List.Forall₂ R n.arguments m.arguments := by
    unfold Node.arguments
    obtain ⟨hn, hm⟩ | ⟨a, b, hn, hm, hab⟩ := rel_cases (rel_find_role hR.role h .arguments)
    · rw [Node.child?, Node.child?, hn, hm]
      exact .nil
    · rw [Node.child?, Node.child?, hn, hm]
      dsimp only
      rw [hR.kind hab]
      split
      · rename_i hkind
        exact hR.filter_isPart (hR.children hab (by rw [eq_of_beq hkind]; decide))
      · exact .nil
  unfold Node.argument?
  generalize n.arguments = as, m.arguments = bs at harguments
  induction harguments generalizing index with
  | nil => exact .none
  | cons hab _ ih =>
    cases index with
    | zero => exact hR.unwrap hab
    | succ index => exact ih index

/-! ## Calls -/

/-- Calls correspond to calls. -/
theorem isCall (hR : Mirrors R) (h : R n m) : m.isCall = n.isCall := by
  rw [Node.isCall, Node.isCall, hR.kind h]

/-- The members that are called correspond. -/
theorem memberCallee? (hR : Mirrors R) (h : R n m) : Option.Rel R n.memberCallee? m.memberCallee? := by
  unfold Node.memberCallee?
  obtain ⟨hn, hm⟩ | ⟨a, b, hn, hm, hab⟩ := rel_cases (hR.callee h)
  · rw [hn, hm]
    exact .none
  · rw [hn, hm, Option.filter_some, Option.filter_some, hR.kind hab]
    split
    · exact .some hab
    · exact .none

/-- Calls of methods correspond to calls of methods. -/
theorem isMethodCall (hR : Mirrors R) (h : R n m) : m.isMethodCall = n.isMethodCall := by
  rw [Node.isMethodCall, Node.isMethodCall, hR.isCall h]
  obtain ⟨hn, hm⟩ | ⟨a, b, hn, hm, -⟩ := rel_cases (hR.memberCallee? h)
  · rw [hn, hm]
  · rw [hn, hm]
    rfl

/-- A part of the callee of a method call. -/
theorem memberPart (hR : Mirrors R) (h : R n m) (role : Role) :
    Option.Rel R (n.memberCallee?.bind (·.child? role)) (m.memberCallee?.bind (·.child? role)) := by
  obtain ⟨hn, hm⟩ | ⟨a, b, hn, hm, hab⟩ := rel_cases (hR.memberCallee? h)
  · rw [hn, hm]
    exact .none
  · rw [hn, hm]
    have hmember : a.kind = .member := by
      have hfilter := (Option.filter_eq_some_iff.1 hn).2
      exact eq_of_beq hfilter
    exact hR.child? hab (by rw [hmember]; decide) role

/-- The receivers of methods correspond. -/
theorem receiver? (hR : Mirrors R) (h : R n m) : Option.Rel R n.receiver? m.receiver? :=
  hR.memberPart h .object

/-- Methods have the same name on both sides, since properties are spelled the same. -/
theorem methodName? (hR : Mirrors R) (h : R n m) : m.methodName? = n.methodName? := by
  unfold Node.methodName?
  obtain ⟨hn, hm⟩ | ⟨a, b, hn, hm, hab⟩ := rel_cases (hR.memberPart h .property)
  · rw [hn, hm]
  · rw [hn, hm]
    dsimp only
    rw [hR.kind hab]
    split
    · rename_i hkind
      rw [hR.text hab (by rw [eq_of_beq hkind]; rfl)]
    · rfl

/-- Names are spelled the same. -/
theorem identifierName? (hR : Mirrors R) (h : R n m) : m.identifierName? = n.identifierName? := by
  unfold Node.identifierName?
  rw [hR.kind h]
  split
  · rename_i hkind
    rw [hR.text h (by rw [eq_of_beq hkind]; rfl)]
  · rfl

end Mirrors

end JavaScript

namespace JavaScript.Mirrors

variable {R : Node → Node → Prop} {n m : Node} {u : Usage}

/-! ## Uses of the library -/

/-- A name of the library corresponds to a name of the library. -/
theorem isLibrary (hR : Mirrors R) (h : R n m) : u.isLibrary m = u.isLibrary n := by
  rw [Usage.isLibrary, Usage.isLibrary, hR.identifierName? h]

/-- A test that related nodes pass alike is passed alike where a node may be missing. -/
theorem any_congr {test : Node → Bool} {a b : Option Node} (htest : ∀ x y, R x y → test y = test x)
    (h : Option.Rel R a b) : b.any test = a.any test := by
  obtain ⟨rfl, rfl⟩ | ⟨x, y, rfl, rfl, hxy⟩ := rel_cases h
  · rfl
  · exact htest x y hxy

/-- Calls of the library correspond. -/
theorem isLibraryCall (hR : Mirrors R) (h : R n m) : u.isLibraryCall m = u.isLibraryCall n := by
  have hreceiver : m.receiver?.any u.isLibrary = n.receiver?.any u.isLibrary :=
    any_congr (fun _ _ hxy => hR.isLibrary hxy) (hR.receiver? h)
  rw [Usage.isLibraryCall, Usage.isLibraryCall, hR.isMethodCall h, hR.methodName? h, hreceiver]

/-- An imported method is the same on both sides. -/
theorem importedMethod? (hR : Mirrors R) (h : R n m) : u.importedMethod? m = u.importedMethod? n := by
  rw [Usage.importedMethod?, Usage.importedMethod?, hR.isCall h]
  obtain ⟨hn, hm⟩ | ⟨a, b, hn, hm, hab⟩ := rel_cases (hR.callee h)
  · rw [hn, hm]
  · rw [hn, hm, Option.bind_some, Option.bind_some, hR.identifierName? hab]

/-- The method of the library that is called is the same. -/
theorem libraryMethod? (hR : Mirrors R) (h : R n m) : u.libraryMethod? m = u.libraryMethod? n := by
  rw [Usage.libraryMethod?, Usage.libraryMethod?, hR.isLibraryCall h, hR.methodName? h,
    hR.importedMethod? h]

/-- Explicit chains start at corresponding calls. -/
theorem isExplicitStart (hR : Mirrors R) (h : R n m) : u.isExplicitStart m = u.isExplicitStart n := by
  rw [Usage.isExplicitStart, Usage.isExplicitStart, hR.libraryMethod? h]

/-- Chains start at corresponding calls. -/
theorem isChainStart (hR : Mirrors R) (h : R n m) : u.isChainStart m = u.isChainStart n := by
  have hcallee : m.callee?.any u.isLibrary = n.callee?.any u.isLibrary :=
    any_congr (fun _ _ hxy => hR.isLibrary hxy) (hR.callee h)
  rw [Usage.isChainStart, Usage.isChainStart, hR.isCall h, hR.isExplicitStart h, hcallee]

/-! ### Chains -/

/-- What a method is called on, without parentheses, is smaller than the call. -/
theorem size_lt_of_receiver {receiver : Node} (h : n.receiver?.bind Node.unwrap = some receiver) :
    receiver.size < n.size := by
  obtain ⟨object, hobject, hunwrap⟩ := Option.bind_eq_some_iff.1 h
  obtain ⟨callee, hcallee, hchild⟩ := Option.bind_eq_some_iff.1 hobject
  have hmember : callee ∈ n.children := List.mem_of_find?_eq_some (Option.filter_eq_some_iff.1 hcallee).1
  have hinner : object ∈ callee.children := List.mem_of_find?_eq_some hchild
  have hreceiver := Node.size_le_of_mem_nodes (Node.mem_nodes_of_unwrap hunwrap)
  have hobject := Node.size_lt_of_child hinner
  have hcallee := Node.size_lt_of_child hmember
  omega

/-- A chain is found whenever there is fuel for the whole tree, and more fuel finds the same. -/
theorem chainFrom_of_le {fuel fuel' : Nat} (h : n.size ≤ fuel) (h' : n.size ≤ fuel') :
    u.chainFrom fuel n = u.chainFrom fuel' n := by
  induction fuel generalizing n fuel' with
  | zero =>
    rw [Node.size_eq] at h
    omega
  | succ fuel ih =>
    cases fuel' with
    | zero =>
      rw [Node.size_eq] at h'
      omega
    | succ fuel' =>
      rw [Usage.chainFrom, Usage.chainFrom]
      cases hreceiver : n.receiver?.bind Node.unwrap with
      | none => rfl
      | some receiver =>
        -- The receiver is smaller than the call, so that both sides have fuel left for it.
        have hsize := size_lt_of_receiver hreceiver
        dsimp only
        rw [ih (by omega) (by omega : receiver.size ≤ fuel')]

/-- With the same fuel a chain is found on both sides or on neither. -/
theorem chainFrom (hR : Mirrors R) (fuel : Nat) (h : R n m) :
    u.chainFrom fuel m = u.chainFrom fuel n := by
  induction fuel generalizing n m with
  | zero => rfl
  | succ fuel ih =>
    rw [Usage.chainFrom, Usage.chainFrom, hR.isChainStart h, hR.isExplicitStart h, hR.isMethodCall h,
      hR.methodName? h]
    have hreceiver : Option.Rel R (n.receiver?.bind Node.unwrap) (m.receiver?.bind Node.unwrap) := by
      obtain ⟨hn, hm⟩ | ⟨a, b, hn, hm, hab⟩ := rel_cases (hR.receiver? h)
      · rw [hn, hm]
        exact .none
      · rw [hn, hm]
        exact hR.unwrap hab
    obtain ⟨hn, hm⟩ | ⟨a, b, hn, hm, hab⟩ := rel_cases hreceiver
    · rw [hn, hm]
    · rw [hn, hm]
      dsimp only
      rw [ih hab]

/-- Wrapped values correspond to wrapped values. -/
theorem isWrapper (hR : Mirrors R) (h : R n m) : u.isWrapper m = u.isWrapper n := by
  unfold Usage.isWrapper
  obtain ⟨hn, hm⟩ | ⟨a, b, hn, hm, hab⟩ := rel_cases (hR.unwrap h)
  · rw [hn, hm]
    rfl
  · have ha := Node.size_le_of_mem_nodes (Node.mem_nodes_of_unwrap hn)
    have hb := Node.size_le_of_mem_nodes (Node.mem_nodes_of_unwrap hm)
    -- The fuel on either side is enough, so both may be counted as much.
    have hchain : u.chainFrom m.size b = u.chainFrom n.size a := by
      rw [chainFrom_of_le hb (by omega : b.size ≤ a.size + b.size), hR.chainFrom (a.size + b.size) hab,
        chainFrom_of_le ha (by omega : a.size ≤ a.size + b.size)]
    rw [hn, hm, Option.bind_some, Option.bind_some, hchain]

/-- Mirrored calls are of the same method and in the same form. -/
theorem classify? (hR : Mirrors R) (h : R n m) : u.classify? m = u.classify? n := by
  have hreceiver : m.receiver?.any u.isWrapper = n.receiver?.any u.isWrapper :=
    any_congr (fun _ _ hxy => hR.isWrapper hxy) (hR.receiver? h)
  rw [Usage.classify?, Usage.classify?, hR.isMethodCall h, hreceiver, hR.methodName? h,
    hR.isLibraryCall h, hR.importedMethod? h]

end JavaScript.Mirrors

namespace Lint

/-- The index of the path among the arguments of a call. -/
def pathIndex? (u : Usage) (n : Node) : Option Nat :=
  (u.classify? n).bind fun (method, form) =>
    match u.methods.pathIndex? method, form with
    | some 0, .chained => none
    | some (index + 1), .chained => some index
    | some index, _ => some index
    | none, _ => none

/-- The path of a call is its argument at the index of the path. -/
theorem pathOf?_eq (u : Usage) (n : Node) : pathOf? u n = (pathIndex? u n).bind n.argument? := by
  unfold pathOf? pathIndex?
  rw [Option.bind_assoc]
  congr 1
  funext ⟨method, form⟩
  dsimp only [Usage.pathArgument?]
  cases u.methods.pathIndex? method with
  | none => rfl
  | some index => cases index <;> cases form <;> rfl

end Lint

/-- Mirrored calls have their path at the same index. -/
theorem JavaScript.Mirrors.pathIndex? {R : Node → Node → Prop} {n m : Node} {u : Usage}
    (hR : Mirrors R) (h : R n m) : Lint.pathIndex? u m = Lint.pathIndex? u n := by
  rw [Lint.pathIndex?, Lint.pathIndex?, hR.classify? h]

/-! ## Paths -/

namespace PathStyle

variable {R : Node → Node → Prop} {p q : Node} {ps qs : List Node}

/-- A literal stands for the same key on both sides. -/
theorem mirrors_literalKey (hR : Mirrors R) (h : R p q) (hliteral : p.isLiteral = true) :
    literalKey q = literalKey p := by
  have hspelled : p.kind.isSpelled = true := by
    unfold Kind.isSpelled
    split
    · rfl
    · rfl
    · exact hliteral
  rw [literalKey, literalKey, hR.kind h, hR.text h hspelled]

/-- The operands of additions correspond one by one. -/
theorem mirrors_operands (hR : Mirrors R) (h : R p q) : List.Forall₂ R p.operands q.operands := by
  induction p using Node.induction generalizing q with
  | mk label children ih =>
    obtain ⟨label', children'⟩ := q
    have hkind : label'.kind = label.kind := hR.kind h
    rw [Node.operands, Node.operands, hkind]
    split
    · rename_i haddition
      have hchildren : List.Forall₂ R children children' :=
        hR.children h (by rw [Node.kind, Node.label_mk, haddition]; decide)
      have hside : ∀ role, List.Forall₂ R (Node.sideOperands role children)
          (Node.sideOperands role children') := by
        intro role
        -- Only the one child in the role has operands, and what is known of the others is not needed.
        clear h hkind haddition
        induction hchildren with
        | nil => exact .nil
        | cons hab _ ihrest =>
          rw [Node.sideOperands, Node.sideOperands, hR.role hab]
          split
          · exact ih _ List.mem_cons_self hab
          · exact ihrest fun c hc => ih c (List.mem_cons_of_mem _ hc)
      exact List.rel_append (hside .left) (hside .right)
    · exact .cons h .nil

/-- Strings are spelled the same. -/
theorem text_of_string (hR : Mirrors R) (h : R p q) (hkind : p.kind = .string) : q.text = p.text :=
  hR.text h (by rw [hkind]; rfl)

/-- Operands are glued at the same seams. -/
theorem mirrors_gluedSeams (hR : Mirrors R) (h : List.Forall₂ R ps qs) :
    gluedSeams (seams qs) = gluedSeams (seams ps) := by
  induction h with
  | nil => rfl
  | cons hab hrest ih =>
    cases hrest with
    | nil => rfl
    | cons hcd hrest =>
      rw [seams, seams, hR.kind hab, hR.kind hcd, hR.isLiteral hab, hR.isLiteral hcd]
      -- At a seam only the string next to it is read, and this is spelled the same.
      split
      · rename_i hafter
        have hkind := eq_of_beq ((Bool.and_eq_true _ _).mp hafter).1
        rw [gluedSeams, gluedSeams, ih, text_of_string hR hab hkind]
      · split
        · rename_i hbefore
          have hkind := eq_of_beq ((Bool.and_eq_true _ _).mp hbefore).2
          rw [gluedSeams, gluedSeams, ih, text_of_string hR hcd hkind]
        · exact ih

/-- Mirrored arguments have a shape alike. -/
theorem mirrors_shapeOf (hR : Mirrors R) (h : R p q) :
    (shapeOf q).map (fun _ => ()) = (shapeOf p).map (fun _ => ()) := by
  unfold shapeOf
  rw [hR.kind h]
  split
  · rfl
  · rfl
  · rfl
  · -- Only an addition reads strings to find its shape.
    have hglued : isGluedAddition q = isGluedAddition p := by
      rw [isGluedAddition, isGluedAddition, hR.kind h, gluedOperands_eq_gluedSeams,
        gluedOperands_eq_gluedSeams, mirrors_gluedSeams hR (mirrors_operands hR h)]
    rw [hglued]
  · rfl

/-! ### Arrays -/

section Arrays

variable (hR : Mirrors R) (h : List.Forall₂ R ps qs)
include hR h

/-- All elements are literals on both sides or on neither. -/
theorem all_isLiteral_congr : qs.all Node.isLiteral = ps.all Node.isLiteral := by
  induction h with
  | nil => rfl
  | cons hab _ ih => rw [List.all_cons, List.all_cons, hR.isLiteral hab, ih]

/-- A spread is among the elements on both sides or on neither. -/
theorem any_spread_congr : qs.any (·.kind == .spread) = ps.any (·.kind == .spread) := by
  induction h with
  | nil => rfl
  | cons hab _ ih => rw [List.any_cons, List.any_cons, hR.kind hab, ih]

omit hR in
/-- There are elements on both sides or on neither. -/
theorem isEmpty_congr : qs.isEmpty = ps.isEmpty := by
  cases h <;> rfl

/-- Literal elements stand for the same keys, and fail at the same one. -/
theorem mapM_literalKey_congr (hliteral : ∀ p ∈ ps, p.isLiteral = true) :
    qs.mapM literalKey = ps.mapM literalKey := by
  induction h with
  | nil => rfl
  | cons hab _ ih =>
    rw [List.forall_mem_cons] at hliteral
    rw [List.mapM_cons, List.mapM_cons, mirrors_literalKey hR hab hliteral.1, ih hliteral.2]

/-- Whether the elements of an array have a template text. -/
theorem templateSegments_congr :
    (templateSegments qs).map Option.isSome = (templateSegments ps).map Option.isSome := by
  induction h with
  | nil => rfl
  | @cons a b as bs hab _ ih =>
    by_cases hliteral : a.isLiteral = true
    · rw [templateSegments, templateSegments, hR.isLiteral hab, if_pos hliteral, if_pos hliteral,
        mirrors_literalKey hR hab hliteral]
      cases literalKey a with
      | error fault => rfl
      | ok key =>
        cases key with
        | none => rfl
        | some key =>
          dsimp only [bind, Except.bind]
          revert ih
          cases templateSegments as <;> cases templateSegments bs <;> simp [Except.map, pure, Except.pure]
    · -- The texts of variables may differ, but a variable never stands in the way of a template.
      have hliteral' : ¬b.isLiteral = true := by rwa [hR.isLiteral hab]
      rw [templateSegments_variable hliteral, templateSegments_variable hliteral']
      revert ih
      cases templateSegments as <;> cases templateSegments bs <;> simp [Except.map]

end Arrays

/-- The elements of arrays correspond one by one. -/
theorem mirrors_parts (hR : Mirrors R) (h : R p q) (hkind : p.kind = .array) :
    List.Forall₂ R p.parts q.parts := hR.filter_isPart (hR.children h (by rw [hkind]; decide))

/-- Arrays of literals correspond to arrays of literals. -/
theorem mirrors_isLiteralArray (hR : Mirrors R) (h : R p q) : isLiteralArray q = isLiteralArray p := by
  rw [isLiteralArray, isLiteralArray, hR.kind h]
  by_cases hkind : p.kind = .array
  · have hparts := mirrors_parts hR h hkind
    rw [all_isLiteral_congr hR hparts, isEmpty_congr hparts]
  · have hother : (p.kind == .array) = false := beq_false_of_ne hkind
    rw [hother]
    rfl

/-- The string for an array of literals is the same. -/
theorem mirrors_literalPath (hR : Mirrors R) (h : R p q) (hliteral : isLiteralArray p = true) :
    literalPath q = literalPath p := by
  have hparts := mirrors_parts hR h (kind_of_isLiteralArray hliteral)
  have hall : ∀ l ∈ p.parts, l.isLiteral = true := by
    simp only [isLiteralArray, Bool.and_eq_true, List.all_eq_true] at hliteral
    exact hliteral.2
  rw [literalPath, literalPath, mapM_literalKey_congr hR hparts hall]

/-- There is a template for an array on both sides or on neither. -/
theorem mirrors_templatePath (hR : Mirrors R) (h : R p q) (hkind : p.kind = .array) :
    (templatePath q).map Option.isSome = (templatePath p).map Option.isSome := by
  have hsegments := templateSegments_congr hR (mirrors_parts hR h hkind)
  unfold templatePath
  revert hsegments
  cases templateSegments p.parts <;> cases templateSegments q.parts <;>
    simp [Except.map, bind, Except.bind, pure, Except.pure]

/-- Mirrored arguments have a replacement alike. -/
theorem mirrors_rewritten (hR : Mirrors R) (style : PathStyle) (h : R p q) :
    (rewritten style q).map Option.isSome = (rewritten style p).map Option.isSome := by
  unfold rewritten
  cases style with
  | asNeeded =>
    dsimp only
    rw [mirrors_isLiteralArray hR h]
    split
    · rename_i hliteral
      rw [mirrors_literalPath hR h hliteral]
    · rfl
  | array =>
    dsimp only
    rw [hR.kind h]
    split
    · rename_i hkind
      rw [arrayStyle, arrayStyle, text_of_string hR h hkind]
    · rfl
  | string =>
    dsimp only
    -- What is no array may hold anything, as it is not gone into.
    by_cases hkind : p.kind = .array
    · have hparts := mirrors_parts hR h hkind
      have hconvertible : isConvertible q = isConvertible p := by
        rw [isConvertible, isConvertible, isEmpty_congr hparts, any_spread_congr hR hparts]
      have hstyle : (stringStyle q).map Option.isSome = (stringStyle p).map Option.isSome := by
        unfold stringStyle
        rw [mirrors_isLiteralArray hR h]
        split
        · rename_i hliteral
          rw [mirrors_literalPath hR h hliteral]
        · exact mirrors_templatePath hR h hkind
      rw [hR.kind h, hconvertible, apply_ite (Except.map _), hstyle, ← apply_ite (Except.map _)]
    · rw [hR.kind h, if_neg fun hp => hkind hp.1, if_neg fun hp => hkind hp.1]

/-- Mirrored arguments are judged alike as to whether they can be replaced. -/
theorem mirrors_judge (hR : Mirrors R) (style : PathStyle) (h : R p q) (hp : p.kind ≠ .parenthesized) :
    (judge style q).map Verdict.isFixable = (judge style p).map Verdict.isFixable := by
  have hjudge : ∀ n : Node, n.kind ≠ .parenthesized →
      (judge style n).map Verdict.isFixable =
        (shapeOf n).map (fun _ => ()) >>= fun _ => (rewritten style n).map Option.isSome := by
    intro n hn
    calc (judge style n).map Verdict.isFixable
        = ((judge style n).map (·.replacement)).map Option.isSome := by cases judge style n <;> rfl
      _ = (shapeOf n >>= fun _ => rewritten style n).map Option.isSome := by
          rw [judge_replacement_eq (Node.unwrap_of_kind hn)]
      _ = (shapeOf n).map (fun _ => ()) >>= fun _ => (rewritten style n).map Option.isSome := by
          cases shapeOf n <;> rfl
  rw [hjudge p hp, hjudge q (by rwa [hR.kind h]), mirrors_shapeOf hR h, mirrors_rewritten hR style h]

end PathStyle

end LodashStyle
