import LodashStyle.Proofs.Traversal

/-!
# Parts of expressions as sites

The callee, the receiver, the arguments and the inside of parentheses are found in a node alone,
without regard to where it stands.  Here they are found at a site and are sites of the same tree, so
that going from call to call through a tree can be followed by position.  The node of what is found
at a site is what is found in the node of the site.

## Key results

- `map_node_unwrap`, `map_node_argument?`, `map_node_receiver?`: the parts at a site are those of its
  node
- `Of.unwrap`, `Of.argument?`, `Of.receiver?`: they stand in the same tree
- `isChildOf_iff`: the place of a child tells whether it is the first one in a role
- `unwrap_of_parenthesized`: what parentheses hold is in the first child that counts
-/

namespace LodashStyle.JavaScript.Site

variable {root : Node} {s t : Site}

/-! ## Children by role -/

/-- The first child in a role. -/
def child? (s : Site) (role : Role) : Option Site := s.children.find? (·.node.role == some role)

/-- The child in a role at a site is the one of the node there. -/
theorem map_node_child? (s : Site) (role : Role) : (s.child? role).map (·.node) = s.node.child? role := by
  rw [Node.child?, ← map_node_children, List.find?_map]
  rfl

/-- The child in a role is a site of the same tree. -/
theorem Of.child? {role : Role} (hs : Of root s) (h : s.child? role = some t) : Of root t :=
  .child hs (List.mem_of_find?_eq_some h)

/-- The place of a child tells whether it is the first one in a role. -/
theorem isChildOf_iff {c : Site} {kind : Kind} {role : Role} (hc : c ∈ s.children) :
    c.isChildOf kind role = true ↔ s.node.kind = kind ∧ s.child? role = some c := by
  obtain ⟨i, hi, habove⟩ := mem_children_iff.1 hc
  have hindex : s.node.childIndex? role = some i ↔ s.child? role = some c := by
    rw [Node.childIndex?, List.findIdx?_eq_some_iff_getElem, Site.child?, List.find?_eq_some_iff_getElem]
    constructor
    · rintro ⟨hlt, hrole, hbefore⟩
      have hnode : s.node.children[i] = c.node := by
        rw [← Option.some.injEq, ← List.getElem?_eq_getElem hlt, hi]
      refine ⟨by rwa [hnode] at hrole, i, by simpa [Site.children] using hlt, ?_, ?_⟩
      · obtain ⟨node, above⟩ := c
        simp only [Site.children, List.getElem_mapIdx, hnode, ← habove]
      · intro j hj
        simpa [Site.children] using hbefore j hj
    · rintro ⟨hrole, j, hj, hplace, hbefore⟩
      have hj' : j < s.node.children.length := by simpa [Site.children] using hj
      -- The way up from the child that is found goes through its own index.
      obtain rfl : j = i := by
        rw [← hplace] at habove
        simpa [Site.children] using habove
      refine ⟨hj', ?_, ?_⟩
      · rw [← hplace] at hrole
        simpa [Site.children] using hrole
      · intro k hk
        simpa [Site.children] using hbefore k hk
  simp [isChildOf, habove, hindex]

/-! ## Parentheses -/

mutual

/-- The expression inside any number of parentheses, with the way up to it. -/
def unwrapFrom (above : List Crumb) : Node → Option Site
  | .mk label children =>
    if label.kind = .parenthesized then unwrapFirstFrom (.mk label children) above 0 children
    else some ⟨.mk label children, above⟩

/-- The expression inside the first of some children that counts; `index` is the place of the first
    of them. -/
def unwrapFirstFrom (parent : Node) (above : List Crumb) (index : Nat) : List Node → Option Site
  | [] => none
  | c :: rest =>
    if c.isPart then unwrapFrom (⟨parent, index⟩ :: above) c
    else unwrapFirstFrom parent above (index + 1) rest

end

/-- The expression inside any number of parentheses. -/
def unwrap (s : Site) : Option Site := unwrapFrom s.above s.node

mutual

/-- The node found inside parentheses does not depend on the way up. -/
theorem map_node_unwrapFrom (above : List Crumb) : ∀ n : Node,
    (unwrapFrom above n).map (·.node) = n.unwrap
  | .mk label children => by
    rw [unwrapFrom, Node.unwrap]
    split
    · exact map_node_unwrapFirstFrom (.mk label children) above 0 children
    · rfl

/-- Nor does the one found among children. -/
theorem map_node_unwrapFirstFrom (parent : Node) (above : List Crumb) (index : Nat) :
    ∀ nodes : List Node, (unwrapFirstFrom parent above index nodes).map (·.node) = Node.unwrapFirst nodes
  | [] => rfl
  | c :: rest => by
    rw [unwrapFirstFrom, Node.unwrapFirst]
    split
    · exact map_node_unwrapFrom (⟨parent, index⟩ :: above) c
    · exact map_node_unwrapFirstFrom parent above (index + 1) rest

end

/-- What is inside the parentheses at a site is what is inside those of its node. -/
theorem map_node_unwrap (s : Site) : s.unwrap.map (·.node) = s.node.unwrap :=
  map_node_unwrapFrom s.above s.node

/-- The same, read off a site that is found. -/
theorem node_unwrap (h : s.unwrap = some t) : s.node.unwrap = some t.node := by
  rw [← map_node_unwrap, h, Option.map_some]

mutual

/-- The site inside parentheses is reached from the root, since the way up grows by the place of each
    child gone into. -/
theorem of_unwrapFrom {above : List Crumb} : ∀ {n : Node}, Of root ⟨n, above⟩ →
    unwrapFrom above n = some t → Of root t
  | .mk label children, hs, h => by
    rw [unwrapFrom] at h
    split at h
    · refine of_unwrapFirstFrom ?_ h
      intro i c hc
      exact .child hs (mem_children_iff.2 ⟨i, hc, by rw [Nat.zero_add]⟩)
    · rw [← Option.some.inj h]
      exact hs

/-- The same for children, counted from `index` on. -/
theorem of_unwrapFirstFrom {parent : Node} {above : List Crumb} {index : Nat} :
    ∀ {nodes : List Node},
      (∀ i c, nodes[i]? = some c → Of root ⟨c, ⟨parent, index + i⟩ :: above⟩) →
      unwrapFirstFrom parent above index nodes = some t → Of root t
  | [], _, h => nomatch h
  | c :: rest, hnodes, h => by
    rw [unwrapFirstFrom] at h
    split at h
    · exact of_unwrapFrom (hnodes 0 c rfl) h
    · refine of_unwrapFirstFrom ?_ h
      intro i d hd
      have hplace : index + 1 + i = index + (i + 1) := by omega
      rw [hplace]
      exact hnodes (i + 1) d hd

end

/-- What is no parenthesis is found where it stands. -/
theorem unwrap_of_kind (h : s.node.kind ≠ .parenthesized) : s.unwrap = some s := by
  obtain ⟨⟨label, children⟩, above⟩ := s
  have hkind : ¬label.kind = .parenthesized := h
  rw [unwrap, unwrapFrom, if_neg hkind]

/-- Going through the children is a search for the first one that counts. -/
theorem unwrapFirstFrom_eq (parent : Node) (above : List Crumb) (index : Nat) (nodes : List Node) :
    unwrapFirstFrom parent above index nodes =
      ((nodes.mapIdx fun i c => (⟨c, ⟨parent, index + i⟩ :: above⟩ : Site)).find?
        (·.node.isPart)).bind unwrap := by
  induction nodes generalizing index with
  | nil => rfl
  | cons c rest ih =>
    have hshift : ∀ i, index + 1 + i = index + (i + 1) := by
      intro i
      omega
    rw [unwrapFirstFrom, List.mapIdx_cons, List.find?_cons]
    split
    · rename_i hpart
      simp only [hpart]
      rfl
    · rename_i hpart
      simp only [hpart, ih (index + 1), hshift]

/-- What parentheses hold is in the first child that counts. -/
theorem unwrap_of_parenthesized (h : s.node.kind = .parenthesized) :
    s.unwrap = (s.children.find? (·.node.isPart)).bind unwrap := by
  obtain ⟨⟨label, children⟩, above⟩ := s
  have hkind : label.kind = .parenthesized := h
  rw [unwrap, unwrapFrom, if_pos hkind, unwrapFirstFrom_eq]
  simp only [Nat.zero_add]
  rfl

/-- What is inside the parentheses is a site of the same tree. -/
theorem Of.unwrap (hs : Of root s) (h : s.unwrap = some t) : Of root t := of_unwrapFrom hs h

/-! ## Calls -/

/-- The arguments of a call; a tagged template has none. -/
def arguments (s : Site) : List Site :=
  match s.child? .arguments with
  | some list => if list.node.kind == .arguments then list.children.filter (·.node.isPart) else []
  | none => []

/-- One argument of a call, without parentheses around it. -/
def argument? (s : Site) (index : Nat) : Option Site := s.arguments[index]?.bind unwrap

/-- What a method is called on. -/
def receiver? (s : Site) : Option Site :=
  ((s.child? .callee).filter (·.node.kind == .member)).bind (·.child? .object)

/-- The arguments at a site are those of its node. -/
theorem map_node_arguments (s : Site) : s.arguments.map (·.node) = s.node.arguments := by
  have hchild := map_node_child? s .arguments
  rw [arguments, Node.arguments, ← hchild]
  cases s.child? .arguments with
  | none => rfl
  | some list =>
    dsimp only [Option.map_some]
    split
    · rw [Node.parts, ← map_node_children, List.filter_map]
      rfl
    · rfl

/-- Arguments are sites of the same tree. -/
theorem Of.arguments (hs : Of root s) (h : t ∈ s.arguments) : Of root t := by
  unfold Site.arguments at h
  split at h
  · rename_i list hlist
    split at h
    · exact .child (hs.child? hlist) (List.mem_filter.1 h).1
    · exact absurd h List.not_mem_nil
  · exact absurd h List.not_mem_nil

/-- The argument with a number is that of the node. -/
theorem map_node_argument? (s : Site) (index : Nat) :
    (s.argument? index).map (·.node) = s.node.argument? index := by
  rw [argument?, Node.argument?, ← map_node_arguments, List.getElem?_map]
  cases s.arguments[index]? with
  | none => rfl
  | some argument => exact map_node_unwrap argument

/-- The same, read off a site that is found. -/
theorem node_argument? {index : Nat} (h : s.argument? index = some t) :
    s.node.argument? index = some t.node := by
  rw [← map_node_argument?, h, Option.map_some]

/-- The argument with a number is a site of the same tree. -/
theorem Of.argument? {index : Nat} (hs : Of root s) (h : s.argument? index = some t) : Of root t := by
  obtain ⟨argument, hargument, h⟩ := Option.bind_eq_some_iff.1 h
  exact (hs.arguments (List.mem_of_getElem? hargument)).unwrap h

/-- The receiver at a site is that of its node. -/
theorem map_node_receiver? (s : Site) : s.receiver?.map (·.node) = s.node.receiver? := by
  have hchild := map_node_child? s .callee
  rw [receiver?, Node.receiver?, Node.memberCallee?, Node.callee?, ← hchild]
  cases s.child? .callee with
  | none => rfl
  | some callee =>
    by_cases hkind : (callee.node.kind == .member) = true
    · simp only [Option.map_some, Option.filter_some, hkind, if_true, Option.bind_some]
      exact map_node_child? callee .object
    · simp [Option.filter_some, hkind]

/-- The same, read off a site that is found. -/
theorem node_receiver? (h : s.receiver? = some t) : s.node.receiver? = some t.node := by
  rw [← map_node_receiver?, h, Option.map_some]

/-- The receiver is a site of the same tree. -/
theorem Of.receiver? (hs : Of root s) (h : s.receiver? = some t) : Of root t := by
  obtain ⟨callee, hcallee, h⟩ := Option.bind_eq_some_iff.1 h
  exact (hs.child? (Option.filter_eq_some_iff.1 hcallee).1).child? h

end LodashStyle.JavaScript.Site
