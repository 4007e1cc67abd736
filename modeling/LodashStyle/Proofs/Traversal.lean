import LodashStyle.JavaScript.Site
import Mathlib.Algebra.GroupWithZero.Nat

/-!
# The sites of a tree

All sites of a tree are listed with a stack of pending ones.  The list is the one that goes
through the tree by recursion: a site, then the sites of its children one after the other.  So
each site of the tree is listed, once, and is told from the others by its path.

## Key results

- `visits_eq_preorder`: the stack lists the sites in the order of the recursion
- `mem_visits_iff`: the listed sites are those that are reached from the root by taking children
- `Of.parent`: the way up from a site of a tree leads through its parents
- `pairwise_path_preorder`: a site is listed before those below it
- `Of.eq_of_path`, `nodup_path_visits`: sites of a tree have different paths
-/

namespace LodashStyle.JavaScript

namespace Node

/-! ## Trees -/

mutual

/-- What holds of a node when it holds of its children holds of every node. -/
@[elab_as_elim]
theorem induction {P : Node → Prop}
    (mk : ∀ label children, (∀ c ∈ children, P c) → P (.mk label children)) : ∀ n, P n
  | .mk label children => mk label children (inductionAll mk children)

/-- The half of the induction that goes through the children. -/
theorem inductionAll {P : Node → Prop}
    (mk : ∀ label children, (∀ c ∈ children, P c) → P (.mk label children)) :
    ∀ children : List Node, ∀ c ∈ children, P c
  | [] => fun _ hc => absurd hc List.not_mem_nil
  | n :: rest => List.forall_mem_cons.2 ⟨induction mk n, inductionAll mk rest⟩

end

mutual

/-- All nodes of a tree, each before those below it. -/
def nodes : Node → List Node
  | mk label children => mk label children :: nodesAll children

/-- All nodes of some trees. -/
def nodesAll : List Node → List Node
  | [] => []
  | n :: rest => n.nodes ++ nodesAll rest

end

/-- The nodes of several trees, one tree after the other. -/
theorem nodesAll_eq (children : List Node) : nodesAll children = children.flatMap nodes := by
  induction children with
  | nil => rfl
  | cons n rest ih => rw [nodesAll, ih, List.flatMap_cons]

/-- A tree consists of its root and the trees below it. -/
theorem nodes_eq (n : Node) : n.nodes = n :: n.children.flatMap nodes := by
  obtain ⟨label, children⟩ := n
  rw [nodes, nodesAll_eq, children_mk]

theorem mem_nodes_self (n : Node) : n ∈ n.nodes := by
  rw [nodes_eq]
  exact List.mem_cons_self

/-- A node of a child is a node of the tree. -/
theorem mem_nodes_of_child {n c m : Node} (hc : c ∈ n.children) (hm : m ∈ c.nodes) : m ∈ n.nodes := by
  rw [nodes_eq]
  exact List.mem_cons_of_mem n (List.mem_flatMap.2 ⟨c, hc, hm⟩)

/-- Nodes of a node of a tree are nodes of the tree. -/
theorem mem_nodes_trans {n m p : Node} (hm : m ∈ n.nodes) (hp : p ∈ m.nodes) : p ∈ n.nodes := by
  induction n using induction with
  | mk label children ih =>
    rw [nodes_eq] at hm
    obtain rfl | hm := List.mem_cons.1 hm
    · exact hp
    · obtain ⟨c, hc, hm⟩ := List.mem_flatMap.1 hm
      exact mem_nodes_of_child hc (ih c hc hm)

/-- Where children lie within their parents, all nodes of a tree lie within it. -/
theorem within_of_children {n m : Node} (hn : ∀ m ∈ n.nodes, ∀ c ∈ m.children,
    m.extent.start ≤ c.extent.start ∧ c.extent.stop ≤ m.extent.stop) (hm : m ∈ n.nodes) :
    n.extent.start ≤ m.extent.start ∧ m.extent.stop ≤ n.extent.stop := by
  induction n using induction with
  | mk label children ih =>
    have hroot := hn _ (mem_nodes_self _)
    rw [nodes_eq] at hm
    obtain rfl | hm := List.mem_cons.1 hm
    · exact ⟨Nat.le_refl _, Nat.le_refl _⟩
    · obtain ⟨c, hc, hm⟩ := List.mem_flatMap.1 hm
      have hchild := hroot c hc
      have hbelow := ih c hc (fun m hm => hn m (mem_nodes_of_child hc hm)) hm
      omega

/-- The size of several trees is the sum of their sizes. -/
theorem sizeAll_eq (children : List Node) : sizeAll children = (children.map size).sum := by
  induction children with
  | nil => rfl
  | cons n rest ih => rw [sizeAll, ih, List.map_cons, List.sum_cons]

/-- A tree has one node more than the trees below it together. -/
theorem size_eq (n : Node) : n.size = (n.children.map size).sum + 1 := by
  obtain ⟨label, children⟩ := n
  rw [size, sizeAll_eq, children_mk]

end Node

namespace Site

/-! ## The order of the recursion -/

mutual

/-- The sites of a tree with a way up, each before those below it. -/
def preorderFrom (above : List Crumb) : Node → List Site
  | .mk label children =>
    ⟨.mk label children, above⟩ :: preorderAll (.mk label children) above 0 children

/-- The sites of the children of a node from an index on. -/
def preorderAll (parent : Node) (above : List Crumb) (index : Nat) : List Node → List Site
  | [] => []
  | c :: rest => preorderFrom (⟨parent, index⟩ :: above) c ++ preorderAll parent above (index + 1) rest

end

/-- The site and those below it: the site, then those of its children one after the other. -/
def preorder (s : Site) : List Site := preorderFrom s.above s.node

/-- The sites below children that are counted from `index` on, one child after the other. -/
theorem preorderAll_eq (parent : Node) (above : List Crumb) (index : Nat) (children : List Node) :
    preorderAll parent above index children =
      (children.mapIdx fun i c => (⟨c, ⟨parent, index + i⟩ :: above⟩ : Site)).flatMap preorder := by
  induction children generalizing index with
  | nil => rfl
  | cons c rest ih =>
    have hshift : ∀ i, index + 1 + i = index + (i + 1) := by
      intro i
      omega
    rw [preorderAll, ih (index + 1), List.mapIdx_cons, List.flatMap_cons]
    simp only [hshift]
    rfl

/-- A site comes before those below it, and these come child by child. -/
theorem preorder_eq (s : Site) : s.preorder = s :: s.children.flatMap preorder := by
  obtain ⟨⟨label, children⟩, above⟩ := s
  simp [preorder, preorderFrom, preorderAll_eq, Site.children]

theorem mem_preorder_self (s : Site) : s ∈ s.preorder := by
  rw [preorder_eq]
  exact List.mem_cons_self

theorem map_node_children (s : Site) : s.children.map (·.node) = s.node.children := by
  apply List.ext_getElem
  · simp [Site.children]
  · simp [Site.children]

/-- A child is a node with its own index and the way up from its parent. -/
theorem mem_children_iff {s c : Site} :
    c ∈ s.children ↔ ∃ i, s.node.children[i]? = some c.node ∧ c.above = ⟨s.node, i⟩ :: s.above := by
  rw [Site.children, List.mem_mapIdx]
  constructor
  · rintro ⟨i, hi, rfl⟩
    exact ⟨i, List.getElem?_eq_getElem hi, rfl⟩
  · rintro ⟨i, hnode, habove⟩
    obtain ⟨hi, hnode⟩ := List.getElem?_eq_some_iff.1 hnode
    obtain ⟨node, above⟩ := c
    subst hnode habove
    exact ⟨i, hi, rfl⟩

/-- Children at one index are the same. -/
theorem eq_of_index {s c d : Site} {i : Nat} (hc : s.node.children[i]? = some c.node)
    (hcabove : c.above = ⟨s.node, i⟩ :: s.above) (hd : s.node.children[i]? = some d.node)
    (hdabove : d.above = ⟨s.node, i⟩ :: s.above) : c = d := by
  obtain ⟨node, above⟩ := c
  obtain ⟨node', above'⟩ := d
  have hnodes : node = node' := Option.some.inj (hc.symm.trans hd)
  have haboves : above = above' := hcabove.trans hdabove.symm
  rw [hnodes, haboves]

theorem node_mem_of_mem_children {s c : Site} (hc : c ∈ s.children) : c.node ∈ s.node.children := by
  obtain ⟨i, hnode, -⟩ := mem_children_iff.1 hc
  exact List.mem_of_getElem? hnode

/-- What holds of a site when it holds of its children holds of every site. -/
@[elab_as_elim]
theorem induction {P : Site → Prop} (step : ∀ s : Site, (∀ c ∈ s.children, P c) → P s) (s : Site) :
    P s := by
  obtain ⟨n, above⟩ := s
  induction n using Node.induction generalizing above with
  | mk label children ih =>
    apply step
    intro c hc
    exact ih c.node (node_mem_of_mem_children hc) c.above

/-- The nodes of the sites are the nodes of the tree. -/
theorem map_node_preorder (s : Site) : s.preorder.map (·.node) = s.node.nodes := by
  induction s using induction with
  | step s ih =>
    rw [preorder_eq, Node.nodes_eq, List.map_cons, List.map_flatMap, ← map_node_children,
      List.flatMap_map, List.flatMap_def, List.flatMap_def, List.map_congr_left ih]

/-- Each node has one site. -/
theorem length_preorder (s : Site) : s.preorder.length = s.node.size := by
  induction s using induction with
  | step s ih =>
    have hlengths : s.children.map (fun c => c.preorder.length) = s.node.children.map Node.size := by
      rw [← map_node_children, List.map_map]
      exact List.map_congr_left ih
    rw [preorder_eq, Node.size_eq, List.length_cons, List.length_flatMap, hlengths]

/-! ## The stack -/

/-- The stack lists the sites below each of its items in turn, as many as it may. -/
theorem visitFrom_eq_take (fuel : Nat) (stack : List Site) :
    visitFrom fuel stack = (stack.flatMap preorder).take fuel := by
  induction fuel generalizing stack with
  | zero => rfl
  | succ fuel ih =>
    cases stack with
    | nil => rfl
    | cons s stack =>
      rw [visitFrom, ih, List.flatMap_append, List.flatMap_cons, preorder_eq s, List.cons_append,
        List.take_succ_cons]

/-- The stack lists all sites of a tree in the order of the recursion. -/
theorem visits_eq_preorder (n : Node) : visits n = (root n).preorder := by
  have hlength : (root n).preorder.length ≤ n.size := Nat.le_of_eq (length_preorder (root n))
  rw [visits, visitFrom_eq_take, List.flatMap_singleton, List.take_of_length_le hlength]

/-- The calls of a tree are visited in the order of its sites. -/
theorem calls_eq_preorder (n : Node) : calls n = (root n).preorder.filter (·.node.isCall) := by
  rw [calls, visits_eq_preorder]

/-- The nodes of the sites visited are those of the tree. -/
theorem map_node_visits (n : Node) : (visits n).map (·.node) = n.nodes := by
  rw [visits_eq_preorder, map_node_preorder]
  rfl

/-! ## The sites of a tree -/

/-- A site of a tree: the root, or a child of a site of the tree. -/
inductive Of (n : Node) : Site → Prop where
  | root : Of n (root n)
  | child {s c : Site} (hs : Of n s) (hc : c ∈ s.children) : Of n c

variable {n : Node} {s t : Site}

/-- What is below a site of a tree is in the tree. -/
theorem Of.of_mem_preorder (hs : Of n s) (ht : t ∈ s.preorder) : Of n t := by
  induction s using induction with
  | step s ih =>
    rw [preorder_eq] at ht
    obtain rfl | ht := List.mem_cons.1 ht
    · exact hs
    · obtain ⟨c, hc, ht⟩ := List.mem_flatMap.1 ht
      exact ih c hc (.child hs hc) ht

/-- The children of a listed site are listed. -/
theorem mem_preorder_of_child {c : Site} (ht : t ∈ s.preorder) (hc : c ∈ t.children) :
    c ∈ s.preorder := by
  induction s using induction with
  | step s ih =>
    rw [preorder_eq] at ht ⊢
    apply List.mem_cons_of_mem
    obtain rfl | ht := List.mem_cons.1 ht
    · exact List.mem_flatMap.2 ⟨c, hc, mem_preorder_self c⟩
    · obtain ⟨d, hd, ht⟩ := List.mem_flatMap.1 ht
      exact List.mem_flatMap.2 ⟨d, hd, ih d hd ht⟩

/-- The listed sites are the sites of the tree. -/
theorem mem_visits_iff : s ∈ visits n ↔ Of n s := by
  rw [visits_eq_preorder]
  constructor
  · intro hs
    exact Of.root.of_mem_preorder hs
  · intro hs
    induction hs with
    | root => exact mem_preorder_self _
    | child _ hc ih => exact mem_preorder_of_child ih hc

/-- All calls at sites of the tree are visited. -/
theorem mem_calls_iff : s ∈ calls n ↔ Of n s ∧ s.node.isCall = true := by
  rw [calls, List.mem_filter, mem_visits_iff]

theorem of_mem_calls (hs : s ∈ calls n) : Of n s := (mem_calls_iff.1 hs).1

/-- The node at a site of a tree is a node of the tree. -/
theorem Of.node_mem_nodes (hs : Of n s) : s.node ∈ n.nodes := by
  rw [← map_node_visits]
  exact List.mem_map_of_mem (mem_visits_iff.2 hs)

/-- The first step up from a site leads to its parent. -/
theorem Of.parent {c : Crumb} {rest : List Crumb} (hs : Of n s) (habove : s.above = c :: rest) :
    Of n ⟨c.parent, rest⟩ ∧ s ∈ Site.children ⟨c.parent, rest⟩ := by
  cases hs with
  | root => exact nomatch habove
  | @child p _ hp hc =>
    obtain ⟨i, -, hpabove⟩ := mem_children_iff.1 hc
    rw [habove] at hpabove
    obtain ⟨rfl, rfl⟩ := List.cons.inj hpabove
    exact ⟨hp, hc⟩

/-! ## Paths -/

/-- The path to a child is that to its parent and one more index. -/
theorem path_of_mem_children {c : Site} (hc : c ∈ s.children) : ∃ i, c.path = i :: s.path := by
  obtain ⟨i, -, habove⟩ := mem_children_iff.1 hc
  exact ⟨i, by rw [path, habove, List.map_cons, path]⟩

/-- Sites of a tree with the same path are the same. -/
theorem Of.eq_of_path (hs : Of n s) (ht : Of n t) (h : s.path = t.path) : s = t := by
  induction hs generalizing t with
  | root =>
    cases ht with
    | root => rfl
    | child _ hc =>
      obtain ⟨i, hi⟩ := path_of_mem_children hc
      rw [← h] at hi
      exact nomatch hi
  | @child p c hp hc ih =>
    obtain ⟨i, hnode, habove⟩ := mem_children_iff.1 hc
    cases ht with
    | root =>
      obtain ⟨i, hi⟩ := path_of_mem_children hc
      rw [h] at hi
      exact nomatch hi
    | @child q _ hq hd =>
      -- The parents have the same path, and the children the same index in it.
      obtain ⟨j, hnode', habove'⟩ := mem_children_iff.1 hd
      rw [path, path, habove, habove', List.map_cons, List.map_cons] at h
      obtain ⟨hindex, hpath⟩ := List.cons.inj h
      obtain rfl : p = q := ih hq hpath
      obtain rfl : i = j := hindex
      exact eq_of_index hnode habove hnode' habove'

/-- The path of a site ends in the path of each site above it. -/
theorem path_suffix_of_mem_preorder (ht : t ∈ s.preorder) : s.path <:+ t.path := by
  induction s using induction with
  | step s ih =>
    rw [preorder_eq] at ht
    obtain rfl | ht := List.mem_cons.1 ht
    · exact List.suffix_refl _
    · obtain ⟨c, hc, ht⟩ := List.mem_flatMap.1 ht
      obtain ⟨i, hi⟩ := path_of_mem_children hc
      have hc' := ih c hc ht
      rw [hi] at hc'
      exact (List.suffix_cons i s.path).trans hc'

/-- Different children are reached by different paths. -/
theorem pairwise_path_children (s : Site) : s.children.Pairwise fun c d => c.path ≠ d.path := by
  rw [List.pairwise_iff_getElem]
  intro i j hi hj hlt
  have hne : i ≠ j := Nat.ne_of_lt hlt
  simp [Site.children, path, hne]

/-- A site is listed before those below it: no path of a listed site ends in the path of a later one. -/
theorem pairwise_path_preorder (s : Site) : s.preorder.Pairwise fun t u => ¬u.path <:+ t.path := by
  induction s using induction with
  | step s ih =>
    rw [preorder_eq, List.pairwise_cons]
    constructor
    · -- Paths of the children are longer.
      intro u hu hsuffix
      obtain ⟨c, hc, hu⟩ := List.mem_flatMap.1 hu
      obtain ⟨i, hi⟩ := path_of_mem_children hc
      have hlength := (path_suffix_of_mem_preorder hu).length_le
      have hlength' := hsuffix.length_le
      rw [hi, List.length_cons] at hlength
      omega
    · rw [List.pairwise_flatMap]
      constructor
      · exact ih
      · apply (pairwise_path_children s).imp_of_mem
        intro c d hc hd hne t ht u hu hsuffix
        -- One path would end in the paths of two children, which have one length.
        have hcsuffix := path_suffix_of_mem_preorder ht
        have hdsuffix := (path_suffix_of_mem_preorder hu).trans hsuffix
        obtain ⟨i, hi⟩ := path_of_mem_children hc
        obtain ⟨j, hj⟩ := path_of_mem_children hd
        apply hne
        have hlengths : c.path.length = d.path.length := by
          rw [hi, hj, List.length_cons, List.length_cons]
        exact List.IsSuffix.eq_of_length
          (List.suffix_of_suffix_length_le hcsuffix hdsuffix (Nat.le_of_eq hlengths)) hlengths

/-- No path is met twice, so that no site is visited twice. -/
theorem nodup_path_preorder (s : Site) : (s.preorder.map path).Nodup := by
  rw [List.nodup_iff_pairwise_ne, List.pairwise_map]
  apply (pairwise_path_preorder s).imp
  intro t u hsuffix hpath
  exact hsuffix (hpath ▸ List.suffix_refl _)

/-- Each site of a tree is listed once. -/
theorem nodup_path_visits (n : Node) : ((visits n).map path).Nodup := by
  rw [visits_eq_preorder]
  exact nodup_path_preorder (root n)

end Site

end LodashStyle.JavaScript
