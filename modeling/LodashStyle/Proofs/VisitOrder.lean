import LodashStyle.JavaScript.Grammar.Program
import LodashStyle.Proofs.Traversal

/-!
# The order of visits

All sites of a tree are listed by a loop with a stack of pending sites: as long as one is pending, the
first one is listed and its children are put in front of the others.  The stack grows while a branch is
gone down and holds siblings of all nodes above; but pushing a site on a stack only puts the sites of its
tree in front of what the stack lists, so that the loop ends with the order of the recursion.

In a tree whose children lie within their parents, one after the other, this is the order in which the
nodes start.

## Key results

- `Runs.push`: what a site in front of a stack adds to what is listed
- `runs_root_iff`: the loop ends, with one outcome
- `pairwise_extent_preorder`: of two listed sites, the later one lies within the earlier one or behind it
- `visits_in_preorder`: the order in which a tree is visited
-/

namespace LodashStyle.JavaScript

/-! ## Layout -/

/-- A node with its children one after the other within it. -/
structure Node.InOrder (n : Node) : Prop where
  within : ∀ c ∈ n.children, n.extent.start ≤ c.extent.start ∧ c.extent.start ≤ c.extent.stop ∧
    c.extent.stop ≤ n.extent.stop
  apart : n.children.Pairwise fun c d => c.extent.stop ≤ d.extent.start

instance (n : Node) : Decidable n.InOrder :=
  decidable_of_iff
    ((∀ c ∈ n.children, n.extent.start ≤ c.extent.start ∧ c.extent.start ≤ c.extent.stop ∧
        c.extent.stop ≤ n.extent.stop) ∧
      n.children.Pairwise fun c d => c.extent.stop ≤ d.extent.start)
    ⟨fun ⟨hwithin, hapart⟩ => ⟨hwithin, hapart⟩, fun h => ⟨h.within, h.apart⟩⟩

namespace Site

/-! ## The loop -/

/-- The loop over a stack of pending sites and what it lists: it ends when none is pending, and otherwise
    lists the first one and goes on with its children in front of the others. -/
inductive Runs : List Site → List Site → Prop where
  | done : Runs [] []
  | step {s : Site} {stack listed : List Site} (h : Runs (s.children ++ stack) listed) :
    Runs (s :: stack) (s :: listed)

variable {stack listed listed' : List Site}

/-- The loop has one outcome. -/
theorem Runs.unique (h : Runs stack listed) (h' : Runs stack listed') : listed = listed' := by
  induction h generalizing listed' with
  | done =>
    cases h'
    rfl
  | step _ ih =>
    cases h' with
    | step h' => rw [ih h']

/-- Sites in front of a stack are listed first, each with those below it, if this holds for every one. -/
theorem Runs.pushAll {front : List Site}
    (hfront : ∀ c ∈ front, ∀ {stack listed}, Runs stack listed → Runs (c :: stack) (c.preorder ++ listed))
    (h : Runs stack listed) : Runs (front ++ stack) (front.flatMap preorder ++ listed) := by
  induction front with
  | nil => exact h
  | cons c front ih =>
    have hrest := ih fun d hd => hfront d (List.mem_cons_of_mem c hd)
    rw [List.flatMap_cons, List.append_assoc]
    exact hfront c List.mem_cons_self hrest

/-- A site in front of a stack is listed first, with those below it. -/
theorem Runs.push (s : Site) (h : Runs stack listed) : Runs (s :: stack) (s.preorder ++ listed) := by
  induction s using induction generalizing stack listed with
  | step s ih =>
    -- Once `s` is listed, its children are in front of the stack.
    rw [preorder_eq]
    exact .step (.pushAll (fun c hc => ih c hc) h)

/-- The loop over a tree ends, and lists its sites. -/
theorem runs_root_iff (n : Node) : Runs [root n] listed ↔ listed = visits n := by
  -- The stack of the root is the root in front of an empty one, from which nothing is listed.
  have hruns : Runs [root n] (visits n) := by
    have hpush := Runs.done.push (root n)
    rwa [List.append_nil, ← visits_eq_preorder] at hpush
  constructor
  · intro h
    exact h.unique hruns
  · intro h
    rw [h]
    exact hruns

/-! ## What is listed first -/

/-- A site below another one. -/
def Below (t s : Site) : Prop := ∃ c ∈ s.children, t ∈ c.preorder

variable {n : Node} {s t : Site}

theorem Below.path_suffix (h : t.Below s) : s.path <:+ t.path ∧ s.path.length < t.path.length := by
  obtain ⟨c, hc, ht⟩ := h
  obtain ⟨i, hi⟩ := path_of_mem_children hc
  -- The path goes on from that of the child `c`, which is one longer than that of `s`.
  have hsuffix := path_suffix_of_mem_preorder ht
  have hlength := hsuffix.length_le
  rw [hi] at hsuffix hlength
  exact ⟨(List.suffix_cons i s.path).trans hsuffix, hlength⟩

/-- An earlier site is not below a later one. -/
theorem pairwise_not_below (s : Site) : s.preorder.Pairwise fun t u => ¬t.Below u := by
  apply (pairwise_path_preorder s).imp
  intro t u hsuffix hbelow
  exact hsuffix hbelow.path_suffix.1

theorem not_below_self (s : Site) : ¬s.Below s := by
  intro h
  exact Nat.lt_irrefl _ h.path_suffix.2

/-- The sites of a tree lie within it. -/
theorem within_of_mem_preorder (h : ∀ m ∈ s.node.nodes, m.InOrder) (ht : t ∈ s.preorder) :
    s.node.extent.start ≤ t.node.extent.start ∧ t.node.extent.stop ≤ s.node.extent.stop := by
  have hmem : t.node ∈ s.node.nodes := by
    rw [← map_node_preorder]
    exact List.mem_map_of_mem ht
  apply Node.within_of_children _ hmem
  intro m hm c hc
  have hwithin := (h m hm).within c hc
  omega

/-- No site of a tree ends before it starts, if the root does not. -/
theorem start_le_stop_of_mem_preorder (h : ∀ m ∈ s.node.nodes, m.InOrder)
    (hs : s.node.extent.start ≤ s.node.extent.stop) (ht : t ∈ s.preorder) :
    t.node.extent.start ≤ t.node.extent.stop := by
  induction s using induction with
  | step s ih =>
    rw [preorder_eq] at ht
    obtain rfl | ht := List.mem_cons.1 ht
    · exact hs
    · obtain ⟨c, hc, ht⟩ := List.mem_flatMap.1 ht
      have hnode := node_mem_of_mem_children hc
      have hwithin := (h _ (Node.mem_nodes_self _)).within c.node hnode
      exact ih c hc (fun m hm => h m (Node.mem_nodes_of_child hnode hm)) hwithin.2.1 ht

/-- Of two listed sites the later one starts no earlier, and lies within the earlier one or behind it. -/
theorem pairwise_extent_preorder (h : ∀ m ∈ s.node.nodes, m.InOrder) :
    s.preorder.Pairwise fun t u => t.node.extent.start ≤ u.node.extent.start ∧
      (u.node.extent.stop ≤ t.node.extent.stop ∨ t.node.extent.stop ≤ u.node.extent.start) := by
  induction s using induction with
  | step s ih =>
    have hroot := h s.node (Node.mem_nodes_self _)
    have hbelow : ∀ c ∈ s.children, ∀ m ∈ c.node.nodes, m.InOrder := by
      intro c hc m hm
      exact h m (Node.mem_nodes_of_child (node_mem_of_mem_children hc) hm)
    rw [preorder_eq, List.pairwise_cons]
    constructor
    · -- All other sites lie within the first one.
      intro u hu
      have hmem : u ∈ s.preorder := by
        rw [preorder_eq]
        exact List.mem_cons_of_mem s hu
      have hwithin := within_of_mem_preorder h hmem
      exact ⟨hwithin.1, .inl hwithin.2⟩
    · rw [List.pairwise_flatMap]
      constructor
      · intro c hc
        exact ih c hc (hbelow c hc)
      · -- Those of one child lie before those of a later one.
        have hchildren : s.children.Pairwise fun c d => c.node.extent.stop ≤ d.node.extent.start := by
          have hapart := hroot.apart
          rwa [← map_node_children, List.pairwise_map] at hapart
        apply hchildren.imp_of_mem
        intro c d hc hd hcd t ht u hu
        have hproper := (hroot.within c.node (node_mem_of_mem_children hc)).2.1
        have ht' := start_le_stop_of_mem_preorder (hbelow c hc) hproper ht
        have ht := within_of_mem_preorder (hbelow c hc) ht
        have hu := within_of_mem_preorder (hbelow d hd) hu
        omega

/-! ## Visits -/

/-- Every site of a list comes before those that are inside it, in some sense of the word. -/
def OuterFirst (inside : Site → Site → Prop) (sites : List Site) : Prop :=
  ∀ (i j : Nat) (outer inner : Site),
    sites[i]? = some outer → sites[j]? = some inner → inside inner outer → i < j

/-- Outer sites come first where no site is inside a later one or inside itself. -/
theorem outerFirst_of_pairwise {inside : Site → Site → Prop} {sites : List Site}
    (hsites : sites.Pairwise fun t u => ¬inside t u) (hself : ∀ s, ¬inside s s) :
    OuterFirst inside sites := by
  intro i j outer inner houter hinner hinside
  obtain ⟨hi, rfl⟩ := List.getElem?_eq_some_iff.1 houter
  obtain ⟨hj, rfl⟩ := List.getElem?_eq_some_iff.1 hinner
  -- A site that does not come first is the inner one itself or follows it.
  apply Nat.lt_of_not_le
  intro hle
  obtain hlt | heq := Nat.lt_or_eq_of_le hle
  · exact List.pairwise_iff_getElem.1 hsites j i hj hi hlt hinside
  · subst heq
    exact hself _ hinside

/-- A site that covers something, strictly inside the extent of another one. -/
def Inside (t s : Site) : Prop :=
  t.node.extent.start < t.node.extent.stop ∧
    s.node.extent.start ≤ t.node.extent.start ∧ t.node.extent.stop ≤ s.node.extent.stop ∧
    (s.node.extent.start < t.node.extent.start ∨ t.node.extent.stop < s.node.extent.stop)

/-- **The order of visits.**  The loop over the sites of a tree ends, with one outcome: a site, then the
    sites of its children one after the other, so that each site of the tree is listed once.  A call comes
    before the calls below it.  In a tree whose children lie within their parents, one after the other, no
    site starts before an earlier one, and a call comes before those that its extent holds. -/
theorem visits_in_preorder (n : Node) :
    (∀ listed, Runs [root n] listed ↔ listed = visits n) ∧
    visits n = (root n).preorder ∧
    ((visits n).map path).Nodup ∧ (∀ s, s ∈ visits n ↔ Of n s) ∧
    OuterFirst Below (calls n) ∧
    ((∀ m ∈ n.nodes, m.InOrder) →
      ((visits n).Pairwise fun s t => s.node.extent.start ≤ t.node.extent.start) ∧
      OuterFirst Inside (calls n)) := by
  refine ⟨fun listed => runs_root_iff n, visits_eq_preorder n, nodup_path_visits n,
    fun s => mem_visits_iff, ?_, ?_⟩
  · rw [calls_eq_preorder]
    exact outerFirst_of_pairwise ((pairwise_not_below (root n)).filter _) not_below_self
  · intro h
    have hextents := @pairwise_extent_preorder (root n) h
    constructor
    · rw [visits_eq_preorder]
      exact hextents.imp And.left
    · rw [calls_eq_preorder]
      apply outerFirst_of_pairwise
      · -- A call strictly inside another one cannot be listed before it.
        apply (hextents.filter _).imp
        intro t u htu hinside
        unfold Inside at hinside
        omega
      · intro s hinside
        unfold Inside at hinside
        omega

/-- Three calls inside one another and one behind them. -/
theorem visits_in_preorder_of_four_calls :
    let n := (Tree.parse "a(b(c()));\nd();".toList).root
    (∀ m ∈ n.nodes, m.InOrder) ∧
      (calls n).map (·.node.text) = (["a(b(c()))", "b(c())", "c()", "d()"] : List Text) ∧
      ((visits n).Pairwise fun s t => s.node.extent.start ≤ t.node.extent.start) ∧
      OuterFirst Inside (calls n) := by
  intro n
  have hlayout : ∀ m ∈ n.nodes, m.InOrder := by decide +kernel
  obtain ⟨-, -, -, -, -, horder⟩ := visits_in_preorder n
  exact ⟨hlayout, by decide +kernel, horder hlayout⟩

end Site

end LodashStyle.JavaScript
