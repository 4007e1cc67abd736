import LodashStyle.Proofs.Traversal
import LodashStyle.Rule.Chaining
import LodashStyle.JavaScript.Grammar.Program

/-!
# Where the chaining rule reports

Nested calls and starts of chains are reported where they stand, but a chain of a single call is
reported at that call, which is found by going up from the start of the chain through parentheses
and a member access.  Going back down is possible in one way only, so that no call is found from
two starts, and the call that is found is called on a call and not on the library, so that it is no
library call and cannot be reported for the calls inside it as well.

## Key results

- `wraps_enclosing`, `Wraps.unique`: parentheses hold one expression, which is found again inside them
- `methodCallOn?_inj`: a method call is called on one site only
- `libraryMethod?_of_methodCallOn?`: a call that is called on a call is no library call
- `chain_reports_distinct`: no node is reported twice
-/

namespace LodashStyle

open JavaScript

/-! ## Parentheses -/

/-- Parentheses hold one expression. -/
def JavaScript.Node.HoldsOne (n : Node) : Prop := n.kind = .parenthesized → n.parts.length = 1

instance (n : Node) : Decidable n.HoldsOne := inferInstanceAs (Decidable (_ → _))

namespace JavaScript.Site

/-- A site and one inside any number of parentheses there. -/
inductive Wraps : Site → Site → Prop where
  | here {s : Site} : Wraps s s
  | inside {outer c s : Site} (hkind : outer.node.kind = .parenthesized) (hc : c ∈ outer.children)
    (hpart : c.node.isPart = true) (h : Wraps c s) : Wraps outer s

variable {root : Node} {outer s t : Site}

/-- An item of a list that alone passes a test is at one index. -/
theorem index_eq_of_length_filter {α : Type} {test : α → Bool} {xs : List α} {a b : α} {i j : Nat}
    (h : (xs.filter test).length = 1) (hi : xs[i]? = some a) (hj : xs[j]? = some b)
    (ha : test a = true) (hb : test b = true) : i = j := by
  induction xs generalizing i j with
  | nil => simp at hi
  | cons x xs ih =>
    by_cases hx : test x = true
    · -- No later item passes the test.
      rw [List.filter_cons_of_pos hx, List.length_cons] at h
      have hnone : xs.filter test = [] := List.eq_nil_of_length_eq_zero (by omega)
      have hlater : ∀ {k : Nat} {c : α}, xs[k]? = some c → test c = true → False := by
        intro k c hk hc
        have hmem := List.mem_filter.2 ⟨List.mem_of_getElem? hk, hc⟩
        rw [hnone] at hmem
        exact absurd hmem List.not_mem_nil
      cases i with
      | zero =>
        cases j with
        | zero => rfl
        | succ j => exact absurd hb (fun hb => hlater hj hb)
      | succ i => exact absurd ha (fun ha => hlater hi ha)
    · rw [List.filter_cons_of_neg hx] at h
      cases i with
      | zero => exact absurd (Option.some.inj hi ▸ ha) hx
      | succ i =>
        cases j with
        | zero => exact absurd (Option.some.inj hj ▸ hb) hx
        | succ j => rw [ih h hi hj]

theorem eq_of_mem_children {c d : Site} (hone : s.node.parts.length = 1) (hc : c ∈ s.children)
    (hd : d ∈ s.children) (hcpart : c.node.isPart = true) (hdpart : d.node.isPart = true) : c = d := by
  obtain ⟨i, hi, habove⟩ := mem_children_iff.1 hc
  obtain ⟨j, hj, habove'⟩ := mem_children_iff.1 hd
  obtain rfl : i = j := index_eq_of_length_filter hone hi hj hcpart hdpart
  exact eq_of_index hi habove hj habove'

/-- One more pair of parentheses on the inside. -/
theorem Wraps.snoc {p : Site} (h : Wraps outer p) (hkind : p.node.kind = .parenthesized)
    (hs : s ∈ p.children) (hpart : s.node.isPart = true) : Wraps outer s := by
  induction h with
  | here => exact .inside hkind hs hpart .here
  | inside hkind' hc hpart' _ ih => exact .inside hkind' hc hpart' (ih hkind hs)

/-- Parentheses that hold one expression each lead to one expression. -/
theorem Wraps.unique (hone : ∀ n ∈ root.nodes, n.HoldsOne) (houter : Of root outer)
    (hs : Wraps outer s) (ht : Wraps outer t) (hskind : s.node.kind ≠ .parenthesized)
    (htkind : t.node.kind ≠ .parenthesized) : s = t := by
  induction hs with
  | here =>
    cases ht with
    | here => rfl
    | inside hkind _ _ _ => exact absurd hkind hskind
  | inside hkind hc hpart _ ih =>
    cases ht with
    | here => exact absurd hkind htkind
    | inside _ hd hpart' hrest =>
      -- The next site inside is the one part of the parentheses.
      have hlength := hone _ houter.node_mem_nodes hkind
      obtain rfl := eq_of_mem_children hlength hc hd hpart hpart'
      exact ih (.child houter hc) hrest hskind

theorem isPart_of_kind {n : Node} {kind : Kind} (h : n.kind = kind) (hnamed : kind.isNamed = true)
    (hcomment : kind ≠ .comment) : n.isPart = true := by
  simp [Node.isPart, h, hnamed, hcomment]

/-- The outermost parentheses around an expression lead back to it. -/
theorem wraps_enclosing (hs : Of root s) (hpart : s.node.isPart = true) :
    Of root (enclosing s.node s.above) ∧ Wraps (enclosing s.node s.above) s := by
  obtain ⟨node, above⟩ := s
  induction above generalizing node with
  | nil => exact ⟨hs, .here⟩
  | cons c rest ih =>
    obtain ⟨hparent, hchild⟩ := hs.parent rfl
    by_cases hkind : c.parent.kind = .parenthesized
    · have houter : enclosing node (c :: rest) = enclosing c.parent rest := by
        rw [enclosing, if_pos hkind]
      have hpart' : c.parent.isPart = true := isPart_of_kind hkind rfl (by decide)
      obtain ⟨hof, hwraps⟩ := ih c.parent hparent hpart'
      simp only [houter]
      exact ⟨hof, hwraps.snoc hkind hchild hpart⟩
    · have houter : enclosing node (c :: rest) = ⟨node, c :: rest⟩ := by
        rw [enclosing, if_neg hkind]
      simp only [houter]
      exact ⟨hs, .here⟩

/-! ## Method calls -/

/-- The first child in a role is at the index of the role. -/
theorem child?_of_childIndex? {n : Node} {role : Role} {i : Nat} (h : n.childIndex? role = some i) :
    n.child? role = n.children[i]? := by
  obtain ⟨hi, hrole, hbefore⟩ := List.findIdx?_eq_some_iff_getElem.1 h
  rw [List.getElem?_eq_getElem hi, Node.child?, List.find?_eq_some_iff_getElem]
  refine ⟨hrole, i, hi, rfl, ?_⟩
  intro j hj
  simpa using hbefore j hj

/-- A method call `call` through a member access on the site `receiver`. -/
structure CalledOn (receiver call : Site) (access : Node) : Prop where
  isCall : call.node.kind = .call
  isMember : access.kind = .member
  callee : call.node.callee? = some access
  object : access.child? .object = some receiver.node
  path : ∃ k i, access.childIndex? .object = some k ∧ call.node.childIndex? .callee = some i ∧
    receiver.path = k :: i :: call.path

/-- A method is called on one receiver. -/
theorem CalledOn.unique {receiver receiver' call : Site} {access access' : Node}
    (h : CalledOn receiver call access) (h' : CalledOn receiver' call access')
    (hof : Of root receiver) (hof' : Of root receiver') : receiver = receiver' := by
  obtain rfl : access = access' := Option.some.inj (h.callee.symm.trans h'.callee)
  obtain ⟨k, i, hk, hi, hpath⟩ := h.path
  obtain ⟨k', i', hk', hi', hpath'⟩ := h'.path
  have hks : k = k' := Option.some.inj (hk.symm.trans hk')
  have his : i = i' := Option.some.inj (hi.symm.trans hi')
  apply hof.eq_of_path hof'
  rw [hpath, hpath', hks, his]

/-- The way up from a receiver leads through a member access to the call. -/
theorem methodCallOn?_eq_some {c : Site} (h : s.methodCallOn? = some c) :
    ∃ access k i, (enclosing s.node s.above).above = ⟨access, k⟩ :: ⟨c.node, i⟩ :: c.above ∧
      access.kind = .member ∧ access.childIndex? .object = some k ∧
      c.node.kind = .call ∧ c.node.childIndex? .callee = some i := by
  unfold methodCallOn? at h
  generalize enclosing s.node s.above = outer at h ⊢
  obtain ⟨node, above⟩ := outer
  cases above with
  | nil => simp [isObjectOfMember, isChildOf] at h
  | cons first rest =>
    cases rest with
    | nil => simp [isObjectOfMember, isChildOf, parent?] at h
    | cons second rest =>
      simp only [isObjectOfMember, isChildOf, parent?, Option.ite_none_right_eq_some,
        Bool.and_eq_true, beq_iff_eq, Option.some.injEq] at h
      obtain ⟨⟨hmember, hobject⟩, ⟨hcall, hcallee⟩, rfl⟩ := h
      exact ⟨first.parent, first.index, second.index, rfl, hmember, hobject, hcall, hcallee⟩

/-- A method call on a site stands in the tree and is called on the site with the parentheses
    around it. -/
theorem calledOn_of_methodCallOn? {c : Site} (hs : Of root s) (hpart : s.node.isPart = true)
    (h : s.methodCallOn? = some c) :
    Of root c ∧ ∃ access, CalledOn (enclosing s.node s.above) c access := by
  obtain ⟨access, k, i, habove, hmember, hobject, hcall, hcallee⟩ := methodCallOn?_eq_some h
  obtain ⟨houter, -⟩ := wraps_enclosing hs hpart
  -- The sites on the way are children of one another at the indices of their roles.
  obtain ⟨haccess, hmem⟩ := houter.parent habove
  obtain ⟨hc, hmem'⟩ := haccess.parent rfl
  obtain ⟨k', hk, hcrumb⟩ := mem_children_iff.1 hmem
  obtain ⟨i', hi, hcrumb'⟩ := mem_children_iff.1 hmem'
  rw [habove] at hcrumb
  obtain rfl : k = k' := by simpa using hcrumb
  obtain rfl : i = i' := by simpa using hcrumb'
  have hpath : (enclosing s.node s.above).path = k :: i :: c.path := by
    rw [path, habove, List.map_cons, List.map_cons, path]
  exact ⟨hc, access, hcall, hmember, (child?_of_childIndex? hcallee).trans hi,
    (child?_of_childIndex? hobject).trans hk, k, i, hobject, hcallee, hpath⟩

/-- Going down from a method call through parentheses leads to one call only. -/
theorem methodCallOn?_inj (hone : ∀ n ∈ root.nodes, n.HoldsOne) (hs : Of root s) (ht : Of root t)
    (hscall : s.node.kind = .call) (htcall : t.node.kind = .call) {c : Site}
    (hsc : s.methodCallOn? = some c) (htc : t.methodCallOn? = some c) : s = t := by
  have hspart := isPart_of_kind hscall rfl (by decide)
  have htpart := isPart_of_kind htcall rfl (by decide)
  obtain ⟨hof, hwraps⟩ := wraps_enclosing hs hspart
  obtain ⟨hof', hwraps'⟩ := wraps_enclosing ht htpart
  obtain ⟨-, access, hcalled⟩ := calledOn_of_methodCallOn? hs hspart hsc
  obtain ⟨-, access', hcalled'⟩ := calledOn_of_methodCallOn? ht htpart htc
  have houter := hcalled.unique hcalled' hof hof'
  rw [← houter] at hwraps'
  apply hwraps.unique hone hof hwraps'
  · rw [hscall]
    decide
  · rw [htcall]
    decide

/-- What is around a call is the call itself or parentheses. -/
theorem kind_enclosing (hs : Of root s) (hcall : s.node.kind = .call) :
    (enclosing s.node s.above).node.kind = .call ∨
      (enclosing s.node s.above).node.kind = .parenthesized := by
  obtain ⟨-, hwraps⟩ := wraps_enclosing hs (isPart_of_kind hcall rfl (by decide))
  generalize enclosing s.node s.above = outer at hwraps ⊢
  cases hwraps with
  | here => exact .inl hcall
  | inside hkind _ _ _ => exact .inr hkind

end JavaScript.Site

/-! ## Reports -/

namespace Chaining

open JavaScript.Site

variable {root : Node} {u : Usage} {s t : Site} {options : ChainingOptions}

/-- A call that is called on a call is no library call: the library is an identifier. -/
theorem libraryMethod?_of_methodCallOn? {c : Site} (hs : Of root s) (hcall : s.node.kind = .call)
    (h : s.methodCallOn? = some c) : u.libraryMethod? c.node = none := by
  have hpart := isPart_of_kind hcall rfl (by decide)
  obtain ⟨-, access, hcalled⟩ := calledOn_of_methodCallOn? hs hpart h
  have hmember : c.node.memberCallee? = some access := by
    simp [Node.memberCallee?, hcalled.callee, Option.filter, hcalled.isMember]
  have hreceiver : c.node.receiver? = some (enclosing s.node s.above).node := by
    simp [Node.receiver?, hmember, hcalled.object]
  have hnot : u.isLibrary (enclosing s.node s.above).node = false := by
    obtain hkind | hkind := kind_enclosing hs hcall
    · simp [Usage.isLibrary, Node.identifierName?, hkind]
    · simp [Usage.isLibrary, Node.identifierName?, hkind]
  have hlibrary : u.isLibraryCall c.node = false := by
    simp [Usage.isLibraryCall, hreceiver, hnot]
  have himported : u.importedMethod? c.node = none := by
    simp [Usage.importedMethod?, hcalled.callee, Node.identifierName?, hcalled.isMember]
  simp [Usage.libraryMethod?, hlibrary, himported]

/-- Nested calls start with a library call. -/
theorem libraryMethod?_of_isNested {anyMethod : Bool} {depth : Nat} {n : Node} (hdepth : 2 ≤ depth)
    (h : isNested u anyMethod depth n = true) : u.libraryMethod? n ≠ none := by
  intro hnone
  cases anyMethod with
  | false => simp [isNested, hnone] at h
  | true =>
    simp [isNested, nestedFrom, isLevel, hnone] at h
    omega

/-- Where a call is reported: at itself, as the start of a chain or as a library call, or at the
    single call of the chain that it starts. -/
theorem judge_cases {f : Finding} (h : judge u options s = some f) :
    f.site = s ∧ (options.mode = .never ∨ u.libraryMethod? s.node ≠ none) ∨
      options.mode ≠ .never ∧ s.node.kind = .call ∧ s.methodCallOn? = some f.site := by
  -- What the modes always and implicit have in common: a nested call, or the single call on a start.
  have hnested : ∀ anyMethod, judgeNested u anyMethod options.depth s = some f →
      f.site = s ∧ u.libraryMethod? s.node ≠ none ∨
        s.node.kind = .call ∧ s.methodCallOn? = some f.site := by
    intro anyMethod h
    unfold judgeNested at h
    split at h
    · rename_i hlevels
      obtain rfl := Option.some.inj h
      exact .inl ⟨rfl, libraryMethod?_of_isNested options.two_le_depth hlevels⟩
    · obtain ⟨c, hc, rfl⟩ := Option.map_eq_some_iff.1 h
      unfold singleCall? at hc
      split at hc
      · rename_i hstart
        obtain ⟨hmethod, -⟩ := Option.filter_eq_some_iff.1 hc
        simp only [Usage.isChainStart, Node.isCall, Bool.and_eq_true, beq_iff_eq] at hstart
        exact .inr ⟨hstart.1, hmethod⟩
      · exact nomatch hc
  -- The modes always, implicit and never.
  unfold judge at h
  split at h
  · rename_i hmode
    obtain ⟨hsite, hlibrary⟩ | hsingle := hnested true h
    · exact .inl ⟨hsite, .inr hlibrary⟩
    · exact .inr ⟨by simp [hmode], hsingle⟩
  · rename_i hmode
    obtain ⟨hsite, hlibrary⟩ | hsingle := hnested false h
    · exact .inl ⟨hsite, .inr hlibrary⟩
    · exact .inr ⟨by simp [hmode], hsingle⟩
  · rename_i hmode
    split at h
    · obtain rfl := Option.some.inj h
      exact .inl ⟨rfl, .inl hmode⟩
    · exact nomatch h

/-- What is reported for a site of a tree stands in the tree. -/
theorem of_judge (hs : Of root s) {f : Finding} (h : judge u options s = some f) : Of root f.site := by
  obtain ⟨hsite, -⟩ | ⟨-, hcall, hmethod⟩ := judge_cases h
  · rw [hsite]
    exact hs
  · exact (calledOn_of_methodCallOn? hs (isPart_of_kind hcall rfl (by decide)) hmethod).1

/-- Two calls are not reported at one node. -/
theorem judge_inj (hone : ∀ n ∈ root.nodes, n.HoldsOne) (hs : Of root s) (ht : Of root t)
    {f g : Finding} (hf : judge u options s = some f) (hg : judge u options t = some g)
    (h : f.site.path = g.site.path) : s = t := by
  have hsites : f.site = g.site := (of_judge hs hf).eq_of_path (of_judge ht hg) h
  obtain ⟨hfs, hwhy⟩ | ⟨hmode, hscall, hsc⟩ := judge_cases hf
  · obtain ⟨hgt, -⟩ | ⟨hmode, htcall, htc⟩ := judge_cases hg
    · rw [← hfs, ← hgt, hsites]
    · -- The single call of a chain is no library call.
      obtain hnever | hlibrary := hwhy
      · exact absurd hnever hmode
      · rw [← hsites, hfs] at htc
        exact absurd (libraryMethod?_of_methodCallOn? ht htcall htc) hlibrary
  · obtain ⟨hgt, hwhy⟩ | ⟨-, htcall, htc⟩ := judge_cases hg
    · obtain hnever | hlibrary := hwhy
      · exact absurd hnever hmode
      · rw [hsites, hgt] at hsc
        exact absurd (libraryMethod?_of_methodCallOn? hs hscall hsc) hlibrary
    · rw [← hsites] at htc
      exact methodCallOn?_inj hone hs ht hscall htcall hsc htc

/-- **Distinct reports.**  In a tree in which parentheses hold one expression each, the chaining rule
    reports nodes of the tree, no node twice, and no node for two calls: not as nested calls and as
    a single call of a chain, and not as the single call of two chains. -/
theorem chain_reports_distinct (u : Usage) (options : ChainingOptions) {root : Node}
    (hone : ∀ n ∈ root.nodes, n.HoldsOne) :
    (((calls root).filterMap (judge u options)).map (·.site.path)).Nodup ∧
      (∀ f ∈ (calls root).filterMap (judge u options), f.site ∈ visits root) ∧
      ∀ s ∈ calls root, ∀ t ∈ calls root, ∀ f g, judge u options s = some f → judge u options t = some g →
        f.site.path = g.site.path → s = t ∧ f = g := by
  refine ⟨?_, ?_, ?_⟩
  · have hpaths : (calls root).Pairwise fun s t => s.path ≠ t.path := by
      have hnodup := nodup_path_visits root
      rw [List.nodup_iff_pairwise_ne, List.pairwise_map] at hnodup
      exact hnodup.filter _
    rw [List.nodup_iff_pairwise_ne, List.pairwise_map, List.pairwise_filterMap]
    apply hpaths.imp_of_mem
    intro s t hs ht hne f hf g hg hpath
    exact hne (congrArg path (judge_inj hone (of_mem_calls hs) (of_mem_calls ht) hf hg hpath))
  · intro f hf
    obtain ⟨s, hs, hf⟩ := List.mem_filterMap.1 hf
    exact mem_visits_iff.2 (of_judge (of_mem_calls hs) hf)
  · intro s hs t ht f g hf hg hpath
    obtain rfl := judge_inj hone (of_mem_calls hs) (of_mem_calls ht) hf hg hpath
    exact ⟨rfl, Option.some.inj (hf.symm.trans hg)⟩

/-- A chain of one call whose start is in parentheses, with nested calls as its argument. -/
theorem chain_reports_distinct_parenthesized :
    let root := (Tree.parse "(_(a)).map(_.map(_.filter(b, f), g));".toList).root
    let reports := (calls root).filterMap
      (judge (Usage.ofSettings {}) { mode := .always, depth := 2 })
    reports.map (·.advice) = [.single, .always] ∧ (reports.map (·.site.path)).Nodup := by
  have hone : ∀ n ∈ (Tree.parse "(_(a)).map(_.map(_.filter(b, f), g));".toList).root.nodes,
      n.HoldsOne := by
    decide +kernel
  constructor
  · decide +kernel
  · exact (chain_reports_distinct (Usage.ofSettings {}) { mode := .always, depth := 2 } hone).1

end Chaining

end LodashStyle
