import LodashStyle.Proofs.LaminarFixes
import LodashStyle.Proofs.ReadStrings
import LodashStyle.Proofs.Reports

/-!
# Fixes inside one another

The fixes of one pass replace path arguments of calls.  A call stands inside the path of another
one only if this path is an array that is replaced in style `string`, and then between its
brackets.  So the fixes of a tree are apart or, in this style, strictly inside one another.

## Key results

- `fixOf?_eq_some`: a fix replaces an argument of its call, possibly in parentheses
- `compatible_path`, `compatible_below`: the fix of a call and those of the calls inside it
- `fixes_compatible`: all fixes of a tree, by induction on the tree
- `lint_fixes_nest`: what this comes to when the fixes of a pass are applied
-/

namespace LodashStyle

open JavaScript

/-! ## Layout -/

namespace JavaScript.Node

/-- A node with its children one after the other within it.  Brackets leave no nodes, so the
    children of an array lie between its ends; a literal, a comment and an empty slot hold no call. -/
structure LaidOut (n : Node) : Prop where
  within : ∀ c ∈ n.children, n.extent.start ≤ c.extent.start ∧ c.extent.stop ≤ n.extent.stop
  ordered : n.children.Pairwise fun c d => c.extent.stop ≤ d.extent.start
  brackets : n.kind = .array →
    ∀ c ∈ n.children, n.extent.start < c.extent.start ∧ c.extent.stop < n.extent.stop
  atoms : n.isLiteral = true ∨ n.isPart = false → ∀ m ∈ n.nodes, m.isCall = false

instance (n : Node) : Decidable n.LaidOut :=
  decidable_of_iff
    ((∀ c ∈ n.children, n.extent.start ≤ c.extent.start ∧ c.extent.stop ≤ n.extent.stop) ∧
      (n.children.Pairwise fun c d => c.extent.stop ≤ d.extent.start) ∧
      (n.kind = .array →
        ∀ c ∈ n.children, n.extent.start < c.extent.start ∧ c.extent.stop < n.extent.stop) ∧
      (n.isLiteral = true ∨ n.isPart = false → ∀ m ∈ n.nodes, m.isCall = false))
    ⟨fun ⟨hwithin, hordered, hbrackets, hatoms⟩ => ⟨hwithin, hordered, hbrackets, hatoms⟩,
      fun h => ⟨h.within, h.ordered, h.brackets, h.atoms⟩⟩

variable {n c d m p : Node}

/-- All nodes of a tree lie within it. -/
theorem within_of_mem_nodes (hn : ∀ m ∈ n.nodes, m.LaidOut) (hm : m ∈ n.nodes) :
    n.extent.start ≤ m.extent.start ∧ m.extent.stop ≤ n.extent.stop :=
  within_of_children (fun m hm => (hn m hm).within) hm

/-- Two children are the same or one stands before the other. -/
theorem LaidOut.children_cases (h : n.LaidOut) (hc : c ∈ n.children) (hd : d ∈ n.children) :
    c = d ∨ c.extent.stop ≤ d.extent.start ∨ d.extent.stop ≤ c.extent.start := by
  have hearlier : n.children.Pairwise fun c d =>
      c = d ∨ c.extent.stop ≤ d.extent.start ∨ d.extent.stop ≤ c.extent.start :=
    h.ordered.imp fun hle => .inr (.inl hle)
  have hlater : n.children.Pairwise fun d c =>
      c = d ∨ c.extent.stop ≤ d.extent.start ∨ d.extent.stop ≤ c.extent.start :=
    h.ordered.imp fun hle => .inr (.inr hle)
  exact hearlier.forall_of_forall_of_flip (fun c _ => .inl rfl) hlater hc hd

theorem exists_mem_of_unwrapFirst {nodes : List Node} (h : unwrapFirst nodes = some p) :
    ∃ c ∈ nodes, c.unwrap = some p := by
  induction nodes with
  | nil => cases h
  | cons c rest ih =>
    rw [unwrapFirst] at h
    split at h
    · exact ⟨c, List.mem_cons_self, h⟩
    · obtain ⟨d, hd, hp⟩ := ih h
      exact ⟨d, List.mem_cons_of_mem c hd, hp⟩

/-- What stands inside parentheses is the node itself or stands inside one of its children. -/
theorem unwrap_cases (h : n.unwrap = some p) :
    n = p ∨ n.kind = .parenthesized ∧ ∃ c ∈ n.children, c.unwrap = some p := by
  obtain ⟨label, children⟩ := n
  rw [unwrap] at h
  split at h
  · rename_i hkind
    exact .inr ⟨hkind, exists_mem_of_unwrapFirst h⟩
  · exact .inl (Option.some.inj h)

theorem mem_nodes_of_unwrap (h : n.unwrap = some p) : p ∈ n.nodes := by
  induction n using Node.induction with
  | mk label children ih =>
    obtain rfl | ⟨-, c, hc, hp⟩ := unwrap_cases h
    · exact mem_nodes_self _
    · exact mem_nodes_of_child hc (ih c hc hp)

/-- An argument of a call stands in its argument list, possibly in parentheses. -/
theorem argument?_cases {index : Nat} (h : n.argument? index = some p) :
    ∃ list ∈ n.children, list.kind = .arguments ∧ ∃ a ∈ list.children, a.unwrap = some p := by
  obtain ⟨a, ha, hunwrap⟩ := Option.bind_eq_some_iff.1 h
  have hmem := List.mem_of_getElem? ha
  unfold Node.arguments at hmem
  split at hmem
  · rename_i list hlist
    split at hmem
    · rename_i hkind
      exact ⟨list, List.mem_of_find?_eq_some hlist, eq_of_beq hkind, a, (List.mem_filter.1 hmem).1,
        hunwrap⟩
    · exact absurd hmem List.not_mem_nil
  · exact absurd hmem List.not_mem_nil

end JavaScript.Node

namespace Lint

open JavaScript.Node

variable {config : Config} {u : Usage} {style : PathStyle} {n c p : Node} {f g : Fix}

/-! ## Fixes of a tree -/

/-- The fix that is offered at a node, if it is a call. -/
def fixOf? (config : Config) (u : Usage) (n : Node) : Option Fix :=
  if config.rules.pathStyle && n.isCall then do
    let argument ← pathOf? u n
    let v ← (PathStyle.judge config.pathStyle argument).toOption
    let d ← v.diagnostic? .pathStyle none
    d.fix
  else none

/-- The fixes that are offered in a tree, in the order of the recursion. -/
def fixesIn (config : Config) (u : Usage) (n : Node) : List Fix := n.nodes.filterMap (fixOf? config u)

theorem fixesIn_eq :
    fixesIn config u n = (fixOf? config u n).toList ++ n.children.flatMap (fixesIn config u) := by
  rw [fixesIn, nodes_eq, List.filterMap_cons, List.filterMap_flatMap]
  cases fixOf? config u n <;> rfl

/-- Without a call there is no fix. -/
theorem fixesIn_of_not_isCall (h : ∀ m ∈ n.nodes, m.isCall = false) : fixesIn config u n = [] := by
  rw [fixesIn, List.filterMap_eq_nil_iff]
  intro m hm
  simp [fixOf?, h m hm]

/-- The fixes of what is found at a call. -/
theorem filterMap_fix_findingsAt (file : Option Text) {s : Site} (hcall : s.node.isCall = true) :
    ((findingsAt config u s).filterMap (reported? file)).filterMap (·.fix) =
      (fixOf? config u s.node).toList := by
  -- The chaining rule offers no replacement.
  have hchaining : (finding? config u s .chaining).toList.filterMap
      (fun f => (reported? file f).bind (·.fix)) = [] := by
    unfold finding? verdictOf
    cases Chaining.judge u config.chaining s with
    | none => rfl
    | some found => rfl
  have hpath : (finding? config u s .pathStyle).toList.filterMap
      (fun f => (reported? file f).bind (·.fix)) =
        ((verdictOf config u s .pathStyle).toOption.bind fun v =>
          (v.diagnostic? .pathStyle none).bind (·.fix)).toList := by
    unfold finding?
    cases verdictOf config u s .pathStyle with
    | error fault => rfl
    | ok v =>
      obtain ⟨extent, advice, replacement⟩ := v
      cases advice <;> cases extent <;> rfl
  rw [List.filterMap_filterMap, findingsAt_eq, List.filterMap_append, apply_ite (List.filterMap _),
    apply_ite (List.filterMap _), hchaining, hpath, List.filterMap_nil, ite_self, List.nil_append, fixOf?,
    hcall, Bool.and_true]
  cases config.rules.pathStyle with
  | false => rfl
  | true =>
    unfold verdictOf
    cases pathOf? u s.node with
    | none => rfl
    | some argument => rfl

/-- The fixes of all that is found in a tree. -/
theorem filterMap_fix_calls (file : Option Text) (root : Node) :
    (((Site.calls root).flatMap (findingsAt config u)).filterMap (reported? file)).filterMap (·.fix) =
      fixesIn config u root := by
  have hsites : ∀ s ∈ Site.calls root,
      ((findingsAt config u s).filterMap (reported? file)).filterMap (·.fix) =
        (fixOf? config u s.node).toList := by
    intro s hs
    exact filterMap_fix_findingsAt file (List.mem_filter.1 hs).2
  -- A node that is no call has no fix, so it makes no difference whether it is looked at.
  have hcalls : ∀ s : Site,
      (if s.node.isCall then fixOf? config u s.node else none) = fixOf? config u s.node := by
    intro s
    cases hcall : s.node.isCall <;> simp [fixOf?, hcall]
  calc (((Site.calls root).flatMap (findingsAt config u)).filterMap (reported? file)).filterMap (·.fix)
      = (Site.calls root).flatMap (fun s => (fixOf? config u s.node).toList) := by
        rw [List.filterMap_flatMap, List.filterMap_flatMap, List.flatMap_def, List.map_congr_left hsites,
          ← List.flatMap_def]
    _ = (Site.visits root).filterMap (fun s => fixOf? config u s.node) := by
        rw [← List.filterMap_eq_flatMap_toList, Site.calls, List.filterMap_filter]
        simp only [hcalls]
    _ = fixesIn config u root := by
        rw [fixesIn, ← Site.map_node_visits, List.filterMap_map]
        rfl

/-! ## Paths -/

/-- What is replaced in a style. -/
def IsReplaced (p : Node) : PathStyle → Prop
  | .asNeeded => PathStyle.isLiteralArray p = true
  | .array => p.kind = .string
  | .string => p.kind = .array

theorem span_of_isFixOf (h : IsFixOf style p f) :
    f.start = p.extent.start ∧ f.stop = p.extent.stop := by
  obtain ⟨-, -, hspan⟩ := h
  exact hspan

theorem isReplaced_of_isFixOf (hp : p.unwrap = some p) (h : IsFixOf style p f) : IsReplaced p style := by
  obtain ⟨advice, hjudge, -, -⟩ := h
  have hreplacement : (PathStyle.judge style p).map (·.replacement) =
      PathStyle.shapeOf p >>= fun _ => PathStyle.rewritten style p := PathStyle.judge_replacement_eq hp
  rw [hjudge] at hreplacement
  obtain ⟨-, -, hrewritten⟩ := bind_eq_ok hreplacement.symm
  -- Any other path is left as it is in the style.
  cases style with
  | asNeeded =>
    simp only [PathStyle.rewritten] at hrewritten
    split at hrewritten
    · assumption
    · exact nomatch hrewritten
  | array =>
    simp only [PathStyle.rewritten] at hrewritten
    split at hrewritten
    · assumption
    · exact nomatch hrewritten
  | string =>
    simp only [PathStyle.rewritten] at hrewritten
    split at hrewritten
    · rename_i hkind
      exact hkind.1
    · exact nomatch hrewritten

/-- The path of a call stands in its argument list, possibly in parentheses. -/
theorem pathOf?_cases {argument : Node} (h : pathOf? u n = some argument) :
    ∃ list ∈ n.children, list.kind = .arguments ∧ ∃ a ∈ list.children, a.unwrap = some argument := by
  obtain ⟨⟨method, form⟩, -, h⟩ := Option.bind_eq_some_iff.1 h
  simp only [Usage.pathArgument?] at h
  split at h
  · cases h
  · exact argument?_cases h
  · exact argument?_cases h
  · cases h

/-- What the fix of a call replaces. -/
theorem fixOf?_path (h : fixOf? config u n = some f) :
    ∃ p, pathOf? u n = some p ∧ IsFixOf config.pathStyle p f := by
  unfold fixOf? at h
  split at h
  · obtain ⟨argument, hargument, h⟩ := Option.bind_eq_some_iff.1 h
    obtain ⟨v, hv, h⟩ := Option.bind_eq_some_iff.1 h
    obtain ⟨d, hd, hfix⟩ := Option.bind_eq_some_iff.1 h
    obtain ⟨-, -, -, a, -, hunwrap⟩ := pathOf?_cases hargument
    refine ⟨argument, hargument, ?_⟩
    have hjudge := eq_ok_of_toOption hv
    -- The verdict is on the argument itself: it has no parentheses around it any more.
    obtain rfl | ⟨p, hp, rfl | ⟨advice, replacement, rfl⟩⟩ := isOn_judge hjudge
    · cases hd
    · cases hd
    · obtain rfl : argument = p := Option.some.inj ((unwrap_unwrap hunwrap).symm.trans hp)
      obtain rfl := Option.some.inj hd
      obtain ⟨text, rfl, hfix⟩ := Option.bind_eq_some_iff.1 hfix
      unfold Verdict.fixAt at hfix
      split at hfix
      · obtain rfl := Option.some.inj hfix
        exact ⟨advice, hjudge, rfl, rfl⟩
      · cases hfix
  · cases h

/-- What the fix of a call replaces, and where it stands in the call. -/
theorem fixOf?_eq_some (h : fixOf? config u n = some f) :
    ∃ list ∈ n.children, list.kind = .arguments ∧ ∃ a ∈ list.children, ∃ p, a.unwrap = some p ∧
      IsFixOf config.pathStyle p f := by
  obtain ⟨p, hpath, hfix⟩ := fixOf?_path h
  obtain ⟨list, hlist, hkind, a, ha, hunwrap⟩ := pathOf?_cases hpath
  exact ⟨list, hlist, hkind, a, ha, p, hunwrap, hfix⟩

/-! ## Fixes against one another -/

/-- Fixes that are apart or, in style `string`, inside one another. -/
def Compatible (style : PathStyle) (f g : Fix) : Prop :=
  f.Apart g ∨ style = .string ∧ (f.isInside g = true ∨ g.isInside f = true)

/-- The fixes of a tree lie within it. -/
theorem within_of_mem_fixesIn (hn : ∀ m ∈ n.nodes, m.LaidOut) (hg : g ∈ fixesIn config u n) :
    n.extent.start ≤ g.start ∧ g.stop ≤ n.extent.stop := by
  obtain ⟨m, hm, hg⟩ := List.mem_filterMap.1 hg
  obtain ⟨list, hlist, -, a, ha, p, hp, hfix⟩ := fixOf?_eq_some hg
  obtain ⟨hstart, hstop⟩ := span_of_isFixOf hfix
  have hpath : p ∈ m.nodes := mem_nodes_of_child hlist (mem_nodes_of_child ha (mem_nodes_of_unwrap hp))
  rw [hstart, hstop]
  exact within_of_mem_nodes hn (mem_nodes_trans hm hpath)

theorem fixesIn_of_kind {kind : Kind} (h : n.kind = kind) (hkind : kind ≠ .call) :
    fixesIn config u n = n.children.flatMap (fixesIn config u) := by
  have hnone : fixOf? config u n = none := by simp [fixOf?, Node.isCall, h, hkind]
  rw [fixesIn_eq, hnone]
  rfl

/-- A fix within one child is apart from the fixes of the other children. -/
theorem compatible_children (hn : ∀ m ∈ n.nodes, m.LaidOut) (hc : c ∈ n.children)
    (hstart : c.extent.start ≤ f.start) (hstop : f.stop ≤ c.extent.stop)
    (h : ∀ g ∈ fixesIn config u c, Compatible style f g) :
    ∀ g ∈ n.children.flatMap (fixesIn config u), Compatible style f g := by
  intro g hg
  obtain ⟨d, hd, hg⟩ := List.mem_flatMap.1 hg
  obtain ⟨hdstart, hdstop⟩ := within_of_mem_fixesIn (fun m hm => hn m (mem_nodes_of_child hd hm)) hg
  obtain rfl | hbefore | hafter := (hn n (mem_nodes_self n)).children_cases hc hd
  · exact h g hg
  · exact .inl (.inl (by omega))
  · exact .inl (.inr (by omega))

/-- What stands in a path that is replaced: no fix, or in style `string` fixes between brackets. -/
theorem compatible_path (hn : ∀ m ∈ p.nodes, m.LaidOut) (hp : p.unwrap = some p)
    (hf : IsFixOf style p f) : ∀ g ∈ fixesIn config u p, Compatible style f g := by
  obtain ⟨hstart, hstop⟩ := span_of_isFixOf hf
  have hlayout := hn p (mem_nodes_self p)
  intro g hg
  cases style with
  | asNeeded =>
    have hliteral : PathStyle.isLiteralArray p = true := isReplaced_of_isFixOf hp hf
    have hkind : p.kind = .array := PathStyle.kind_of_isLiteralArray hliteral
    rw [fixesIn_of_kind hkind (by decide)] at hg
    obtain ⟨c, hc, hg⟩ := List.mem_flatMap.1 hg
    -- A child is a literal, a comment or an empty slot.
    have hatom : c.isLiteral = true ∨ c.isPart = false := by
      cases hpart : c.isPart with
      | false => exact .inr rfl
      | true =>
        simp only [PathStyle.isLiteralArray, Bool.and_eq_true, List.all_eq_true] at hliteral
        exact .inl (hliteral.2 c (List.mem_filter.2 ⟨hc, hpart⟩))
    have hcalls := (hn c (mem_nodes_of_child hc (mem_nodes_self c))).atoms hatom
    rw [fixesIn_of_not_isCall hcalls] at hg
    exact absurd hg List.not_mem_nil
  | array =>
    have hkind : p.kind = .string := isReplaced_of_isFixOf hp hf
    have hliteral : p.isLiteral = true := PathStyle.isLiteral_of_string hkind
    rw [fixesIn_of_not_isCall (hlayout.atoms (.inl hliteral))] at hg
    exact absurd hg List.not_mem_nil
  | string =>
    have hkind : p.kind = .array := isReplaced_of_isFixOf hp hf
    rw [fixesIn_of_kind hkind (by decide)] at hg
    obtain ⟨c, hc, hg⟩ := List.mem_flatMap.1 hg
    have hbetween := hlayout.brackets hkind c hc
    have hwithin := within_of_mem_fixesIn (fun m hm => hn m (mem_nodes_of_child hc hm)) hg
    have hinside : g.isInside f = true := by
      rw [Fix.isInside_iff]
      omega
    exact .inr ⟨rfl, .inr hinside⟩

/-- Parentheses around a path hold no other call. -/
theorem compatible_unwrap (hn : ∀ m ∈ n.nodes, m.LaidOut) (hp : n.unwrap = some p)
    (hf : IsFixOf style p f) : ∀ g ∈ fixesIn config u n, Compatible style f g := by
  induction n using Node.induction with
  | mk label children ih =>
    obtain rfl | ⟨hkind, c, hc, hp⟩ := unwrap_cases hp
    · exact compatible_path hn hp hf
    · have hbelow : ∀ m ∈ c.nodes, m.LaidOut := fun m hm => hn m (mem_nodes_of_child hc hm)
      have hwithin := within_of_mem_nodes hbelow (mem_nodes_of_unwrap hp)
      obtain ⟨hstart, hstop⟩ := span_of_isFixOf hf
      -- The path stands in one child, and beside it there are comments at most.
      rw [fixesIn_of_kind hkind (by decide)]
      exact compatible_children hn hc (by omega) (by omega) (ih c hc hbelow hp)

/-- The fix of a call and those of the calls inside it. -/
theorem compatible_below (hn : ∀ m ∈ n.nodes, m.LaidOut) (h : fixOf? config u n = some f) :
    ∀ g ∈ n.children.flatMap (fixesIn config u), Compatible config.pathStyle f g := by
  obtain ⟨list, hlist, hkind, a, ha, p, hp, hf⟩ := fixOf?_eq_some h
  have hlistn : ∀ m ∈ list.nodes, m.LaidOut := fun m hm => hn m (mem_nodes_of_child hlist hm)
  have han : ∀ m ∈ a.nodes, m.LaidOut := fun m hm => hlistn m (mem_nodes_of_child ha hm)
  -- The path lies within its argument, and this within the argument list.
  have hwithin := within_of_mem_nodes han (mem_nodes_of_unwrap hp)
  have hargument := (hlistn list (mem_nodes_self list)).within a ha
  obtain ⟨hstart, hstop⟩ := span_of_isFixOf hf
  apply compatible_children hn hlist (by omega) (by omega)
  rw [fixesIn_of_kind hkind (by decide)]
  exact compatible_children hlistn ha (by omega) (by omega) (compatible_unwrap han hp hf)

/-- The fixes of a tree are apart or, in style `string`, inside one another. -/
theorem fixes_compatible (hn : ∀ m ∈ n.nodes, m.LaidOut) :
    (fixesIn config u n).Pairwise (Compatible config.pathStyle) := by
  induction n using Node.induction with
  | mk label children ih =>
    rw [fixesIn_eq, List.pairwise_append]
    refine ⟨?_, ?_, ?_⟩
    · cases fixOf? config u (.mk label children) with
      | none => exact .nil
      | some f => exact List.pairwise_singleton _ _
    · rw [List.pairwise_flatMap]
      have hbelow : ∀ c ∈ children, ∀ m ∈ c.nodes, m.LaidOut :=
        fun c hc m hm => hn m (mem_nodes_of_child hc hm)
      constructor
      · intro c hc
        exact ih c hc (hbelow c hc)
      · -- The fixes of one child stand before those of the next ones.
        apply (hn _ (mem_nodes_self _)).ordered.imp_of_mem
        intro c d hc hd hle f hf g hg
        have hcf := within_of_mem_fixesIn (hbelow c hc) hf
        have hdg := within_of_mem_fixesIn (hbelow d hd) hg
        exact .inl (.inl (by omega))
    · intro f hf g hg
      exact compatible_below hn (Option.mem_toList.1 hf) g hg

theorem Compatible.laminar (h : Compatible style f g) : f.Laminar g := by
  obtain hapart | ⟨-, hinside⟩ := h
  · exact .inl hapart
  · exact .inr hinside

theorem Compatible.apart (h : Compatible style f g) (hstyle : style ≠ .string) : f.Apart g := by
  obtain hapart | ⟨hstring, -⟩ := h
  · exact hapart
  · exact absurd hstring hstyle

/-! ## Passes -/

/-- The fixes of what is found. -/
def fixesOf (file : Option Text) (findings : List Finding) : List Fix :=
  (diagnostics file findings).filterMap (·.fix)

theorem fixesOf_perm (file : Option Text) {root : Node} {findings : List Finding}
    (h : (visitAll config u (Site.calls root)).outcome = .ok findings) :
    (fixesOf file findings).Perm (fixesIn config u root) := by
  obtain ⟨-, rfl⟩ := visitAll_eq_ok_iff.1 h
  rw [fixesOf, diagnostics_eq, ← filterMap_fix_calls file root]
  exact (sortBySpan_perm Diagnostic.span _).filterMap _

/-- **Nested fixes.**  Two fixes of a pass over a tree within a source, as `lintTree` makes it for
    the names of the library in the tree and as it can be made for any names, are apart or one lies
    strictly inside the other.  In the styles `asNeeded` and `array` they are all apart, so that
    none is skipped.  In any style the outermost ones are applied, in the order of their spans, and
    those inside another one are skipped. -/
theorem lint_fixes_nest {config : Config} {u : Usage} {root : Node} {findings : List Finding}
    (file : Option Text) (source : List Char) (hroot : ∀ n ∈ root.nodes, n.LaidOut)
    (hsource : root.extent.stop ≤ (Utf8.encode source).length)
    (h : (visitAll config u (Site.calls root)).outcome = .ok findings) :
    (fixesOf file findings).Pairwise Fix.Laminar ∧
    (config.pathStyle ≠ .string →
      (fixesOf file findings).Pairwise Fix.Apart ∧
      ∀ r, applyFixes source (diagnostics file findings) = .ok r →
        r.applied = Fix.sort (fixesOf file findings) ∧ r.skipped = []) ∧
    (∀ r, applyFixes source (diagnostics file findings) = .ok r →
      r.applied = Fix.outermost (fixesOf file findings) ∧
      r.skipped = Fix.enclosed (fixesOf file findings)) ∧
    ((∀ f ∈ Fix.outermost (fixesOf file findings),
        Fix.Between source f.start ∧ Fix.Between source f.stop ∧ f.text.utf8? ≠ none) →
      ∃ r, applyFixes source (diagnostics file findings) = .ok r) := by
  have hperm := fixesOf_perm file h
  have hcompatible : (fixesIn config u root).Pairwise (Compatible config.pathStyle) := fixes_compatible hroot
  -- How two fixes lie to one another does not depend on the order in which they come.
  have hlaminar : (fixesOf file findings).Pairwise Fix.Laminar :=
    (hperm.pairwise_iff Fix.Laminar.symm).2 (hcompatible.imp Compatible.laminar)
  have hwithin : ∀ f ∈ fixesOf file findings, f.stop ≤ (Utf8.encode source).length := by
    intro f hf
    have hstop := (within_of_mem_fixesIn hroot (hperm.mem_iff.1 hf)).2
    omega
  have hchosen : chosen source (diagnostics file findings) =
      (Fix.outermost (fixesOf file findings), Fix.enclosed (fixesOf file findings)) :=
    Fix.select_of_laminar hwithin hlaminar
  have hresult : ∀ r, applyFixes source (diagnostics file findings) = .ok r →
      r.applied = Fix.outermost (fixesOf file findings) ∧
      r.skipped = Fix.enclosed (fixesOf file findings) := by
    intro r hr
    rw [applyFixes_eq_ok_iff, hchosen] at hr
    exact hr.2
  refine ⟨hlaminar, ?_, hresult, ?_⟩
  · intro hstyle
    have hapart : (fixesOf file findings).Pairwise Fix.Apart :=
      (hperm.pairwise_iff Fix.Apart.symm).2 (hcompatible.imp fun hc => hc.apart hstyle)
    refine ⟨hapart, ?_⟩
    intro r hr
    rw [← Fix.outermost_of_apart hapart, ← Fix.enclosed_of_apart hapart]
    exact hresult r hr
  · intro hwhole
    apply exists_applyFixes
    rw [hchosen]
    exact hwhole

/-- An array inside an array: the outer one is replaced and the inner one is skipped. -/
theorem lint_fixes_nest_once :
    ∃ (findings : List Finding) (outer inner : Fix) (r : FixResult),
      (visitAll stringPaths (Usage.ofSettings stringPaths.settings)
        (Site.calls (Tree.parse (nestedArrays 1)).root)).outcome = .ok findings ∧
      inner.isInside outer = true ∧
      applyFixes (nestedArrays 1) (diagnostics none findings) = .ok r ∧
      r.applied = [outer] ∧ r.skipped = [inner] := by
  let root := (Tree.parse (nestedArrays 1)).root
  let outer : Fix := ⟨9, 26, "\x60[$\x7b_.get(o, ['a'])\x7d]\x60", by decide⟩
  let inner : Fix := ⟨19, 24, "'a'", by decide⟩
  have hrun : ((visitAll stringPaths (Usage.ofSettings stringPaths.settings)
      (Site.calls root)).outcome.toOption.any fun findings =>
        decide ((findings.filterMap (reported? none)).Pairwise fun a b => Diagnostic.le a b) &&
          decide ((findings.filterMap (reported? none)).filterMap (·.fix) = [outer, inner])) = true := by
    decide +kernel
  obtain ⟨findings, hfindings, hrun⟩ := (Option.any_eq_true _ _).1 hrun
  simp only [Bool.and_eq_true, decide_eq_true_eq] at hrun
  obtain ⟨hsorted, hfixes⟩ := hrun
  have hok := eq_ok_of_toOption hfindings
  -- The two diagnostics come in order, so that sorting leaves them.
  have hunsorted : diagnostics none findings = findings.filterMap (reported? none) :=
    List.mergeSort_of_pairwise hsorted
  have hfixes : fixesOf none findings = [outer, inner] := by
    rw [fixesOf, hunsorted, hfixes]
  have hsort : Fix.sort [outer, inner] = [outer, inner] := List.mergeSort_of_pairwise (by decide)
  have houter : Fix.outermost (fixesOf none findings) = [outer] := by
    rw [hfixes, Fix.outermost, hsort]
    rfl
  have hinner : Fix.enclosed (fixesOf none findings) = [inner] := by
    rw [hfixes, Fix.enclosed, hsort]
    rfl
  have hroot : ∀ n ∈ root.nodes, n.LaidOut := by decide +kernel
  have hsource : root.extent.stop ≤ (Utf8.encode (nestedArrays 1)).length := by decide +kernel
  obtain ⟨-, -, hresult, hreturns⟩ := lint_fixes_nest none (nestedArrays 1) hroot hsource hok
  -- The span of the outer fix starts and ends between characters.
  have hwhole : ∀ f ∈ [outer],
      Fix.Between (nestedArrays 1) f.start ∧ Fix.Between (nestedArrays 1) f.stop ∧ f.text.utf8? ≠ none := by
    intro f hf
    obtain rfl := List.mem_singleton.1 hf
    refine ⟨⟨(nestedArrays 1).take 9, List.take_prefix _ _, ?_⟩,
      ⟨(nestedArrays 1).take 26, List.take_prefix _ _, ?_⟩, ?_⟩
    · decide +kernel
    · decide +kernel
    · decide +kernel
  rw [houter] at hreturns
  obtain ⟨r, hr⟩ := hreturns hwhole
  obtain ⟨happlied, hskipped⟩ := hresult r hr
  exact ⟨findings, outer, inner, r, hok, rfl, hr, happlied.trans houter, hskipped.trans hinner⟩

end Lint

end LodashStyle
