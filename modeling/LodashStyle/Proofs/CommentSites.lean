import LodashStyle.Proofs.CommentFree
import LodashStyle.Proofs.Reports
import Mathlib.Data.List.Nodup

/-!
# Sites of a tree without its comments

A site is the way to a node, by the index of each node among the children of its parent.  Where comments
are taken out, a node moves up by as many places as there were comments before it among its siblings.
`Site.withoutComments` is the same node in the tree without comments, and going from one site to another
leads to the same sites in both trees.  So the calls of the two trees are the same, each is judged alike
by both rules, and what is reported is the same.

## Key results

- `children_withoutComments`, `calls_withoutComments`: the sites that are left
- `eq_of_withoutComments`: children that are left stay apart
- `isChildOf_withoutComments`, `methodCallOn?_withoutComments`: what is found by going up
- `Chaining.judge_withoutComments`: the chaining rule reports the same site
- `comments_invisible`: both rules give the same verdicts, and the diagnostics are the same
-/

namespace LodashStyle

open JavaScript

namespace JavaScript

/-- The step up in the tree without comments: the comments before the node are not counted. -/
def Crumb.withoutComments (c : Crumb) : Crumb :=
  ⟨c.parent.withoutComments, (c.parent.children.take c.index).countP Node.isCode⟩

namespace Site

/-- The site in the tree without comments. -/
def withoutComments (s : Site) : Site := ⟨s.node.withoutComments, s.above.map Crumb.withoutComments⟩

variable {root : Node} {s c t : Site}

@[simp] theorem node_withoutComments (s : Site) : s.withoutComments.node = s.node.withoutComments := rfl

@[simp] theorem withoutComments_root (n : Node) :
    (Site.root n).withoutComments = Site.root n.withoutComments :=
  rfl

/-! ## Going down -/

/-- What is left of the children of a site, up to any of them. -/
theorem mapIdx_withoutComments (s : Site) {nodes : List Node} (h : nodes <+: s.node.children) :
    (((nodes.filter Node.isCode).map Node.withoutComments).mapIdx fun i n =>
        (⟨n, ⟨s.node.withoutComments, i⟩ :: s.above.map Crumb.withoutComments⟩ : Site)) =
      ((nodes.mapIdx fun i n => (⟨n, ⟨s.node, i⟩ :: s.above⟩ : Site)).filter (·.node.isCode)).map
        withoutComments := by
  -- From the last child back, so that the nodes before it are all there.
  induction nodes using List.reverseRecOn with
  | nil => rfl
  | append_singleton nodes n ih =>
    have hfirst : nodes <+: s.node.children := (List.prefix_append nodes [n]).trans h
    have htake : s.node.children.take nodes.length = nodes := (List.prefix_iff_eq_take.1 hfirst).symm
    rw [List.mapIdx_concat, List.filter_append, List.filter_append, List.map_append, List.map_append,
      ← ih hfirst]
    by_cases hcode : n.isCode = true
    · -- The node moves up to behind the nodes before it that are left.
      have hindex : nodes.countP Node.isCode =
          ((nodes.filter Node.isCode).map Node.withoutComments).length := by
        rw [List.length_map, List.countP_eq_length_filter]
      simp [hcode, withoutComments, Crumb.withoutComments, htake, List.mapIdx_append, hindex]
    · simp [hcode]

/-- The children that are left are those that are no comments. -/
theorem children_withoutComments (s : Site) :
    s.withoutComments.children = (s.children.filter (·.node.isCode)).map withoutComments := by
  rw [Site.children, node_withoutComments, Node.children_withoutComments]
  exact mapIdx_withoutComments s (List.prefix_refl _)

/-- What is left out of a list does not matter to what is made of it, if nothing is made of that. -/
theorem flatMap_filter {α β : Type} {keep : α → Bool} {f g : α → List β} {xs : List α}
    (hkept : ∀ x ∈ xs, keep x = true → f x = g x) (hleft : ∀ x ∈ xs, keep x = false → g x = []) :
    (xs.filter keep).flatMap f = xs.flatMap g := by
  induction xs with
  | nil => rfl
  | cons x xs ih =>
    rw [List.forall_mem_cons] at hkept hleft
    have hrest := ih hkept.2 hleft.2
    rw [List.flatMap_cons]
    cases hx : keep x with
    | true => rw [List.filter_cons_of_pos hx, List.flatMap_cons, hkept.1 hx, hrest]
    | false => rw [List.filter_cons_of_neg (by simp [hx]), hleft.1 hx, hrest, List.nil_append]

/-- Below a site the calls are left, for comments hold none. -/
theorem filter_preorder_withoutComments (h : s.node.CommentsAside) :
    s.withoutComments.preorder.filter (·.node.isCall) =
      (s.preorder.filter (·.node.isCall)).map withoutComments := by
  induction s using Site.induction with
  | step s ih =>
    have hbelow : (s.children.filter (·.node.isCode)).flatMap
          (fun c => c.withoutComments.preorder.filter (·.node.isCall)) =
        s.children.flatMap fun c => (c.preorder.filter (·.node.isCall)).map withoutComments := by
      -- Comments hold no calls, so that nothing is lost with them.
      apply flatMap_filter
      · intro c hc _
        exact ih c hc (h.of_child (node_mem_of_mem_children hc))
      · intro c hc hcode
        have hcomment : c.node.kind = .comment := by simpa [Node.isCode] using hcode
        have hmem := Node.mem_nodes_of_child (node_mem_of_mem_children hc) (Node.mem_nodes_self c.node)
        have hnone := (h c.node hmem hcomment).2
        rw [List.map_eq_nil_iff, List.filter_eq_nil_iff]
        intro t ht
        have htmem : t.node ∈ c.node.nodes := by
          rw [← map_node_preorder]
          exact List.mem_map_of_mem ht
        simp [hnone t.node htmem]
    rw [preorder_eq, preorder_eq, List.filter_cons, List.filter_cons, List.filter_flatMap,
      List.filter_flatMap, children_withoutComments, List.flatMap_map, hbelow, node_withoutComments,
      Node.isCall_withoutComments]
    split
    · rw [List.map_cons, List.map_flatMap]
    · rw [List.map_flatMap]

/-- The same calls are visited, in the same order. -/
theorem calls_withoutComments (h : root.CommentsAside) :
    calls root.withoutComments = (calls root).map withoutComments := by
  rw [calls_eq_preorder, calls_eq_preorder, ← withoutComments_root]
  exact filter_preorder_withoutComments h

/-- The child in a role is the same, at the place it has among the children that are left. -/
theorem child?_withoutComments (h : s.node.CommentsAside) (role : Role) :
    s.withoutComments.child? role = (s.child? role).map withoutComments := by
  rw [child?, children_withoutComments]
  apply Node.find?_map_filter
  · intro c
    rw [node_withoutComments, Node.role_withoutComments]
  · intro c hc hrole
    exact h.isCode_of_role (node_mem_of_mem_children hc) (eq_of_beq hrole)

/-! ## Going up -/

/-- Different children have different places. -/
theorem nodup_children (s : Site) : s.children.Nodup :=
  (pairwise_path_children s).imp fun hne heq => hne (congrArg path heq)

/-- Children that are left stay apart. -/
theorem eq_of_withoutComments {d : Site} (hc : c ∈ s.children) (hd : d ∈ s.children)
    (hccode : c.node.isCode = true) (hdcode : d.node.isCode = true)
    (h : c.withoutComments = d.withoutComments) : c = d := by
  -- In the tree without comments the children are at different indices again.
  have hnodup := nodup_children s.withoutComments
  rw [children_withoutComments] at hnodup
  exact List.inj_on_of_nodup_map hnodup (List.mem_filter.2 ⟨hc, hccode⟩) (List.mem_filter.2 ⟨hd, hdcode⟩) h

/-- A node that is no comment is in the same role. -/
theorem isChildOf_withoutComments (hroot : root.CommentsAside) (hs : Of root s)
    (hcode : s.node.isCode = true) (kind : Kind) (role : Role) :
    s.withoutComments.isChildOf kind role = s.isChildOf kind role := by
  cases hs with
  | root => rfl
  | @child p _ hp hc =>
    have haside : p.node.CommentsAside := hroot.of_mem_nodes hp.node_mem_nodes
    have hc' : s.withoutComments ∈ p.withoutComments.children := by
      rw [children_withoutComments]
      exact List.mem_map_of_mem (List.mem_filter.2 ⟨hc, hcode⟩)
    have hchild : p.withoutComments.child? role = some s.withoutComments ↔ p.child? role = some s := by
      rw [child?_withoutComments haside, Option.map_eq_some_iff]
      constructor
      · -- The child that is found has a role, so that it is no comment either.
        rintro ⟨d, hd, heq⟩
        have hmem := List.mem_of_find?_eq_some hd
        have hrole : d.node.role = some role := by simpa using List.find?_some hd
        have hdcode := haside.isCode_of_role (node_mem_of_mem_children hmem) hrole
        rw [hd, eq_of_withoutComments hmem hc hdcode hcode heq]
      · intro hs
        exact ⟨s, hs, rfl⟩
    rw [Bool.eq_iff_iff, isChildOf_iff hc', isChildOf_iff hc, hchild, node_withoutComments,
      Node.kind_withoutComments]

/-- The way up from a site goes through the same nodes. -/
theorem parent?_withoutComments (s : Site) : s.withoutComments.parent? = s.parent?.map withoutComments := by
  obtain ⟨node, above⟩ := s
  cases above with
  | nil => rfl
  | cons c rest => rfl

/-- So does the way out of the parentheses around a node. -/
theorem enclosing_withoutComments (n : Node) (above : List Crumb) :
    enclosing n.withoutComments (above.map Crumb.withoutComments) = (enclosing n above).withoutComments := by
  induction above generalizing n with
  | nil => rfl
  | cons c rest ih =>
    have hkind : c.withoutComments.parent.kind = c.parent.kind := Node.kind_withoutComments c.parent
    rw [List.map_cons, enclosing, enclosing, hkind]
    split
    · exact ih c.parent
    · rfl

/-- Of all kinds only one is that of comments. -/
theorem isCode_of_kind {n : Node} {kind : Kind} (h : n.kind = kind) (hkind : kind ≠ .comment) :
    n.isCode = true := by
  rw [Node.isCode, h, bne_iff_ne]
  exact hkind

/-- A site of a tree is among the children of its parent. -/
theorem Of.parent? {p : Site} (hs : Of root s) (h : s.parent? = some p) : Of root p ∧ s ∈ p.children := by
  obtain ⟨node, above⟩ := s
  cases above with
  | nil => exact nomatch h
  | cons c rest =>
    obtain rfl := Option.some.inj h
    exact hs.parent rfl

/-- What holds of the comments in a tree holds of those in its calls. -/
theorem commentsAside_of_mem_calls (hroot : root.CommentsAside) (hs : s ∈ calls root) :
    s.node.CommentsAside :=
  hroot.of_mem_nodes (of_mem_calls hs).node_mem_nodes

/-- A method called on a call is visited too. -/
theorem mem_calls_of_methodCallOn? (hs : s ∈ calls root) (h : s.methodCallOn? = some t) : t ∈ calls root := by
  obtain ⟨hof, hcall⟩ := mem_calls_iff.1 hs
  have hpart : s.node.isPart = true := isPart_of_kind (eq_of_beq hcall) rfl (by decide)
  obtain ⟨hof', access, hcalled⟩ := calledOn_of_methodCallOn? hof hpart h
  exact mem_calls_iff.2 ⟨hof', beq_of_eq hcalled.isCall⟩

/-- The call of a method on a call is the same. -/
theorem methodCallOn?_withoutComments (hroot : root.CommentsAside) (hs : s ∈ calls root) :
    s.withoutComments.methodCallOn? = s.methodCallOn?.map withoutComments := by
  have hcall : s.node.kind = .call := eq_of_beq (mem_calls_iff.1 hs).2
  have hs := of_mem_calls hs
  have houter : enclosing s.withoutComments.node s.withoutComments.above =
      (enclosing s.node s.above).withoutComments := enclosing_withoutComments s.node s.above
  have hof := (wraps_enclosing hs (isPart_of_kind hcall rfl (by decide))).1
  have hcode : (enclosing s.node s.above).node.isCode = true := by
    obtain hkind | hkind := kind_enclosing hs hcall
    · exact isCode_of_kind hkind (by decide)
    · exact isCode_of_kind hkind (by decide)
  -- From here on only what is around the call matters, which is the call itself or parentheses.
  rw [methodCallOn?, houter, methodCallOn?]
  generalize enclosing s.node s.above = outer at hof hcode
  rw [isObjectOfMember, isChildOf_withoutComments hroot hof hcode, parent?_withoutComments, isObjectOfMember]
  by_cases hobject : outer.isChildOf .member .object = true
  · rw [if_pos hobject, if_pos hobject]
    cases hparent : outer.parent? with
    | none => rfl
    | some access =>
      obtain ⟨haccess, hchild⟩ := hof.parent? hparent
      have hmember := ((isChildOf_iff hchild).1 hobject).1
      dsimp only [Option.map_some]
      rw [isChildOf_withoutComments hroot haccess (isCode_of_kind hmember (by decide)),
        parent?_withoutComments]
      split
      · rfl
      · rfl
  · rw [if_neg hobject, if_neg hobject]
    rfl

end Site

end JavaScript

/-! ## The chaining rule -/

namespace Chaining

open Site

variable {u : Usage} {root : Node} {s : Site}

/-- A finding in the tree without comments: the same site is at fault. -/
def Finding.withoutComments (f : Finding) : Finding := ⟨f.site.withoutComments, f.advice⟩

/-- The value is taken out of the chain behind the same calls. -/
theorem isBeforeBreaker_withoutComments (hroot : root.CommentsAside) (hs : s ∈ calls root) :
    isBeforeBreaker u s.withoutComments = isBeforeBreaker u s := by
  rw [isBeforeBreaker, methodCallOn?_withoutComments hroot hs, isBeforeBreaker]
  cases hnext : s.methodCallOn? with
  | none => rfl
  | some next =>
    have haside := commentsAside_of_mem_calls hroot (mem_calls_of_methodCallOn? hs hnext)
    rw [Option.map_some, Option.bind_some, Option.bind_some, node_withoutComments,
      Node.methodName?_withoutComments haside]

/-- A chain of one call is found at the same place. -/
theorem singleCall?_withoutComments (hroot : root.CommentsAside) (hs : s ∈ calls root) :
    singleCall? u s.withoutComments = (singleCall? u s).map withoutComments := by
  have hstart : u.isChainStart s.withoutComments.node = u.isChainStart s.node :=
    Usage.isChainStart_withoutComments (commentsAside_of_mem_calls hroot hs)
  rw [singleCall?, hstart, methodCallOn?_withoutComments hroot hs, singleCall?]
  split
  · cases hcall : s.methodCallOn? with
    | none => rfl
    | some call =>
      have hmem := mem_calls_of_methodCallOn? hs hcall
      rw [Option.map_some, Option.filter_some, methodCallOn?_withoutComments hroot hmem, Option.isNone_map,
        isBeforeBreaker_withoutComments hroot hmem, Option.filter_some]
      split
      · rfl
      · rfl
  · rfl

/-- The chaining rule gives the same advice about the same site. -/
theorem judge_withoutComments (options : ChainingOptions) (hroot : root.CommentsAside)
    (hs : s ∈ calls root) :
    judge u options s.withoutComments = (judge u options s).map Finding.withoutComments := by
  have haside := commentsAside_of_mem_calls hroot hs
  -- The two modes that ask for nested calls ask the same of a site without comments.
  have hnested : ∀ anyMethod, judgeNested u anyMethod options.depth s.withoutComments =
      (judgeNested u anyMethod options.depth s).map Finding.withoutComments := by
    intro anyMethod
    rw [judgeNested, node_withoutComments, isNested_withoutComments haside,
      singleCall?_withoutComments hroot hs, judgeNested]
    split
    · rfl
    · rw [Option.map_map, Option.map_map]
      rfl
  rw [judge, judge]
  cases options.mode with
  | always => exact hnested true
  | implicit => exact hnested false
  | never =>
    dsimp only
    rw [node_withoutComments, Usage.isChainStart_withoutComments haside]
    split
    · rfl
    · rfl

end Chaining

/-! ## Both rules -/

namespace Lint

variable {config : Config} {u : Usage} {root : Node} {s : Site}

/-- The diagnostics of a tree, given the use of the library in it. -/
def diagnose (config : Config) (u : Usage) (file : Option Text) (root : Node) :
    Run EscapeFault (List Diagnostic) := do
  let findings ← visitAll config u (Site.calls root)
  return diagnostics file findings

/-- A tree is linted by finding the use of the library in it and then diagnosing it. -/
theorem lintTree_eq (config : Config) (file : Option Text) (root : Node) :
    lintTree config file root =
      usage config.settings root >>= fun u => diagnose config u file root :=
  rfl

/-- Each rule says the same of a call. -/
theorem verdictOf_withoutComments (hroot : root.CommentsAside) (hs : s ∈ Site.calls root) (rule : Rule) :
    verdictOf config u s.withoutComments rule = verdictOf config u s rule := by
  have haside := Site.commentsAside_of_mem_calls hroot hs
  cases rule with
  | chaining =>
    rw [verdictOf, Chaining.judge_withoutComments config.chaining hroot hs, verdictOf]
    cases Chaining.judge u config.chaining s with
    | none => rfl
    | some f => exact congrArg Except.ok (PathStyle.violation_withoutComments f.site.node f.advice none)
  | pathStyle =>
    rw [verdictOf, Site.node_withoutComments, pathOf?_withoutComments haside, verdictOf]
    cases hpath : pathOf? u s.node with
    | none => rfl
    | some argument => exact PathStyle.judge_withoutComments config.pathStyle (haside.of_pathOf? hpath)

/-- The rule about chains reports the same. -/
theorem visitChaining_withoutComments (hroot : root.CommentsAside) (hs : s ∈ Site.calls root) :
    visitChaining config u s.withoutComments = visitChaining config u s := by
  rw [visitChaining, Chaining.judge_withoutComments config.chaining hroot hs, visitChaining]
  cases Chaining.judge u config.chaining s with
  | none => rfl
  | some f =>
    have hextent : f.withoutComments.site.node.extent = f.site.node.extent :=
      Node.extent_withoutComments f.site.node
    have hentries : chainingEntries config.chaining f.withoutComments =
        chainingEntries config.chaining f := by
      rw [chainingEntries, hextent, chainingEntries]
      rfl
    have hverdict : Chaining.verdict (some f.withoutComments) = Chaining.verdict (some f) :=
      PathStyle.violation_withoutComments f.site.node f.advice none
    dsimp only [Option.map_some]
    rw [hentries, hverdict]

/-- The rule about paths reports the same, and offers the same fix. -/
theorem visitPath_withoutComments (hroot : root.CommentsAside) (hs : s ∈ Site.calls root) :
    visitPath config u s.withoutComments = visitPath config u s := by
  have haside := Site.commentsAside_of_mem_calls hroot hs
  rw [visitPath, Site.node_withoutComments, Usage.classify?_withoutComments haside, visitPath]
  cases hclassify : u.classify? s.node with
  | none => rfl
  | some called =>
    obtain ⟨method, form⟩ := called
    dsimp only
    rw [Usage.pathArgument?_withoutComments haside]
    cases hargument : u.pathArgument? s.node method form with
    | none => rfl
    | some argument =>
      have hpath : pathOf? u s.node = some argument := by
        rw [pathOf?, hclassify, Option.bind_some]
        exact hargument
      dsimp only [Option.map_some]
      rw [PathStyle.judge_withoutComments config.pathStyle (haside.of_pathOf? hpath),
        PathStyle.unconvertible?_withoutComments]
      -- The log names the array by where it stands.
      cases PathStyle.unconvertible? config.pathStyle argument with
      | none => rfl
      | some array => simp only [Option.map_some, Node.extent_withoutComments]

/-- A call is looked at with the same findings and the same log. -/
theorem visit_withoutComments (hroot : root.CommentsAside) (hs : s ∈ Site.calls root) :
    visit config u s.withoutComments = visit config u s := by
  rw [visit, visitChaining_withoutComments hroot hs, visitPath_withoutComments hroot hs, visit]

/-- So do all rules at all calls. -/
theorem visitAll_map_withoutComments (hroot : root.CommentsAside) {sites : List Site}
    (hsites : ∀ s ∈ sites, s ∈ Site.calls root) :
    visitAll config u (sites.map Site.withoutComments) = visitAll config u sites := by
  induction sites with
  | nil => rfl
  | cons s rest ih =>
    rw [List.forall_mem_cons] at hsites
    rw [List.map_cons, visitAll, visit_withoutComments hroot hsites.1, ih hsites.2, visitAll]

/-- **Invisible comments.**  Let the comments of a tree play no role and hold no call.  The calls of the
    tree without its comments are those of the tree.  On each of them both rules have the same verdict,
    that is the same node at fault, the same advice and the same replacement: the chaining rule reports
    the same site, and the path rule judges the same argument.  So whatever the use of the library is,
    the diagnostics are the same, and so is the log. -/
theorem comments_invisible (config : Config) (u : Usage) (file : Option Text) {root : Node}
    (hroot : root.CommentsAside) :
    Site.calls root.withoutComments = (Site.calls root).map Site.withoutComments ∧
    (∀ s ∈ Site.calls root,
      (∀ rule, verdictOf config u s.withoutComments rule = verdictOf config u s rule) ∧
      Chaining.judge u config.chaining s.withoutComments =
        (Chaining.judge u config.chaining s).map Chaining.Finding.withoutComments ∧
      pathOf? u s.withoutComments.node = (pathOf? u s.node).map Node.withoutComments) ∧
    diagnose config u file root.withoutComments = diagnose config u file root := by
  have hcalls := Site.calls_withoutComments hroot
  refine ⟨hcalls, ?_, ?_⟩
  · intro s hs
    have haside := Site.commentsAside_of_mem_calls hroot hs
    exact ⟨verdictOf_withoutComments hroot hs, Chaining.judge_withoutComments config.chaining hroot hs,
      pathOf?_withoutComments haside⟩
  · rw [diagnose, hcalls, visitAll_map_withoutComments hroot fun s hs => hs, diagnose]

/-- Comments among arguments, in an array, inside parentheses, in a member access and in an addition. -/
theorem comments_invisible_in_three_calls :
    let root :=
      (Tree.parse "_.get(o,/**/(/**/['a',/**/1])); (_(x)/**/)/**/.f(); _.get(o,'a.'/**/+b)".toList).root
    let u := Usage.ofSettings {}
    root.nodes.countP (·.kind == .comment) = 6 ∧
      (visitAll shortChains u (Site.calls root)).outcome.toOption.map (·.map (·.verdict.advice)) =
        some [some .stringForSimple, some .single, some .arrayForVars] ∧
      diagnose shortChains u none root.withoutComments = diagnose shortChains u none root := by
  intro root u
  have hroot : root.CommentsAside := by decide +kernel
  exact ⟨by decide +kernel, by decide +kernel, (comments_invisible shortChains u none hroot).2.2⟩

end Lint

end LodashStyle
