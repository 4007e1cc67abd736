import LodashStyle.Proofs.PathReplacement
import Mathlib.Data.List.Perm.Basic

/-!
# Progress of a pass

A pass replaces some of the paths that can be replaced, none of them inside another one.  A literal in
the place of a path cannot be replaced again, the paths inside it are left as they were, and no other
path changes its standing.  So the paths that are left are those whose fixes were not applied, and no
path that had a verdict is without one.

## Key results

- `pathVerdict_replacePaths`: how the path of a call is judged after a pass
- `nodes_replacePaths_perm`: what stands in a tree after a pass, node by node
- `fixablePaths_replacePaths_perm`: the paths that are left are those whose fixes were not applied
- `isFaulty_replacePaths`: a tree that can be judged can be judged after a pass
-/

namespace LodashStyle.Lint

open JavaScript JavaScript.Node

variable {config : Config} {u : Usage} {applied : List Fix} {n m c d p q : Node} {f g : Fix}

/-! ## Paths that can be replaced -/

/-- The verdict on the path of a call, as to whether it can be replaced. -/
def pathVerdict (config : Config) (u : Usage) (n : Node) : Except EscapeFault Bool :=
  match pathOf? u n with
  | none => .ok false
  | some p => (PathStyle.judge config.pathStyle p).map Verdict.isFixable

/-- The path of a call, if it can be replaced. -/
def fixablePath? (config : Config) (u : Usage) (n : Node) : Option Node :=
  if config.rules.pathStyle && n.isCall && (pathVerdict config u n).toOption == some true then pathOf? u n
  else none

/-- The paths of a tree that can be replaced. -/
def fixablePaths (config : Config) (u : Usage) (n : Node) : List Node :=
  n.nodes.filterMap (fixablePath? config u)

theorem mem_nodes_of_pathOf? (h : pathOf? u n = some p) : p ∈ n.nodes := by
  obtain ⟨list, hlist, -, a, ha, hp⟩ := pathOf?_cases h
  exact mem_nodes_of_child hlist (mem_nodes_of_child ha (mem_nodes_of_unwrap hp))

theorem unwrap_of_pathOf? (h : pathOf? u n = some p) : p.unwrap = some p := by
  obtain ⟨-, -, -, a, -, hp⟩ := pathOf?_cases h
  exact unwrap_unwrap hp

theorem fixablePath?_eq_some_iff :
    fixablePath? config u n = some p ↔
      (config.rules.pathStyle && n.isCall) = true ∧ pathOf? u n = some p ∧
        (PathStyle.judge config.pathStyle p).map Verdict.isFixable = .ok true := by
  have hverdict : pathOf? u n = some p →
      ((pathVerdict config u n).toOption = some true ↔
        (PathStyle.judge config.pathStyle p).map Verdict.isFixable = .ok true) := by
    intro hpath
    rw [pathVerdict, hpath]
    dsimp only
    generalize (PathStyle.judge config.pathStyle p).map Verdict.isFixable = v
    cases v <;> simp [Except.toOption]
  simp only [fixablePath?, Bool.and_eq_true, beq_iff_eq, Option.ite_none_right_eq_some]
  constructor
  · rintro ⟨⟨hcall, hv⟩, hpath⟩
    exact ⟨hcall, hpath, (hverdict hpath).1 hv⟩
  · rintro ⟨hcall, hpath, hv⟩
    exact ⟨⟨hcall, (hverdict hpath).2 hv⟩, hpath⟩

theorem pathOf?_of_fixablePath? (h : fixablePath? config u n = some p) : pathOf? u n = some p :=
  (fixablePath?_eq_some_iff.1 h).2.1

/-- What the fix of a call replaces is its path, and this can be replaced. -/
theorem fixablePath?_of_fixOf? (h : fixOf? config u n = some f) :
    ∃ p, fixablePath? config u n = some p ∧ IsFixOf config.pathStyle p f := by
  obtain ⟨p, hpath, hfix⟩ := fixOf?_path h
  refine ⟨p, fixablePath?_eq_some_iff.2 ⟨?_, hpath, ?_⟩, hfix⟩
  · unfold fixOf? at h
    split at h
    · rename_i hcall
      exact hcall
    · exact nomatch h
  · obtain ⟨advice, hjudge, -, -⟩ := hfix
    rw [hjudge]
    rfl

/-- A path that can be replaced has a fix, if its ends are in order. -/
theorem exists_fixOf? (hplaced : p.extent.start ≤ p.extent.stop) (h : fixablePath? config u n = some p) :
    ∃ f, fixOf? config u n = some f ∧ IsFixOf config.pathStyle p f := by
  obtain ⟨hcall, hpath, hfixable⟩ := fixablePath?_eq_some_iff.1 h
  obtain ⟨v, hjudge, hsome⟩ := map_eq_ok hfixable
  -- The verdict is on the path itself.
  obtain rfl | ⟨inner, hinner, rfl | ⟨advice, replacement, rfl⟩⟩ := isOn_judge hjudge
  · exact nomatch hsome
  · exact nomatch hsome
  · obtain rfl : p = inner := Option.some.inj ((unwrap_of_pathOf? hpath).symm.trans hinner)
    obtain ⟨text, rfl⟩ := Option.isSome_iff_exists.1 hsome
    refine ⟨⟨p.extent.start, p.extent.stop, text, hplaced⟩, ?_, advice, hjudge, rfl, rfl⟩
    simp [fixOf?, hcall, hpath, hjudge, Except.toOption, Verdict.violation, Verdict.diagnostic?,
      Verdict.fixAt, hplaced]

theorem fixablePath?_of_kind (h : n.kind ≠ .call) : fixablePath? config u n = none := by
  simp [fixablePath?, isCall, h]

theorem mem_fixablePaths_of_mem_nodes (hm : m ∈ n.nodes) (hp : p ∈ fixablePaths config u m) :
    p ∈ fixablePaths config u n := by
  obtain ⟨c, hc, hp⟩ := List.mem_filterMap.1 hp
  exact List.mem_filterMap.2 ⟨c, mem_nodes_trans hm hc, hp⟩

theorem mem_nodes_of_mem_fixablePaths (hp : p ∈ fixablePaths config u n) : p ∈ n.nodes := by
  obtain ⟨c, hc, hp⟩ := List.mem_filterMap.1 hp
  exact mem_nodes_trans hc (mem_nodes_of_pathOf? (pathOf?_of_fixablePath? hp))

/-! ## Calls after a pass -/

theorem argument?_replaceBelow (n : Node) (index : Nat) :
    (replaceBelow config u applied n).argument? index =
      (n.argument? index).map (replacePaths config u applied) := by
  have hR := mirrors_replacePaths config u applied
  have hrel := hR.argument? (m := replaceBelow config u applied n) (forall₂_replacePaths n.children) index
  obtain ⟨hn, hm⟩ | ⟨a, b, hn, hm, rfl⟩ := rel_cases hrel
  · rw [hn, hm]
    rfl
  · rw [hn, hm]
    rfl

/-- A call whose fix was not applied has the path that it had, with the paths in it replaced. -/
theorem pathOf?_replacePaths_of_not_mem (h : ∀ f, fixOf? config u n = some f → f ∉ applied) :
    pathOf? u (replacePaths config u applied n) =
      (pathOf? u n).map (replacePaths config u applied) := by
  rw [pathOf?_eq, pathOf?_eq, (mirrors_replacePaths config u applied).pathIndex? rfl,
    replacePaths_of_not_mem h]
  cases pathIndex? u n with
  | none => rfl
  | some index => exact argument?_replaceBelow n index

/-- A call whose fix was applied has the literal as its path. -/
theorem pathOf?_replacePaths_of_mem (hfix : fixOf? config u n = some f) (hmem : f ∈ applied)
    (hpath : pathOf? u n = some p) :
    pathOf? u (replacePaths config u applied n) =
      some (PathStyle.denoted config.pathStyle f.text p) := by
  obtain ⟨index, hindex, hargument⟩ := exists_pathIndex hpath
  have hbelow : (replaceBelow config u applied n).argument? index =
      some (replacePaths config u applied p) := by
    rw [argument?_replaceBelow, hargument]
    rfl
  rw [pathOf?_eq, (mirrors_replacePaths config u applied).pathIndex? rfl, hindex,
    replacePaths_of_mem hfix hmem hindex hpath]
  exact argument?_setArgument hbelow PathStyle.unwrap_denoted PathStyle.isPart_denoted

/-- Whether a fix of a call was applied. -/
def isApplied (config : Config) (u : Usage) (applied : List Fix) (n : Node) : Bool :=
  (fixOf? config u n).any fun f => decide (f ∈ applied)

theorem isApplied_eq_true_iff :
    isApplied config u applied n = true ↔ ∃ f, fixOf? config u n = some f ∧ f ∈ applied := by
  simp [isApplied, Option.any_eq_true]

theorem isApplied_eq_false_iff :
    isApplied config u applied n = false ↔ ∀ f, fixOf? config u n = some f → f ∉ applied := by
  simp [isApplied, Option.any_eq_false]

/-- The path of a call, if it can be replaced and was not. -/
def leftPath? (config : Config) (u : Usage) (applied : List Fix) (n : Node) : Option Node :=
  if isApplied config u applied n then none else fixablePath? config u n

/-- In a tree whose nodes have their ends in order, as many paths are left as fixes were not applied. -/
theorem length_leftPaths (applied : List Fix) (h : ∀ m ∈ n.nodes, m.extent.start ≤ m.extent.stop) :
    (n.nodes.filterMap (leftPath? config u applied)).length =
      ((fixesIn config u n).filter fun f => decide (f ∉ applied)).length := by
  have hsome : ∀ c ∈ n.nodes, (leftPath? config u applied c).isSome =
      ((fixOf? config u c).filter fun f => decide (f ∉ applied)).isSome := by
    intro c hc
    cases hfix : fixOf? config u c with
    | some f =>
      obtain ⟨p, hp, -⟩ := fixablePath?_of_fixOf? hfix
      by_cases hmem : f ∈ applied <;> simp [leftPath?, isApplied, hfix, hp, hmem, Option.filter]
    | none =>
      -- A path in its place that can be replaced would have a fix.
      have hnone : fixablePath? config u c = none := by
        rw [Option.eq_none_iff_forall_ne_some]
        intro p hp
        have hmem := mem_nodes_trans hc (mem_nodes_of_pathOf? (pathOf?_of_fixablePath? hp))
        obtain ⟨f, hf, -⟩ := exists_fixOf? (h p hmem) hp
        rw [hfix] at hf
        exact nomatch hf
      simp [leftPath?, hnone]
  rw [fixesIn, List.filter_filterMap, List.length_filterMap_eq_countP, List.length_filterMap_eq_countP]
  exact List.countP_congr fun c hc => by rw [hsome c hc]

/-- In such a tree there are as many fixes as paths to replace. -/
theorem length_fixesIn (h : ∀ m ∈ n.nodes, m.extent.start ≤ m.extent.stop) :
    (fixesIn config u n).length = (fixablePaths config u n).length := by
  have hall : leftPath? config u [] = fixablePath? config u := by
    funext c
    simp [leftPath?, isApplied]
  have hlength : (n.nodes.filterMap (leftPath? config u [])).length = _ := length_leftPaths [] h
  rw [hall] at hlength
  simpa [fixablePaths] using hlength.symm

/-- After a pass a path cannot be replaced again, and every other path is judged as it was. -/
theorem pathVerdict_replacePaths (n : Node) :
    pathVerdict config u (replacePaths config u applied n) =
      if isApplied config u applied n then .ok false else pathVerdict config u n := by
  cases happlied : isApplied config u applied n with
  | true =>
    obtain ⟨f, hfix, hmem⟩ := isApplied_eq_true_iff.1 happlied
    obtain ⟨p, hpath, hisFix⟩ := fixOf?_path hfix
    -- What was put in is what the style asks for.
    rw [pathVerdict, pathOf?_replacePaths_of_mem hfix hmem hpath]
    dsimp only
    rw [PathStyle.judge_denoted (isReplaced_of_isFixOf (unwrap_of_pathOf? hpath) hisFix)]
    rfl
  | false =>
    rw [pathVerdict, pathVerdict, pathOf?_replacePaths_of_not_mem (isApplied_eq_false_iff.1 happlied)]
    cases hpath : pathOf? u n with
    | none => rfl
    | some p =>
      -- The calls in the path may have other arguments, which it is not judged by.
      exact PathStyle.mirrors_judge (mirrors_replacePaths config u applied) config.pathStyle rfl
        (kind_of_unwrap (unwrap_of_pathOf? hpath))

/-! ## Trees after a pass -/

/-- No fix in a path that can be replaced was applied: of fixes inside one another only the outermost
    ones were. -/
def OnlyOuter (config : Config) (u : Usage) (applied : List Fix) (n : Node) : Prop :=
  ∀ c ∈ n.nodes, ∀ p, fixablePath? config u c = some p → ∀ g ∈ fixesIn config u p, g ∉ applied

theorem OnlyOuter.child (h : OnlyOuter config u applied n) (hc : c ∈ n.children) :
    OnlyOuter config u applied c := fun d hd => h d (mem_nodes_of_child hc hd)

/-- What stands in a tree after a pass, from what stands at each of its nodes: the nodes of paths that
    were replaced are still there, in the literals. -/
theorem nodes_replacePaths_perm {α : Type} {w v : Node → List α}
    (hw : ∀ n : Node, n.kind ≠ .call → w n = []) (hlayout : ∀ m ∈ n.nodes, m.LaidOut)
    (houter : OnlyOuter config u applied n)
    (hstep : ∀ c ∈ n.nodes, w (replacePaths config u applied c) = v c) :
    ((replacePaths config u applied n).nodes.flatMap w).Perm (n.nodes.flatMap v) := by
  have hnodes : ∀ (x : Node → List α) (n : Node),
      n.nodes.flatMap x = x n ++ n.children.flatMap fun c => c.nodes.flatMap x := by
    intro x n
    rw [nodes_eq, List.flatMap_cons, List.flatMap_assoc]
  have hW : ∀ n : Node, n.kind ≠ .call →
      n.nodes.flatMap w = n.children.flatMap fun c => c.nodes.flatMap w := by
    intro n hn
    rw [hnodes, hw n hn, List.nil_append]
  induction n using Node.induction with
  | mk label children ih =>
    have hchildren : ((children.map (replacePaths config u applied)).flatMap fun c => c.nodes.flatMap w).Perm
        (children.flatMap fun c => c.nodes.flatMap v) := by
      rw [List.flatMap_map]
      refine List.Perm.flatMap_left children fun c hc => ?_
      exact ih c hc (fun m hm => hlayout m (mem_nodes_of_child hc hm)) (houter.child hc)
        fun d hd => hstep d (mem_nodes_of_child hc hd)
    rw [hnodes w, hnodes v, hstep _ (mem_nodes_self _)]
    refine List.Perm.append_left _ (List.Perm.trans ?_ hchildren)
    obtain ⟨-, h⟩ | ⟨f, index, p, hfix, hmem, -, hpath, hargument, hisFix, h⟩ :=
      replacePaths_cases config u applied (.mk label children)
    · rw [h]
      exact .refl _
    · -- The path makes way for the literal, and both hold the same.
      obtain ⟨p', hp', -⟩ := fixablePath?_of_fixOf? hfix
      obtain rfl : p' = p := Option.some.inj ((pathOf?_of_fixablePath? hp').symm.trans hpath)
      have hself : replacePaths config u applied p' = p' :=
        replacePaths_eq_self (houter _ (mem_nodes_self _) p' hp')
      have hbelow : (replaceBelow config u applied (.mk label children)).argument? index = some p' := by
        rw [argument?_replaceBelow, hargument, Option.map_some, hself]
      have hreplaced := isReplaced_of_isFixOf (unwrap_of_pathOf? hpath) hisFix
      have hinner : ∀ m ∈ p'.nodes, m.LaidOut := fun m hm =>
        hlayout m (mem_nodes_trans (mem_nodes_of_pathOf? hpath) hm)
      have hexchange := perm_setArgument (q := PathStyle.denoted config.pathStyle f.text p') hW hbelow
      rw [PathStyle.weight_denoted hW hinner hreplaced, List.perm_append_right_iff] at hexchange
      rw [h]
      exact hexchange

/-- A call whose path was replaced has no path to replace after the pass, and every other call has the
    path that it had. -/
theorem fixablePath?_replacePaths
    (houter : ∀ p, fixablePath? config u c = some p → ∀ g ∈ fixesIn config u p, g ∉ applied) :
    fixablePath? config u (replacePaths config u applied c) = leftPath? config u applied c := by
  have hcall : (replacePaths config u applied c).isCall = c.isCall :=
    (mirrors_replacePaths config u applied).isCall rfl
  rw [leftPath?]
  cases happlied : isApplied config u applied c with
  | true =>
    simp [fixablePath?, pathVerdict_replacePaths, happlied, Except.toOption]
  | false =>
    have hpath := pathOf?_replacePaths_of_not_mem (isApplied_eq_false_iff.1 happlied)
    simp only [Bool.false_eq_true, if_false]
    rw [fixablePath?, pathVerdict_replacePaths, happlied, hcall, hpath]
    simp only [Bool.false_eq_true, if_false]
    cases hfixable : fixablePath? config u c with
    | none =>
      rw [fixablePath?] at hfixable
      split at hfixable
      · rename_i h
        rw [if_pos h, hfixable]
        rfl
      · rename_i h
        rw [if_neg h]
    | some p =>
      -- Nothing in this path was replaced.
      have hself : replacePaths config u applied p = p := replacePaths_eq_self (houter p hfixable)
      rw [fixablePath?] at hfixable
      split at hfixable
      · rename_i h
        rw [if_pos h, hfixable, Option.map_some, hself]
      · cases hfixable

/-- The paths to replace after a pass are those that were left. -/
theorem fixablePaths_replacePaths_perm (hlayout : ∀ m ∈ n.nodes, m.LaidOut)
    (houter : OnlyOuter config u applied n) :
    (fixablePaths config u (replacePaths config u applied n)).Perm
      (n.nodes.filterMap (leftPath? config u applied)) := by
  rw [fixablePaths, List.filterMap_eq_flatMap_toList, List.filterMap_eq_flatMap_toList]
  refine nodes_replacePaths_perm (fun m hm => ?_) hlayout houter fun c hc => ?_
  · rw [fixablePath?_of_kind hm]
    rfl
  · rw [fixablePath?_replacePaths (houter c hc)]

/-! ## Faults -/

/-- Whether the path of a call has no verdict. -/
def isFaulty (config : Config) (u : Usage) (n : Node) : Bool :=
  config.rules.pathStyle && n.isCall && !(pathVerdict config u n).toOption.isSome

/-- A tree is judged when none of its calls is at fault. -/
theorem visitAll_isOk_iff_nodes {root : Node} :
    (∃ findings, (visitAll config u (Site.calls root)).outcome = .ok findings) ↔
      ∀ n ∈ root.nodes, isFaulty config u n = false := by
  have hverdict : ∀ s : Site, (∃ v, verdictOf config u s .pathStyle = .ok v) ↔
      (pathVerdict config u s.node).toOption.isSome = true := by
    intro s
    rw [verdictOf, pathVerdict]
    cases pathOf? u s.node with
    | none => simp [Except.toOption]
    | some p =>
      dsimp only
      cases PathStyle.judge config.pathStyle p <;> simp [Except.toOption, Except.map]
  have hsites : (∀ s ∈ Site.calls root, Judged config u s) ↔
      ∀ s ∈ Site.visits root, isFaulty config u s.node = false := by
    simp only [Site.calls, List.mem_filter, and_imp, judged_iff, hverdict, isFaulty]
    refine forall₂_congr fun s _ => ?_
    cases config.rules.pathStyle <;> cases s.node.isCall <;> simp
  simp only [visitAll_eq_ok_iff, exists_and_left, exists_eq, and_true, hsites]
  rw [← Site.map_node_visits, List.forall_mem_map]

/-- No call is at fault after a pass that was not at fault before it. -/
theorem isFaulty_replacePaths (hlayout : ∀ m ∈ n.nodes, m.LaidOut) (houter : OnlyOuter config u applied n)
    (h : ∀ m ∈ n.nodes, isFaulty config u m = false) :
    ∀ m ∈ (replacePaths config u applied n).nodes, isFaulty config u m = false := by
  -- A call at fault leaves a mark.  Before the pass there is none, and a pass adds none.
  let fault (m : Node) : List Unit := if isFaulty config u m then [()] else []
  have hperm : ((replacePaths config u applied n).nodes.flatMap fault).Perm (n.nodes.flatMap fun _ => []) := by
    refine nodes_replacePaths_perm (fun m hm => ?_) hlayout houter fun c hc => ?_
    · simp [fault, isFaulty, Node.isCall, hm]
    · have hcall : (replacePaths config u applied c).isCall = c.isCall :=
        (mirrors_replacePaths config u applied).isCall rfl
      have hnone := h c hc
      rw [isFaulty] at hnone
      cases happlied : isApplied config u applied c with
      | true => simp [fault, isFaulty, pathVerdict_replacePaths, happlied, Except.toOption]
      | false =>
        simp only [fault, isFaulty, pathVerdict_replacePaths, happlied, hcall, Bool.false_eq_true, if_false,
          hnone]
  intro m hm
  have hnil : fault m = [] := by
    rw [List.flatMap_eq_nil_iff.2 fun _ _ => rfl] at hperm
    exact List.flatMap_eq_nil_iff.1 hperm.eq_nil m hm
  cases hfault : isFaulty config u m with
  | false => rfl
  | true => simp [fault, hfault] at hnil

end LodashStyle.Lint
