import LodashStyle.Proofs.Faults
import LodashStyle.Proofs.FixProgress
import Mathlib.Data.Nat.SuccPred
import Mathlib.Order.SuccPred.Archimedean

/-!
# Rewriting passes in a row

Of paths inside one another a pass replaces the outermost ones.  So it leaves as many paths to replace as
it skips fixes, and of paths inside one another one less.  Passes that are repeated come to an end, after
as many passes that rewrite the source as there are paths to replace inside one another in its tree.

## Key results

- `mem_path_of_isInside`: a fix inside another one belongs to a call inside the path of the other
- `onlyOuter_outermost`: no fix inside a path is applied
- `length_after_pass`: how many paths to replace a pass leaves
- `nestedPaths_replacePaths`: how many of them stand inside one another
- `fix_passes_progress`: what one pass, and what a row of passes, comes to
-/

namespace LodashStyle.Lint

open JavaScript JavaScript.Node

variable {config : Config} {u : Usage} {style : PathStyle} {applied : List Fix} {n m c d p q : Node}
  {f g : Fix}

/-! ## Fixes inside paths -/

theorem kind_of_isReplaced (h : IsReplaced p style) : p.kind = .array ∨ p.kind = .string := by
  cases style with
  | asNeeded => exact .inl (PathStyle.kind_of_isLiteralArray h)
  | array => exact .inr h
  | string => exact .inl h

/-- A fix of a call in a path lies inside the fix of the path. -/
theorem isInside_of_mem_path (hn : ∀ m ∈ p.nodes, m.LaidOut) (hp : p.unwrap = some p)
    (hf : IsFixOf style p f) (hg : g ∈ fixesIn config u p) : g.isInside f = true := by
  obtain ⟨hstart, hstop⟩ := span_of_isFixOf hf
  have hlayout := hn p (mem_nodes_self p)
  obtain hkind | hkind := kind_of_isReplaced (isReplaced_of_isFixOf hp hf)
  · -- Calls in an array stand between its brackets.
    rw [fixesIn_of_kind hkind (by decide)] at hg
    obtain ⟨c, hc, hg⟩ := List.mem_flatMap.1 hg
    have hbetween := hlayout.brackets hkind c hc
    have hwithin := within_of_mem_fixesIn (fun m hm => hn m (mem_nodes_of_child hc hm)) hg
    rw [Fix.isInside_iff]
    omega
  · have hliteral : p.isLiteral = true := PathStyle.isLiteral_of_string hkind
    rw [fixesIn_of_not_isCall (hlayout.atoms (.inl hliteral))] at hg
    exact absurd hg List.not_mem_nil

/-- What reaches beyond a part of a child on both sides is the node itself or stands in the child. -/
theorem mem_child_of_around (hn : ∀ m ∈ n.nodes, m.LaidOut) (hc : c ∈ n.children)
    (hg : c.extent.start ≤ g.start ∧ g.stop ≤ c.extent.stop) (hp : p ∈ n.nodes) (hkind : p.kind ≠ n.kind)
    (haround : p.extent.start < g.start ∧ g.stop < p.extent.stop) : p ∈ c.nodes := by
  rw [nodes_eq] at hp
  obtain rfl | hp := List.mem_cons.1 hp
  · exact absurd rfl hkind
  · obtain ⟨d, hd, hp⟩ := List.mem_flatMap.1 hp
    have hwithin := within_of_mem_nodes (fun m hm => hn m (mem_nodes_of_child hd hm)) hp
    have hle := g.start_le_stop
    obtain rfl | hbefore | hafter := (hn n (mem_nodes_self n)).children_cases hc hd
    · exact hp
    · omega
    · omega

/-- An argument holds nothing around its expression but parentheses. -/
theorem not_mem_of_unwrap (hn : ∀ m ∈ n.nodes, m.LaidOut) (hq : n.unwrap = some q)
    (hg : g.start = q.extent.start ∧ g.stop = q.extent.stop) (hkind : p.kind ≠ .parenthesized)
    (haround : p.extent.start < g.start ∧ g.stop < p.extent.stop) : p ∉ n.nodes := by
  induction n using Node.induction with
  | mk label children ih =>
    intro hp
    obtain rfl | ⟨hparenthesized, c, hc, hq⟩ := unwrap_cases hq
    · have hwithin := within_of_mem_nodes hn hp
      omega
    · have hbelow : ∀ m ∈ c.nodes, m.LaidOut := fun m hm => hn m (mem_nodes_of_child hc hm)
      have hwithin := within_of_mem_nodes hbelow (mem_nodes_of_unwrap hq)
      have hne : p.kind ≠ (Node.mk label children).kind := by
        rw [hparenthesized]
        exact hkind
      exact ih c hc hbelow hq (mem_child_of_around hn hc (by omega) hp hne haround)

/-- A path around the fix of a call does not stand in the call. -/
theorem not_mem_of_around (hn : ∀ m ∈ d.nodes, m.LaidOut) (hg : fixOf? config u d = some g)
    (hkind : p.kind = .array ∨ p.kind = .string)
    (haround : p.extent.start < g.start ∧ g.stop < p.extent.stop) : p ∉ d.nodes := by
  intro hp
  obtain ⟨q', hq', -⟩ := fixablePath?_of_fixOf? hg
  have hcall : d.kind = .call := by
    by_contra hne
    rw [fixablePath?_of_kind hne] at hq'
    exact nomatch hq'
  obtain ⟨list, hlist, hlistKind, a, ha, q, hq, hfix⟩ := fixOf?_eq_some hg
  have hspan := span_of_isFixOf hfix
  have hlistn : ∀ m ∈ list.nodes, m.LaidOut := fun m hm => hn m (mem_nodes_of_child hlist hm)
  have han : ∀ m ∈ a.nodes, m.LaidOut := fun m hm => hlistn m (mem_nodes_of_child ha hm)
  have hargument := within_of_mem_nodes han (mem_nodes_of_unwrap hq)
  have hwithin := (hlistn list (mem_nodes_self list)).within a ha
  -- A path is no call, no argument list and no parentheses, so it would stand in the path of the call.
  have hother : ∀ kind, kind ≠ .array → kind ≠ .string → p.kind ≠ kind := by
    rintro kind harray hstring rfl
    exact hkind.elim harray hstring
  have hinList : p ∈ list.nodes :=
    mem_child_of_around hn hlist (by omega) hp (hcall ▸ hother .call (by decide) (by decide)) haround
  have hinArgument : p ∈ a.nodes :=
    mem_child_of_around hlistn ha (by omega) hinList (hlistKind ▸ hother .arguments (by decide) (by decide))
      haround
  exact not_mem_of_unwrap han hq hspan (hother .parenthesized (by decide) (by decide)) haround hinArgument

/-- A fix inside that of a path belongs to a call in the path. -/
theorem mem_path_of_isInside (hn : ∀ m ∈ n.nodes, m.LaidOut) (hp : p ∈ n.nodes) (hd : d ∈ n.nodes)
    (hunwrap : p.unwrap = some p) (hf : IsFixOf style p f) (hg : fixOf? config u d = some g)
    (hinside : g.isInside f = true) : d ∈ p.nodes := by
  have haround : p.extent.start < g.start ∧ g.stop < p.extent.stop := by
    obtain ⟨hstart, hstop⟩ := span_of_isFixOf hf
    rw [Fix.isInside_iff] at hinside
    omega
  have hkind := kind_of_isReplaced (isReplaced_of_isFixOf hunwrap hf)
  have hle := g.start_le_stop
  induction n using Node.induction with
  | mk label children ih =>
    have hchild : ∀ c ∈ children, ∀ m ∈ c.nodes, m.LaidOut := fun c hc m hm => hn m (mem_nodes_of_child hc hm)
    rw [nodes_eq] at hp hd
    -- The path and the call stand in one another or in children, which are apart or the same.
    obtain rfl | hp := List.mem_cons.1 hp
    · rw [nodes_eq]
      exact hd
    obtain rfl | hd := List.mem_cons.1 hd
    · refine absurd ?_ (not_mem_of_around hn hg hkind haround)
      rw [nodes_eq]
      exact List.mem_cons_of_mem _ hp
    obtain ⟨b, hb, hp⟩ := List.mem_flatMap.1 hp
    obtain ⟨c, hc, hd⟩ := List.mem_flatMap.1 hd
    have hpwithin := within_of_mem_nodes (hchild b hb) hp
    have hgwithin : c.extent.start ≤ g.start ∧ g.stop ≤ c.extent.stop :=
      within_of_mem_fixesIn (hchild c hc) (List.mem_filterMap.2 ⟨d, hd, hg⟩)
    obtain rfl | hbefore | hafter := (hn _ (mem_nodes_self _)).children_cases hb hc
    · exact ih b hb (hchild b hb) hp hd
    · omega
    · omega

/-! ## Outermost fixes -/

theorem mem_outermost {fixes : List Fix} :
    f ∈ Fix.outermost fixes ↔ f ∈ fixes ∧ fixes.any f.isInside = false := by
  simp [Fix.outermost, Fix.mem_sort]

/-- Of the fixes of a tree the outermost ones stand in no path that has a fix. -/
theorem onlyOuter_outermost {fixes : List Fix} (hn : ∀ m ∈ n.nodes, m.LaidOut)
    (hends : ∀ m ∈ n.nodes, m.extent.start ≤ m.extent.stop) (hfixes : fixes.Perm (fixesIn config u n)) :
    OnlyOuter config u (Fix.outermost fixes) n := by
  intro c hc p hp g hg hmem
  have hpath := pathOf?_of_fixablePath? hp
  have hpn : p ∈ n.nodes := mem_nodes_trans hc (mem_nodes_of_pathOf? hpath)
  obtain ⟨f, hf, hfix⟩ := exists_fixOf? (hends p hpn) hp
  have hinside := isInside_of_mem_path (fun m hm => hn m (mem_nodes_trans hpn hm)) (unwrap_of_pathOf? hpath)
    hfix hg
  have hfmem : f ∈ fixes := hfixes.mem_iff.2 (List.mem_filterMap.2 ⟨c, hc, hf⟩)
  have hany : fixes.any g.isInside = true := List.any_eq_true.2 ⟨f, hfmem, hinside⟩
  rw [(mem_outermost.1 hmem).2] at hany
  exact nomatch hany

/-! ## Trees of sources -/

/-- A tree of a source: its nodes cover whole characters of the source, with their children in their
    places. -/
structure IsTreeOf (source : List Char) (root : Node) : Prop where
  placed : Placed source root
  laidOut : ∀ n ∈ root.nodes, n.LaidOut

/-- The diagnostics of the path rule that can be fixed. -/
def fixable (file : Option Text) (findings : List Finding) : List Diagnostic :=
  (diagnostics file findings).filter fun d => d.rule == .pathStyle && d.fix.isSome

section Trees

variable {file : Option Text} {source : List Char} {root : Node} {findings : List Finding} {r : FixResult}

theorem IsTreeOf.placed_of_mem (h : IsTreeOf source root) (hn : n ∈ root.nodes) : Placed source n := by
  rw [← Site.map_node_visits] at hn
  obtain ⟨s, hs, rfl⟩ := List.mem_map.1 hn
  exact placed_visits h.placed s hs

theorem IsTreeOf.start_le_stop (h : IsTreeOf source root) :
    ∀ n ∈ root.nodes, n.extent.start ≤ n.extent.stop :=
  fun _ hn => (h.placed_of_mem hn).spans.start_le_stop

/-- The diagnostics with fixes are those of the path rule. -/
theorem rule_of_fix (h : (visitAll config u (Site.calls root)).outcome = .ok findings) {d : Diagnostic}
    (hd : d ∈ diagnostics file findings) (hfix : d.fix = some f) : d.rule = .pathStyle := by
  obtain ⟨-, rfl⟩ := visitAll_eq_ok_iff.1 h
  rw [diagnostics_eq] at hd
  obtain ⟨finding, hfinding, hreported⟩ := List.mem_filterMap.1 ((sortBySpan_perm _ _).mem_iff.1 hd)
  obtain ⟨s, -, hfinding⟩ := List.mem_flatMap.1 hfinding
  obtain ⟨rule, -, hfinding⟩ := List.mem_filterMap.1 hfinding
  obtain ⟨v, hv, rfl⟩ := Option.map_eq_some_iff.1 hfinding
  have hverdict := eq_ok_of_toOption (Option.filter_eq_some_iff.1 hv).1
  simp only [reported?, Verdict.diagnostic?] at hreported
  split at hreported
  · obtain rfl := Option.some.inj hreported
    cases rule with
    | pathStyle => rfl
    | chaining =>
      -- The chaining rule offers no replacement.
      have hnone : v.replacement = none := by
        rw [← Except.ok.inj hverdict]
        cases Chaining.judge u config.chaining s with
        | none => rfl
        | some found => rfl
      rw [hnone] at hfix
      cases hfix
  · cases hreported

/-- There are as many diagnostics that can be fixed as paths to replace. -/
theorem length_fixable (htree : IsTreeOf source root)
    (h : (visitAll config u (Site.calls root)).outcome = .ok findings) :
    (fixable file findings).length = (fixablePaths config u root).length := by
  have hfix : ∀ d ∈ diagnostics file findings, (d.rule == .pathStyle && d.fix.isSome) = d.fix.isSome := by
    intro d hd
    cases hfix : d.fix with
    | none => simp
    | some f => simp [rule_of_fix h hd hfix]
  rw [← length_fixesIn htree.start_le_stop, ← (fixesOf_perm file h).length_eq, fixesOf,
    List.length_filterMap_eq_countP, fixable, ← List.countP_eq_length_filter]
  exact List.countP_congr fun d hd => by rw [hfix d hd]

theorem stop_le_of_mem_fixesOf (htree : IsTreeOf source root)
    (h : (visitAll config u (Site.calls root)).outcome = .ok findings) (hf : f ∈ fixesOf file findings) :
    f.stop ≤ (Utf8.encode source).length := by
  have hstop := (within_of_mem_fixesIn htree.laidOut ((fixesOf_perm file h).mem_iff.1 hf)).2
  have hsource := htree.placed.spans.stop_le
  omega

/-- A pass applies the outermost fixes and skips the others. -/
theorem applyFixes_outermost (htree : IsTreeOf source root)
    (h : (visitAll config u (Site.calls root)).outcome = .ok findings)
    (hr : applyFixes source (diagnostics file findings) = .ok r) :
    r.applied = Fix.outermost (fixesOf file findings) ∧ r.skipped = Fix.enclosed (fixesOf file findings) := by
  have hperm := fixesOf_perm file h
  have hlaminar : (fixesOf file findings).Pairwise Fix.Laminar :=
    (hperm.pairwise_iff Fix.Laminar.symm).2 ((fixes_compatible htree.laidOut).imp Compatible.laminar)
  have hwithin : ∀ f ∈ fixesOf file findings, f.stop ≤ (Utf8.encode source).length :=
    fun f hf => stop_le_of_mem_fixesOf htree h hf
  have hchosen : chosen source (diagnostics file findings) =
      (Fix.outermost (fixesOf file findings), Fix.enclosed (fixesOf file findings)) :=
    Fix.select_of_laminar hwithin hlaminar
  rw [applyFixes_eq_ok_iff, hchosen] at hr
  exact hr.2

/-- A pass returns if no text that it puts in holds a surrogate. -/
theorem exists_pass (htree : IsTreeOf source root)
    (h : (visitAll config u (Site.calls root)).outcome = .ok findings)
    (hplain : ∀ f ∈ fixesOf file findings, f.text.Plain) :
    ∃ r, applyFixes source (diagnostics file findings) = .ok r := by
  apply exists_applyFixes
  intro f hf
  obtain ⟨d, hd, hfix⟩ := mem_chosen hf
  have hmem : f ∈ fixesOf file findings := List.mem_filterMap.2 ⟨d, hd, hfix⟩
  obtain ⟨c, hc, hfix⟩ := List.mem_filterMap.1 ((fixesOf_perm file h).mem_iff.1 hmem)
  obtain ⟨p, hpath, hisFix⟩ := fixOf?_path hfix
  have hspans := (htree.placed_of_mem (mem_nodes_trans hc (mem_nodes_of_pathOf? hpath))).spans
  obtain ⟨before, inside, rest, hsource, hstart, hstop⟩ := hspans
  obtain ⟨hfirst, hlast⟩ := span_of_isFixOf hisFix
  refine ⟨⟨before, ⟨inside ++ rest, hsource.symm⟩, hfirst.trans hstart⟩,
    ⟨before ++ inside, ⟨rest, ?_⟩, hlast.trans hstop⟩, (Text.utf8?_ne_none_iff f.text).2 (hplain f hmem)⟩
  rw [hsource, List.append_assoc]

/-- The paths that a pass leaves to replace are as many as the fixes that it skips. -/
theorem length_leftPaths_pass (htree : IsTreeOf source root)
    (h : (visitAll config u (Site.calls root)).outcome = .ok findings)
    (hr : applyFixes source (diagnostics file findings) = .ok r) :
    (fixablePaths config u (replacePaths config u r.applied root)).length = r.skipped.length ∧
      r.skipped.length + r.applied.length = (fixablePaths config u root).length := by
  obtain ⟨happlied, hskipped⟩ := applyFixes_outermost htree h hr
  have hperm := fixesOf_perm file h
  have hends := htree.start_le_stop
  have houter : OnlyOuter config u r.applied root := happlied ▸ onlyOuter_outermost htree.laidOut hends hperm
  have hleft := fixablePaths_replacePaths_perm htree.laidOut houter
  have hsort := Fix.sort_perm (fixesOf file findings)
  constructor
  · -- Not applied is what lies inside another fix, and that is what was skipped.
    have hnot : ∀ f ∈ fixesOf file findings,
        decide (f ∉ r.applied) = (fixesOf file findings).any f.isInside := by
      intro f hf
      simp only [happlied, mem_outermost, hf, true_and, Bool.not_eq_false, Bool.decide_eq_true]
    calc (fixablePaths config u (replacePaths config u r.applied root)).length
        = ((fixesIn config u root).filter fun f => decide (f ∉ r.applied)).length := by
          rw [hleft.length_eq, length_leftPaths r.applied hends]
      _ = ((fixesOf file findings).filter fun f => decide (f ∉ r.applied)).length :=
          (hperm.symm.filter _).length_eq
      _ = ((fixesOf file findings).filter fun f => (fixesOf file findings).any f.isInside).length := by
          rw [List.filter_congr hnot]
      _ = r.skipped.length := by
          rw [hskipped, Fix.enclosed]
          exact (hsort.symm.filter _).length_eq
  · rw [← length_fixesIn hends, ← hperm.length_eq, ← hsort.length_eq, happlied, hskipped, ← List.length_append]
    exact (List.filter_append_perm _ _).length_eq

/-- A pass applies nothing exactly when there is nothing to replace. -/
theorem applied_eq_nil_iff (htree : IsTreeOf source root)
    (h : (visitAll config u (Site.calls root)).outcome = .ok findings)
    (hr : applyFixes source (diagnostics file findings) = .ok r) :
    r.applied = [] ↔ fixablePaths config u root = [] := by
  have hsort := Fix.sort_perm (fixesOf file findings)
  -- The first fix in order is applied, as it lies within the source.
  have hwithin : ∀ f ∈ Fix.sort (fixesOf file findings), f.stop ≤ (Utf8.encode source).length :=
    fun f hf => stop_le_of_mem_fixesOf htree h (Fix.mem_sort.1 hf)
  have happlied : r.applied = [] ↔ Fix.sort (fixesOf file findings) = [] := by
    rw [(applyFixes_eq_ok_iff.1 hr).2.1]
    exact Fix.select_eq_nil_iff hwithin
  rw [happlied, ← List.length_eq_zero_iff, ← List.length_eq_zero_iff, hsort.length_eq,
    (fixesOf_perm file h).length_eq, length_fixesIn htree.start_le_stop]

end Trees

/-! ## Trees that are alike -/

theorem exists_mem_congr {R : Node → Node → Prop} {P : Node → Prop} {ns ms : List Node}
    (h : List.Forall₂ R ns ms) (hP : ∀ n m, R n m → (P n ↔ P m)) : (∃ n ∈ ns, P n) ↔ ∃ m ∈ ms, P m := by
  induction h with
  | nil => simp
  | cons hnm _ ih => simp [hP _ _ hnm, ih]

theorem pathOf?_alike (h : n.alike m = true) :
    Option.Rel (fun a b => a.alike b = true) (pathOf? u n) (pathOf? u m) := by
  rw [pathOf?_eq, pathOf?_eq, mirrors_alike.pathIndex? h]
  cases pathIndex? u n with
  | none => exact .none
  | some index => exact mirrors_alike.argument? (alike_iff.1 h).2.2.2 index

theorem pathVerdict_alike (h : n.alike m = true) : pathVerdict config u m = pathVerdict config u n := by
  unfold pathVerdict
  obtain ⟨hn, hm⟩ | ⟨p, q, hn, hm, hpq⟩ := rel_cases (pathOf?_alike (u := u) h)
  · rw [hn, hm]
  · rw [hn, hm]
    exact PathStyle.mirrors_judge mirrors_alike config.pathStyle hpq (kind_of_unwrap (unwrap_of_pathOf? hn))

/-- Of trees that are alike both have calls at fault or none has. -/
theorem isFaulty_alike (h : n.alike m = true) :
    (∃ c ∈ n.nodes, isFaulty config u c = true) ↔ ∃ c ∈ m.nodes, isFaulty config u c = true := by
  refine exists_mem_congr (alike_nodes h) fun a b hab => ?_
  rw [isFaulty, isFaulty, pathVerdict_alike hab, mirrors_alike.isCall hab]

/-- The paths to replace in trees that are alike are alike one by one. -/
theorem fixablePaths_alike (h : n.alike m = true) :
    List.Forall₂ (fun a b => a.alike b = true) (fixablePaths config u n) (fixablePaths config u m) := by
  refine List.rel_filterMap (fun a b hab => ?_) (alike_nodes h)
  rw [fixablePath?, fixablePath?, pathVerdict_alike hab, mirrors_alike.isCall hab]
  split
  · exact pathOf?_alike hab
  · exact .none

/-! ## Paths inside one another -/

/-- Whether `k` paths that can be replaced stand inside one another in a tree. -/
def NestedPaths (config : Config) (u : Usage) : Nat → Node → Prop
  | 0, _ => True
  | k + 1, n => ∃ p ∈ fixablePaths config u n, NestedPaths config u k p

variable {k : Nat}

/-- The nesting of paths can be decided, as a tree has but so many of them. -/
instance decidableNestedPaths (config : Config) (u : Usage) :
    (k : Nat) → (n : Node) → Decidable (NestedPaths config u k n)
  | 0, _ => isTrue trivial
  | k + 1, n =>
    have := decidableNestedPaths config u k
    inferInstanceAs (Decidable (∃ p ∈ fixablePaths config u n, NestedPaths config u k p))

/-- Any path that can be replaced is one of the kind by itself. -/
theorem nestedPaths_one_iff : NestedPaths config u 1 n ↔ fixablePaths config u n ≠ [] := by
  simp [NestedPaths, List.eq_nil_iff_forall_not_mem]

theorem NestedPaths.of_mem_nodes (hm : m ∈ n.nodes) (h : NestedPaths config u k m) :
    NestedPaths config u k n := by
  cases k with
  | zero => trivial
  | succ k =>
    obtain ⟨p, hp, h⟩ := h
    exact ⟨p, mem_fixablePaths_of_mem_nodes hm hp, h⟩

/-- Of paths inside one another the inner ones are inside one another. -/
theorem NestedPaths.of_le {j : Nat} (h : NestedPaths config u j n) (hle : k ≤ j) :
    NestedPaths config u k n := by
  induction j, hle using Nat.le_induction with
  | base => exact h
  | succ j _ ih =>
    obtain ⟨p, hp, h⟩ := h
    exact ih (h.of_mem_nodes (mem_nodes_of_mem_fixablePaths hp))

theorem size_lt_of_mem_fixablePaths (hp : p ∈ fixablePaths config u n) : p.size < n.size := by
  obtain ⟨c, hc, hp⟩ := List.mem_filterMap.1 hp
  obtain ⟨list, hlist, -, a, ha, hunwrap⟩ := pathOf?_cases (pathOf?_of_fixablePath? hp)
  have hcall := size_le_of_mem_nodes hc
  have hargument := size_le_of_mem_nodes (mem_nodes_of_child ha (mem_nodes_of_unwrap hunwrap))
  have hlist := size_lt_of_child hlist
  omega

theorem NestedPaths.le_size (h : NestedPaths config u k n) : k ≤ n.size := by
  induction k generalizing n with
  | zero => exact Nat.zero_le _
  | succ k ih =>
    obtain ⟨p, hp, h⟩ := h
    have hsize := size_lt_of_mem_fixablePaths hp
    have hk := ih h
    omega

/-- There is a greatest number of paths inside one another. -/
theorem exists_isGreatest_nestedPaths (config : Config) (u : Usage) (n : Node) :
    ∃ depth, IsGreatest {k | NestedPaths config u k n} depth := by
  have hbounded : BddAbove {k | NestedPaths config u k n} := ⟨n.size, fun _ hk => NestedPaths.le_size hk⟩
  exact hbounded.exists_isGreatest_of_nonempty ⟨0, trivial⟩

theorem nestedPaths_alike (h : n.alike m = true) : NestedPaths config u k n ↔ NestedPaths config u k m := by
  induction k generalizing n m with
  | zero => exact Iff.rfl
  | succ k ih => exact exists_mem_congr (fixablePaths_alike h) fun _ _ hpq => ih hpq

/-- A pass takes away the outermost of the paths inside one another. -/
theorem nestedPaths_replacePaths {fixes : List Fix} (hn : ∀ m ∈ n.nodes, m.LaidOut)
    (hends : ∀ m ∈ n.nodes, m.extent.start ≤ m.extent.stop) (hfixes : fixes.Perm (fixesIn config u n))
    (hsome : fixablePaths config u n ≠ []) :
    NestedPaths config u k (replacePaths config u (Fix.outermost fixes) n) ↔
      NestedPaths config u (k + 1) n := by
  have houter := onlyOuter_outermost hn hends hfixes
  have hleft := fixablePaths_replacePaths_perm hn houter
  have hmem : ∀ {c f}, c ∈ n.nodes → fixOf? config u c = some f → f ∈ fixes := fun hc hf =>
    hfixes.mem_iff.2 (List.mem_filterMap.2 ⟨_, hc, hf⟩)
  cases k with
  | zero =>
    rw [nestedPaths_one_iff]
    exact ⟨fun _ => hsome, fun _ => trivial⟩
  | succ k =>
    constructor
    · -- A path that is left stands in one that was replaced.
      rintro ⟨p, hp, hk⟩
      obtain ⟨c, hc, hp⟩ := List.mem_filterMap.1 (hleft.mem_iff.1 hp)
      rw [leftPath?] at hp
      split at hp
      · cases hp
      · rename_i happlied
        have hpn := mem_nodes_trans hc (mem_nodes_of_pathOf? (pathOf?_of_fixablePath? hp))
        obtain ⟨f, hf, -⟩ := exists_fixOf? (hends p hpn) hp
        have hinner : fixes.any f.isInside = true := by
          have hskipped := isApplied_eq_false_iff.1 (Bool.eq_false_iff.2 happlied) f hf
          simpa [mem_outermost, hmem hc hf] using hskipped
        obtain ⟨g, hg, hinside⟩ := List.any_eq_true.1 hinner
        obtain ⟨d, hd, hg⟩ := List.mem_filterMap.1 (hfixes.mem_iff.1 hg)
        obtain ⟨q, hq, hisFix⟩ := fixablePath?_of_fixOf? hg
        have hqpath := pathOf?_of_fixablePath? hq
        have hqn := mem_nodes_trans hd (mem_nodes_of_pathOf? hqpath)
        have hcq := mem_path_of_isInside hn hqn hc (unwrap_of_pathOf? hqpath) hisFix hf hinside
        exact ⟨q, List.mem_filterMap.2 ⟨d, hd, hq⟩, p, List.mem_filterMap.2 ⟨c, hcq, hp⟩, hk⟩
    · -- The second one of the paths is left, as its fix lies inside that of the first one.
      rintro ⟨q, hq, p, hp, hk⟩
      obtain ⟨d, hd, hq⟩ := List.mem_filterMap.1 hq
      obtain ⟨c, hc, hp⟩ := List.mem_filterMap.1 hp
      have hqn := mem_nodes_trans hd (mem_nodes_of_pathOf? (pathOf?_of_fixablePath? hq))
      have hnot : isApplied config u (Fix.outermost fixes) c = false := by
        rw [isApplied_eq_false_iff]
        intro f hf
        exact houter d hd q hq f (List.mem_filterMap.2 ⟨c, hc, hf⟩)
      have hleftPath : leftPath? config u (Fix.outermost fixes) c = some p := by
        rw [leftPath?, hnot]
        exact hp
      exact ⟨p, hleft.mem_iff.2 (List.mem_filterMap.2 ⟨c, mem_nodes_trans hqn hc, hleftPath⟩), hk⟩

/-! ## Rows of passes -/

/-- Passes in a row that rewrite a source, for given names of the library.  The tree of what a pass
    writes is taken to be that of the source with the paths replaced. -/
inductive Rewritings (config : Config) (u : Usage) (file : Option Text) :
    Nat → List Char → Node → List Char → Node → Prop where
  | none {source : List Char} {root : Node} : Rewritings config u file 0 source root source root
  | more {n : Nat} {source last : List Char} {root root' lastRoot : Node} {findings : List Finding}
    {r : FixResult} (hfindings : (visitAll config u (Site.calls root)).outcome = .ok findings)
    (happly : applyFixes source (diagnostics file findings) = .ok r) (hchanged : r.changed = true)
    (htree : IsTreeOf r.output root') (halike : (replacePaths config u r.applied root).alike root' = true)
    (hrest : Rewritings config u file n r.output root' last lastRoot) :
    Rewritings config u file (n + 1) source root last lastRoot

section Rows

variable {file : Option Text} {source last : List Char} {root root' lastRoot : Node}
  {findings : List Finding} {r : FixResult} {count : Nat}

/-- A pass leaves a tree without fault, with as many diagnostics that can be fixed as it skips fixes. -/
theorem length_after_pass (htree : IsTreeOf source root)
    (h : (visitAll config u (Site.calls root)).outcome = .ok findings)
    (hr : applyFixes source (diagnostics file findings) = .ok r) (htree' : IsTreeOf r.output root')
    (halike : (replacePaths config u r.applied root).alike root' = true) :
    ∃ left, (visitAll config u (Site.calls root')).outcome = .ok left ∧
      (fixable file left).length = r.skipped.length ∧
      (fixable file left).length + r.applied.length = (fixable file findings).length := by
  obtain ⟨happlied, -⟩ := applyFixes_outermost htree h hr
  have houter : OnlyOuter config u r.applied root :=
    happlied ▸ onlyOuter_outermost htree.laidOut htree.start_le_stop (fixesOf_perm file h)
  have hfaultless : ∀ n ∈ root'.nodes, isFaulty config u n = false := by
    intro n hn
    rw [Bool.eq_false_iff]
    intro hfault
    obtain ⟨m, hm, hfault⟩ := (isFaulty_alike halike).2 ⟨n, hn, hfault⟩
    have hjudged := visitAll_isOk_iff_nodes.1 ⟨findings, h⟩
    rw [isFaulty_replacePaths htree.laidOut houter hjudged m hm] at hfault
    exact nomatch hfault
  obtain ⟨left, hleft⟩ := visitAll_isOk_iff_nodes.2 hfaultless
  obtain ⟨hskipped, htotal⟩ := length_leftPaths_pass htree h hr
  have hcount : (fixable file left).length = r.skipped.length := by
    rw [length_fixable htree' hleft, ← (fixablePaths_alike halike).length_eq, hskipped]
  refine ⟨left, hleft, hcount, ?_⟩
  rw [hcount, htotal, length_fixable htree h]

/-- A pass that rewrites the source leaves one path less inside one another. -/
theorem nestedPaths_after_pass (htree : IsTreeOf source root)
    (h : (visitAll config u (Site.calls root)).outcome = .ok findings)
    (hr : applyFixes source (diagnostics file findings) = .ok r) (hchanged : r.changed = true)
    (halike : (replacePaths config u r.applied root).alike root' = true) :
    NestedPaths config u k root' ↔ NestedPaths config u (k + 1) root := by
  have hsome : fixablePaths config u root ≠ [] := by
    rw [← applied_eq_nil_iff htree h hr |>.ne]
    simpa [FixResult.changed] using hchanged
  rw [← nestedPaths_alike halike, (applyFixes_outermost htree h hr).1]
  exact nestedPaths_replacePaths htree.laidOut htree.start_le_stop (fixesOf_perm file h) hsome

/-- What a row of passes leaves. -/
theorem Rewritings.left (h : Rewritings config u file count source root last lastRoot)
    (htree : IsTreeOf source root)
    (hfindings : (visitAll config u (Site.calls root)).outcome = .ok findings) :
    IsTreeOf last lastRoot ∧ (∀ k, NestedPaths config u k lastRoot ↔ NestedPaths config u (k + count) root) ∧
      ∃ left, (visitAll config u (Site.calls lastRoot)).outcome = .ok left ∧
        count + (fixable file left).length ≤ (fixable file findings).length := by
  induction h generalizing findings with
  | none => exact ⟨htree, fun _ => Iff.rfl, findings, hfindings, by omega⟩
  | @more count source last root root' lastRoot findings' r hfindings' happly hchanged htree' halike _ ih =>
    -- Each pass takes one off the paths inside one another, and one fix at least.
    obtain rfl := Except.ok.inj (hfindings.symm.trans hfindings')
    obtain ⟨next, hnext, -, htotal⟩ := length_after_pass htree hfindings happly htree' halike
    obtain ⟨hlast, hnested, left, hleft, hle⟩ := ih htree' hnext
    refine ⟨hlast, fun k => ?_, left, hleft, ?_⟩
    · rw [hnested, nestedPaths_after_pass htree hfindings happly hchanged halike]
      exact Iff.rfl
    · have hpos : r.applied.length ≠ 0 := by
        simpa [FixResult.changed] using hchanged
      omega

/-- A row of passes has at most as many of them as paths to replace stand inside one another, and with so
    many nothing is left to replace. -/
theorem Rewritings.count_le (h : Rewritings config u file count source root last lastRoot)
    (htree : IsTreeOf source root) (hfindings : (visitAll config u (Site.calls root)).outcome = .ok findings)
    {depth : Nat} (hdepth : IsGreatest {k | NestedPaths config u k root} depth) :
    count ≤ depth ∧ (fixablePaths config u lastRoot = [] ↔ count = depth) := by
  obtain ⟨-, hnested, -⟩ := h.left htree hfindings
  have hcount : count ≤ depth := by
    have hrowNested : NestedPaths config u (0 + count) root := (hnested 0).1 trivial
    rw [Nat.zero_add] at hrowNested
    exact hdepth.2 hrowNested
  refine ⟨hcount, ?_⟩
  -- Another path is left exactly when one more stands inside one another in the first tree.
  rw [← not_iff_not, ← ne_eq, ← nestedPaths_one_iff, hnested 1]
  constructor
  · intro hmore
    have hlt : 1 + count ≤ depth := hdepth.2 hmore
    omega
  · intro hne
    exact hdepth.1.of_le (by omega)

end Rows

/-- **Progress of passes.**  A pass over a tree, for given names of the library, leaves a tree without
    fault in which as many diagnostics of the path rule can be fixed as fixes were skipped, and by the
    applied ones fewer than before.  A row of passes that rewrite the source has at most as many of them as
    paths to replace stand inside one another in the first tree, and then, and only then, nothing is left
    to fix and the next pass rewrites nothing.  A pass returns unless it puts in a surrogate. -/
theorem fix_passes_progress (config : Config) (u : Usage) (file : Option Text) {source : List Char}
    {root : Node} {findings : List Finding} (htree : IsTreeOf source root)
    (h : (visitAll config u (Site.calls root)).outcome = .ok findings) :
    (∀ r root', applyFixes source (diagnostics file findings) = .ok r → IsTreeOf r.output root' →
      (replacePaths config u r.applied root).alike root' = true →
      ∃ left, (visitAll config u (Site.calls root')).outcome = .ok left ∧
        (fixable file left).length = r.skipped.length ∧
        (fixable file left).length + r.applied.length = (fixable file findings).length) ∧
    ∃ depth, IsGreatest {k | NestedPaths config u k root} depth ∧
      ∀ count last lastRoot, Rewritings config u file count source root last lastRoot →
        count ≤ depth ∧ ∃ left, (visitAll config u (Site.calls lastRoot)).outcome = .ok left ∧
          count + (fixable file left).length ≤ (fixable file findings).length ∧
          (fixable file left = [] ↔ count = depth) ∧
          (∀ r, applyFixes last (diagnostics file left) = .ok r → (r.changed = false ↔ count = depth)) ∧
          ((∀ f ∈ fixesOf file left, f.text.Plain) → ∃ r, applyFixes last (diagnostics file left) = .ok r) := by
  refine ⟨fun r root' hr htree' halike => length_after_pass htree h hr htree' halike, ?_⟩
  obtain ⟨depth, hdepth⟩ := exists_isGreatest_nestedPaths config u root
  refine ⟨depth, hdepth, ?_⟩
  intro count last lastRoot hrow
  obtain ⟨hlast, -, left, hleft, hle⟩ := hrow.left htree h
  obtain ⟨hcount, hend⟩ := hrow.count_le htree h hdepth
  have hfixable : fixable file left = [] ↔ count = depth := by
    rw [← hend, ← List.length_eq_zero_iff, length_fixable hlast hleft, List.length_eq_zero_iff]
  refine ⟨hcount, left, hleft, hle, hfixable, ?_, exists_pass hlast hleft⟩
  intro r hr
  rw [← hend, ← applied_eq_nil_iff hlast hleft hr]
  simp [FixResult.changed]

/-- Whether a pass rewrites a source to another one, of which the tree is that of the source with the
    paths replaced.  Nothing is sorted for it. -/
def rewritesTo (config : Config) (u : Usage) (source target : List Char) : Bool :=
  let root := (Tree.parse source).root
  let root' := (Tree.parse target).root
  (visitAll config u (Site.calls root)).outcome.toOption.any fun findings =>
    let ds := findings.filterMap (reported? none)
    let fixes := ds.filterMap (·.fix)
    let applied := (Fix.select (Utf8.encode source).length 0 fixes).1
    decide (ds.Pairwise fun a b => Diagnostic.le a b) && decide (fixes.Pairwise fun a b => Fix.le a b) &&
      !applied.isEmpty && Fix.splice (Utf8.encode source) 0 applied == some (Utf8.encode target) &&
      (replacePaths config u applied root).alike root' && decide (∀ n ∈ root'.nodes, n.LaidOut)

/-- What the test says of the pass over the source. -/
theorem exists_result_of_rewritesTo {source target : List Char} (h : rewritesTo config u source target = true) :
    ∃ findings r, (visitAll config u (Site.calls (Tree.parse source).root)).outcome = .ok findings ∧
      applyFixes source (diagnostics none findings) = .ok r ∧ r.changed = true ∧ r.output = target ∧
      (replacePaths config u r.applied (Tree.parse source).root).alike (Tree.parse target).root = true ∧
      ∀ n ∈ (Tree.parse target).root.nodes, n.LaidOut := by
  rw [rewritesTo, Option.any_eq_true] at h
  obtain ⟨findings, hfindings, h⟩ := h
  simp only [Bool.and_eq_true, decide_eq_true_eq, beq_iff_eq, Bool.not_eq_true'] at h
  obtain ⟨⟨⟨⟨⟨hsorted, hfixes⟩, hsome⟩, hsplice⟩, halike⟩, hlaidOut⟩ := h
  -- The findings come in order, so that neither sorting moves anything.
  have hdiagnostics : diagnostics none findings = findings.filterMap (reported? none) :=
    List.mergeSort_of_pairwise hsorted
  have hchosen : chosen source (diagnostics none findings) =
      Fix.select (Utf8.encode source).length 0 ((findings.filterMap (reported? none)).filterMap (·.fix)) := by
    rw [chosen, hdiagnostics, Fix.sort, List.mergeSort_of_pairwise hfixes]
  let r : FixResult :=
    ⟨target, (chosen source (diagnostics none findings)).1, (chosen source (diagnostics none findings)).2⟩
  have happly : applyFixes source (diagnostics none findings) = .ok r := by
    refine applyFixes_eq_ok_iff.2 ⟨?_, rfl, rfl⟩
    rw [hchosen]
    exact hsplice
  have hchanged : r.changed = true := by
    show (!(chosen source (diagnostics none findings)).1.isEmpty) = true
    rw [hchosen, hsome]
    rfl
  rw [← hchosen] at halike
  exact ⟨findings, r, eq_ok_of_toOption hfindings, happly, hchanged, rfl, halike, hlaidOut⟩

/-- A row of passes with one more in front, which the test finds. -/
theorem rewritings_of_rewritesTo {source target last : List Char} {lastRoot : Node} {count : Nat}
    (h : rewritesTo config u source target = true)
    (hrest : Rewritings config u none count target (Tree.parse target).root last lastRoot) :
    Rewritings config u none (count + 1) source (Tree.parse source).root last lastRoot := by
  obtain ⟨findings, r, hfindings, happly, hchanged, rfl, halike, hlaidOut⟩ := exists_result_of_rewritesTo h
  exact .more hfindings happly hchanged ⟨placed_parse r.output, hlaidOut⟩ halike hrest

/-- Two paths inside one another take two passes, and nothing is left to fix.  In style `array`, too, the
    tree of what a pass writes is that of the source with the paths replaced. -/
theorem two_nested_paths_take_two_passes :
    let u := Usage.ofSettings stringPaths.settings
    let root := (Tree.parse (nestedArrays 1)).root
    IsGreatest {k | NestedPaths stringPaths u k root} 2 ∧
    (∃ last lastRoot left, Rewritings stringPaths u none 2 (nestedArrays 1) root last lastRoot ∧
      (visitAll stringPaths u (Site.calls lastRoot)).outcome = .ok left ∧ fixable none left = []) ∧
    rewritesTo { stringPaths with pathStyle := .array } u "_.get(o, 'a[0].b');".toList
      "_.get(o, ['a', '0', 'b']);".toList = true := by
  intro u root
  let once : List Char := inTemplates (nestedArrays 0) 1
  let twice : List Char := inTemplates "_.get(o, 'a')".toList 1
  have hfirst : rewritesTo stringPaths u (nestedArrays 1) once = true := by decide +kernel
  have hsecond : rewritesTo stringPaths u once twice = true := by decide +kernel
  have hrow : Rewritings stringPaths u none 2 (nestedArrays 1) root twice (Tree.parse twice).root :=
    rewritings_of_rewritesTo hfirst (rewritings_of_rewritesTo hsecond .none)
  have hrun : (visitAll stringPaths u (Site.calls root)).outcome.toOption.isSome = true := by
    decide +kernel
  obtain ⟨findings, hfindings⟩ := Option.isSome_iff_exists.1 hrun
  have hfound := eq_ok_of_toOption hfindings
  have htree : IsTreeOf (nestedArrays 1) root := ⟨placed_parse _, by decide +kernel⟩
  obtain ⟨-, depth, hdepth, hrows⟩ := fix_passes_progress stringPaths u none htree hfound
  obtain ⟨-, left, hleft, -, hend, -⟩ := hrows 2 _ _ hrow
  -- Nothing is left to find, so that two is the greatest depth.
  have hnothing : (visitAll stringPaths u (Site.calls (Tree.parse twice).root)).outcome.toOption.any
      List.isEmpty = true := by
    decide +kernel
  have hnil : fixable none left = [] := by
    rw [hleft] at hnothing
    rw [fixable, diagnostics, List.isEmpty_iff.1 hnothing, List.filterMap_nil, Diagnostic.sort,
      List.mergeSort_nil]
    rfl
  exact ⟨hend.1 hnil ▸ hdepth, ⟨twice, _, left, hrow, hleft, hnil⟩, by decide +kernel⟩

end LodashStyle.Lint
