import LodashStyle.Lint.Basic
import LodashStyle.Proofs.Outcomes
import LodashStyle.Proofs.Placement.Programs

/-!
# What linting finds

The outcomes of the steps of linting without their logs, and where the findings stand: a fix
replaces the path argument of a call, which is a node of the tree, so its span is made of whole
characters of the source.

## Key results

- `outcome_visit`: the outcome of looking at one call
- `lintTree_ok_iff`: the diagnostics of a tree are those of its findings, in the order of their spans
- `lint_fix_path`: the fix of a diagnostic puts its text in the place of a path
- `lint_fix_spans`: it replaces whole characters of the source
-/

namespace LodashStyle.Lint

open JavaScript

/-! ## Outcomes -/

/-- The path argument of a call, if the call is one of a library method with a path. -/
def pathOf? (u : Usage) (n : Node) : Option Node :=
  (u.classify? n).bind fun (method, form) => u.pathArgument? n method form

/-- What the chaining rule finds at a call. -/
def chainingFindings (config : Config) (u : Usage) (s : Site) : List Finding :=
  match Chaining.judge u config.chaining s with
  | none => []
  | some f => [⟨.chaining, Chaining.verdict (some f)⟩]

/-- What a verdict on a path comes to. -/
def pathFindings (v : Verdict) : List Finding :=
  match v.advice with
  | none => []
  | some _ => [⟨.pathStyle, v⟩]

/-- What the path rule finds at a call. -/
def judgePath (config : Config) (u : Usage) (n : Node) : Except EscapeFault (List Finding) :=
  match pathOf? u n with
  | none => .ok []
  | some argument => (PathStyle.judge config.pathStyle argument).map pathFindings

/-- The use of the library that a tree is linted with. -/
def usageOf (config : Config) (root : Node) : Usage :=
  { Usage.ofSettings config.settings with
    bindings := ((Usage.ofSettings config.settings).bindings.collect root).1 }

/-- The paths that are judged in a tree, without the parentheses around them. -/
def paths (config : Config) (root : Node) : List Node :=
  if config.rules.pathStyle then
    (Site.calls root).filterMap fun s => (pathOf? (usageOf config root) s.node).bind Node.unwrap
  else []

/-- A fix that puts its text in the place of a path. -/
def IsFixOf (style : PathStyle) (n : Node) (f : Fix) : Prop :=
  ∃ advice, PathStyle.judge style n = .ok (.violation n advice (some f.text)) ∧
    f.start = n.extent.start ∧ f.stop = n.extent.stop

variable {config : Config} {u : Usage} {s : Site}

theorem outcome_visitChaining :
    (visitChaining config u s).outcome = .ok (chainingFindings config u s) := by
  unfold visitChaining chainingFindings
  cases Chaining.judge u config.chaining s with
  | none => rfl
  | some f =>
    dsimp only
    rw [Run.outcome_bind, Run.outcome_forIn_debug]
    rfl

theorem outcome_visitPath : (visitPath config u s).outcome = judgePath config u s.node := by
  unfold visitPath judgePath pathOf?
  cases hmethod : u.classify? s.node with
  | none => rfl
  | some method =>
    obtain ⟨method, form⟩ := method
    dsimp only [Option.bind_some]
    cases u.pathArgument? s.node method form with
    | none => rfl
    | some argument =>
      dsimp only
      rw [Run.outcome_bind, Run.outcome_ofExcept]
      cases PathStyle.judge config.pathStyle argument with
      | error fault => rfl
      | ok v =>
        -- Only the log tells an array without a string form apart.
        obtain ⟨extent, advice, replacement⟩ := v
        cases PathStyle.unconvertible? config.pathStyle argument with
        | none => cases advice <;> rfl
        | some array => cases advice <;> rfl

/-- The outcome of looking at one call: only the path rule can fail. -/
theorem outcome_visit :
    (visit config u s).outcome =
      (if config.rules.pathStyle then judgePath config u s.node else .ok []).map
        ((if config.rules.chaining then chainingFindings config u s else []) ++ ·) := by
  -- What the path rule finds is put behind what was found before.
  have hpath : ∀ found : List Finding,
      (if config.rules.pathStyle = true then visitPath config u s >>= fun path => pure (found ++ path)
        else pure [] >>= fun path => pure (found ++ path) : Run EscapeFault (List Finding)).outcome =
      (if config.rules.pathStyle then judgePath config u s.node else .ok []).map (found ++ ·) := by
    intro found
    split
    · rw [Run.outcome_bind, outcome_visitPath]
      cases judgePath config u s.node <;> rfl
    · rfl
  unfold visit
  dsimp only
  split
  · rw [Run.outcome_bind, outcome_visitChaining]
    exact hpath _
  · exact hpath []

/-! ## Findings -/

theorem visitAll_ok {sites : List Site} {findings : List Finding}
    (h : (visitAll config u sites).outcome = .ok findings) {f : Finding} (hf : f ∈ findings) :
    ∃ s ∈ sites, ∃ here, (visit config u s).outcome = .ok here ∧ f ∈ here := by
  induction sites generalizing findings with
  | nil =>
    obtain rfl : [] = findings := Except.ok.inj h
    exact absurd hf List.not_mem_nil
  | cons s rest ih =>
    rw [visitAll] at h
    obtain ⟨here, hhere, h⟩ := Run.bind_eq_ok_iff.1 h
    obtain ⟨later, hlater, h⟩ := Run.bind_eq_ok_iff.1 h
    obtain rfl : here ++ later = findings := Except.ok.inj h
    obtain hf | hf := List.mem_append.1 hf
    · exact ⟨s, List.mem_cons_self, here, hhere, hf⟩
    · obtain ⟨s', hs', here', hhere', hf'⟩ := ih hlater hf
      exact ⟨s', List.mem_cons_of_mem s hs', here', hhere', hf'⟩

/-- Looking at several calls succeeds when looking at each of them does. -/
theorem visitAll_isOk_iff {sites : List Site} :
    (∃ findings, (visitAll config u sites).outcome = .ok findings) ↔
      ∀ s ∈ sites, ∃ here, (visit config u s).outcome = .ok here := by
  induction sites with
  | nil =>
    constructor
    · intro _ s hs
      exact absurd hs List.not_mem_nil
    · intro _
      exact ⟨[], rfl⟩
  | cons s rest ih =>
    rw [List.forall_mem_cons, ← ih, visitAll]
    constructor
    · rintro ⟨findings, h⟩
      obtain ⟨here, hhere, h⟩ := Run.bind_eq_ok_iff.1 h
      obtain ⟨later, hlater, -⟩ := Run.bind_eq_ok_iff.1 h
      exact ⟨⟨here, hhere⟩, ⟨later, hlater⟩⟩
    · rintro ⟨⟨here, hhere⟩, ⟨later, hlater⟩⟩
      exact ⟨here ++ later, Run.bind_eq_ok_iff.2 ⟨here, hhere, Run.bind_eq_ok_iff.2 ⟨later, hlater, rfl⟩⟩⟩

/-- The use of the library is known when the imports could be read. -/
theorem usage_eq_ok_iff {root : Node} :
    (usage config.settings root).outcome = .ok u ↔
      ((Usage.ofSettings config.settings).bindings.collect root).2 = none ∧ u = usageOf config root := by
  unfold usage usageOf
  dsimp only
  obtain ⟨bindings, fault⟩ := (Usage.ofSettings config.settings).bindings.collect root
  cases fault with
  | some fault => simp [Run.fail]
  | none =>
    dsimp only
    split
    · rw [Run.outcome_bind]
      simp [Run.debug, bind, Except.bind, eq_comm]
    · simp [eq_comm]

/-- The diagnostics of a tree are those of its findings. -/
theorem lintTree_ok_iff {file : Option Text} {root : Node} {ds : List Diagnostic} :
    (lintTree config file root).outcome = .ok ds ↔
      ∃ u findings, (usage config.settings root).outcome = .ok u ∧
        (visitAll config u (Site.calls root)).outcome = .ok findings ∧
        ds = diagnostics file findings := by
  unfold lintTree
  rw [Run.bind_eq_ok_iff]
  constructor
  · rintro ⟨u, hu, h⟩
    obtain ⟨findings, hfindings, h⟩ := Run.bind_eq_ok_iff.1 h
    exact ⟨u, findings, hu, hfindings, (Except.ok.inj h).symm⟩
  · rintro ⟨u, findings, hu, hfindings, rfl⟩
    exact ⟨u, hu, Run.bind_eq_ok_iff.2 ⟨findings, hfindings, rfl⟩⟩

/-- Whether the source has errors shows in the log only. -/
theorem outcome_lint (config : Config) (file : Option Text) (source : List Char) :
    (lint config file source).outcome =
      (lintTree config file (Tree.parse source).root).outcome := by
  unfold lint parseLogged
  generalize Tree.parse source = tree
  dsimp only
  split <;> rfl

theorem mem_diagnostics {file : Option Text} {findings : List Finding} {d : Diagnostic} :
    d ∈ diagnostics file findings ↔ ∃ f ∈ findings, f.verdict.diagnostic? f.rule file = some d := by
  rw [diagnostics, Diagnostic.sort, List.mem_mergeSort, List.mem_filterMap]

/-! ## Spans of findings -/

variable {src : List Char}

/-- All sites of a placed tree are placed; the stack holds placed trees only. -/
theorem placed_visits {root : Node} (h : Placed src root) : ∀ s ∈ Site.visits root, Placed src s.node := by
  -- The induction is on the fuel, for any stack of placed sites.
  suffices ∀ (fuel : Nat) (stack : List Site), (∀ s ∈ stack, Placed src s.node) →
      ∀ s ∈ Site.visitFrom fuel stack, Placed src s.node by
    refine this root.size [Site.root root] ?_
    intro s hs
    rw [List.mem_singleton.1 hs]
    exact h
  intro fuel
  induction fuel with
  | zero => exact fun _ _ s hs => absurd hs List.not_mem_nil
  | succ fuel ih =>
    intro stack hstack
    cases stack with
    | nil => exact fun s hs => absurd hs List.not_mem_nil
    | cons top rest =>
      intro s hs
      rw [Site.visitFrom] at hs
      obtain rfl | hs := List.mem_cons.1 hs
      · exact hstack s List.mem_cons_self
      · refine ih (top.children ++ rest) ?_ s hs
        intro s hs
        obtain hs | hs := List.mem_append.1 hs
        · obtain ⟨i, hi, rfl⟩ := List.mem_mapIdx.1 hs
          exact (hstack top List.mem_cons_self).child (List.getElem_mem hi)
        · exact hstack s (List.mem_cons_of_mem top hs)

mutual

/-- What stands inside parentheses is placed. -/
theorem placed_unwrap {src : List Char} : ∀ {n m : Node}, Placed src n → n.unwrap = some m → Placed src m
  | .mk label children, m, hn, h => by
    unfold Node.unwrap at h
    split at h
    · obtain ⟨-, hchildren⟩ := hn
      exact placed_unwrapFirst hchildren h
    · rw [← Option.some.inj h]
      exact hn

theorem placed_unwrapFirst {src : List Char} :
    ∀ {nodes : List Node} {m : Node}, (∀ n ∈ nodes, Placed src n) → Node.unwrapFirst nodes = some m →
      Placed src m
  | [], _, _, h => nomatch h
  | n :: rest, m, hnodes, h => by
    unfold Node.unwrapFirst at h
    split at h
    · exact placed_unwrap (hnodes n List.mem_cons_self) h
    · exact placed_unwrapFirst (fun n hn => hnodes n (List.mem_cons_of_mem _ hn)) h

end

theorem placed_argument {n m : Node} (hn : Placed src n) {index : Nat} (h : n.argument? index = some m) :
    Placed src m := by
  unfold Node.argument? at h
  obtain ⟨argument, hargument, h⟩ := Option.bind_eq_some_iff.1 h
  refine placed_unwrap ?_ h
  have hmem := List.mem_of_getElem? hargument
  unfold Node.arguments at hmem
  split at hmem
  · rename_i list hlist
    have hplaced : Placed src list := hn.child (List.mem_of_find?_eq_some hlist)
    split at hmem
    · exact hplaced.child (List.mem_filter.1 hmem).1
    · exact absurd hmem List.not_mem_nil
  · exact absurd hmem List.not_mem_nil

theorem placed_pathOf {n m : Node} (hn : Placed src n) (h : pathOf? u n = some m) : Placed src m := by
  obtain ⟨⟨method, form⟩, -, h⟩ := Option.bind_eq_some_iff.1 h
  simp only [Usage.pathArgument?] at h
  split at h
  · cases h
  · exact placed_argument hn h
  · exact placed_argument hn h
  · cases h

/-- A verdict that is none, or one on a node. -/
def IsOn (n : Node) (v : Verdict) : Prop :=
  v = .compliant ∨ ∃ advice replacement, v = .violation n advice replacement

theorem isOn_judgeAsNeeded {n : Node} {shape : PathStyle.Shape} {v : Verdict}
    (h : PathStyle.judgeAsNeeded n shape = .ok v) : IsOn n v := by
  unfold PathStyle.judgeAsNeeded at h
  split at h
  · obtain ⟨text, -, h⟩ := bind_eq_ok h
    exact .inr ⟨_, text, (Except.ok.inj h).symm⟩
  · exact .inr ⟨_, none, (Except.ok.inj h).symm⟩
  · exact .inr ⟨_, none, (Except.ok.inj h).symm⟩
  · exact .inl (Except.ok.inj h).symm

theorem isOn_judgeArray {n : Node} {shape : PathStyle.Shape} {v : Verdict}
    (h : PathStyle.judgeArray n shape = .ok v) : IsOn n v := by
  unfold PathStyle.judgeArray at h
  split at h
  · obtain ⟨text, -, h⟩ := bind_eq_ok h
    exact .inr ⟨_, some text, (Except.ok.inj h).symm⟩
  · exact .inr ⟨_, none, (Except.ok.inj h).symm⟩
  · exact .inr ⟨_, none, (Except.ok.inj h).symm⟩
  · exact .inl (Except.ok.inj h).symm

theorem isOn_judgeString {n : Node} {shape : PathStyle.Shape} {v : Verdict}
    (h : PathStyle.judgeString n shape = .ok v) : IsOn n v := by
  have harray : (if PathStyle.isConvertible n then do
        return .violation n .string (← PathStyle.stringStyle n)
      else return .violation n .string none : Except EscapeFault Verdict) = .ok v → IsOn n v := by
    intro h
    split at h
    · obtain ⟨text, -, h⟩ := bind_eq_ok h
      exact .inr ⟨_, text, (Except.ok.inj h).symm⟩
    · exact .inr ⟨_, none, (Except.ok.inj h).symm⟩
  unfold PathStyle.judgeString at h
  split at h
  · exact harray h
  · exact harray h
  · exact .inl (Except.ok.inj h).symm

mutual

/-- What stands inside parentheses has none around it. -/
theorem unwrap_unwrap : ∀ {n m : Node}, n.unwrap = some m → m.unwrap = some m
  | .mk label children, m, h => by
    unfold Node.unwrap at h
    split at h
    · exact unwrap_unwrapFirst h
    · rename_i hkind
      rw [← Option.some.inj h, Node.unwrap, if_neg hkind]

theorem unwrap_unwrapFirst : ∀ {nodes : List Node} {m : Node},
    Node.unwrapFirst nodes = some m → m.unwrap = some m
  | [], _, h => nomatch h
  | n :: rest, m, h => by
    unfold Node.unwrapFirst at h
    split at h
    · exact unwrap_unwrap h
    · exact unwrap_unwrapFirst h

end

/-- Parentheses have no part in a verdict. -/
theorem judge_unwrap {style : PathStyle} {argument n : Node} (h : argument.unwrap = some n) :
    PathStyle.judge style n = PathStyle.judge style argument := by
  unfold PathStyle.judge
  rw [unwrap_unwrap h, h]

/-- A verdict on a path is about the argument inside its parentheses. -/
theorem isOn_judge {style : PathStyle} {argument : Node} {v : Verdict}
    (h : PathStyle.judge style argument = .ok v) :
    v = .compliant ∨ ∃ n, argument.unwrap = some n ∧ IsOn n v := by
  unfold PathStyle.judge at h
  cases hn : argument.unwrap with
  | none =>
    rw [hn] at h
    exact .inl (Except.ok.inj h).symm
  | some n =>
    rw [hn] at h
    obtain ⟨shape, -, h⟩ := bind_eq_ok h
    refine .inr ⟨n, rfl, ?_⟩
    cases style with
    | asNeeded => exact isOn_judgeAsNeeded h
    | array => exact isOn_judgeArray h
    | string => exact isOn_judgeString h

/-- A finding with a replacement comes from the path rule. -/
theorem visit_replacement {here : List Finding} (h : (visit config u s).outcome = .ok here)
    {f : Finding} (hf : f ∈ here) {text : Text} (htext : f.verdict.replacement = some text) :
    config.rules.pathStyle = true ∧ ∃ argument, pathOf? u s.node = some argument ∧
      PathStyle.judge config.pathStyle argument = .ok f.verdict := by
  rw [outcome_visit] at h
  cases hpath : (if config.rules.pathStyle then judgePath config u s.node else .ok []) with
  | error fault =>
    rw [hpath] at h
    exact nomatch h
  | ok path =>
    rw [hpath] at h
    obtain rfl := Except.ok.inj h
    obtain hf | hf := List.mem_append.1 hf
    · -- The chaining rule offers no replacement.
      split at hf
      · unfold chainingFindings at hf
        split at hf
        · exact absurd hf List.not_mem_nil
        · rw [List.mem_singleton.1 hf] at htext
          exact nomatch htext
      · exact absurd hf List.not_mem_nil
    · split at hpath
      · rename_i hrule
        refine ⟨hrule, ?_⟩
        unfold judgePath at hpath
        split at hpath
        · obtain rfl := Except.ok.inj hpath
          exact absurd hf List.not_mem_nil
        · rename_i argument hargument
          cases hjudge : PathStyle.judge config.pathStyle argument with
          | error fault =>
            rw [hjudge] at hpath
            exact nomatch hpath
          | ok v =>
            rw [hjudge] at hpath
            obtain rfl := Except.ok.inj hpath
            refine ⟨argument, hargument, ?_⟩
            unfold pathFindings at hf
            split at hf
            · exact absurd hf List.not_mem_nil
            · rw [List.mem_singleton.1 hf]
              exact hjudge
      · obtain rfl := Except.ok.inj hpath
        exact absurd hf List.not_mem_nil

/-- The paths of a placed tree are placed. -/
theorem placed_paths {root n : Node} (hroot : Placed src root) (hn : n ∈ paths config root) :
    Placed src n := by
  unfold paths at hn
  split at hn
  · obtain ⟨s, hs, hpath⟩ := List.mem_filterMap.1 hn
    obtain ⟨argument, hargument, hn⟩ := Option.bind_eq_some_iff.1 hpath
    have hsite := placed_visits hroot s (List.mem_filter.1 hs).1
    exact placed_unwrap (placed_pathOf hsite hargument) hn
  · exact absurd hn List.not_mem_nil

/-- The fix of a diagnostic puts its text in the place of a path. -/
theorem lint_fix_path {file : Option Text} {source : List Char} {ds : List Diagnostic}
    (h : (lint config file source).outcome = .ok ds) {d : Diagnostic} (hd : d ∈ ds) {f : Fix}
    (hf : d.fix = some f) :
    ∃ n ∈ paths config (Tree.parse source).root, IsFixOf config.pathStyle n f := by
  rw [outcome_lint] at h
  obtain ⟨u, findings, hu, hfindings, rfl⟩ := lintTree_ok_iff.1 h
  obtain ⟨-, rfl⟩ := usage_eq_ok_iff.1 hu
  obtain ⟨finding, hmem, hdiagnostic⟩ := mem_diagnostics.1 hd
  obtain ⟨s, hs, here, hhere, hfinding⟩ := visitAll_ok hfindings hmem
  unfold Verdict.diagnostic? at hdiagnostic
  split at hdiagnostic
  · rename_i e advice he _
    obtain rfl := Option.some.inj hdiagnostic
    obtain ⟨text, htext, hfix⟩ := Option.bind_eq_some_iff.1 hf
    -- Only the path rule offers replacements.
    obtain ⟨hrule, argument, hargument, hjudge⟩ := visit_replacement hhere hfinding htext
    obtain hnone | ⟨n, hn, hon⟩ := isOn_judge hjudge
    · rw [hnone] at htext
      exact nomatch htext
    · have hpath : n ∈ paths config (Tree.parse source).root := by
        rw [paths, if_pos hrule]
        refine List.mem_filterMap.2 ⟨s, hs, ?_⟩
        rw [hargument, Option.bind_some, hn]
      refine ⟨n, hpath, ?_⟩
      obtain hnone | ⟨advice, replacement, hverdict⟩ := hon
      · rw [hnone] at htext
        exact nomatch htext
      rw [hverdict] at htext he hjudge
      obtain rfl : n.extent = e := Option.some.inj he
      obtain rfl : replacement = some text := htext
      unfold Verdict.fixAt at hfix
      split at hfix
      · obtain rfl := Option.some.inj hfix
        exact ⟨advice, (judge_unwrap hn).trans hjudge, rfl, rfl⟩
      · exact nomatch hfix
  · exact nomatch hdiagnostic

/-- The fix of a diagnostic replaces whole characters of the source. -/
theorem lint_fix_spans {file : Option Text} {source : List Char} {ds : List Diagnostic}
    (h : (lint config file source).outcome = .ok ds) {d : Diagnostic} (hd : d ∈ ds) {f : Fix}
    (hf : d.fix = some f) : ∃ e, Spans source e ∧ f.start = e.start ∧ f.stop = e.stop := by
  obtain ⟨n, hn, advice, -, hstart, hstop⟩ := lint_fix_path h hd hf
  exact ⟨n.extent, (placed_paths (placed_parse source) hn).spans, hstart, hstop⟩

end LodashStyle.Lint
