import LodashStyle.Proofs.Settling
import LodashStyle.Proofs.SpanOrder
import LodashStyle.Proofs.Traversal
import Mathlib.Data.List.Forall2

/-!
# What is reported

Each enabled rule gives a verdict on each call, and each violation becomes one diagnostic.  So the
diagnostics of a tree are those of its violations, in the order of their spans, and what one rule
reports does not depend on the other rule.

## Key results

- `visit_eq_ok_iff`, `visitAll_eq_ok_iff`: what is found, read off the verdicts of the enabled rules
- `forall₂_isReport`: each violation has one diagnostic
- `findingsAt_only`: with one rule enabled its findings are those it has beside the other rule
- `lint_reports_violations`: the diagnostics of a tree, and those of one rule alone
-/

namespace LodashStyle.Lint

open JavaScript

/-! ## Verdicts on calls -/

/-- The verdict of a rule on a call. -/
def verdictOf (config : Config) (u : Usage) (s : Site) : Rule → Except EscapeFault Verdict
  | .chaining => .ok (Chaining.verdict (Chaining.judge u config.chaining s))
  | .pathStyle =>
    match pathOf? u s.node with
    | none => .ok .compliant
    | some argument => PathStyle.judge config.pathStyle argument

/-- Whether a call violates a rule. -/
def violates (config : Config) (u : Usage) (s : Site) (rule : Rule) : Bool :=
  (verdictOf config u s rule).toOption.any (·.isViolation)

/-- What a rule finds at a call. -/
def finding? (config : Config) (u : Usage) (s : Site) (rule : Rule) : Option Finding :=
  ((verdictOf config u s rule).toOption.filter (·.isViolation)).map fun v => ⟨rule, v⟩

/-- What the enabled rules find at a call. -/
def findingsAt (config : Config) (u : Usage) (s : Site) : List Finding :=
  config.rules.toList.filterMap (finding? config u s)

/-- Whether every enabled rule has a verdict on a call. -/
def Judged (config : Config) (u : Usage) (s : Site) : Prop :=
  ∀ rule ∈ config.rules.toList, ∃ v, verdictOf config u s rule = .ok v

variable {config : Config} {u : Usage} {s : Site}

theorem chainingFindings_eq :
    chainingFindings config u s = (finding? config u s .chaining).toList := by
  unfold chainingFindings finding? verdictOf
  cases Chaining.judge u config.chaining s with
  | none => rfl
  | some f => rfl

theorem judgePath_eq :
    judgePath config u s.node =
      (verdictOf config u s .pathStyle).map fun _ => (finding? config u s .pathStyle).toList := by
  unfold judgePath finding? verdictOf
  cases pathOf? u s.node with
  | none => rfl
  | some argument =>
    dsimp only
    cases PathStyle.judge config.pathStyle argument with
    | error fault => rfl
    | ok v =>
      obtain ⟨extent, advice, replacement⟩ := v
      cases advice <;> rfl

theorem findingsAt_eq :
    findingsAt config u s =
      (if config.rules.chaining then (finding? config u s .chaining).toList else []) ++
        (if config.rules.pathStyle then (finding? config u s .pathStyle).toList else []) := by
  rw [findingsAt, RuleSet.toList, List.filterMap_filter]
  cases hchaining : config.rules.chaining <;> cases hpath : config.rules.pathStyle <;>
    cases hfirst : finding? config u s .chaining <;> cases hsecond : finding? config u s .pathStyle <;>
    simp [RuleSet.contains, hchaining, hpath, hfirst, hsecond]

/-- Only the path rule can be without a verdict. -/
theorem judged_iff :
    Judged config u s ↔
      (config.rules.pathStyle = true → ∃ v, verdictOf config u s .pathStyle = .ok v) := by
  unfold Judged
  constructor
  · intro h hpath
    exact h .pathStyle ((RuleSet.mem_toList _ _).2 hpath)
  · intro h rule hrule
    cases rule with
    | chaining => exact ⟨_, rfl⟩
    | pathStyle => exact h ((RuleSet.mem_toList _ _).1 hrule)

/-- Looking at a call yields what the enabled rules find there, if they have verdicts. -/
theorem visit_eq_ok_iff {here : List Finding} :
    (visit config u s).outcome = .ok here ↔ Judged config u s ∧ here = findingsAt config u s := by
  rw [outcome_visit, judgePath_eq, chainingFindings_eq, findingsAt_eq, judged_iff]
  cases config.rules.pathStyle with
  | false =>
    constructor
    · intro h
      exact ⟨fun hfalse => absurd hfalse (by decide), (Except.ok.inj h).symm⟩
    · rintro ⟨-, rfl⟩
      rfl
  | true =>
    cases verdictOf config u s .pathStyle with
    | error fault => simp [Except.map]
    | ok v =>
      constructor
      · intro h
        exact ⟨fun _ => ⟨v, rfl⟩, (Except.ok.inj h).symm⟩
      · rintro ⟨-, rfl⟩
        rfl

/-- Looking at several calls yields what the enabled rules find at each of them in turn. -/
theorem visitAll_eq_ok_iff {sites : List Site} {findings : List Finding} :
    (visitAll config u sites).outcome = .ok findings ↔
      (∀ s ∈ sites, Judged config u s) ∧ findings = sites.flatMap (findingsAt config u) := by
  induction sites generalizing findings with
  | nil => simp [visitAll, eq_comm]
  | cons s rest ih =>
    rw [List.forall_mem_cons, List.flatMap_cons, visitAll]
    constructor
    · intro h
      obtain ⟨here, hhere, h⟩ := Run.bind_eq_ok_iff.1 h
      obtain ⟨later, hlater, h⟩ := Run.bind_eq_ok_iff.1 h
      obtain ⟨hjudged, rfl⟩ := visit_eq_ok_iff.1 hhere
      obtain ⟨hrest, rfl⟩ := ih.1 hlater
      exact ⟨⟨hjudged, hrest⟩, (Except.ok.inj h).symm⟩
    · rintro ⟨⟨hjudged, hrest⟩, rfl⟩
      have hhere := visit_eq_ok_iff.2 ⟨hjudged, rfl⟩
      have hlater := ih.2 ⟨hrest, rfl⟩
      exact Run.bind_eq_ok_iff.2 ⟨_, hhere, Run.bind_eq_ok_iff.2 ⟨_, hlater, rfl⟩⟩

/-! ## Violations and diagnostics -/

/-- The violations at a call: the call with each enabled rule that it violates. -/
def violationsAt (config : Config) (u : Usage) (s : Site) : List (Site × Rule) :=
  (config.rules.toList.filter (violates config u s)).map fun rule => (s, rule)

/-- The violations in a tree: those at its calls, in the order of the recursion. -/
def violations (config : Config) (u : Usage) (root : Node) : List (Site × Rule) :=
  ((Site.root root).preorder.filter (·.node.isCall)).flatMap (violationsAt config u)

/-- A diagnostic that reports a violation: it says what the verdict says. -/
def IsReport (config : Config) (u : Usage) (file : Option Text) (p : Site × Rule) (d : Diagnostic) :
    Prop :=
  ∃ v, verdictOf config u p.1 p.2 = .ok v ∧ v.diagnostic? p.2 file = some d

/-- The diagnostic of a finding. -/
def reported? (file : Option Text) (f : Finding) : Option Diagnostic := f.verdict.diagnostic? f.rule file

theorem violations_eq (config : Config) (u : Usage) (root : Node) :
    violations config u root = (Site.calls root).flatMap (violationsAt config u) := by
  rw [violations, Site.calls_eq_preorder]

theorem diagnostics_eq (file : Option Text) (findings : List Finding) :
    diagnostics file findings = sortBySpan Diagnostic.span (findings.filterMap (reported? file)) := by
  rw [diagnostics, Diagnostic.sort_eq]
  rfl

/-- A verdict that something is wrong is about a node, so that it can be reported. -/
theorem exists_diagnostic (file : Option Text) {rule : Rule} {v : Verdict}
    (h : verdictOf config u s rule = .ok v) (hv : v.isViolation = true) :
    ∃ d, v.diagnostic? rule file = some d := by
  -- What is a violation holds a node to report.
  have hon : v = .compliant ∨ ∃ n advice replacement, v = .violation n advice replacement := by
    cases rule with
    | chaining =>
      obtain rfl := Except.ok.inj h
      cases Chaining.judge u config.chaining s with
      | none => exact .inl rfl
      | some f => exact .inr ⟨_, _, _, rfl⟩
    | pathStyle =>
      simp only [verdictOf] at h
      split at h
      · exact .inl (Except.ok.inj h).symm
      · obtain hnone | ⟨n, -, hnone | ⟨advice, replacement, rfl⟩⟩ := isOn_judge h
        · exact .inl hnone
        · exact .inl hnone
        · exact .inr ⟨n, advice, replacement, rfl⟩
  obtain rfl | ⟨n, advice, replacement, rfl⟩ := hon
  · exact nomatch hv
  · exact ⟨_, rfl⟩

/-- Each violation at a call has one diagnostic. -/
theorem forall₂_isReport_at (config : Config) (u : Usage) (file : Option Text) (s : Site) :
    List.Forall₂ (IsReport config u file) (violationsAt config u s)
      ((findingsAt config u s).filterMap (reported? file)) := by
  unfold violationsAt findingsAt
  induction config.rules.toList with
  | nil => exact .nil
  | cons rule rest ih =>
    cases hverdict : verdictOf config u s rule with
    -- A rule that fails here is no violation and finds nothing.
    | error fault => simpa [violates, finding?, hverdict, Except.toOption] using ih
    | ok v =>
      cases hv : v.isViolation with
      | false => simpa [violates, finding?, hverdict, Except.toOption, hv] using ih
      | true =>
        obtain ⟨d, hd⟩ := exists_diagnostic file hverdict hv
        have hviolates : violates config u s rule = true := by
          simp [violates, hverdict, Except.toOption, hv]
        have hfinding : finding? config u s rule = some ⟨rule, v⟩ := by
          simp [finding?, hverdict, Except.toOption, hv]
        have hreported : reported? file ⟨rule, v⟩ = some d := hd
        rw [List.filter_cons_of_pos hviolates, List.map_cons, List.filterMap_cons_some hfinding,
          List.filterMap_cons_some hreported]
        exact .cons ⟨v, hverdict, hd⟩ ih

/-- Each violation at some calls has one diagnostic. -/
theorem forall₂_isReport (config : Config) (u : Usage) (file : Option Text) (sites : List Site) :
    List.Forall₂ (IsReport config u file) (sites.flatMap (violationsAt config u))
      ((sites.flatMap (findingsAt config u)).filterMap (reported? file)) := by
  induction sites with
  | nil => exact .nil
  | cons s rest ih =>
    rw [List.flatMap_cons, List.flatMap_cons, List.filterMap_append]
    exact List.rel_append (forall₂_isReport_at config u file s) ih

/-! ## One rule alone -/

/-- Two configurations that give a rule the same options. -/
def SameOptions (a b : Config) : Rule → Prop
  | .chaining => a.chaining = b.chaining
  | .pathStyle => a.pathStyle = b.pathStyle

variable {other : Config} {rule : Rule}

/-- The verdict of a rule takes its own options only. -/
theorem verdictOf_congr (h : SameOptions other config rule) :
    verdictOf other u s rule = verdictOf config u s rule := by
  cases rule with
  | chaining =>
    have hchaining : other.chaining = config.chaining := h
    simp only [verdictOf, hchaining]
  | pathStyle =>
    have hpath : other.pathStyle = config.pathStyle := h
    simp only [verdictOf, hpath]

theorem filter_rule_finding? (r : Rule) :
    (finding? config u s r).toList.filter (·.rule == rule) =
      if r = rule then (finding? config u s r).toList else [] := by
  cases h : finding? config u s r with
  | none => simp
  | some f =>
    obtain ⟨v, -, rfl⟩ := Option.map_eq_some_iff.1 h
    simp [List.filter_cons]

/-- With one rule enabled its findings are those it has beside the other rule. -/
theorem findingsAt_only (hrule : config.rules.contains rule = true)
    (hoptions : SameOptions other config rule)
    (honly : ∀ r, other.rules.contains r = true ↔ r = rule) :
    findingsAt other u s = (findingsAt config u s).filter (·.rule == rule) := by
  have hfinding : finding? other u s rule = finding? config u s rule := by
    rw [finding?, finding?, verdictOf_congr hoptions]
  have hchaining : other.rules.chaining = true ↔ Rule.chaining = rule := honly .chaining
  have hpath : other.rules.pathStyle = true ↔ Rule.pathStyle = rule := honly .pathStyle
  rw [findingsAt_eq, findingsAt_eq, List.filter_append]
  cases rule with
  | chaining =>
    have hrule : config.rules.chaining = true := hrule
    simp [hchaining, hpath, hrule, hfinding, apply_ite (List.filter _), filter_rule_finding?]
  | pathStyle =>
    have hrule : config.rules.pathStyle = true := hrule
    simp [hchaining, hpath, hrule, hfinding, apply_ite (List.filter _), filter_rule_finding?]

/-- The diagnostics of a rule are those of its findings. -/
theorem filterMap_reported_filter (file : Option Text) (findings : List Finding) :
    (findings.filter (·.rule == rule)).filterMap (reported? file) =
      (findings.filterMap (reported? file)).filter (·.rule == rule) := by
  rw [List.filterMap_filter, List.filter_filterMap]
  congr 1
  funext f
  cases h : reported? file f with
  | none => simp
  | some d =>
    have hrule : d.rule = f.rule := by
      unfold reported? Verdict.diagnostic? at h
      split at h
      · rw [← Option.some.inj h]
      · exact nomatch h
    simp [Option.filter, hrule]

/-- A run with one rule enabled reports what the rule reports beside the other one. -/
theorem lintTree_only {file : Option Text} {root : Node} {ds : List Diagnostic}
    (h : (lintTree config file root).outcome = .ok ds) (hrule : config.rules.contains rule = true)
    (hsettings : other.settings = config.settings) (hoptions : SameOptions other config rule)
    (honly : ∀ r, other.rules.contains r = true ↔ r = rule) :
    (lintTree other file root).outcome = .ok (ds.filter (·.rule == rule)) := by
  obtain ⟨u, findings, hu, hfindings, rfl⟩ := lintTree_ok_iff.1 h
  obtain ⟨hjudged, rfl⟩ := visitAll_eq_ok_iff.1 hfindings
  have hmem : rule ∈ config.rules.toList := (RuleSet.mem_toList _ _).2 hrule
  have hother : ∀ s ∈ Site.calls root, Judged other u s := by
    intro s hs r hr
    obtain rfl : r = rule := (honly r).1 ((RuleSet.mem_toList _ _).1 hr)
    rw [verdictOf_congr hoptions]
    exact hjudged s hs r hmem
  have hfound : (Site.calls root).flatMap (findingsAt other u) =
      ((Site.calls root).flatMap (findingsAt config u)).filter (·.rule == rule) := by
    have hsites : findingsAt other u = fun s => (findingsAt config u s).filter (·.rule == rule) :=
      funext fun s => findingsAt_only hrule hoptions honly
    rw [hsites, List.filter_flatMap]
  rw [← hsettings] at hu
  apply lintTree_ok_iff.2
  refine ⟨u, _, hu, visitAll_eq_ok_iff.2 ⟨hother, rfl⟩, ?_⟩
  -- Leaving the other rule out before or after the ordering makes no difference.
  rw [diagnostics_eq, diagnostics_eq, hfound, filter_sortBySpan, filterMap_reported_filter]

/-! ## Whole runs -/

/-- **Reports.**  When a run over a tree succeeds, every enabled rule has a verdict on every call,
    and each violation, a call with an enabled rule that finds it at fault, has one diagnostic.
    These come in the order of their spans, those of equal spans in the order of the calls in the
    tree and the chaining rule first.  A run with one of the enabled rules alone, whatever the
    options of the other rule, yields the diagnostics of that rule. -/
theorem lint_reports_violations {config : Config} {file : Option Text} {root : Node}
    {ds : List Diagnostic} (h : (lintTree config file root).outcome = .ok ds) :
    (∃ u found, (usage config.settings root).outcome = .ok u ∧
      (∀ s ∈ Site.calls root, Judged config u s) ∧
      List.Forall₂ (IsReport config u file) (violations config u root) found ∧
      ds.Perm found ∧ ds.Pairwise (fun d e => d.le e = true) ∧
      ∀ span, ds.filter (·.span == span) = found.filter (·.span == span)) ∧
    ∀ rule, config.rules.contains rule = true →
      ∀ other : Config, other.settings = config.settings → SameOptions other config rule →
        (∀ r, other.rules.contains r = true ↔ r = rule) →
        (lintTree other file root).outcome = .ok (ds.filter (·.rule == rule)) := by
  constructor
  · obtain ⟨u, findings, hu, hfindings, rfl⟩ := lintTree_ok_iff.1 h
    obtain ⟨hjudged, rfl⟩ := visitAll_eq_ok_iff.1 hfindings
    let found := ((Site.calls root).flatMap (findingsAt config u)).filterMap (reported? file)
    have hreports : List.Forall₂ (IsReport config u file) (violations config u root) found := by
      rw [violations_eq]
      exact forall₂_isReport config u file (Site.calls root)
    refine ⟨u, found, hu, hjudged, hreports, ?_, ?_, ?_⟩
    · exact sortBySpan_perm Diagnostic.span found
    · exact pairwise_sortBySpan Diagnostic.span found
    · intro span
      exact filter_span_sortBySpan found span
  · intro rule hrule other hsettings hoptions honly
    exact lintTree_only h hrule hsettings hoptions honly

/-- Both rules, with chains from two nested calls on. -/
def shortChains : Config := { chaining := { mode := .always, depth := 2 } }

/-- The path rule alone. -/
def pathsAlone : Config := { rules := { chaining := false, pathStyle := true } }

/-- A path inside a composition: each rule reports once, and the path rule alone reports the same. -/
theorem lint_reports_violations_nested :
    ∃ composition path : Diagnostic,
      composition.rule = .chaining ∧ path.rule = .pathStyle ∧
      (lintTree shortChains none (Tree.parse "_.map(_.get(o, ['a']), f);".toList).root).outcome =
        .ok [composition, path] ∧
      (lintTree pathsAlone none (Tree.parse "_.map(_.get(o, ['a']), f);".toList).root).outcome =
        .ok [path] := by
  let composition : Diagnostic := ⟨.chaining, .always, 1, 0, 1, 25, 0, 25, none, none⟩
  let path : Diagnostic :=
    ⟨.pathStyle, .stringForSimple, 1, 15, 1, 20, 15, 20, some ⟨15, 20, "'a'", by decide⟩, none⟩
  have hboth : (lintTree shortChains none (Tree.parse "_.map(_.get(o, ['a']), f);".toList).root).outcome =
      .ok [composition, path] := by
    rw [← outcome_lint]
    exact lint_of_inTreeOrder (by decide +kernel) (by decide)
  have honly : ∀ r, pathsAlone.rules.contains r = true ↔ r = .pathStyle := by
    intro r
    cases r <;> decide
  have halone := (lint_reports_violations hboth).2 .pathStyle rfl pathsAlone rfl rfl honly
  exact ⟨composition, path, rfl, rfl, hboth, halone⟩

end LodashStyle.Lint
