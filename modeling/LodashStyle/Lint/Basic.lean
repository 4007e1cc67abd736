import LodashStyle.Diagnostic.Splice
import LodashStyle.JavaScript.Grammar.Program
import LodashStyle.Log
import LodashStyle.Rule.Chaining
import LodashStyle.Rule.PathStyle

/-! # Linting a source

A source is parsed, its imports are collected, and every call is judged by the enabled
rules, the chaining rule first.  The diagnostics come out in the order of their spans.

A source with a syntax error has an empty tree, so that nothing is found in it: a linter that
recovers goes on with the parts of such a source that it can read.  What is shown of whole
sources is therefore about sources without errors.

`visit` says what the rules find at one call; `lintTree` is the whole pass over a tree and
`lint` over a source. -/

namespace LodashStyle

open JavaScript

/-- A violation of a rule. -/
structure Finding where
  rule : Rule
  verdict : Verdict
  deriving DecidableEq, Repr

namespace Lint

/-- The entries that the chaining rule logs about a finding. -/
def chainingEntries (options : ChainingOptions) (f : Chaining.Finding) : List Text :=
  let place := Text.ofNat f.site.node.extent.start
  match f.advice with
  | .single => ["Single call chain at byte " ++ place]
  | .always =>
    ["Composition nested " ++ Text.ofNat options.depth ++ (" levels at byte " : Text) ++ place]
  | _ => []

/-- What the chaining rule finds at a call. -/
def visitChaining (config : Config) (u : Usage) (s : Site) : Run EscapeFault (List Finding) :=
  match Chaining.judge u config.chaining s with
  | none => pure []
  | some f => do
    for message in chainingEntries config.chaining f do
      Run.debug "analysis.chaining" message
    return [⟨.chaining, Chaining.verdict (some f)⟩]

/-- What the path rule finds at a call. -/
def visitPath (config : Config) (u : Usage) (s : Site) : Run EscapeFault (List Finding) :=
  match u.classify? s.node with
  | none => pure []
  | some (method, form) =>
    match u.pathArgument? s.node method form with
    | none => pure []
    | some argument => do
      let verdict ← Run.ofExcept (PathStyle.judge config.pathStyle argument)
      if let some array := PathStyle.unconvertible? config.pathStyle argument then
        Run.debug "analysis.path_style"
          ("Array path at byte " ++ Text.ofNat array.extent.start ++
            (" has no string equivalent" : Text))
      match verdict.advice with
      | none => return []
      | some advice =>
        Run.debug "analysis.dispatch"
          (method ++ (" (" : Text) ++ (form.name : Text) ++ (") path violates " : Text) ++
            (advice.name : Text))
        return [⟨.pathStyle, verdict⟩]

/-- What the enabled rules find at a call. -/
def visit (config : Config) (u : Usage) (s : Site) : Run EscapeFault (List Finding) := do
  let chaining ← if config.rules.chaining then visitChaining config u s else pure []
  let path ← if config.rules.pathStyle then visitPath config u s else pure []
  return chaining ++ path

/-- What the enabled rules find at some calls, in order. -/
def visitAll (config : Config) (u : Usage) : List Site → Run EscapeFault (List Finding)
  | [] => pure []
  | s :: rest => do
    let here ← visit config u s
    let later ← visitAll config u rest
    return here ++ later

/-- The use of the library in a tree: the settings and the imports. -/
def usage (settings : Settings) (root : Node) : Run EscapeFault Usage :=
  let base := Usage.ofSettings settings
  match base.bindings.collect root with
  | (_, some fault) => Run.fail fault
  | (bindings, none) => do
    if !bindings.isEmpty then Run.debug "analysis.lodash_context" bindings.summary
    return { base with bindings }

/-- The diagnostics of findings in a file. -/
def diagnostics (file : Option Text) (findings : List Finding) : List Diagnostic :=
  Diagnostic.sort (findings.filterMap fun f => f.verdict.diagnostic? f.rule file)

/-- The diagnostics of a tree. -/
def lintTree (config : Config) (file : Option Text) (root : Node) : Run EscapeFault (List Diagnostic) := do
  let u ← usage config.settings root
  let findings ← visitAll config u (Site.calls root)
  return diagnostics file findings

end Lint

/-- The tree of a source; errors are logged. -/
def parseLogged (source : List Char) : Run EscapeFault Tree := do
  let tree := Tree.parse source
  if tree.hasError then
    Run.debug "analysis.grammar" "Source contains syntax errors; analysing recoverable parts"
  return tree

/-- The diagnostics of a source. -/
def lint (config : Config) (file : Option Text) (source : List Char) :
    Run EscapeFault (List Diagnostic) := do
  let tree ← parseLogged source
  Lint.lintTree config file tree.root

end LodashStyle
