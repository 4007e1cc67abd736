import LodashStyle.Rule.Verdict
import LodashStyle.Usage.Basic

/-! # The chaining rule

Library calls can be nested, `_.map(_.filter(xs, f), g)`, or chained,
`_(xs).filter(f).map(g).value()`.

* In mode `always`, `depth` library calls nested through their first arguments should be a
  chain, and a chain of a single call should not be one.
* Mode `implicit` is the same, but the nested calls, the outermost one aside, must be ones
  that an implicit chain can hold.
* In mode `never`, no chain should start. -/

namespace LodashStyle.Chaining

open JavaScript

/-- Whether a node is a library call that counts as a level of nesting. -/
def isLevel (u : Usage) (anyMethod : Bool) (n : Node) : Bool :=
  (u.libraryMethod? n).any fun method => anyMethod || u.methods.isChainable method

/-- Whether `levels` calls are nested through first arguments, at most `fuel` of which are
    looked at. -/
def nestedFrom (u : Usage) (anyMethod : Bool) : Nat → Option Node → Int → Bool
  | 0, _, levels => levels == 0
  | fuel + 1, n, levels =>
    if levels = 0 then true
    else
      match n with
      | some n => isLevel u anyMethod n && nestedFrom u anyMethod fuel (n.argument? 0) (levels - 1)
      | none => false

/-- Whether a node opens `levels` library calls nested through their first arguments.  Unless
    any method counts, the outermost call may be of any method and the inner ones must be
    chainable. -/
def isNested (u : Usage) (anyMethod : Bool) (levels : Int) (n : Node) : Bool :=
  if anyMethod then nestedFrom u true (n.size + 1) (some n) levels
  else (u.libraryMethod? n).isSome && nestedFrom u false (n.size + 1) (n.argument? 0) (levels - 1)

/-- Whether the next step of the chain after a call takes the value out of it. -/
def isBeforeBreaker (u : Usage) (call : Site) : Bool :=
  (call.methodCallOn?.bind (·.node.methodName?)).any u.methods.isBreaker

/-- The only call of a chain of one call that starts at a site. -/
def singleCall? (u : Usage) (s : Site) : Option Site :=
  if u.isChainStart s.node then
    s.methodCallOn?.filter fun call => call.methodCallOn?.isNone || isBeforeBreaker u call
  else none

/-- A site at fault. -/
structure Finding where
  site : Site
  advice : Advice

/-- Judges nesting first and chains of a single call second. -/
def judgeNested (u : Usage) (anyMethod : Bool) (depth : Nat) (s : Site) : Option Finding :=
  if isNested u anyMethod depth s.node then some ⟨s, .always⟩
  else (singleCall? u s).map fun call => ⟨call, .single⟩

/-- Judges a call under a policy. -/
def judge (u : Usage) (options : ChainingOptions) (s : Site) : Option Finding :=
  match options.mode with
  | .always => judgeNested u true options.depth s
  | .implicit => judgeNested u false options.depth s
  | .never => if u.isChainStart s.node then some ⟨s, .never⟩ else none

/-- The verdict of a judgement. -/
def verdict : Option Finding → Verdict
  | some f => .violation f.site.node f.advice none
  | none => .compliant

end LodashStyle.Chaining
