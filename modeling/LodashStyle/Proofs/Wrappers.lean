import LodashStyle.Proofs.MirroredTrees
import LodashStyle.Proofs.PartSites
import Mathlib.Logic.Relation

/-!
# Wrapped values

Whether a value is wrapped is decided from the outside: the names of the steps are collected on the
way from receiver to receiver, and only at the start of the chain is it known what they are judged by.
`Wrapped` says from the inside what is meant: the start of a chain is wrapped, and a step on a wrapped
value is, unless it takes the value out or the chain is implicit and the method is not chainable.

Going on from the start of a chain leads nowhere, or to the name of the library in `_.chain(…)`.  So all
that is reached from a wrapped value by way of receivers is wrapped as well, down to the start.

## Key results

- `isWrapper_iff`: the values that are found to be wrapped are those that are `Wrapped`
- `Wrapped.of_reaches`: what is reached from a wrapped value is wrapped or names the library
- `Wrapped.exists_start`, `StartsAt.unique`: a wrapped value goes back to one start of a chain
- `wrapped_values_tracked`: these together, with the chained calls and the reports of mode `never`
-/

namespace LodashStyle

open JavaScript

/-! ## From call to receiver -/

namespace JavaScript.Site

/-- What the method call at a site is called on; parentheses around the call are passed over. -/
def calledOn? (s : Site) : Option Site :=
  s.unwrap.bind fun call => if call.node.isMethodCall then call.receiver? else none

/-- The second site is reached from the first one by going from a method call to what it is called on,
    any number of times. -/
def Reaches : Site → Site → Prop := Relation.ReflTransGen fun s t => s.calledOn? = some t

variable {root : Node} {s t : Site}

theorem calledOn?_eq_some_iff :
    s.calledOn? = some t ↔
      ∃ call, s.unwrap = some call ∧ call.node.isMethodCall = true ∧ call.receiver? = some t := by
  simp [calledOn?, Option.bind_eq_some_iff]

/-- A method call is in no parentheses. -/
theorem unwrap_of_isMethodCall (h : s.node.isMethodCall = true) : s.unwrap = some s := by
  apply unwrap_of_kind
  intro hkind
  simp [Node.isMethodCall, Node.isCall, hkind] at h

theorem Of.calledOn? (hs : Of root s) (h : s.calledOn? = some t) : Of root t := by
  obtain ⟨call, hcall, -, hreceiver⟩ := calledOn?_eq_some_iff.1 h
  exact (hs.unwrap hcall).receiver? hreceiver

theorem Of.reaches (hs : Of root s) (h : s.Reaches t) : Of root t := by
  induction h with
  | refl => exact hs
  | tail _ hstep ih => exact ih.calledOn? hstep

end JavaScript.Site

namespace Usage

variable {u : Usage} {n m : Node} {s t start step : Site} {explicit : Bool}

/-! ## The start of a chain -/

theorem kind_of_isLibrary (h : u.isLibrary n = true) : n.kind = .identifier := by
  unfold isLibrary Node.identifierName? at h
  split at h
  · rename_i hkind
    exact eq_of_beq hkind
  · exact absurd h Bool.false_ne_true

theorem isCall_of_isChainStart (h : u.isChainStart n = true) : n.isCall = true := by
  rw [isChainStart, Bool.and_eq_true] at h
  exact h.1

/-- A start of a chain that is a method call is called on the library. -/
theorem isLibrary_of_isChainStart (h : u.isChainStart n = true) (hcall : n.isMethodCall = true)
    (hreceiver : n.receiver? = some m) : u.isLibrary m = true := by
  obtain ⟨access, haccess⟩ : ∃ access, n.memberCallee? = some access := by
    simp only [Node.isMethodCall, Bool.and_eq_true, Option.isSome_iff_exists] at hcall
    exact hcall.2
  obtain ⟨hcallee, hmember⟩ := Option.filter_eq_some_iff.1 haccess
  have hkind : access.kind = .member := eq_of_beq hmember
  -- A member access is no name, neither of the library nor of an imported method.
  have hname : access.identifierName? = none := by
    simp [Node.identifierName?, hkind]
  have himported : u.importedMethod? n = none := by
    simp [importedMethod?, hcallee, hname]
  have hexplicit : u.isExplicitStart n = true := by
    simpa [isChainStart, hcallee, isLibrary, hname, isCall_of_isChainStart h] using h
  have hlibrary : u.isLibraryCall n = true := by
    by_contra hnot
    simp [isExplicitStart, libraryMethod?, hnot, himported] at hexplicit
  simp only [isLibraryCall, hreceiver, Option.any_some, Bool.and_eq_true] at hlibrary
  exact hlibrary.1.2

theorem not_isCall_of_isLibrary (h : u.isLibrary n = true) : n.isCall = false := by
  rw [Node.isCall, kind_of_isLibrary h]
  decide

theorem unwrap_of_isLibrary (h : u.isLibrary s.node = true) : s.unwrap = some s := by
  apply Site.unwrap_of_kind
  rw [kind_of_isLibrary h]
  decide

/-- The way from receiver to receiver ends at the name of the library. -/
theorem calledOn?_of_isLibrary (h : u.isLibrary s.node = true) : s.calledOn? = none := by
  simp [Site.calledOn?, unwrap_of_isLibrary h, Node.isMethodCall, not_isCall_of_isLibrary h]

/-- From the name of the library no call is reached. -/
theorem not_isCall_of_reaches (h : u.isLibrary s.node = true) (hreach : s.Reaches t)
    (hstep : t.unwrap = some step) : step.node.isCall = false := by
  obtain heq | ⟨next, hnext, -⟩ := Relation.ReflTransGen.cases_head hreach
  · subst heq
    rw [unwrap_of_isLibrary h] at hstep
    rw [← Option.some.inj hstep]
    exact not_isCall_of_isLibrary h
  · rw [calledOn?_of_isLibrary h] at hnext
    exact nomatch hnext

/-! ## Wrapped values -/

/-- A value that is wrapped, in an explicit chain or in an implicit one: the start of a chain, or a
    named method called on a wrapped value that keeps it wrapped.  Parentheses do not count. -/
inductive Wrapped (u : Usage) : Bool → Node → Prop where
  | start {n inner : Node} (hinner : n.unwrap = some inner) (hstart : u.isChainStart inner = true) :
    Wrapped u (u.isExplicitStart inner) n
  | step {explicit : Bool} {n inner receiver : Node} {name : Text} (hinner : n.unwrap = some inner)
    (hnot : u.isChainStart inner = false) (hcall : inner.isMethodCall = true)
    (hname : inner.methodName? = some name) (hbreaker : u.methods.isBreaker name = false)
    (hreceiver : inner.receiver? = some receiver) (hwrapped : Wrapped u explicit receiver)
    (hkeeps : explicit = true ∨ u.methods.isChainable name = true) : Wrapped u explicit n

theorem Wrapped.exists_unwrap (h : Wrapped u explicit n) : ∃ inner, n.unwrap = some inner := by
  cases h with
  | start hinner _ => exact ⟨_, hinner⟩
  | step hinner _ _ _ _ _ _ _ => exact ⟨_, hinner⟩

/-- What holds a wrapped value in parentheses is wrapped. -/
theorem Wrapped.of_unwrap {inner : Node} (h : Wrapped u explicit inner) (hn : n.unwrap = some inner) :
    Wrapped u explicit n := by
  have hself := Lint.unwrap_unwrap hn
  cases h with
  | start hinner hstart =>
    obtain rfl := Option.some.inj (hself.symm.trans hinner)
    exact .start hn hstart
  | step hinner hnot hcall hname hbreaker hreceiver hwrapped hkeeps =>
    obtain rfl := Option.some.inj (hself.symm.trans hinner)
    exact .step hn hnot hcall hname hbreaker hreceiver hwrapped hkeeps

theorem keepsWrapped_some {name : Text} :
    u.keepsWrapped explicit (some name) = true ↔
      u.methods.isBreaker name = false ∧ (explicit = true ∨ u.methods.isChainable name = true) := by
  simp [keepsWrapped]

/-- A chain whose steps all keep it wrapped ends in a wrapped value. -/
theorem wrapped_of_chainFrom {fuel : Nat} {c : Chain} (hn : n.unwrap = some n)
    (h : u.chainFrom fuel n = some c) (hsteps : c.steps.all (u.keepsWrapped c.explicit) = true) :
    Wrapped u c.explicit n := by
  induction fuel generalizing n c with
  | zero => simp [chainFrom] at h
  | succ fuel ih =>
    rw [chainFrom] at h
    split at h
    · rename_i hstart
      obtain rfl := Option.some.inj h
      exact .start hn hstart
    · rename_i hstart
      split at h
      · rename_i hcall
        split at h
        · rename_i receiver hreceiver
          obtain ⟨before, hbefore, rfl⟩ := Option.map_eq_some_iff.1 h
          obtain ⟨object, hobject, hinner⟩ := Option.bind_eq_some_iff.1 hreceiver
          simp only [List.all_cons, Bool.and_eq_true] at hsteps
          cases hname : n.methodName? with
          | none =>
            rw [hname] at hsteps
            exact absurd hsteps.1 Bool.false_ne_true
          | some name =>
            rw [hname, keepsWrapped_some] at hsteps
            -- The receiver is wrapped by the steps before the last one.
            have hwrapped := ih (Lint.unwrap_unwrap hinner) hbefore hsteps.2
            exact .step hn (by simpa using hstart) hcall hname hsteps.1.1 hobject
              (hwrapped.of_unwrap hinner) hsteps.1.2
        · simp at h
      · simp at h

/-- The chain that a wrapped value ends is found if there is fuel for the whole tree. -/
theorem Wrapped.exists_chainFrom (h : Wrapped u explicit n) {inner : Node} (hn : n.unwrap = some inner)
    {fuel : Nat} (hfuel : inner.size ≤ fuel) :
    ∃ c, u.chainFrom fuel inner = some c ∧ c.explicit = explicit ∧
      c.steps.all (u.keepsWrapped explicit) = true := by
  induction h generalizing inner fuel with
  | start hinner hstart =>
    obtain rfl := Option.some.inj (hn.symm.trans hinner)
    cases fuel with
    | zero =>
      rw [Node.size_eq] at hfuel
      omega
    | succ fuel => exact ⟨_, by rw [chainFrom, if_pos hstart], rfl, rfl⟩
  | @step explicit n _ receiver name hinner hnot hcall hname hbreaker hreceiver hwrapped hkeeps ih =>
    obtain rfl := Option.some.inj (hn.symm.trans hinner)
    cases fuel with
    | zero =>
      rw [Node.size_eq] at hfuel
      omega
    | succ fuel =>
      obtain ⟨object, hobject⟩ := hwrapped.exists_unwrap
      have hbind := Option.bind_eq_some_iff.2 ⟨receiver, hreceiver, hobject⟩
      -- The receiver is smaller than the call, so that there is fuel left for it.
      have hsize := Mirrors.size_lt_of_receiver hbind
      obtain ⟨c, hc, hexplicit, hsteps⟩ := ih hobject (by omega : object.size ≤ fuel)
      have hkeep := keepsWrapped_some.2 ⟨hbreaker, hkeeps⟩
      refine ⟨{ c with steps := some name :: c.steps }, ?_, hexplicit, ?_⟩
      · rw [chainFrom, hnot, if_neg Bool.false_ne_true, if_pos hcall, hbind]
        dsimp only
        rw [hc, hname, Option.map_some]
      · rw [List.all_cons, hkeep, hsteps, Bool.and_self]

/-- The values that are found to be wrapped are the wrapped ones. -/
theorem isWrapper_iff : u.isWrapper n = true ↔ ∃ explicit, Wrapped u explicit n := by
  unfold isWrapper
  constructor
  · intro h
    split at h
    · rename_i c hc
      obtain ⟨inner, hinner, hc⟩ := Option.bind_eq_some_iff.1 hc
      have hwrapped := wrapped_of_chainFrom (Lint.unwrap_unwrap hinner) hc h
      exact ⟨c.explicit, hwrapped.of_unwrap hinner⟩
    · exact absurd h Bool.false_ne_true
  · rintro ⟨explicit, h⟩
    obtain ⟨inner, hinner⟩ := h.exists_unwrap
    have hsize := Node.size_le_of_mem_nodes (Node.mem_nodes_of_unwrap hinner)
    obtain ⟨c, hc, rfl, hsteps⟩ := h.exists_chainFrom hinner hsize
    rw [hinner, Option.bind_some, hc]
    exact hsteps

/-! ## Down to the start -/

/-- The chain that a value ends starts at a site: one that is reached by way of receivers, parentheses
    around it aside. -/
def StartsAt (u : Usage) (s start : Site) : Prop :=
  ∃ last, s.Reaches last ∧ last.unwrap = some start ∧ u.isChainStart start.node = true

/-- What a wrapped value is called on is wrapped, or it is the library. -/
theorem Wrapped.of_calledOn (h : Wrapped u explicit s.node) (ht : s.calledOn? = some t) :
    Wrapped u explicit t.node ∨ u.isLibrary t.node = true := by
  obtain ⟨call, hcall, hmethod, hreceiver⟩ := Site.calledOn?_eq_some_iff.1 ht
  have hinner' := Site.node_unwrap hcall
  have hreceiver' := Site.node_receiver? hreceiver
  cases h with
  | start hinner hstart =>
    obtain rfl := Option.some.inj (hinner'.symm.trans hinner)
    exact .inr (isLibrary_of_isChainStart hstart hmethod hreceiver')
  | step hinner _ _ _ _ hobject hwrapped _ =>
    obtain rfl := Option.some.inj (hinner'.symm.trans hinner)
    obtain rfl := Option.some.inj (hreceiver'.symm.trans hobject)
    exact .inl hwrapped

/-- What is reached from a wrapped value is wrapped, or it is the library. -/
theorem Wrapped.of_reaches (h : Wrapped u explicit s.node) (hreach : s.Reaches t) :
    Wrapped u explicit t.node ∨ u.isLibrary t.node = true := by
  induction hreach with
  | refl => exact .inl h
  | tail _ hstep ih =>
    obtain hwrapped | hlibrary := ih
    · exact hwrapped.of_calledOn hstep
    · rw [calledOn?_of_isLibrary hlibrary] at hstep
      exact nomatch hstep

/-- A call that is reached from a wrapped value is wrapped, for it is not the library. -/
theorem Wrapped.of_reaches_call (h : Wrapped u explicit s.node) (hreach : s.Reaches t)
    (hstep : t.unwrap = some step) (hcall : step.node.isCall = true) : Wrapped u explicit t.node := by
  obtain hwrapped | hlibrary := h.of_reaches hreach
  · exact hwrapped
  · rw [not_isCall_of_reaches hlibrary .refl hstep] at hcall
    exact absurd hcall Bool.false_ne_true

/-- A wrapped value is at the end of a chain. -/
theorem Wrapped.exists_start (h : Wrapped u explicit s.node) : ∃ start, StartsAt u s start := by
  generalize hn : s.node = n at h
  induction h generalizing s with
  | start hinner hstart =>
    subst hn
    obtain ⟨start, hunwrap, rfl⟩ := Option.map_eq_some_iff.1 ((Site.map_node_unwrap s).trans hinner)
    exact ⟨start, s, .refl, hunwrap, hstart⟩
  | step hinner _ hcall _ _ hreceiver _ _ ih =>
    subst hn
    obtain ⟨call, hunwrap, rfl⟩ := Option.map_eq_some_iff.1 ((Site.map_node_unwrap s).trans hinner)
    obtain ⟨receiver, hcalled, rfl⟩ :=
      Option.map_eq_some_iff.1 ((Site.map_node_receiver? call).trans hreceiver)
    have hfirst : s.calledOn? = some receiver := Site.calledOn?_eq_some_iff.2 ⟨call, hunwrap, hcall, hcalled⟩
    obtain ⟨start, last, hreach, hstart⟩ := ih rfl
    exact ⟨start, last, .head hfirst hreach, hstart⟩

/-- From the start of a chain no other one is reached. -/
theorem eq_of_reaches_of_isChainStart {other : Site} (hstart : s.unwrap = some start)
    (hchain : u.isChainStart start.node = true) (hreach : s.Reaches t) (hother : t.unwrap = some other)
    (hother' : u.isChainStart other.node = true) : start = other := by
  obtain heq | ⟨next, hnext, hrest⟩ := Relation.ReflTransGen.cases_head hreach
  · subst heq
    exact Option.some.inj (hstart.symm.trans hother)
  · -- What the start is called on is the library, from which no call is reached.
    obtain ⟨call, hcall, hmethod, hreceiver⟩ := Site.calledOn?_eq_some_iff.1 hnext
    obtain rfl := Option.some.inj (hstart.symm.trans hcall)
    have hlibrary := isLibrary_of_isChainStart hchain hmethod (Site.node_receiver? hreceiver)
    have hother := not_isCall_of_reaches hlibrary hrest hother
    rw [isCall_of_isChainStart hother'] at hother
    exact absurd hother.symm Bool.false_ne_true

/-- A chain starts at one site. -/
theorem StartsAt.unique {other : Site} (h : StartsAt u s start) (h' : StartsAt u s other) :
    start = other := by
  obtain ⟨last, hreach, hunwrap, hchain⟩ := h
  obtain ⟨last', hreach', hunwrap', hchain'⟩ := h'
  have hfunction : Relator.RightUnique fun s t : Site => s.calledOn? = some t := by
    intro s a b ha hb
    exact Option.some.inj (ha.symm.trans hb)
  obtain hfirst | hfirst := Relation.ReflTransGen.total_of_right_unique hfunction hreach hreach'
  · exact eq_of_reaches_of_isChainStart hunwrap hchain hfirst hunwrap' hchain'
  · exact (eq_of_reaches_of_isChainStart hunwrap' hchain' hfirst hunwrap hchain).symm

/-- A wrapped value is in an explicit chain exactly when the start is an explicit one. -/
theorem Wrapped.isExplicitStart_eq (h : Wrapped u explicit s.node) (hstart : StartsAt u s start) :
    u.isExplicitStart start.node = explicit := by
  obtain ⟨last, hreach, hunwrap, hchain⟩ := hstart
  have hinner' := Site.node_unwrap hunwrap
  cases h.of_reaches_call hreach hunwrap (isCall_of_isChainStart hchain) with
  | start hinner _ => rw [Option.some.inj (hinner'.symm.trans hinner)]
  | step hinner hnot _ _ _ _ _ _ =>
    rw [← Option.some.inj (hinner'.symm.trans hinner), hchain] at hnot
    exact absurd hnot.symm Bool.false_ne_true

/-- Every step on the way from a wrapped value to the start keeps the chain wrapped. -/
theorem Wrapped.keepsWrapped (h : Wrapped u explicit s.node) (hreach : s.Reaches t)
    (hstep : t.unwrap = some step) (hcall : step.node.isMethodCall = true)
    (hnot : u.isChainStart step.node = false) :
    u.keepsWrapped explicit step.node.methodName? = true := by
  have hinner' := Site.node_unwrap hstep
  have hiscall : step.node.isCall = true := by
    rw [Node.isMethodCall, Bool.and_eq_true] at hcall
    exact hcall.1
  cases h.of_reaches_call hreach hstep hiscall with
  | start hinner hstart =>
    rw [← Option.some.inj (hinner'.symm.trans hinner), hnot] at hstart
    exact absurd hstart Bool.false_ne_true
  | step hinner _ _ hname hbreaker _ _ hkeeps =>
    rw [Option.some.inj (hinner'.symm.trans hinner), hname]
    exact keepsWrapped_some.2 ⟨hbreaker, hkeeps⟩

/-- What starts the chain of a value that is reached starts the chain that reaches it. -/
theorem StartsAt.of_reaches (h : StartsAt u t start) (hreach : s.Reaches t) : StartsAt u s start := by
  obtain ⟨last, hlast, hstart⟩ := h
  exact ⟨last, hreach.trans hlast, hstart⟩

/-- From a wrapped value no step is reached that takes the value out, nor one of an implicit chain that
    is not chainable. -/
theorem Wrapped.not_lost (h : Wrapped u explicit s.node) (hreach : s.Reaches t)
    (hstep : t.unwrap = some step) (hcall : step.node.isMethodCall = true)
    (hnot : u.isChainStart step.node = false) :
    ¬(step.node.methodName?.any u.methods.isBreaker = true ∨
      step.node.methodName?.any u.methods.isChainable = false ∧
        ∃ start, StartsAt u t start ∧ u.isExplicitStart start.node = false) := by
  have hkeeps := h.keepsWrapped hreach hstep hcall hnot
  cases hname : step.node.methodName? with
  | none =>
    rw [hname] at hkeeps
    exact absurd hkeeps Bool.false_ne_true
  | some name =>
    rw [hname, keepsWrapped_some] at hkeeps
    simp only [Option.any_some]
    rintro (hbreaker | ⟨hchainable, start, hstart, himplicit⟩)
    · rw [hkeeps.1] at hbreaker
      exact absurd hbreaker Bool.false_ne_true
    · -- The chain of the value is that of the step, so that it is implicit as well.
      rw [h.isExplicitStart_eq (hstart.of_reaches hreach)] at himplicit
      simp [himplicit, hchainable] at hkeeps

/-! ## Chained calls -/

theorem classify?_chained_iff :
    (∃ method, u.classify? n = some (method, .chained)) ↔
      u.isLibraryCall n = false ∧ n.isMethodCall = true ∧ n.methodName? ≠ none ∧
        ∃ receiver explicit, n.receiver? = some receiver ∧ Wrapped u explicit receiver := by
  have hreceiver : n.receiver?.any u.isWrapper = true ↔
      ∃ receiver explicit, n.receiver? = some receiver ∧ Wrapped u explicit receiver := by
    simp [Option.any_eq_true, isWrapper_iff]
  have himported : ∀ method, (u.importedMethod? n).map (·, CallForm.imported) ≠ some (method, .chained) := by
    simp
  rw [← hreceiver, classify?]
  cases u.isLibraryCall n with
  | true => simp
  | false =>
    by_cases hchained : n.isMethodCall = true ∧ n.receiver?.any u.isWrapper = true
    · cases n.methodName? <;> simp [hchained]
    · rw [← Bool.and_eq_true] at hchained
      simp only [if_neg hchained, Bool.false_eq_true, if_false]
      rw [Bool.and_eq_true] at hchained
      constructor
      · rintro ⟨method, h⟩
        exact absurd h (himported method)
      · rintro ⟨-, hcall, -, hwrapper⟩
        exact absurd ⟨hcall, hwrapper⟩ hchained

/-- The start of the chain of a chained call is a call of the tree. -/
theorem exists_start_of_chained {root : Node} {method : Text} (hs : Site.Of root s)
    (h : u.classify? s.node = some (method, .chained)) :
    ∃ start ∈ Site.calls root, StartsAt u s start := by
  obtain ⟨-, hcall, -, receiver, explicit, hreceiver, hwrapped⟩ := classify?_chained_iff.1 ⟨method, h⟩
  obtain ⟨object, hobject, rfl⟩ :=
    Option.map_eq_some_iff.1 ((Site.map_node_receiver? s).trans hreceiver)
  have hself := Site.unwrap_of_isMethodCall hcall
  have hfirst : s.calledOn? = some object := Site.calledOn?_eq_some_iff.2 ⟨s, hself, hcall, hobject⟩
  obtain ⟨start, last, hreach, hunwrap, hchain⟩ := hwrapped.exists_start
  have hall : s.Reaches last := .head hfirst hreach
  have hof : Site.Of root start := (hs.reaches hall).unwrap hunwrap
  exact ⟨start, Site.mem_calls_iff.2 ⟨hof, isCall_of_isChainStart hchain⟩, last, hall, hunwrap, hchain⟩

/-- **Wrapped values.**  The values that are found to be wrapped are the wrapped ones.  A wrapped value
    goes back to one start of a chain, which is explicit if the value is in an explicit chain; all that
    is reached from it by way of receivers is wrapped likewise, or is the library itself.  So nothing is
    wrapped from which a step is reached that takes the value out, or one that is not chainable and goes
    back to an implicit start.

    A call is chained exactly when it is no direct library call and is a named method called on a
    wrapped value.  The start of its chain is then reported in mode `never`. -/
theorem wrapped_values_tracked (u : Usage) :
    (∀ n, u.isWrapper n = true ↔ ∃ explicit, Wrapped u explicit n) ∧
    (∀ explicit (s : Site), Wrapped u explicit s.node →
      (∃ start, StartsAt u s start ∧ u.isExplicitStart start.node = explicit ∧
        ∀ other, StartsAt u s other → other = start) ∧
      ∀ t, s.Reaches t → Wrapped u explicit t.node ∨ u.isLibrary t.node = true) ∧
    (∀ s t step : Site, s.Reaches t → t.unwrap = some step → step.node.isMethodCall = true →
      u.isChainStart step.node = false →
      (step.node.methodName?.any u.methods.isBreaker = true ∨
        step.node.methodName?.any u.methods.isChainable = false ∧
          ∃ start, StartsAt u t start ∧ u.isExplicitStart start.node = false) →
      ∀ explicit, ¬Wrapped u explicit s.node) ∧
    (∀ n, (∃ method, u.classify? n = some (method, .chained)) ↔
      u.isLibraryCall n = false ∧ n.isMethodCall = true ∧ n.methodName? ≠ none ∧
        ∃ receiver explicit, n.receiver? = some receiver ∧ Wrapped u explicit receiver) ∧
    ∀ (root : Node) (s : Site) (method : Text), Site.Of root s →
      u.classify? s.node = some (method, .chained) →
      ∃ start ∈ Site.calls root, StartsAt u s start ∧ ∀ options : ChainingOptions,
        options.mode = .never → Chaining.judge u options start = some ⟨start, .never⟩ := by
  refine ⟨fun n => isWrapper_iff, ?_, ?_, fun n => classify?_chained_iff, ?_⟩
  · intro explicit s h
    obtain ⟨start, hstart⟩ := h.exists_start
    exact ⟨⟨start, hstart, h.isExplicitStart_eq hstart, fun other hother => hother.unique hstart⟩,
      fun t ht => h.of_reaches ht⟩
  · intro s t step hreach hstep hcall hnot hlost explicit h
    exact h.not_lost hreach hstep hcall hnot hlost
  · intro root s method hs h
    obtain ⟨start, hcall, hstart⟩ := exists_start_of_chained hs h
    refine ⟨start, hcall, hstart, ?_⟩
    intro options hmode
    obtain ⟨last, -, -, hchain⟩ := hstart
    rw [Chaining.judge, hmode]
    simp [hchain]

/-- A call on a chain in parentheses, whose start is in parentheses as well.  The chain is implicit, so
    that the call takes the value out. -/
theorem wrapped_values_tracked_parenthesized :
    let root := (Tree.parse "((_(xs)).map(f)).get('a');".toList).root
    let u := Usage.ofSettings {}
    ∃ s ∈ Site.calls root, u.classify? s.node = some (("get" : Text), .chained) ∧
      (∀ explicit, ¬Wrapped u explicit s.node) ∧
      ∃ start ∈ Site.calls root, StartsAt u s start ∧
        Chaining.judge u { mode := .never } start = some ⟨start, .never⟩ := by
  intro root u
  have himplicit : ∀ start ∈ Site.calls root, u.isExplicitStart start.node = false := by
    decide +kernel
  have hget : ∃ s ∈ Site.calls root, u.classify? s.node = some (("get" : Text), .chained) ∧
      s.node.isMethodCall = true ∧ u.isChainStart s.node = false ∧
      s.node.methodName?.any u.methods.isChainable = false := by
    decide +kernel
  obtain ⟨s, hs, hchained, hmethod, hnot, hchainable⟩ := hget
  obtain ⟨-, -, hlost, -, hnever⟩ := wrapped_values_tracked u
  obtain ⟨start, hcall, hstart, hjudge⟩ := hnever root s "get" (Site.of_mem_calls hs) hchained
  have hout := hlost s s s .refl (Site.unwrap_of_isMethodCall hmethod) hmethod hnot
    (.inr ⟨hchainable, start, hstart, himplicit start hcall⟩)
  exact ⟨s, hs, hchained, hout, start, hcall, hstart, hjudge _ rfl⟩

end Usage

end LodashStyle
