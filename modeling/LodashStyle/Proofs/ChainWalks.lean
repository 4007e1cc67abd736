import LodashStyle.Proofs.ChainReports
import LodashStyle.Proofs.Wrappers

/-!
# Up and down a chain

A chain is followed in two directions.  The chaining rule goes up: from the start of a chain through
parentheses and a member access to the first call on it, and from there to the second one.  Whether a
value is wrapped is found by going down: from a method call to its receiver, the parentheses around it
taken off, until the start of a chain is met.  Where parentheses hold one expression each, a step down
undoes a step up and the other way round.

`GoesBack` is the way down with the start that it ends at, which `chainFrom` forgets.

## Key results

- `Wraps.unwrap_eq`, `Wraps.enclosing_eq`: what parentheses enclose is what they hold
- `methodCallOn?_eq_some_iff`: a step up leads to a call exactly when a step down leads back
- `chainFrom_eq_some_iff`: the chain that is found is the way down
- `climb_eq_some_iff`: any number of steps up lead to the calls from which as many lead down
- `chain_walks_agree`: these for the first and the second call of a chain
-/

namespace LodashStyle

open JavaScript

namespace JavaScript.Site

variable {root : Node} {s t c outer : Site}

/-! ## Parentheses -/

/-- Taking parentheses off leads inside them. -/
theorem wraps_of_unwrap (h : s.unwrap = some t) : Wraps s t ∧ t.node.kind ≠ .parenthesized := by
  induction s using Site.induction with
  | step s ih =>
    by_cases hkind : s.node.kind = .parenthesized
    · rw [unwrap_of_parenthesized hkind] at h
      obtain ⟨c, hc, h⟩ := Option.bind_eq_some_iff.1 h
      have hmem := List.mem_of_find?_eq_some hc
      have hpart : c.node.isPart = true := by simpa using List.find?_some hc
      obtain ⟨hwraps, ht⟩ := ih c hmem h
      exact ⟨.inside hkind hmem hpart hwraps, ht⟩
    · rw [unwrap_of_kind hkind] at h
      obtain rfl := Option.some.inj h
      exact ⟨.here, hkind⟩

/-- Where parentheses hold one expression each, it is what is left when they are taken off. -/
theorem Wraps.unwrap_eq (hone : ∀ n ∈ root.nodes, n.HoldsOne) (houter : Of root outer)
    (h : Wraps outer s) (hkind : s.node.kind ≠ .parenthesized) : outer.unwrap = some s := by
  induction h with
  | here => exact unwrap_of_kind hkind
  | @inside outer c s hparenthesized hc hpart _ ih =>
    have hfound : outer.children.find? (·.node.isPart) = some c := by
      cases hfind : outer.children.find? (·.node.isPart) with
      | none => exact absurd hpart (List.find?_eq_none.1 hfind c hc)
      | some d =>
        have hlength := hone _ houter.node_mem_nodes hparenthesized
        have hd : d.node.isPart = true := by simpa using List.find?_some hfind
        rw [eq_of_mem_children hlength (List.mem_of_find?_eq_some hfind) hc hd hpart]
    rw [unwrap_of_parenthesized hparenthesized, hfound, Option.bind_some]
    exact ih (.child houter hc) hkind

/-- Parentheses around an expression are enclosed by the same ones as the expression. -/
theorem Wraps.enclosing_eq (h : Wraps outer s) :
    enclosing s.node s.above = enclosing outer.node outer.above := by
  induction h with
  | here => rfl
  | inside hkind hc _ _ ih =>
    obtain ⟨i, -, habove⟩ := mem_children_iff.1 hc
    rw [ih, habove, enclosing, if_pos hkind]

/-- What stands in no parentheses is enclosed by nothing else. -/
theorem enclosing_of_mem_children (hc : c ∈ s.children) (hkind : s.node.kind ≠ .parenthesized) :
    enclosing c.node c.above = c := by
  obtain ⟨i, -, habove⟩ := mem_children_iff.1 hc
  obtain ⟨node, above⟩ := c
  subst habove
  rw [enclosing, if_neg hkind]

/-! ## One step -/

/-- A method call is called on the object of a member access, which is what it calls. -/
theorem receiver?_eq_some_iff :
    c.receiver? = some t ↔
      ∃ access, c.child? .callee = some access ∧ access.node.kind = .member ∧
        access.child? .object = some t := by
  simp [receiver?, Option.bind_eq_some_iff, Option.filter_eq_some_iff, and_assoc]

theorem isMethodCall_of_receiver? (hcall : c.node.kind = .call) (h : c.receiver? = some t) :
    c.node.isMethodCall = true := by
  obtain ⟨access, haccess, hmember, -⟩ := receiver?_eq_some_iff.1 h
  have hcallee : c.node.callee? = some access.node := by
    rw [Node.callee?, ← map_node_child?, haccess, Option.map_some]
  simp [Node.isMethodCall, Node.isCall, Node.memberCallee?, hcall, hcallee, Option.filter_some, hmember]

theorem kind_of_isMethodCall {n : Node} (h : n.isMethodCall = true) : n.kind = .call := by
  simp only [Node.isMethodCall, Node.isCall, Bool.and_eq_true, beq_iff_eq] at h
  exact h.1

/-- The call that is found above a site is called on the site with the parentheses around it. -/
theorem methodCallOn?_eq_some_iff_receiver? (hs : Of root s) (hpart : s.node.isPart = true) :
    s.methodCallOn? = some c ↔
      c.node.isMethodCall = true ∧ c.receiver? = some (enclosing s.node s.above) := by
  constructor
  · intro h
    obtain ⟨access, k, i, habove, hmember, hobject, hcall, hcallee⟩ := methodCallOn?_eq_some h
    obtain ⟨houter, -⟩ := wraps_enclosing hs hpart
    -- The two steps up lead through children in the two roles.
    obtain ⟨haccess, hmem⟩ := houter.parent habove
    obtain ⟨-, hmem'⟩ := haccess.parent rfl
    have hplace : (enclosing s.node s.above).isChildOf .member .object = true := by
      simp [isChildOf, habove, hmember, hobject]
    have hplace' : isChildOf ⟨access, ⟨c.node, i⟩ :: c.above⟩ .call .callee = true := by
      simp [isChildOf, hcall, hcallee]
    have hreceiver := receiver?_eq_some_iff.2
      ⟨_, ((isChildOf_iff hmem').1 hplace').2, hmember, ((isChildOf_iff hmem).1 hplace).2⟩
    exact ⟨isMethodCall_of_receiver? hcall hreceiver, hreceiver⟩
  · rintro ⟨hcall, hreceiver⟩
    obtain ⟨access, haccess, hmember, hobject⟩ := receiver?_eq_some_iff.1 hreceiver
    have hmem := List.mem_of_find?_eq_some hobject
    have hmem' := List.mem_of_find?_eq_some haccess
    have hobject' := (isChildOf_iff hmem).2 ⟨hmember, hobject⟩
    have hcallee' := (isChildOf_iff hmem').2 ⟨kind_of_isMethodCall hcall, haccess⟩
    have hup : (enclosing s.node s.above).parent? = some access := by
      obtain ⟨k, -, habove⟩ := mem_children_iff.1 hmem
      simp [parent?, habove]
    have hup' : access.parent? = some c := by
      obtain ⟨i, -, habove⟩ := mem_children_iff.1 hmem'
      simp [parent?, habove]
    simp [methodCallOn?, isObjectOfMember, hobject', hup, hcallee', hup']

/-- **One step.**  A step up from an expression leads to a call exactly when this is a method call whose
    receiver, parentheses taken off, is the expression. -/
theorem methodCallOn?_eq_some_iff (hone : ∀ n ∈ root.nodes, n.HoldsOne) (hs : Of root s)
    (hpart : s.node.isPart = true) (hkind : s.node.kind ≠ .parenthesized) :
    s.methodCallOn? = some c ↔ c.node.isMethodCall = true ∧ c.receiver?.bind unwrap = some s := by
  rw [methodCallOn?_eq_some_iff_receiver? hs hpart]
  constructor
  · rintro ⟨hcall, hreceiver⟩
    obtain ⟨houter, hwraps⟩ := wraps_enclosing hs hpart
    have hunwrap := hwraps.unwrap_eq hone houter hkind
    exact ⟨hcall, Option.bind_eq_some_iff.2 ⟨_, hreceiver, hunwrap⟩⟩
  · rintro ⟨hcall, hdown⟩
    obtain ⟨receiver, hreceiver, hunwrap⟩ := Option.bind_eq_some_iff.1 hdown
    obtain ⟨access, -, hmember, hobject⟩ := receiver?_eq_some_iff.1 hreceiver
    -- The receiver is in no parentheses, being the object of a member access.
    have hself : enclosing receiver.node receiver.above = receiver :=
      enclosing_of_mem_children (List.mem_of_find?_eq_some hobject) (by rw [hmember]; decide)
    rw [(wraps_of_unwrap hunwrap).1.enclosing_eq, hself]
    exact ⟨hcall, hreceiver⟩

/-- The call that is reached by a number of steps up, if there is one. -/
def climb : Nat → Site → Option Site
  | 0, s => some s
  | steps + 1, s => (climb steps s).bind methodCallOn?

end JavaScript.Site

/-! ## The way down -/

namespace Usage

open JavaScript.Site

variable {u : Usage} {root : Node} {s t c start : Site} {names : List (Option Text)}

/-- The way from a call to the start of its chain, from receiver to receiver, with the names of the
    steps, last one first. -/
inductive GoesBack (u : Usage) (start : Site) : List (Option Text) → Site → Prop where
  | start (hstart : u.isChainStart start.node = true) : GoesBack u start [] start
  | step {s t : Site} {names : List (Option Text)} (hnot : u.isChainStart s.node = false)
    (hcall : s.node.isMethodCall = true) (hdown : s.receiver?.bind Site.unwrap = some t)
    (hback : GoesBack u start names t) : GoesBack u start (s.node.methodName? :: names) s

theorem GoesBack.kind_eq (h : u.GoesBack start names s) : s.node.kind = .call := by
  cases h with
  | start hstart => simpa [Node.isCall] using isCall_of_isChainStart hstart
  | step _ hcall _ _ => exact kind_of_isMethodCall hcall

theorem GoesBack.isPart (h : u.GoesBack start names s) : s.node.isPart = true :=
  isPart_of_kind h.kind_eq rfl (by decide)

theorem of_down (hs : Of root s) (hdown : s.receiver?.bind Site.unwrap = some t) : Of root t := by
  obtain ⟨receiver, hreceiver, hunwrap⟩ := Option.bind_eq_some_iff.1 hdown
  exact (hs.receiver? hreceiver).unwrap hunwrap

theorem GoesBack.mem_calls (h : u.GoesBack start names s) (hs : Of root s) : s ∈ calls root := by
  refine mem_calls_iff.2 ⟨hs, ?_⟩
  rw [Node.isCall, h.kind_eq]
  rfl

theorem GoesBack.start_mem_calls (h : u.GoesBack start names s) (hs : Of root s) :
    start ∈ calls root := by
  induction h with
  | start hstart => exact (GoesBack.start hstart).mem_calls hs
  | step _ _ hdown _ ih => exact ih (of_down hs hdown)

theorem node_down (s : Site) :
    (s.receiver?.bind Site.unwrap).map (·.node) = s.node.receiver?.bind Node.unwrap := by
  rw [← map_node_receiver?]
  cases s.receiver? with
  | none => rfl
  | some receiver => exact map_node_unwrap receiver

/-- The chain that is found is the way down to a start. -/
theorem exists_goesBack {fuel : Nat} {chain : Chain} (h : u.chainFrom fuel s.node = some chain) :
    ∃ start, u.GoesBack start chain.steps s ∧ u.isExplicitStart start.node = chain.explicit := by
  induction fuel generalizing s chain with
  | zero => simp [chainFrom] at h
  | succ fuel ih =>
    rw [chainFrom] at h
    split at h
    · rename_i hstart
      obtain rfl := Option.some.inj h
      exact ⟨s, .start hstart, rfl⟩
    · rename_i hstart
      split at h
      · rename_i hcall
        split at h
        · -- The walk goes on from the receiver, whose site below the call is the one it came from.
          rename_i receiver hreceiver
          obtain ⟨before, hbefore, rfl⟩ := Option.map_eq_some_iff.1 h
          obtain ⟨t, hdown, rfl⟩ := Option.map_eq_some_iff.1 ((node_down s).trans hreceiver)
          obtain ⟨start, hback, hexplicit⟩ := ih hbefore
          exact ⟨start, .step (by simpa using hstart) hcall hdown hback, hexplicit⟩
        · cases h
      · cases h

/-- The way down to a start is found if there is fuel for the whole tree. -/
theorem GoesBack.chainFrom_eq (h : u.GoesBack start names s) {fuel : Nat} (hfuel : s.node.size ≤ fuel) :
    u.chainFrom fuel s.node = some ⟨u.isExplicitStart start.node, names⟩ := by
  induction h generalizing fuel with
  | start hstart =>
    cases fuel with
    | zero =>
      rw [Node.size_eq] at hfuel
      omega
    | succ fuel => rw [chainFrom, if_pos hstart]
  | @step s t names hnot hcall hdown _ ih =>
    cases fuel with
    | zero =>
      rw [Node.size_eq] at hfuel
      omega
    | succ fuel =>
      have hnode : s.node.receiver?.bind Node.unwrap = some t.node := by
        rw [← node_down, hdown, Option.map_some]
      -- The receiver is smaller than the call, so that there is fuel left for it.
      have hsize := Mirrors.size_lt_of_receiver hnode
      rw [chainFrom, hnot, if_neg Bool.false_ne_true, if_pos hcall, hnode]
      dsimp only
      rw [ih (by omega), Option.map_some]

/-- The chain that is found is the way down, and the start at its end says whether it is explicit. -/
theorem chainFrom_eq_some_iff {chain : Chain} :
    u.chainFrom s.node.size s.node = some chain ↔
      ∃ start, u.GoesBack start chain.steps s ∧ u.isExplicitStart start.node = chain.explicit := by
  constructor
  · exact exists_goesBack
  · rintro ⟨start, hback, hexplicit⟩
    rw [hback.chainFrom_eq (Nat.le_refl _), hexplicit]

/-! ## Both ways -/

/-- What is called on a call starts no chain: the start of a chain is called on the library, if on
    anything. -/
theorem not_isChainStart_of_down (hcall : c.node.isMethodCall = true)
    (hdown : c.receiver?.bind Site.unwrap = some t) (ht : t.node.kind = .call) :
    u.isChainStart c.node = false := by
  obtain ⟨receiver, hreceiver, hunwrap⟩ := Option.bind_eq_some_iff.1 hdown
  rw [Bool.eq_false_iff]
  intro hstart
  have hlibrary := isLibrary_of_isChainStart hstart hcall (node_receiver? hreceiver)
  rw [unwrap_of_isLibrary hlibrary] at hunwrap
  rw [← Option.some.inj hunwrap, kind_of_isLibrary hlibrary] at ht
  exact nomatch ht

/-- **Any number of steps.**  The steps up from the start of a chain lead to the calls of the tree from
    which as many steps lead down to it. -/
theorem climb_eq_some_iff (hone : ∀ n ∈ root.nodes, n.HoldsOne) (hs : Of root s)
    (hstart : u.isChainStart s.node = true) {steps : Nat} :
    s.climb steps = some c ↔
      c ∈ calls root ∧ ∃ names, names.length = steps ∧ u.GoesBack s names c := by
  induction steps generalizing c with
  | zero =>
    simp only [climb, Option.some.injEq, List.length_eq_zero_iff, exists_eq_left]
    constructor
    · rintro rfl
      exact ⟨(GoesBack.start hstart).mem_calls hs, .start hstart⟩
    · rintro ⟨-, hback⟩
      cases hback
      rfl
  | succ steps ih =>
    rw [climb, Option.bind_eq_some_iff]
    constructor
    · -- The last step up, put in front of the walk back from where the others led.
      rintro ⟨t, ht, hup⟩
      obtain ⟨htree, names, hlength, hback⟩ := ih.1 ht
      have hkind := hback.kind_eq
      have hup' := (methodCallOn?_eq_some_iff hone (of_mem_calls htree) hback.isPart
        (by rw [hkind]; decide)).1 hup
      obtain ⟨hcall, hdown⟩ := hup'
      have hnot : u.isChainStart c.node = false := not_isChainStart_of_down hcall hdown hkind
      have hback' := GoesBack.step hnot hcall hdown hback
      obtain ⟨hc, -⟩ := calledOn_of_methodCallOn? (of_mem_calls htree) hback.isPart hup
      exact ⟨hback'.mem_calls hc, _, by rw [List.length_cons, hlength], hback'⟩
    · rintro ⟨hc, names, hlength, hback⟩
      cases hback with
      | start _ => simp at hlength
      | @step _ t names _ hcall hdown hback =>
        have htree := of_down (of_mem_calls hc) hdown
        -- The first step of the walk back is the last one up.
        refine ⟨t, ih.2 ⟨hback.mem_calls htree, names, by simpa using hlength, hback⟩, ?_⟩
        exact (methodCallOn?_eq_some_iff hone htree hback.isPart (by rw [hback.kind_eq]; decide)).2
          ⟨hcall, hdown⟩

/-- The single call of a chain is the first one above its start, where the second one, if there is any,
    takes the value out. -/
theorem singleCall?_eq_some_iff (hstart : u.isChainStart s.node = true) :
    Chaining.singleCall? u s = some c ↔
      s.climb 1 = some c ∧
        ∀ d, s.climb 2 = some d → d.node.methodName?.any u.methods.isBreaker = true := by
  have hfirst : s.climb 1 = s.methodCallOn? := rfl
  have hsecond : s.climb 2 = s.methodCallOn?.bind methodCallOn? := rfl
  rw [Chaining.singleCall?, if_pos hstart, Option.filter_eq_some_iff, hfirst, hsecond]
  refine and_congr_right fun hc => ?_
  rw [hc, Option.bind_some]
  cases hd : c.methodCallOn? with
  | none => simp
  | some d => simp [Chaining.isBeforeBreaker, hd]

/-- **Walks along chains.**  Let parentheses hold one expression each.  The call that is found above an
    expression is a method call whose receiver is the expression, and each such call is found.  The chain
    that a call ends is the way down from it to a start.  So the first and the second call that the
    chaining rule finds above the start of a chain are the calls of the tree from which one and two steps
    lead down to this start, and a chain is one of a single call exactly when the second one, if there
    is any, takes the value out. -/
theorem chain_walks_agree (u : Usage) {root : Node} (hone : ∀ n ∈ root.nodes, n.HoldsOne) :
    (∀ s ∈ visits root, s.node.isPart = true → s.node.kind ≠ .parenthesized → ∀ c ∈ calls root,
      (s.methodCallOn? = some c ↔
        c.node.isMethodCall = true ∧ c.receiver?.bind Site.unwrap = some s)) ∧
    (∀ s ∈ visits root, ∀ chain, u.chainFrom s.node.size s.node = some chain ↔
      ∃ start ∈ calls root, u.GoesBack start chain.steps s ∧
        u.isExplicitStart start.node = chain.explicit) ∧
    ∀ s ∈ visits root, u.isChainStart s.node = true →
      (∀ c, s.methodCallOn? = some c ↔ c ∈ calls root ∧ ∃ name, u.GoesBack s [name] c) ∧
      (∀ d, s.methodCallOn?.bind methodCallOn? = some d ↔
        d ∈ calls root ∧ ∃ second first, u.GoesBack s [second, first] d) ∧
      ∀ c, Chaining.singleCall? u s = some c ↔
        (c ∈ calls root ∧ ∃ name, u.GoesBack s [name] c) ∧
          ∀ d ∈ calls root, ∀ second first, u.GoesBack s [second, first] d →
            d.node.methodName?.any u.methods.isBreaker = true := by
  refine ⟨?_, ?_, ?_⟩
  · intro s hs hpart hkind c _
    exact methodCallOn?_eq_some_iff hone (mem_visits_iff.1 hs) hpart hkind
  · intro s hs chain
    rw [chainFrom_eq_some_iff]
    constructor
    · rintro ⟨start, hback, hexplicit⟩
      exact ⟨start, hback.start_mem_calls (mem_visits_iff.1 hs), hback, hexplicit⟩
    · rintro ⟨start, -, hback⟩
      exact ⟨start, hback⟩
  · intro s hs hstart
    have htree := mem_visits_iff.1 hs
    -- One and two steps up are walks of that length.
    have hfirst : ∀ c, s.climb 1 = some c ↔ c ∈ calls root ∧ ∃ name, u.GoesBack s [name] c := by
      intro c
      simp [climb_eq_some_iff hone htree hstart, List.length_eq_one_iff]
    have hsecond : ∀ d, s.climb 2 = some d ↔
        d ∈ calls root ∧ ∃ second first, u.GoesBack s [second, first] d := by
      intro d
      simp [climb_eq_some_iff hone htree hstart, List.length_eq_two]
    refine ⟨hfirst, hsecond, ?_⟩
    intro c
    rw [singleCall?_eq_some_iff hstart, hfirst]
    simp [hsecond]

/-- A chain of a single call, whose start and whose first call are in parentheses, one pair with a
    comment in it; the second call takes the value out. -/
theorem chain_walks_agree_parenthesized :
    let root := (Tree.parse "(/* xs */ (_(xs)).map(f)).value();".toList).root
    let u := Usage.ofSettings {}
    ∃ start ∈ visits root, u.isChainStart start.node = true ∧
      ∃ c ∈ calls root, start.methodCallOn? = some c ∧ c.receiver?.bind Site.unwrap = some start ∧
        Chaining.singleCall? u start = some c ∧
        ∃ d ∈ calls root, c.methodCallOn? = some d ∧ ∃ second first, u.GoesBack start [second, first] d := by
  intro root u
  have hone : ∀ n ∈ root.nodes, n.HoldsOne := by
    decide +kernel
  have hstart : ∃ start ∈ visits root, u.isChainStart start.node = true ∧ start.node.isPart = true ∧
      start.node.kind ≠ .parenthesized ∧ (Chaining.singleCall? u start).isSome ∧
      (start.methodCallOn?.bind methodCallOn?).isSome := by
    decide +kernel
  obtain ⟨start, hmem, hchain, hpart, hkind, hsingle, hsecond⟩ := hstart
  obtain ⟨c, hsingle⟩ := Option.isSome_iff_exists.1 hsingle
  obtain ⟨d, hsecond⟩ := Option.isSome_iff_exists.1 hsecond
  obtain ⟨hstep, -, hwalks⟩ := chain_walks_agree u hone
  obtain ⟨hfirst, hsecond', hsingle'⟩ := hwalks start hmem hchain
  obtain ⟨hc, -⟩ := (hsingle' c).1 hsingle
  have hup := (hfirst c).2 hc
  obtain ⟨hd, hback⟩ := (hsecond' d).1 hsecond
  rw [hup, Option.bind_some] at hsecond
  exact ⟨start, hmem, hchain, c, hc.1, hup, ((hstep start hmem hpart hkind c hc.1).1 hup).2, hsingle,
    d, hd, hsecond, hback⟩

end Usage

end LodashStyle
