import LodashStyle.Proofs.Placement.Places

/-!
# Reasoning about recognisers

A node is placed if the token it ends with is not before the one it starts with, so a recogniser
must never go back behind the start of the phrase it reads.  `Holds src k taken s` says that the
state `s` has not gone back behind the offset `k` and, when `taken`, that something was taken from
there on; `Sound` says what a recogniser makes of such states.  There is one rule for each way to
put recognisers together and one for each elementary recogniser, so that a production is shown
sound by going through it once.

## Key results

- `Sound.bind`, `Sound.orElse`, `Sound.iterate`: the ways to put recognisers together
- `Sound.start`: a phrase that remembers where it starts
- `Sound.finish`: a finished node is placed
-/

namespace LodashStyle.JavaScript

/-- A state over the places of a source that is not behind the offset `k`; when `taken`, the last
    token taken ends at or after `k`. -/
structure Holds (src : List Char) (k : Nat) (taken : Bool) (s : ParserState) : Prop where
  token : s.token.start.Of src
  after : s.after.Of src
  lastEnd : s.lastEnd.Of src
  comments : ∀ c ∈ s.comments, Placed src c
  token_le_after : s.token.start.offset ≤ s.after.offset
  le_token : k ≤ s.token.start.offset
  le_lastEnd : taken = true → k ≤ s.lastEnd.offset

namespace Parser

/-- What a recogniser yields from one state satisfies `A`, and the state it leaves is not behind
    `k`. -/
def From {α : Type} (src : List Char) (k : Nat) (s : ParserState) (p : Parser α) (taken : Bool)
    (A : α → Prop) : Prop :=
  ∀ x s', p s = some (x, s') → A x ∧ Holds src k taken s'

/-- The same from every state that is not behind `k`. -/
def Sound {α : Type} (src : List Char) (k : Nat) (before : Bool) (p : Parser α) (taken : Bool)
    (A : α → Prop) : Prop :=
  ∀ s, Holds src k before s → From src k s p taken A

end Parser

variable {src : List Char} {k k' : Nat} {b b' b'' : Bool} {s : ParserState}

/-! ## States -/

/-- The place behind the current token is not before `k` either. -/
theorem Holds.le_after (h : Holds src k b s) : k ≤ s.after.offset :=
  Nat.le_trans h.le_token h.token_le_after

/-- A state that has taken something from a later place has done so from an earlier one. -/
theorem Holds.earlier (h : Holds src k' true s) (hk : k ≤ k') : Holds src k b s where
  token := h.token
  after := h.after
  lastEnd := h.lastEnd
  comments := h.comments
  token_le_after := h.token_le_after
  le_token := Nat.le_trans hk h.le_token
  le_lastEnd := fun _ => Nat.le_trans hk (h.le_lastEnd rfl)

/-- A state starts afresh at its token. -/
theorem Holds.fresh (h : Holds src k b s) : Holds src s.token.start.offset false s :=
  { h with
    le_token := Nat.le_refl _
    le_lastEnd := fun hfalse => nomatch hfalse }

/-- Taking all up to a place behind the current token. -/
theorem Holds.stopAt (h : Holds src k b s) {inp : Input} (hinp : inp.Of src)
    (hle : s.token.start.offset ≤ inp.offset) :
    Holds src k true { s with lastEnd := inp.place, after := inp } :=
  { h with
    after := hinp
    lastEnd := hinp.place
    token_le_after := hle
    le_lastEnd := fun _ => Nat.le_trans h.le_token hle }

/-- Reading the next token leads to a later one. -/
theorem Holds.resume (h : Holds src k b s) (hk : k' ≤ s.after.offset)
    (hlast : b' = true → k' ≤ s.lastEnd.offset) {u : Unit} {s' : ParserState}
    (hs : Parser.resume s = some (u, s')) : Holds src k' b' s' := by
  obtain ⟨htoken, hle, hafter, hle', hcomments⟩ := nextToken_of h.after s.limit
  obtain ⟨-, rfl⟩ := Prod.mk.inj (Option.some.inj hs)
  refine ⟨htoken, hafter, h.lastEnd, ?_, hle', Nat.le_trans hk hle, hlast⟩
  -- The comments read on the way to the token are added to those that wait for a node.
  intro c hc
  obtain hc | hc := List.mem_append.1 hc
  · exact h.comments c hc
  · obtain ⟨⟨first, stop⟩, hmem, rfl⟩ := List.mem_map.1 hc
    obtain ⟨hfirst, hstop, hle⟩ := hcomments _ hmem
    exact .spanning hfirst hstop hle fun c hc => absurd hc List.not_mem_nil

namespace Parser

variable {α γ : Type} {p q : Parser α} {f : α → Parser γ} {A : α → Prop} {C : γ → Prop}

/-! ## Putting recognisers together -/

/-- What a sequence of recognisers comes to. -/
theorem bind_eq_some {y : γ} {s s' : ParserState} (h : (p >>= f) s = some (y, s')) :
    ∃ x mid, p s = some (x, mid) ∧ f x mid = some (y, s') := by
  change (p s >>= fun r => f r.1 r.2) = _ at h
  obtain ⟨⟨x, mid⟩, hp, hf⟩ := Option.bind_eq_some_iff.1 h
  exact ⟨x, mid, hp, hf⟩

/-- One recogniser after the other: the second starts from what the first has taken. -/
theorem Sound.bind (hp : Sound src k b p b' A) (hf : ∀ x, A x → Sound src k b' (f x) b'' C) :
    Sound src k b (p >>= f) b'' C := by
  intro s hs y s' hrun
  obtain ⟨x, mid, hx, hy⟩ := bind_eq_some hrun
  obtain ⟨hA, hmid⟩ := hp s hs x mid hx
  exact hf x hA mid hmid y s' hy

/-- A value alone takes nothing. -/
theorem Sound.pure {x : α} (h : A x) : Sound src k b (pure x) b A := by
  intro s hs y s' hrun
  obtain ⟨rfl, rfl⟩ := Prod.mk.inj (Option.some.inj hrun)
  exact ⟨h, hs⟩

/-- A refusal yields nothing that could be wrong. -/
theorem Sound.refuse : Sound src k b (refuse : Parser α) b' A := by
  intro s hs y s' hrun
  exact nomatch hrun

/-- A value may be changed on the way. -/
theorem Sound.map {g : α → γ} (hp : Sound src k b p b' A) (hg : ∀ x, A x → C (g x)) :
    Sound src k b (g <$> p) b' C :=
  hp.bind fun x hx => .pure (hg x hx)

/-- A recogniser, and another one from the same state if it refuses. -/
theorem Sound.orElse (hp : Sound src k b p b' A) (hq : Sound src k b q b' A) :
    Sound src k b (p <|> q) b' A := by
  intro s hs y s' hrun
  change (p s).orElse (fun _ => q s) = _ at hrun
  -- The second one starts from the state that the first one started from.
  cases hps : p s with
  | none =>
    rw [hps] at hrun
    exact hq s hs y s' hrun
  | some r =>
    rw [hps] at hrun
    exact hp s hs y s' (hps.trans hrun)

/-- What was taken from a later place was taken from an earlier one. -/
theorem Sound.forget (hp : Sound src k b p true A) : Sound src k b p b' A := by
  intro s hs y s' hrun
  obtain ⟨hA, hs'⟩ := hp s hs y s' hrun
  exact ⟨hA, hs'.earlier (Nat.le_refl k)⟩

/-- A weaker condition on the value. -/
theorem Sound.mono {B : α → Prop} (hp : Sound src k b p b' A) (h : ∀ x, A x → B x) :
    Sound src k b p b' B := by
  intro s hs y s' hrun
  obtain ⟨hA, hs'⟩ := hp s hs y s' hrun
  exact ⟨h y hA, hs'⟩

/-- A condition of some states on values is kept by a repetition if each step keeps it. -/
theorem iterate_induction {step : α → Parser (Option α)} {I : α → ParserState → Prop}
    (hstep : ∀ x s, I x s → ∀ next s', step x s = some (next, s') → I (next.getD x) s') {x : α}
    {s : ParserState} (hx : I x s) {y : α} {s' : ParserState}
    (hrun : iterate step x s = some (y, s')) : I y s' := by
  change repeatUpTo step s.limit x s = some (y, s') at hrun
  -- The state changes with each step, so the limit of the first one has to be taken apart from it.
  generalize s.limit = limit at hrun
  induction limit generalizing x s with
  | zero =>
    obtain ⟨rfl, rfl⟩ := Prod.mk.inj (Option.some.inj hrun)
    exact hx
  | succ limit ih =>
    obtain ⟨next, mid, hnext, hrest⟩ := bind_eq_some hrun
    have hmid := hstep x s hx next mid hnext
    cases next with
    | some z => exact ih hmid hrest
    | none =>
      -- The repetition ends with the value it had before this step.
      obtain ⟨rfl, rfl⟩ := Prod.mk.inj (Option.some.inj hrest)
      exact hmid

/-- A repetition keeps a condition that each of its steps keeps, and may take nothing. -/
theorem Sound.iterate {step : α → Parser (Option α)} {x : α}
    (hstep : ∀ x, A x → Sound src k b (step x) b fun next => ∀ y, next = some y → A y) (hx : A x) :
    Sound src k b (iterate step x) b A := by
  intro s hs y s' hrun
  refine iterate_induction (I := fun x s => A x ∧ Holds src k b s) ?_ ⟨hx, hs⟩ hrun
  intro x s hI next s' hnext
  obtain ⟨hA, hs'⟩ := hstep x hI.1 s hI.2 next s' hnext
  cases next with
  | none => exact ⟨hI.1, hs'⟩
  | some y => exact ⟨hA y rfl, hs'⟩

/-- The two ways to go on after a test. -/
theorem Sound.ite {c : Prop} [Decidable c] (hp : c → Sound src k b p b' A)
    (hq : ¬c → Sound src k b q b' A) : Sound src k b (if c then p else q) b' A := by
  split
  · exact hp ‹c›
  · exact hq ‹¬c›

/-- The two ways to the same continuation. -/
theorem Sound.ite_bind {c : Prop} [Decidable c] (hp : c → Sound src k b p b' A)
    (hq : ¬c → Sound src k b q b' A) (hf : ∀ x, A x → Sound src k b' (f x) b'' C) :
    Sound src k b (if c then p >>= f else q >>= f) b'' C :=
  .ite (fun h => (hp h).bind hf) fun h => (hq h).bind hf

/-- Something done on the way if a test is passed. -/
theorem Sound.when {c : Prop} [Decidable c] {p : Parser Unit} {f : Unit → Parser γ}
    (hp : c → Sound src k b p b fun _ => True) (hf : Sound src k b (f ()) b' C) :
    Sound src k b (if c then p >>= f else f ()) b' C :=
  .ite (fun h => (hp h).bind fun _ _ => hf) fun _ => hf

/-! ## Looking at the state -/

/-- A recogniser that depends on the state is sound if it is so from each state. -/
theorem Sound.get {g : ParserState → Parser α}
    (h : ∀ s, Holds src k b s → From src k s (g s) b' A) : Sound src k b (get >>= g) b' A :=
  fun s hs => h s hs

/-- A recogniser that only looks at the state. -/
theorem Sound.look {g : ParserState → α} : Sound src k b (fun s => some (g s, s)) b fun _ => True := by
  intro s hs x s' hrun
  obtain ⟨-, rfl⟩ := Prod.mk.inj (Option.some.inj hrun)
  exact ⟨trivial, hs⟩

theorem Sound.token : Sound src k b token b fun _ => True := .look

theorem Sound.following : Sound src k b following b fun _ => True := .look

theorem Sound.atPunct (t : Punct) : Sound src k b (atPunct t) b fun _ => True := .look

theorem Sound.atWord (w : Keyword) : Sound src k b (atWord w) b fun _ => True := .look

theorem Sound.atName : Sound src k b atName b fun _ => True := by
  unfold Parser.atName
  refine .bind .token fun t _ => ?_
  split <;> exact .pure trivial

/-- What was required may be relied on afterwards. -/
theorem Sound.require (c : Bool) : Sound src k b (require c) b fun _ => c = true := by
  unfold Parser.require
  exact .ite (fun h => .pure h) fun _ => .refuse

/-- A phrase that remembers its start is read from there on. -/
theorem Sound.start {f : Input → Parser α}
    (h : ∀ first, first.Of src → k ≤ first.offset → Sound src first.offset false (f first) true A) :
    Sound src k b (start >>= f) b' A := by
  intro s hs x s' hrun
  obtain ⟨hA, hs'⟩ := h s.token.start hs.token hs.le_token s hs.fresh x s' hrun
  exact ⟨hA, hs'.earlier hs.le_token⟩

/-- The same, where the first thing done depends on the state. -/
theorem Sound.startHere {f : Input → Parser α}
    (h : ∀ s, Holds src s.token.start.offset false s →
      From src s.token.start.offset s (f s.token.start) true A) :
    Sound src k b (Parser.start >>= f) b' A := by
  intro s hs x s' hrun
  obtain ⟨hA, hs'⟩ := h s hs.fresh x s' hrun
  exact ⟨hA, hs'.earlier hs.le_token⟩

/-! ## Taking tokens -/

/-- A condition on the way changes nothing. -/
theorem From.require {g : Unit → Parser α} {c : Bool} (h : From src k s (g ()) b' A) :
    From src k s (Parser.require c >>= g) b' A := by
  cases c with
  | true => exact h
  | false => exact fun _ _ hrun => nomatch hrun

/-- Taking all up to a place behind the token. -/
theorem From.stopAt {g : Unit → Parser α} {inp : Input} (hs : Holds src k b s) (hinp : inp.Of src)
    (hle : s.token.start.offset ≤ inp.offset) (h : Sound src k true (g ()) b' A) :
    From src k s (stopAt inp >>= g) b' A := by
  intro x s' hrun
  obtain ⟨u, mid, hmid, hrest⟩ := bind_eq_some hrun
  obtain ⟨-, rfl⟩ := Prod.mk.inj (Option.some.inj hmid)
  exact h _ (hs.stopAt hinp hle) x s' hrest

/-- Reading on from a place behind the token, for a phrase that starts there or before. -/
theorem From.stopAt_resume {g : Unit → Parser α} {inp : Input} (hs : Holds src k b s)
    (hinp : inp.Of src) (hle : s.token.start.offset ≤ inp.offset) (hk : k ≤ k')
    (hk' : k' ≤ inp.offset) (h : Sound src k' true (g ()) true A) :
    From src k s (Parser.stopAt inp >>= fun _ => Parser.resume >>= g) b' A := by
  intro x s' hrun
  obtain ⟨u, mid, hmid, hrest⟩ := bind_eq_some hrun
  obtain ⟨-, rfl⟩ := Prod.mk.inj (Option.some.inj hmid)
  obtain ⟨⟨⟩, mid', hmid', hrest'⟩ := bind_eq_some hrest
  -- The phrase counts as taken from `k'` on, where it starts, and so from `k` on.
  have hresumed : Holds src k' true mid' := (hs.stopAt hinp hle).resume hk' (fun _ => hk') hmid'
  obtain ⟨hA, hs'⟩ := h mid' hresumed x s' hrest'
  exact ⟨hA, hs'.earlier hk⟩

/-- The next token is not before the place reached. -/
theorem Sound.resume : Sound src k b resume b fun _ => True :=
  fun _ hs _ _ hrun => ⟨trivial, hs.resume hs.le_after hs.le_lastEnd hrun⟩

/-- Taking the token leads to its end. -/
theorem Sound.advance : Sound src k b advance true fun _ => True :=
  .get fun _ hs => .stopAt hs hs.after hs.token_le_after .resume

/-- Takes the current token if a test says so. -/
def takeIf (test : Parser Bool) : Parser Bool := do
  if ← test then
    advance
    return true
  return false

/-- A token that may be there is taken or not. -/
theorem Sound.takeIf {test : Parser Bool} (htest : Sound src k b test b fun _ => True) :
    Sound src k b (takeIf test) b fun _ => True := by
  refine .bind htest fun c _ => .ite (fun _ => ?_) fun _ => .pure trivial
  exact Sound.forget (.bind .advance fun _ _ => .pure trivial)

/-- A token that must pass the test is taken. -/
theorem Sound.takeIf_require {test : Parser Bool} (htest : Sound src k b test b fun _ => True) :
    Sound src k b (Parser.takeIf test >>= Parser.require) true fun _ => True := by
  unfold Parser.takeIf
  rw [bind_assoc]
  refine .bind htest fun c _ => ?_
  -- Only a token that is there is taken and passes; without it the recogniser refuses.
  cases c with
  | true =>
    refine .bind (A := fun _ => True) (.bind .advance fun _ _ => .pure trivial) fun c _ => ?_
    exact (Sound.require c).mono fun _ _ => trivial
  | false => exact fun _ _ _ _ hrun => nomatch hrun

/-- A punctuation that may be missing. -/
theorem Sound.eat (t : Punct) : Sound src k b (eat t) b fun _ => True := .takeIf (.atPunct t)

/-- A keyword that may be missing. -/
theorem Sound.eatWord (w : Keyword) : Sound src k b (eatWord w) b fun _ => True := .takeIf (.atWord w)

/-- A punctuation that must be there is taken. -/
theorem Sound.expect (t : Punct) : Sound src k b (expect t) true fun _ => True :=
  .takeIf_require (.atPunct t)

/-- A keyword that must be there is taken. -/
theorem Sound.expectWord (w : Keyword) : Sound src k b (expectWord w) true fun _ => True :=
  .takeIf_require (.atWord w)

/-! ## Nodes -/

/-- Trees that are placed. -/
def AllPlaced (src : List Char) (nodes : List Node) : Prop := ∀ n ∈ nodes, Placed src n

theorem AllPlaced.nil : AllPlaced src [] := fun _ hn => absurd hn List.not_mem_nil

theorem AllPlaced.cons {n : Node} {nodes : List Node} (hn : Placed src n) (h : AllPlaced src nodes) :
    AllPlaced src (n :: nodes) :=
  List.forall_mem_cons.2 ⟨hn, h⟩

theorem AllPlaced.one {n : Node} (hn : Placed src n) : AllPlaced src [n] := .cons hn .nil

theorem AllPlaced.two {n m : Node} (hn : Placed src n) (hm : Placed src m) : AllPlaced src [n, m] :=
  .cons hn (.one hm)

theorem AllPlaced.append {nodes more : List Node} (h : AllPlaced src nodes) (h' : AllPlaced src more) :
    AllPlaced src (nodes ++ more) :=
  List.forall_mem_append.2 ⟨h, h'⟩

/-- Phrases are collected backwards. -/
theorem AllPlaced.reverse {nodes : List Node} (h : AllPlaced src nodes) : AllPlaced src nodes.reverse :=
  fun n hn => h n (List.mem_reverse.1 hn)

private theorem mem_of_partition {test : Node → Bool} {nodes : List Node} {n : Node} :
    (n ∈ (nodes.partition test).1 → n ∈ nodes) ∧ (n ∈ (nodes.partition test).2 → n ∈ nodes) := by
  rw [List.partition_eq_filter_filter]
  exact ⟨fun h => (List.mem_filter.1 h).1, fun h => (List.mem_filter.1 h).1⟩

/-- A finished node is placed, and takes only placed comments. -/
theorem Sound.finish {kind : Kind} {first : Input} {children : List Node} (hfirst : first.Of src)
    (hle : first.offset ≤ k) (hchildren : AllPlaced src children) :
    Sound src k true (finish kind first children) true (Placed src) := by
  intro s hs n s' hrun
  obtain ⟨rfl, rfl⟩ := Prod.mk.inj (Option.some.inj hrun)
  refine ⟨?_, { hs with comments := ?_ }⟩
  · -- The node ends with the last token taken, which is not before its first one.
    refine .spanning hfirst hs.lastEnd (Nat.le_trans hle (hs.le_lastEnd rfl)) ?_
    intro c hc
    obtain hc | hc := mem_foldr_insertComment hc
    · exact hs.comments c (mem_of_partition.1 hc)
    · exact hchildren c hc
  · -- Comments before the node are left for the one around it.
    intro c hc
    exact hs.comments c (mem_of_partition.2 hc)

/-- A token as a node ends where it ends. -/
theorem Sound.leaf (kind : Kind) : Sound src k b (leaf kind) true (Placed src) := by
  unfold Parser.leaf
  refine .start fun first hfirst _ => ?_
  exact .bind .advance fun _ _ => .finish hfirst (Nat.le_refl _) .nil

/-- A name is one token. -/
theorem Sound.identifier : Sound src k b identifier true (Placed src) := by
  unfold Parser.identifier
  exact .bind .atName fun c _ => .bind (.require c) fun _ _ => .leaf .identifier

/-- A statement may end without a semicolon, and then nothing is taken. -/
theorem Sound.endStatement : Sound src k b endStatement b fun _ => True := by
  unfold Parser.endStatement
  refine .bind (.eat .semicolon) fun c _ => .ite (fun _ => .pure trivial) fun _ => ?_
  exact .bind .token fun t _ => (Sound.require _).mono fun _ _ => trivial

/-- A recogniser of placed trees that takes at least one token. -/
def Takes (src : List Char) (p : Parser Node) : Prop := ∀ k b, Sound src k b p true (Placed src)

/-- The same for a phrase of which `first` is the start, read from there on. -/
def TakesFrom (src : List Char) (first : Input) (p : Parser Node) : Prop :=
  ∀ k b, first.offset ≤ k → Sound src k b p true (Placed src)

/-! ## Lists of phrases -/

/-- Collecting placed trees. -/
theorem Sound.collect {step : List Node → Parser (Option (List Node))} {nodes : List Node}
    (hstep : ∀ found, AllPlaced src found →
      Sound src k b (step found) b fun more => ∀ y, more = some y → AllPlaced src y)
    (hnodes : AllPlaced src nodes) : Sound src k b (Parser.iterate step nodes) b (AllPlaced src) :=
  .iterate hstep hnodes

/-- One more phrase on a list. -/
theorem AllPlaced.push {n : Node} {nodes : List Node} (h : AllPlaced src nodes) (hn : Placed src n) :
    ∀ y, some (n :: nodes) = some y → AllPlaced src y := by
  rintro y ⟨rfl⟩
  exact .cons hn h

/-- An end of a list. -/
theorem AllPlaced.stop : ∀ y : List Node, none = some y → AllPlaced src y := fun _ h => nomatch h

/-- A comma after a phrase that is not the last. -/
private theorem Sound.separator (closing : Punct) {items : List Node} (hitems : AllPlaced src items)
    {next : Node} (hnext : Placed src next) :
    Sound src k b (do
      if !(← Parser.atPunct closing) then Parser.expect .comma
      return some (next :: items)) b fun more => ∀ y, more = some y → AllPlaced src y := by
  refine .bind (.atPunct closing) fun c _ => .ite (fun _ => ?_) fun _ => .pure (hitems.push hnext)
  exact Sound.forget (.bind (.expect .comma) fun _ _ => .pure (hitems.push hnext))

/-- A list takes at least the punctuation that closes it. -/
theorem Sound.listUntil (closing : Punct) {item : Parser Node}
    (hitem : ∀ b, Sound src k b item true (Placed src)) :
    Sound src k b (listUntil closing item) true (AllPlaced src) := by
  unfold Parser.listUntil
  refine .bind (.collect (fun items hitems => ?_) .nil) fun items hitems =>
    .bind (.expect closing) fun _ _ => .pure hitems.reverse
  refine .bind (.atPunct closing) fun c _ => .ite (fun _ => .pure .stop) fun _ => ?_
  exact Sound.forget (.bind (hitem b) fun next hnext => .separator closing hitems hnext)

/-- The same, where an element may be missing before a comma. -/
theorem Sound.elementsUntil (closing : Punct) {item : Parser Node}
    (hitem : ∀ b, Sound src k b item true (Placed src)) :
    Sound src k b (elementsUntil closing item) true (AllPlaced src) := by
  unfold Parser.elementsUntil
  refine .bind (.collect (fun items hitems => ?_) .nil) fun items hitems =>
    .bind (.expect closing) fun _ _ => .pure hitems.reverse
  refine .bind (.atPunct closing) fun c _ => .ite (fun _ => .pure .stop) fun _ => ?_
  refine .bind (.atPunct .comma) fun c _ => .ite (fun _ => ?_) fun _ => ?_
  · -- The comma stands where an element is missing.
    exact Sound.forget (.bind (.leaf .elision) fun n hn => .pure (hitems.push hn))
  · exact Sound.forget (.bind (hitem b) fun next hnext => .separator closing hitems hnext)

end Parser

end LodashStyle.JavaScript
