import LodashStyle.JavaScript.Grammar.Jsx
import LodashStyle.Proofs.Placement.Calculus

/-!
# Expressions are placed

Each production of patterns, expressions and elements yields placed trees when the recogniser of
the parts does, and takes at least one token.  The proofs follow the productions step by step.
-/

namespace LodashStyle.JavaScript.Parser

variable {α : Type} {src : List Char} {go : Goal → Parser Node} {first : Input} {k : Nat} {b : Bool}

/-! ## Patterns and property names -/

/-- A property name is one token, or an expression in brackets. -/
theorem takes_propertyName (hgo : ∀ goal, Takes src (go goal)) : Takes src (propertyName go) := by
  intro k b
  unfold propertyName
  refine .bind .token fun t _ => ?_
  split
  · exact .leaf _
  · exact .leaf _
  · exact .leaf _
  · exact .leaf _
  · refine .start fun first hfirst _ => ?_
    refine .bind .advance fun _ _ => .bind (hgo _ _ _) fun name hname => ?_
    exact .bind (.expect _) fun _ _ => .finish hfirst (Nat.le_refl _) (.one hname)
  · exact .refuse

/-- A pattern and its default are the two sides of one phrase. -/
theorem takes_patternWithDefault (hgo : ∀ goal, Takes src (go goal)) :
    Takes src (patternWithDefault go) := by
  intro k b
  unfold patternWithDefault
  refine .start fun first hfirst _ => .bind (hgo _ _ _) fun target htarget => ?_
  refine .bind (.eat _) fun _ _ => .ite (fun _ => ?_) fun _ => .pure htarget
  refine .bind (hgo _ _ _) fun value hvalue => ?_
  exact .finish hfirst (Nat.le_refl _) (.two (htarget.withRole _) (hvalue.withRole _))

/-- The pattern that takes what is left over, its dots included. -/
theorem takes_restPattern (hgo : ∀ goal, Takes src (go goal)) : Takes src (restPattern go) := by
  intro k b
  unfold restPattern
  refine .start fun first hfirst _ => .bind (.expect _) fun _ _ => ?_
  exact .bind (hgo _ _ _) fun target htarget => .finish hfirst (Nat.le_refl _) (.one htarget)

/-- What may stand in an array pattern or among parameters. -/
theorem takes_patternItem (hgo : ∀ goal, Takes src (go goal)) : Takes src (patternItem go) := by
  intro k b
  unfold patternItem
  refine .bind (.atPunct _) fun _ _ => .ite (fun _ => ?_) fun _ => ?_
  · exact takes_restPattern hgo k b
  · exact takes_patternWithDefault hgo k b

/-- An array pattern, in which elements may be missing. -/
theorem takes_arrayPattern (hgo : ∀ goal, Takes src (go goal)) : Takes src (arrayPattern go) := by
  intro k b
  unfold arrayPattern
  refine .start fun first hfirst _ => .bind (.expect _) fun _ _ => ?_
  refine .bind (.elementsUntil _ (takes_patternItem hgo _)) fun items hitems => ?_
  exact .finish hfirst (Nat.le_refl _) hitems

/-- A member of an object pattern: what is left over, a key with a pattern, or a name that is both. -/
theorem takes_objectPatternItem (hgo : ∀ goal, Takes src (go goal)) :
    Takes src (objectPatternItem go) := by
  intro k b
  unfold objectPatternItem
  refine .bind (.atPunct _) fun _ _ => .ite (fun _ => takes_restPattern hgo k b) fun _ => ?_
  refine .start fun first hfirst _ => .bind .atName fun shorthand _ => ?_
  refine .bind (takes_propertyName hgo _ _) fun key hkey => .bind (.eat _) fun _ _ => ?_
  refine .ite (fun _ => ?_) fun _ => ?_
  · -- A key and the pattern behind it.
    refine .bind (takes_patternWithDefault hgo _ _) fun target htarget => ?_
    exact .finish hfirst (Nat.le_refl _) (.two (hkey.withRole _) (htarget.withRole _))
  · -- A name alone, or one with a default.
    refine .bind (.require _) fun _ _ => .bind (.eat _) fun _ _ => ?_
    refine .ite (fun _ => ?_) fun _ => .pure (hkey.withKind _)
    refine .bind (hgo _ _ _) fun value hvalue => ?_
    exact .finish hfirst (Nat.le_refl _) (.two ((hkey.withKind _).withRole _) (hvalue.withRole _))

/-- An object pattern with its braces. -/
theorem takes_objectPattern (hgo : ∀ goal, Takes src (go goal)) : Takes src (objectPattern go) := by
  intro k b
  unfold objectPattern
  refine .start fun first hfirst _ => .bind (.expect _) fun _ _ => ?_
  refine .bind (.listUntil _ (takes_objectPatternItem hgo _)) fun items hitems => ?_
  exact .finish hfirst (Nat.le_refl _) hitems

/-- A pattern is read by its first token. -/
theorem takes_pattern (hgo : ∀ goal, Takes src (go goal)) : Takes src (pattern go) := by
  intro k b
  unfold pattern
  refine .bind .token fun t _ => ?_
  split
  · exact takes_arrayPattern hgo k b
  · exact takes_objectPattern hgo k b
  · exact .identifier

/-- The parameters of a function with their parentheses. -/
theorem takes_parameters (hgo : ∀ goal, Takes src (go goal)) : Takes src (parameters go) := by
  intro k b
  unfold parameters
  refine .start fun first hfirst _ => .bind (.expect _) fun _ _ => ?_
  refine .bind (.listUntil _ (takes_patternItem hgo _)) fun items hitems => ?_
  exact .finish hfirst (Nat.le_refl _) hitems

/-! ## Literals -/

/-- The parentheses around an expression belong to a node of their own. -/
theorem takes_parenthesized (hgo : ∀ goal, Takes src (go goal)) : Takes src (parenthesized go) := by
  intro k b
  unfold parenthesized
  refine .start fun first hfirst _ => .bind (.expect _) fun _ _ => ?_
  refine .bind (hgo _ _ _) fun inner hinner => .bind (.expect _) fun _ _ => ?_
  exact .finish hfirst (Nat.le_refl _) (.one hinner)

/-- A spread starts with its dots. -/
theorem takes_spread (hgo : ∀ goal, Takes src (go goal)) : Takes src (spread go) := by
  intro k b
  unfold spread
  refine .start fun first hfirst _ => .bind (.expect _) fun _ _ => ?_
  exact .bind (hgo _ _ _) fun inner hinner => .finish hfirst (Nat.le_refl _) (.one hinner)

/-- What may stand among arguments and elements. -/
theorem takes_spreadable (hgo : ∀ goal, Takes src (go goal)) : Takes src (spreadable go) := by
  intro k b
  unfold spreadable
  exact .bind (.atPunct _) fun _ _ => .ite (fun _ => takes_spread hgo k b) fun _ => hgo _ k b

/-- The arguments of a call with their parentheses. -/
theorem takes_argumentList (hgo : ∀ goal, Takes src (go goal)) : Takes src (argumentList go) := by
  intro k b
  unfold argumentList
  refine .start fun first hfirst _ => .bind (.expect _) fun _ _ => ?_
  refine .bind (.listUntil _ (takes_spreadable hgo _)) fun items hitems => ?_
  exact .finish hfirst (Nat.le_refl _) hitems

/-- An array with its brackets; a missing element has a node too. -/
theorem takes_arrayLiteral (hgo : ∀ goal, Takes src (go goal)) : Takes src (arrayLiteral go) := by
  intro k b
  unfold arrayLiteral
  refine .start fun first hfirst _ => .bind (.expect _) fun _ _ => ?_
  refine .bind (.elementsUntil _ (takes_spreadable hgo _)) fun items hitems => ?_
  exact .finish hfirst (Nat.le_refl _) hitems

/-- A method starts with what stands before its parameters. -/
theorem takes_methodTail (hgo : ∀ goal, Takes src (go goal)) (hfirst : first.Of src)
    {before : List Node} (hbefore : AllPlaced src before) :
    TakesFrom src first (methodTail go first before) := by
  intro k b hk
  unfold methodTail
  refine .bind (takes_parameters hgo k b) fun params hparams => ?_
  refine .bind (hgo _ _ _) fun body hbody => ?_
  exact .finish hfirst hk (hbefore.append (.two hparams hbody))

/-- A word is taken as a modifier only if a member goes on behind it, so nothing may be taken. -/
theorem Sound.modifier (words : List Keyword) : Sound src k b (modifier words) b fun _ => True := by
  unfold Parser.modifier
  refine .bind .token fun t _ => ?_
  split
  · refine .bind .following fun next _ => .ite (fun _ => ?_) fun _ => .pure trivial
    exact Sound.forget (.bind .advance fun _ _ => .pure trivial)
  · exact Sound.forget (.bind .advance fun _ _ => .pure trivial)
  · exact .pure trivial

/-- Modifiers have no nodes. -/
theorem Sound.modifiers (words : List Keyword) : Sound src k b (modifiers words) b fun _ => True := by
  unfold Parser.modifiers
  refine .iterate (fun _ _ => ?_) trivial
  refine .bind (.modifier words) fun _ _ => .ite (fun _ => .pure ?_) fun _ => .pure ?_
  · exact fun _ _ => trivial
  · exact fun _ _ => trivial

/-- A member of an object in any of its forms.  Its key is read before it is known which form it has.
    -/
theorem takes_objectMember (hgo : ∀ goal, Takes src (go goal)) : Takes src (objectMember go) := by
  intro k b
  unfold objectMember
  refine .bind (.atPunct _) fun _ _ => .ite (fun _ => takes_spread hgo k b) fun _ => ?_
  refine .start fun first hfirst _ => .bind (.modifiers _) fun _ _ => .ite (fun _ => ?_) fun _ => ?_
  · -- A method with modifiers.
    refine .bind (takes_propertyName hgo _ _) fun key hkey => ?_
    exact takes_methodTail hgo hfirst (.one (hkey.withRole _)) _ _ (Nat.le_refl _)
  refine .bind .atName fun shorthand _ => .bind (takes_propertyName hgo _ _) fun key hkey => ?_
  refine .bind (.eat _) fun _ _ => .ite (fun _ => ?_) fun _ => ?_
  · -- A pair.
    refine .bind (hgo _ _ _) fun value hvalue => ?_
    exact .finish hfirst (Nat.le_refl _) (.two (hkey.withRole _) (hvalue.withRole _))
  refine .bind (.atPunct _) fun _ _ => .ite (fun _ => ?_) fun _ => ?_
  · -- A method without modifiers.
    exact takes_methodTail hgo hfirst (.one (hkey.withRole _)) _ _ (Nat.le_refl _)
  refine .bind (.require _) fun _ _ => .bind (.eat _) fun _ _ => .ite (fun _ => ?_) fun _ => ?_
  · -- A name with a default, where the object is taken as a pattern later.
    refine .bind (hgo _ _ _) fun value hvalue => ?_
    exact .finish hfirst (Nat.le_refl _) (.two ((hkey.withKind _).withRole _) (hvalue.withRole _))
  · exact .pure (hkey.withKind _)

/-- An object with its braces. -/
theorem takes_objectLiteral (hgo : ∀ goal, Takes src (go goal)) : Takes src (objectLiteral go) := by
  intro k b
  unfold objectLiteral
  refine .start fun first hfirst _ => .bind (.expect _) fun _ _ => ?_
  refine .bind (.listUntil _ (takes_objectMember hgo _)) fun items hitems => ?_
  exact .finish hfirst (Nat.le_refl _) hitems

/-- A regular expression is read by characters, from the slash that the token starts with. -/
theorem takes_regex : Takes src regex := by
  intro k b
  unfold regex
  refine .startHere fun s hs => ?_
  split
  · exact fun _ _ hrun => nomatch hrun
  · refine .stopAt hs (hs.token.advance _) (Input.le_offset_advance _ _) ?_
    exact .bind .resume fun _ _ => .finish hs.token (Nat.le_refl _) .nil

/-! ## Templates -/

/-- A step through a template takes its text and, if one follows, a substitution. -/
theorem From.templateStep (hgo : ∀ goal, Takes src (go goal)) {s : ParserState} (hs : Holds src k b s)
    {parts : List Node} (hparts : AllPlaced src parts) :
    From src k s (templateStep go (false, parts)) true
      fun next => ∃ closed more, next = some (closed, more) ∧ AllPlaced src more := by
  unfold Parser.templateStep
  change From src k s (get >>= _) _ _
  refine Sound.get (fun s hs => ?_) s hs
  dsimp only
  split
  · -- The template is not closed.
    exact fun _ _ hrun => nomatch hrun
  · -- The closing mark follows the text.
    refine .stopAt hs (hs.after.advance _) ?_ (.pure ⟨true, parts, rfl, hparts⟩)
    exact Nat.le_trans hs.token_le_after (Input.le_offset_advance _ _)
  · rename_i n _
    -- The substitution starts behind the text, and is read from there on.
    have htext := Input.le_offset_advance s.after n
    have hfirst := hs.after.advance n
    generalize s.after.advance n = first at htext hfirst ⊢
    have hopen := Input.le_offset_advance first 2
    have htoken := hs.token_le_after
    have hk := hs.le_after
    refine .stopAt_resume hs (hfirst.advance 2) (by omega) (by omega) hopen ?_
    refine .bind (hgo _ _ _) fun inner hinner => .bind (.atPunct _) fun _ _ => ?_
    refine .bind (.require _) fun _ _ => .get fun s hs => ?_
    refine .stopAt hs hs.after hs.token_le_after ?_
    refine .bind (.finish hfirst (Nat.le_refl _) (.one hinner)) fun part hpart => ?_
    exact .pure ⟨false, part :: parts, rfl, AllPlaced.cons hpart hparts⟩

/-- A template starts with its opening mark and ends behind the closing one. -/
theorem takes_template (hgo : ∀ goal, Takes src (go goal)) : Takes src (template go) := by
  intro k b
  unfold template
  refine .start fun first hfirst _ => ?_
  intro s hs n s' hrun
  obtain ⟨⟨closed, parts⟩, mid, hmid, hrest⟩ := bind_eq_some hrun
  -- A template that is closed was taken.
  obtain ⟨hparts, hmid⟩ : AllPlaced src parts ∧ Holds src first.offset closed mid := by
    refine iterate_induction (I := fun done s => AllPlaced src done.2 ∧ Holds src first.offset done.1 s)
      ?_ ⟨.nil, hs⟩ hmid
    rintro ⟨closed, parts⟩ s ⟨hparts, hs⟩ next s' hnext
    cases closed with
    | true =>
      obtain ⟨rfl, rfl⟩ := Prod.mk.inj (Option.some.inj hnext)
      exact ⟨hparts, hs⟩
    | false =>
      obtain ⟨⟨closed, more, rfl, hmore⟩, hs'⟩ := From.templateStep hgo hs hparts next s' hnext
      exact ⟨hmore, hs'.earlier (Nat.le_refl _)⟩
  have hclose : Sound src first.offset closed (do
      require closed
      let node ← finish .templateString first parts.reverse
      resume
      return node) true (Placed src) := by
    refine .bind (.require closed) fun _ hclosed => ?_
    subst hclosed
    refine .bind (.finish hfirst (Nat.le_refl _) hparts.reverse) fun node hnode => ?_
    exact .bind .resume fun _ _ => .pure hnode
  exact hclose mid hmid n s' hrest

/-! ## Functions and classes -/

/-- The body of an arrow function is a block or an expression. -/
theorem takes_arrowBody (hgo : ∀ goal, Takes src (go goal)) (allowIn : Bool) :
    Takes src (arrowBody go allowIn) := by
  intro k b
  unfold arrowBody
  exact .bind (.atPunct _) fun _ _ => .ite (fun _ => hgo _ k b) fun _ => hgo _ k b

/-- An arrow function from its parameters on. -/
private theorem takes_arrowTail (hgo : ∀ goal, Takes src (go goal)) (hfirst : first.Of src)
    (allowIn : Bool) :
    TakesFrom src first (do
      let params ← if ← atPunct .openParen then parameters go else identifier
      require (!(← token).afterLineEnd)
      expect .arrow
      let body ← arrowBody go allowIn
      finish .arrowFunction first [params, body]) := by
  intro k b hk
  refine .bind (.atPunct _) fun _ _ => .ite_bind (fun _ => takes_parameters hgo k b)
    (fun _ => .identifier) fun params hparams => ?_
  refine .bind .token fun t _ => .bind (.require _) fun _ _ => .bind (.expect _) fun _ _ => ?_
  refine .bind (takes_arrowBody hgo allowIn _ _) fun body hbody => ?_
  exact .finish hfirst hk (.two hparams hbody)

/-- An arrow function starts with its modifier, if it has one. -/
theorem takes_arrowFunction (hgo : ∀ goal, Takes src (go goal)) (allowIn : Bool) :
    Takes src (arrowFunction go allowIn) := by
  intro k b
  unfold arrowFunction
  refine .start fun first hfirst _ => .bind (.atWord _) fun _ _ => .ite (fun _ => ?_) fun _ => ?_
  · refine .bind .following fun next _ => .ite (fun _ => ?_) fun _ => ?_
    · -- The word is a modifier, on the same line.
      refine .bind (.require _) fun _ _ => .bind .advance fun _ _ => ?_
      exact takes_arrowTail hgo hfirst allowIn _ _ (Nat.le_refl _)
    · -- The word is the parameter.
      exact takes_arrowTail hgo hfirst allowIn _ _ (Nat.le_refl _)
  · exact takes_arrowTail hgo hfirst allowIn _ _ (Nat.le_refl _)

/-- A name of its own. -/
theorem Sound.name :
    Sound src k b (do return [(← Parser.identifier).withRole .name]) b (AllPlaced src) :=
  Sound.forget (.bind .identifier fun _ hname => .pure (AllPlaced.one (hname.withRole _)))

/-- A function from its first word on. -/
theorem takes_functionFrom (hgo : ∀ goal, Takes src (go goal)) (hfirst : first.Of src) :
    TakesFrom src first (functionFrom go first) := by
  intro k b hk
  unfold functionFrom
  refine .bind (.eatWord _) fun _ _ => .bind (.expectWord _) fun _ _ => .bind (.eat _) fun _ _ => ?_
  refine .bind .atName fun c _ => .ite_bind (fun _ => .name) (fun _ => .pure AllPlaced.nil)
    fun name hname => ?_
  refine .bind (takes_parameters hgo _ _) fun params hparams => ?_
  refine .bind (hgo _ _ _) fun body hbody => ?_
  exact .finish hfirst hk (hname.append (.two hparams hbody))

/-- An access starts where its object does. -/
theorem takes_memberOf (hgo : ∀ goal, Takes src (go goal)) (hfirst : first.Of src) {object : Node}
    (hobject : Placed src object) : TakesFrom src first (memberOf go first object) := by
  intro k b hk
  have hproperty : Sound src k b (do
      let property ← propertyName go
      finish .member first [object.withRole .object, property.withRole .property]) true (Placed src) := by
    refine .bind (takes_propertyName hgo _ _) fun property hproperty => ?_
    exact .finish hfirst hk (.two (hobject.withRole _) (hproperty.withRole _))
  unfold memberOf
  refine .bind .token fun t _ => ?_
  split
  · exact hproperty
  · exact hproperty
  · exact .refuse

/-- A call starts where its callee does. -/
theorem takes_callOf (hgo : ∀ goal, Takes src (go goal)) (hfirst : first.Of src) {callee : Node}
    (hcallee : Placed src callee) : TakesFrom src first (callOf go first callee) := by
  intro k b hk
  unfold callOf
  refine .bind (takes_argumentList hgo _ _) fun args hargs => ?_
  exact .finish hfirst hk (.two (hcallee.withRole _) (hargs.withRole _))

/-- A step from one operand to the next. -/
theorem Placed.next {n : Node} (hn : Placed src n) : ∀ y, some n = some y → Placed src y := by
  rintro y ⟨rfl⟩
  exact hn

/-- The end of the steps. -/
theorem Placed.stop : ∀ y : Node, none = some y → Placed src y := fun _ h => nomatch h

/-- A decorator spans its mark and the name, access or call behind it. -/
theorem takes_decorator (hgo : ∀ goal, Takes src (go goal)) : Takes src (decorator go) := by
  intro k b
  unfold decorator
  refine .start fun first hfirst _ => .bind (.expect _) fun _ _ => ?_
  refine .start fun target htarget hle => .bind (.atPunct _) fun _ _ => ?_
  have hfinish : ∀ inner, Placed src inner →
      Sound src target.offset true (finish .decorator first [inner]) true (Placed src) :=
    fun inner hinner => .finish hfirst hle (.one hinner)
  refine .ite (fun _ => .bind (takes_parenthesized hgo _ _) hfinish) fun _ => ?_
  refine .bind .identifier fun name hname => ?_
  refine .bind (.iterate (A := Placed src) (fun object hobject => ?_) hname) fun path hpath => ?_
  · refine .bind (.eat _) fun _ _ => .ite (fun _ => ?_) fun _ => .pure Placed.stop
    exact .map (takes_memberOf hgo htarget hobject _ _ (Nat.le_refl _)) fun _ => Placed.next
  · refine .bind (.atPunct _) fun _ _ => .ite_bind (fun _ => ?_) (fun _ => .pure hpath) hfinish
    exact takes_callOf hgo htarget hpath _ _ (Nat.le_refl _)

/-- There may be no decorators, so that nothing is taken. -/
theorem Sound.decorators (hgo : ∀ goal, Takes src (go goal)) :
    Sound src k b (decorators go) b (AllPlaced src) := by
  unfold Parser.decorators
  refine .bind (.collect (fun found hfound => ?_) .nil) fun found hfound => .pure hfound.reverse
  refine .bind (.atPunct _) fun _ _ => .ite (fun _ => ?_) fun _ => .pure AllPlaced.stop
  exact Sound.forget (.bind (takes_decorator hgo _ _) fun _ hn => .pure (hfound.push hn))

/-- A member of a class starts with its decorators. -/
theorem takes_classMember (hgo : ∀ goal, Takes src (go goal)) : Takes src (classMember go) := by
  intro k b
  unfold classMember
  refine .start fun first hfirst _ => .bind (.decorators hgo) fun marks hmarks => ?_
  refine .bind (.atWord _) fun _ _ => .bind .following fun _ _ => .ite (fun _ => ?_) fun _ => ?_
  · -- A static block.
    refine .bind .advance fun _ _ => .bind (hgo _ _ _) fun body hbody => ?_
    exact .finish hfirst (Nat.le_refl _) (hmarks.append (.one hbody))
  refine .bind (.modifiers _) fun _ _ => .bind (takes_propertyName hgo _ _) fun key hkey => ?_
  refine .bind (.atPunct _) fun _ _ => .ite (fun _ => ?_) fun _ => ?_
  · -- A method.
    exact takes_methodTail hgo hfirst (hmarks.append (.one (hkey.withRole _))) _ _ (Nat.le_refl _)
  refine .bind (.eat _) fun _ _ => .ite_bind (A := AllPlaced src) (fun _ => ?_) (fun _ => .pure .nil)
    fun value hvalue => ?_
  · exact .bind (hgo _ _ _) fun value hvalue => .pure (.one hvalue)
  · refine .bind (.finish hfirst (Nat.le_refl _) (hmarks.append (.cons (hkey.withRole _) hvalue)))
      fun field hfield => ?_
    exact .bind .endStatement fun _ _ => .pure hfield

/-- The members of a class, between semicolons that have no nodes. -/
theorem takes_classBody (hgo : ∀ goal, Takes src (go goal)) : Takes src (classBody go) := by
  intro k b
  unfold classBody
  refine .start fun first hfirst _ => .bind (.expect _) fun _ _ => ?_
  refine .bind (.collect (fun members hmembers => ?_) .nil) fun members hmembers =>
    .bind (.expect _) fun _ _ => .finish hfirst (Nat.le_refl _) hmembers.reverse
  refine .bind (.atPunct _) fun _ _ => .ite (fun _ => .pure AllPlaced.stop) fun _ => ?_
  refine .bind (.eat _) fun _ _ => .ite (fun _ => .pure ?_) fun _ => ?_
  · rintro y ⟨rfl⟩
    exact hmembers
  · exact .bind (takes_classMember hgo _ _) fun _ hn => .pure (hmembers.push hn)

/-- A class starts with its decorators, which were read before. -/
theorem takes_classFrom (hgo : ∀ goal, Takes src (go goal)) (hfirst : first.Of src)
    {marks : List Node} (hmarks : AllPlaced src marks) :
    TakesFrom src first (classFrom go first marks) := by
  intro k b hk
  unfold classFrom
  refine .bind (.expectWord _) fun _ _ => .bind .atName fun _ _ => ?_
  refine .ite_bind (fun _ => .name) (fun _ => .pure AllPlaced.nil) fun name hname => ?_
  refine .bind (.eatWord _) fun _ _ => .ite_bind (A := AllPlaced src) (fun _ => ?_) (fun _ => .pure .nil)
    fun heritage hheritage => ?_
  · exact .bind (hgo _ _ _) fun n hn => .pure (.one hn)
  · refine .bind (takes_classBody hgo _ _) fun body hbody => ?_
    exact .finish hfirst hk (((hmarks.append hname).append hheritage).append (.one hbody))

/-! ## Operands -/

/-- A word as an operand: a literal, a function, a class or a name. -/
theorem takes_wordOperand (hgo : ∀ goal, Takes src (go goal)) (word : Option Keyword) :
    Takes src (wordOperand go word) := by
  intro k b
  unfold wordOperand
  split
  · exact .leaf _
  · exact .leaf _
  · exact .leaf _
  · exact .leaf _
  · exact .leaf _
  · exact .leaf _
  · exact .start fun first hfirst _ => takes_functionFrom hgo hfirst _ _ (Nat.le_refl _)
  · exact .start fun first hfirst _ => takes_classFrom hgo hfirst .nil _ _ (Nat.le_refl _)
  · -- A name unless a function follows.
    refine .bind .following fun next _ => .ite (fun _ => ?_) fun _ => .identifier
    exact .start fun first hfirst _ => takes_functionFrom hgo hfirst _ _ (Nat.le_refl _)
  · -- A word for itself, or with a property as in `import.meta`.
    refine .start fun first hfirst _ => .bind (.leaf _) fun word hword => ?_
    refine .bind (.eat _) fun _ _ => .ite (fun _ => ?_) fun _ => .pure hword
    refine .bind (takes_propertyName hgo _ _) fun _ _ => ?_
    exact .finish hfirst (Nat.le_refl _) .nil
  · exact .identifier

/-- An operand is read by its first token. -/
theorem takes_primary (hgo : ∀ goal, Takes src (go goal)) : Takes src (primary go) := by
  intro k b
  unfold primary
  refine .bind .token fun t _ => ?_
  split
  · exact .leaf _
  · exact .leaf _
  · exact takes_template hgo k b
  · exact takes_wordOperand hgo _ k b
  · exact .leaf _
  · exact takes_parenthesized hgo k b
  · exact takes_arrayLiteral hgo k b
  · exact takes_objectLiteral hgo k b
  · exact takes_regex k b
  · exact takes_regex k b
  · exact .bind (hgo _ _ _) fun node hnode => .bind .resume fun _ _ => .pure hnode
  · refine .start fun first hfirst _ => .bind (.decorators hgo) fun marks hmarks => ?_
    exact takes_classFrom hgo hfirst hmarks _ _ (Nat.le_refl _)
  · exact .refuse

/-- An index starts where the object does and ends with its bracket. -/
theorem takes_subscriptOf (hgo : ∀ goal, Takes src (go goal)) (hfirst : first.Of src) {object : Node}
    (hobject : Placed src object) : TakesFrom src first (subscriptOf go first object) := by
  intro k b hk
  unfold subscriptOf
  refine .bind (.expect _) fun _ _ => .bind (hgo _ _ _) fun index hindex => ?_
  exact .bind (.expect _) fun _ _ => .finish hfirst hk (.two (hobject.withRole _) hindex)

/-- A template with a tag starts where the tag does. -/
theorem takes_taggedBy (hgo : ∀ goal, Takes src (go goal)) (hfirst : first.Of src) {callee : Node}
    (hcallee : Placed src callee) : TakesFrom src first (taggedBy go first callee) := by
  intro k b hk
  unfold taggedBy
  refine .bind (takes_template hgo _ _) fun text htext => ?_
  exact .finish hfirst hk (.two (hcallee.withRole _) (htext.withRole _))

/-- What a step from an operand to the next comes to. -/
def Steps (src : List Char) (first : Input) (p : Parser (Option Node)) : Prop :=
  ∀ k, first.offset ≤ k → Sound src k true p true fun next => ∀ y, next = some y → Placed src y

/-- What goes on from an operand to a longer one is a step. -/
theorem TakesFrom.some {p : Parser Node} (h : TakesFrom src first p) : Steps src first (some <$> p) :=
  fun k hk => .map (h k true hk) fun _ => Placed.next

/-- An access to a member is a step from its object. -/
theorem steps_accessStep (hgo : ∀ goal, Takes src (go goal)) (hfirst : first.Of src) {object : Node}
    (hobject : Placed src object) : Steps src first (accessStep go first object) := by
  intro k hk
  unfold accessStep
  refine .bind .token fun t _ => ?_
  split
  · exact .bind .advance fun _ _ => (takes_memberOf hgo hfirst hobject).some k hk
  · exact (takes_subscriptOf hgo hfirst hobject).some k hk
  · exact .pure Placed.stop

/-- An access or a call, the optional ones included, is a step from its operand. -/
theorem steps_callStep (hgo : ∀ goal, Takes src (go goal)) (hfirst : first.Of src) {object : Node}
    (hobject : Placed src object) : Steps src first (callStep go first object) := by
  intro k hk
  unfold callStep
  refine .bind .token fun t _ => ?_
  split
  · refine .bind .advance fun _ _ => .bind .token fun t _ => ?_
    split
    · exact (takes_callOf hgo hfirst hobject).some k hk
    · exact (takes_subscriptOf hgo hfirst hobject).some k hk
    · exact (takes_taggedBy hgo hfirst hobject).some k hk
    · exact (takes_memberOf hgo hfirst hobject).some k hk
  · exact (takes_callOf hgo hfirst hobject).some k hk
  · exact (takes_taggedBy hgo hfirst hobject).some k hk
  · exact steps_accessStep hgo hfirst hobject k hk

/-- A step after `new` is an access or a template, but no call. -/
theorem steps_constructorStep (hgo : ∀ goal, Takes src (go goal)) (hfirst : first.Of src)
    {object : Node} (hobject : Placed src object) : Steps src first (constructorStep go first object) := by
  intro k hk
  unfold constructorStep
  refine .bind .token fun t _ => ?_
  split
  · exact (takes_taggedBy hgo hfirst hobject).some k hk
  · exact steps_accessStep hgo hfirst hobject k hk

/-- Steps from an operand on, as far as they go. -/
theorem Sound.steps {step : Node → Parser (Option Node)} {base : Node}
    (hstep : ∀ object, Placed src object → Steps src first (step object)) (hk : first.offset ≤ k)
    (hbase : Placed src base) : Sound src k true (Parser.iterate step base) true (Placed src) :=
  .iterate (fun object hobject => hstep object hobject k hk) hbase

/-- A construction starts with `new`, its constructor behind it. -/
theorem takes_construction (hgo : ∀ goal, Takes src (go goal)) : Takes src (construction go) := by
  intro k b
  unfold construction
  refine .start fun first hfirst _ => .bind (.expectWord _) fun _ _ => ?_
  refine .bind (.eat _) fun _ _ => .ite (fun _ => ?_) fun _ => ?_
  · -- The meta property `new.target`.
    refine .bind (takes_propertyName hgo _ _) fun _ _ => ?_
    exact .finish hfirst (Nat.le_refl _) .nil
  refine .start fun target htarget hle => .bind (.atWord _) fun _ _ => ?_
  refine .ite_bind (fun _ => hgo _ _ _) (fun _ => takes_primary hgo _ _) fun base hbase => ?_
  refine .bind (.steps (fun _ => steps_constructorStep hgo htarget) (Nat.le_refl _) hbase)
    fun callee hcallee => ?_
  refine .bind (.atPunct _) fun _ _ => .ite (fun _ => ?_) fun _ => .finish hfirst hle (.one hcallee)
  refine .bind (takes_argumentList hgo _ _) fun args hargs => ?_
  exact .finish hfirst hle (.two hcallee (hargs.withRole _))

/-- An operand with all accesses and calls after it starts where the operand does. -/
theorem takes_leftHandSide (hgo : ∀ goal, Takes src (go goal)) : Takes src (leftHandSide go) := by
  intro k b
  unfold leftHandSide
  refine .start fun first hfirst _ => .bind (.atWord _) fun _ _ => ?_
  refine .ite_bind (fun _ => takes_construction hgo _ _) (fun _ => takes_primary hgo _ _) fun base hbase => ?_
  exact .steps (fun _ => steps_callStep hgo hfirst) (Nat.le_refl _) hbase

/-! ## Operations -/

/-- An operator in front is where the phrase starts; one behind is where it ends. -/
theorem takes_unary (hgo : ∀ goal, Takes src (go goal)) : Takes src (unary go) := by
  intro k b
  unfold unary
  refine .start fun first hfirst _ => .bind .token fun t _ => ?_
  split
  · -- An operator in front.
    refine .bind .advance fun _ _ => .bind (hgo _ _ _) fun operand hoperand => ?_
    exact .finish hfirst (Nat.le_refl _) (.one hoperand)
  · -- No operator in front, and possibly one behind.
    refine .bind (takes_leftHandSide hgo _ _) fun operand hoperand => .bind .token fun t _ => ?_
    refine .ite (fun _ => ?_) fun _ => .pure hoperand
    exact .bind .advance fun _ _ => .finish hfirst (Nat.le_refl _) (.one hoperand)

/-- However many operators follow, what they make up starts with the first operand. -/
theorem Sound.operationFrom (hgo : ∀ goal, Takes src (go goal)) (hfirst : first.Of src)
    (hk : first.offset ≤ k) (allowIn : Bool) (least : Nat) {base : Node} (hbase : Placed src base) :
    Sound src k true (operationFrom go allowIn least first base) true (Placed src) := by
  unfold Parser.operationFrom
  refine .iterate (A := Placed src) (fun left hleft => .bind .token fun t _ => ?_) hbase
  split
  · exact .pure Placed.stop
  · refine .ite (fun _ => .pure Placed.stop) fun _ => .bind .advance fun _ _ => ?_
    refine .bind (hgo _ _ _) fun right hright => ?_
    exact .map (.finish hfirst hk (.two (hleft.withRole _) (hright.withRole _))) fun _ => Placed.next

/-- An operation starts with its first operand. -/
theorem takes_operation (hgo : ∀ goal, Takes src (go goal)) (allowIn : Bool) (least : Nat) :
    Takes src (operation go allowIn least) := by
  intro k b
  unfold operation
  refine .start fun first hfirst _ => .bind (takes_unary hgo _ _) fun base hbase => ?_
  exact .operationFrom hgo hfirst (Nat.le_refl _) allowIn least hbase

/-- The value of a `yield` may be missing. -/
theorem takes_yielding (hgo : ∀ goal, Takes src (go goal)) (allowIn : Bool) :
    Takes src (yielding go allowIn) := by
  intro k b
  unfold yielding
  refine .start fun first hfirst _ => .bind (.expectWord _) fun _ _ => .bind .token fun t _ => ?_
  refine .bind (.eat _) fun _ _ => .ite (fun _ => ?_) fun _ => ?_
  · -- With a star a value must follow.
    refine .bind (hgo _ _ _) fun inner hinner => ?_
    exact .finish hfirst (Nat.le_refl _) (.one hinner)
  · refine .ite (fun _ => .finish hfirst (Nat.le_refl _) .nil) fun _ => ?_
    refine .bind (hgo _ _ _) fun inner hinner => ?_
    exact .finish hfirst (Nat.le_refl _) (.one hinner)

/-- A choice or an assignment starts where its first part does. -/
theorem Sound.conditionalFrom (hgo : ∀ goal, Takes src (go goal)) (hfirst : first.Of src)
    (hk : first.offset ≤ k) (allowIn : Bool) {test : Node} (htest : Placed src test) :
    Sound src k true (conditionalFrom go allowIn first test) true (Placed src) := by
  unfold Parser.conditionalFrom
  refine .bind (.eat _) fun _ _ => .ite (fun _ => ?_) fun _ => ?_
  · -- A choice between two values.
    refine .bind (hgo _ _ _) fun consequence hconsequence => .bind (.expect _) fun _ _ => ?_
    refine .bind (hgo _ _ _) fun alternative halternative => ?_
    exact .finish hfirst hk (.cons htest (.two hconsequence halternative))
  refine .bind (.eat _) fun _ _ => .ite (fun _ => ?_) fun _ => ?_
  · -- An assignment, whose target is taken as a pattern.
    refine .bind (hgo _ _ _) fun value hvalue => ?_
    exact .finish hfirst hk (.two (htest.asPattern.withRole _) (hvalue.withRole _))
  -- An assignment with an operator.
  refine .bind .token fun t _ => .ite (fun _ => ?_) fun _ => .pure htest
  refine .bind .advance fun _ _ => .bind (hgo _ _ _) fun value hvalue => ?_
  exact .finish hfirst hk (.two (htest.withRole _) (hvalue.withRole _))

/-- An operation, or a choice or an assignment that it is the first part of. -/
theorem takes_conditional (hgo : ∀ goal, Takes src (go goal)) (allowIn : Bool) :
    Takes src (conditional go allowIn) := by
  intro k b
  unfold conditional
  refine .start fun first hfirst _ => .bind (takes_operation hgo _ _ _ _) fun test htest => ?_
  exact .conditionalFrom hgo hfirst (Nat.le_refl _) allowIn htest

/-- A function with an arrow, and what is made of it as an operand. -/
theorem takes_arrowOperand (hgo : ∀ goal, Takes src (go goal)) (allowIn : Bool) :
    Takes src (arrowOperand go allowIn) := by
  intro k b
  unfold arrowOperand
  refine .start fun first hfirst _ => .bind (takes_arrowFunction hgo _ _ _) fun function hfunction => ?_
  refine .ite (fun _ => ?_) fun _ => .pure hfunction
  refine .bind (.steps (fun _ => steps_callStep hgo hfirst) (Nat.le_refl _) hfunction)
    fun operand hoperand => ?_
  refine .bind (.operationFrom hgo hfirst (Nat.le_refl _) allowIn 0 hoperand) fun test htest => ?_
  exact .conditionalFrom hgo hfirst (Nat.le_refl _) allowIn htest

/-- The readings of an expression without commas are tried one after the other. -/
theorem takes_assignment (hgo : ∀ goal, Takes src (go goal)) (allowIn : Bool) :
    Takes src (assignment go allowIn) := by
  intro k b
  unfold assignment
  refine .orElse (takes_arrowOperand hgo _ k b) (.orElse ?_ ?_)
  · exact takes_yielding hgo allowIn k b
  · exact takes_conditional hgo allowIn k b

/-- Several expressions with commas between them are one phrase. -/
theorem takes_expression (hgo : ∀ goal, Takes src (go goal)) (allowIn : Bool) :
    Takes src (expression go allowIn) := by
  intro k b
  unfold expression
  refine .start fun first hfirst _ => .bind (hgo _ _ _) fun one hone => ?_
  refine .bind (.atPunct _) fun _ _ => .ite (fun _ => .pure hone) fun _ => ?_
  refine .bind (.collect (fun parts hparts => ?_) (.one hone)) fun parts hparts =>
    .finish hfirst (Nat.le_refl _) hparts.reverse
  refine .bind (.eat _) fun _ _ => .ite (fun _ => ?_) fun _ => .pure AllPlaced.stop
  exact .bind (hgo _ _ _) fun _ hn => .pure (hparts.push hn)

/-! ## Elements -/

/-- Taking one character of a token leads behind its start. -/
theorem Sound.splitToken : Sound src k b splitToken true fun _ => True :=
  .startHere fun _ hs => .stopAt hs (hs.token.advance 1) (Input.le_offset_advance _ 1) .resume

/-- Looking at the first character takes nothing. -/
theorem Sound.startsWith (c : Char) : Sound src k b (startsWith c) b fun _ => True := .look

/-- Taking the first character of the current token without reading on. -/
theorem Sound.stopBehind {g : Unit → Parser α} {A : α → Prop} (h : Sound src k true (g ()) true A) :
    Sound src k b (Parser.start >>= fun inp => Parser.stopAt (inp.advance 1) >>= g) true A := by
  intro s hs
  exact From.stopAt hs (hs.token.advance 1) (Input.le_offset_advance _ 1) h

/-- The name of a tag is read by characters, since it may hold hyphens. -/
theorem Sound.elementName : Sound src k b elementName true fun _ => True := by
  have hpiece : ∀ b, Sound src k b (do
      let inp ← Parser.start
      let n := (inp.rest.takeWhile fun c => continuesName c || c = '-').length
      Parser.require (0 < n)
      Parser.stopAt (inp.advance n)
      Parser.resume) true fun _ => True := by
    intro b
    refine .startHere fun s hs => From.require ?_
    exact .stopAt hs (hs.token.advance _) (Input.le_offset_advance _ _) .resume
  unfold Parser.elementName
  refine .bind (hpiece b) fun _ _ => .iterate (A := fun _ => True) (fun _ _ => ?_) trivial
  refine .bind (.eat _) fun _ _ => .bind (.eat _) fun _ _ => .ite (fun _ => ?_) fun _ => ?_
  · exact .bind (hpiece true) fun _ _ => .pure fun _ _ => trivial
  · exact .pure fun _ _ => trivial

/-- An expression in braces ends with its closing brace; the token behind it is not read. -/
theorem takes_container (hgo : ∀ goal, Takes src (go goal)) : Takes src (container go) := by
  intro k b
  unfold container
  refine .start fun first hfirst _ => .bind (.expect _) fun _ _ => .bind (.atPunct _) fun _ _ => ?_
  have hfinish : ∀ inner, AllPlaced src inner → Sound src first.offset true (do
      require (← atPunct .closeBrace)
      stopAt (← get).after
      finish .jsxExpression first inner) true (Placed src) := by
    intro inner hinner
    refine .bind (.atPunct _) fun _ _ => .bind (.require _) fun _ _ => .get fun s hs => ?_
    exact .stopAt hs hs.after hs.token_le_after (.finish hfirst (Nat.le_refl _) hinner)
  refine .bind (.atPunct _) fun _ _ => .ite (fun _ => .bind (.pure AllPlaced.nil) hfinish) fun _ => ?_
  refine .ite_bind (fun _ => ?_) (fun _ => ?_) hfinish
  · exact .bind (takes_spread hgo _ _) fun _ hn => .pure (.one hn)
  · exact .bind (hgo _ _ _) fun _ hn => .pure (.one hn)

/-- The string of an attribute has no escapes and ends with the next quote of its kind. -/
theorem takes_attributeString : Takes src attributeString := by
  intro k b
  unfold attributeString
  refine .startHere fun s hs => ?_
  dsimp only
  split
  · refine From.require (.stopAt hs (hs.token.advance _) (Input.le_offset_advance _ _) ?_)
    exact .bind .resume fun _ _ => .finish hs.token (Nat.le_refl _) .nil
  · exact fun _ _ hrun => nomatch hrun

/-- The value of an attribute is a string, an expression in braces or an element. -/
theorem takes_attributeValue (hgo : ∀ goal, Takes src (go goal)) : Takes src (attributeValue go) := by
  intro k b
  unfold attributeValue
  refine .bind (.startsWith _) fun _ _ => .bind (.startsWith _) fun _ _ => ?_
  refine .ite (fun _ => takes_attributeString k b) fun _ => .bind (.atPunct _) fun _ _ => ?_
  refine .ite (fun _ => ?_) fun _ => ?_
  · exact .bind (takes_container hgo _ _) fun node hnode => .bind .resume fun _ _ => .pure hnode
  · exact .bind (hgo _ _ _) fun node hnode => .bind .resume fun _ _ => .pure hnode

/-- Only the values of attributes have nodes. -/
theorem Sound.attributes (hgo : ∀ goal, Takes src (go goal)) :
    Sound src k true (attributes go) true (AllPlaced src) := by
  unfold Parser.attributes
  refine .bind (.collect (fun found hfound => ?_) .nil) fun found hfound => .pure hfound.reverse
  refine .bind (.atPunct _) fun _ _ => .ite (fun _ => ?_) fun _ => ?_
  · refine .bind (takes_container hgo _ _) fun node hnode => ?_
    exact .bind .resume fun _ _ => .pure (hfound.push hnode)
  refine .bind .token fun t _ => ?_
  split
  · refine .bind .elementName fun _ _ => .bind (.eat _) fun _ _ => .ite (fun _ => ?_) fun _ => ?_
    · exact .bind (takes_attributeValue hgo _ _) fun _ hn => .pure (hfound.push hn)
    · refine .pure ?_
      rintro y ⟨rfl⟩
      exact hfound
  · exact .pure AllPlaced.stop

/-- A closing tag, of which the first character is the current token. -/
theorem Sound.closingTag {found : List Node} (hfound : AllPlaced src found) :
    Sound src k true (do
      Parser.splitToken
      Parser.require (← Parser.startsWith '/')
      Parser.splitToken
      if !(← Parser.startsWith '>') then Parser.elementName
      Parser.require (← Parser.startsWith '>')
      Parser.stopAt ((← Parser.start).advance 1)
      return some (true, found)) true
      fun next : Option (Bool × List Node) => ∀ y, next = some y → AllPlaced src y.2 := by
  refine .bind .splitToken fun _ _ => .bind (.startsWith _) fun _ _ => .bind (.require _) fun _ _ => ?_
  refine .bind .splitToken fun _ _ => .bind (.startsWith _) fun _ _ => ?_
  refine .when (fun _ => .elementName) ?_
  refine .bind (.startsWith _) fun _ _ => .bind (.require _) fun _ _ => .stopBehind (.pure ?_)
  rintro y ⟨rfl⟩
  exact hfound

/-- The content of an element, up to the tag that closes it. -/
theorem Sound.elementChildren (hgo : ∀ goal, Takes src (go goal)) :
    Sound src k true (elementChildren go) true (AllPlaced src) := by
  unfold Parser.elementChildren
  refine .bind (.iterate (A := fun state : Bool × List Node => AllPlaced src state.2)
    (fun state hstate => ?_) .nil) fun state hstate => .bind (.require _) fun _ _ => .pure hstate.reverse
  have hpush : ∀ n, Placed src n →
      ∀ y : Bool × List Node, some (false, n :: state.2) = some y → AllPlaced src y.2 := by
    rintro n hn y ⟨rfl⟩
    exact AllPlaced.cons hn hstate
  refine .ite (fun _ => .pure fun y h => nomatch h) fun _ => .get fun s hs => ?_
  refine .stopAt hs (hs.after.advance _) ?_ (.bind .resume fun _ _ => ?_)
  · exact Nat.le_trans hs.token_le_after (Input.le_offset_advance _ _)
  split
  · -- A tag closes the element or opens another one.
    refine .ite (fun _ => .closingTag hstate) fun _ => ?_
    exact .bind (hgo _ _ _) fun n hn => .pure (hpush n hn)
  · exact .bind (takes_container hgo _ _) fun n hn => .pure (hpush n hn)
  · exact .refuse

/-- An element from its opening tag to its closing one. -/
theorem takes_element (hgo : ∀ goal, Takes src (go goal)) : Takes src (element go) := by
  intro k b
  unfold element
  refine .start fun first hfirst _ => .bind (.startsWith _) fun _ _ => .bind (.require _) fun _ _ => ?_
  refine .bind .splitToken fun _ _ => .bind (.startsWith _) fun _ _ => ?_
  refine .when (fun _ => .elementName) ?_
  refine .bind (.attributes hgo) fun values hvalues => .bind (.startsWith _) fun _ _ => ?_
  refine .ite (fun _ => ?_) fun _ => ?_
  · -- An element without content.
    refine .bind .splitToken fun _ _ => .bind (.startsWith _) fun _ _ => .bind (.require _) fun _ _ => ?_
    exact .stopBehind (.finish hfirst (Nat.le_refl _) hvalues)
  · -- The content goes on to the closing tag.
    refine .bind (.startsWith _) fun _ _ => .bind (.require _) fun _ _ => .stopBehind ?_
    refine .bind (.elementChildren hgo) fun inner hinner => ?_
    exact .finish hfirst (Nat.le_refl _) (hvalues.append hinner)

end LodashStyle.JavaScript.Parser
