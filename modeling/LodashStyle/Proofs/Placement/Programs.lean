import LodashStyle.JavaScript.Grammar.Program
import LodashStyle.Proofs.Placement.Expressions

/-!
# Programs are placed

The productions of statements and modules go the way of those of expressions, and the bound on the
nesting of phrases closes the circle.

## Key results

- `takes_phrase`: every phrase is placed, however deep phrases nest
- `placed_parse`: the tree of a source is placed in the source
-/

namespace LodashStyle.JavaScript

namespace Parser

variable {src : List Char} {go : Goal → Parser Node} {first : Input} {k : Nat} {b : Bool}

/-! ## Statements -/

/-- A phrase as a list of its own. -/
theorem Sound.single {p : Parser Node} {b' : Bool} (hp : Sound src k b p true (Placed src)) :
    Sound src k b (do return [← p]) b' (AllPlaced src) :=
  Sound.forget (.bind hp fun _ hn => .pure (AllPlaced.one hn))

/-- Statements are collected up to what ends their list, which is left where it is. -/
theorem Sound.statements (hgo : ∀ goal, Takes src (go goal)) :
    Sound src k b (statements go) b (AllPlaced src) := by
  unfold Parser.statements
  refine .bind (.collect (fun found hfound => ?_) .nil) fun found hfound => .pure hfound.reverse
  -- The end of the input, a closing brace and the two words of a case end the list.
  refine .bind .token fun t _ => ?_
  split
  · exact .pure AllPlaced.stop
  · exact .pure AllPlaced.stop
  · exact .pure AllPlaced.stop
  · exact .pure AllPlaced.stop
  · exact Sound.forget (.bind (hgo _ _ _) fun _ hn => .pure (hfound.push hn))

/-- A block spans its statements and both braces. -/
theorem takes_block (hgo : ∀ goal, Takes src (go goal)) : Takes src (block go) := by
  intro k b
  unfold block
  refine .start fun first hfirst _ => .bind (.expect _) fun _ _ => ?_
  refine .bind (.statements hgo) fun body hbody => .bind (.expect _) fun _ _ => ?_
  exact .finish hfirst (Nat.le_refl _) hbody

/-- A declarator starts with its target, and its value is one of its parts. -/
theorem takes_declarator (hgo : ∀ goal, Takes src (go goal)) (allowIn : Bool) :
    Takes src (declarator go allowIn) := by
  intro k b
  unfold declarator
  refine .start fun first hfirst _ => .bind (hgo _ _ _) fun target htarget => ?_
  refine .bind (.eat _) fun _ _ => .ite_bind (A := AllPlaced src) (fun _ => ?_) (fun _ => .pure .nil)
    fun value hvalue => .finish hfirst (Nat.le_refl _) (.cons (htarget.withRole _) hvalue)
  exact .bind (hgo _ _ _) fun value hvalue => .pure (.one (hvalue.withRole _))

/-- A list of declarators is never empty, so something is taken. -/
theorem Sound.declarators (hgo : ∀ goal, Takes src (go goal)) (allowIn : Bool) :
    Sound src k b (declarators go allowIn) true (AllPlaced src) := by
  unfold Parser.declarators
  refine .bind (takes_declarator hgo allowIn _ _) fun one hone => ?_
  refine .bind (.collect (fun found hfound => ?_) (.one hone)) fun all hall => .pure hall.reverse
  refine .bind (.eat _) fun _ _ => .ite (fun _ => ?_) fun _ => .pure AllPlaced.stop
  exact .bind (takes_declarator hgo allowIn _ _) fun _ hn => .pure (hfound.push hn)

/-- The test for a declaration looks at two tokens and takes none. -/
theorem Sound.atDeclaration : Sound src k b atDeclaration b fun _ => True := by
  unfold Parser.atDeclaration
  refine .bind .token fun t _ => ?_
  split
  · exact .pure trivial
  · exact .pure trivial
  · refine .bind .following fun t _ => ?_
    split <;> exact .pure trivial
  · exact .pure trivial

/-- A declaration ends before the semicolon that follows it, which is taken and left outside. -/
theorem takes_declaration (hgo : ∀ goal, Takes src (go goal)) : Takes src (declaration go) := by
  intro k b
  unfold declaration
  refine .start fun first hfirst _ => .bind .advance fun _ _ => ?_
  refine .bind (.declarators hgo true) fun found hfound => ?_
  refine .bind (.finish hfirst (Nat.le_refl _) hfound) fun node hnode => ?_
  exact .bind .endStatement fun _ _ => .pure hnode

/-- The expression that a statement depends on is one in parentheses. -/
theorem takes_head (hgo : ∀ goal, Takes src (go goal)) : Takes src (head go) := takes_parenthesized hgo

/-- The parts of an `if` are its test and one statement or two. -/
theorem takes_ifStatement (hgo : ∀ goal, Takes src (go goal)) : Takes src (ifStatement go) := by
  intro k b
  unfold ifStatement
  refine .start fun first hfirst _ => .bind .advance fun _ _ => ?_
  refine .bind (takes_head hgo _ _) fun test htest => .bind (hgo _ _ _) fun yes hyes => ?_
  refine .bind (.eatWord _) fun _ _ => .ite (fun _ => ?_) fun _ => ?_
  · refine .bind (hgo _ _ _) fun no hno => ?_
    exact .finish hfirst (Nat.le_refl _) (.cons htest (.two hyes hno))
  · exact .finish hfirst (Nat.le_refl _) (.two htest hyes)

/-- A loop with its test in front. -/
theorem takes_whileStatement (hgo : ∀ goal, Takes src (go goal)) : Takes src (whileStatement go) := by
  intro k b
  unfold whileStatement
  refine .start fun first hfirst _ => .bind .advance fun _ _ => ?_
  refine .bind (takes_head hgo _ _) fun test htest => .bind (hgo _ _ _) fun body hbody => ?_
  exact .finish hfirst (Nat.le_refl _) (.two htest hbody)

/-- A loop with its test behind.  The semicolon after it belongs to it. -/
theorem takes_doStatement (hgo : ∀ goal, Takes src (go goal)) : Takes src (doStatement go) := by
  intro k b
  unfold doStatement
  refine .start fun first hfirst _ => .bind .advance fun _ _ => .bind (hgo _ _ _) fun body hbody => ?_
  refine .bind (.expectWord _) fun _ _ => .bind (takes_head hgo _ _) fun test htest => ?_
  exact .bind (.eat _) fun _ _ => .finish hfirst (Nat.le_refl _) (.two hbody htest)

/-- An optional part may take nothing but the punctuation after it. -/
theorem Sound.optionalBefore (hgo : ∀ goal, Takes src (go goal)) (closing : Punct) :
    Sound src k b (optionalBefore go closing) b (AllPlaced src) := by
  unfold Parser.optionalBefore
  refine .bind (.eat _) fun _ _ => .ite (fun _ => .pure .nil) fun _ => Sound.forget ?_
  refine .bind (hgo _ _ _) fun inner hinner => ?_
  exact .bind (.expect _) fun _ _ => .pure (.one hinner)

/-- The collection that a loop goes through. -/
theorem takes_ofOrIn (hgo : ∀ goal, Takes src (go goal)) : Takes src (ofOrIn go) := by
  intro k b
  unfold ofOrIn
  refine .bind (.eatWord _) fun _ _ => .ite (fun _ => ?_) fun _ => ?_
  · exact .bind (hgo _ _ _) fun right hright => .bind (.expect _) fun _ _ => .pure hright
  · refine .bind (.expectWord _) fun _ _ => .bind (hgo _ _ _) fun right hright => ?_
    exact .bind (.expect _) fun _ _ => .pure hright

/-- The test for a loop over a collection takes nothing. -/
theorem Sound.atOfOrIn : Sound src k b atOfOrIn b fun _ => True := by
  unfold Parser.atOfOrIn
  exact .bind (.atWord _) fun _ _ => .bind (.atWord _) fun _ _ => .pure trivial

/-- The test and the step of a counting loop, each of which may be missing. -/
theorem Sound.forTail (hgo : ∀ goal, Takes src (go goal)) :
    Sound src k b (forTail go) b (AllPlaced src) := by
  unfold Parser.forTail
  refine .bind (.optionalBefore hgo _) fun test htest => ?_
  exact .bind (.optionalBefore hgo _) fun step hstep => .pure (htest.append hstep)

/-- The head of a loop has three forms; a declaration in it is first tried with one target and read
    anew if that fails. -/
theorem Sound.forHead (hgo : ∀ goal, Takes src (go goal)) :
    Sound src k true (forHead go) true (AllPlaced src) := by
  unfold Parser.forHead
  refine .bind (.eat _) fun _ _ => .ite (fun _ => .forTail hgo) fun _ => ?_
  refine .bind .atDeclaration fun _ _ => .ite (fun _ => ?_) fun _ => ?_
  · -- A declaration, of one target or of several with values.
    refine .start fun first hfirst _ => .orElse ?_ ?_
    · refine .bind .advance fun _ _ => .bind (hgo _ _ _) fun target htarget => ?_
      refine .bind .atOfOrIn fun _ _ => .bind (.require _) fun _ _ => ?_
      exact .bind (takes_ofOrIn hgo _ _) fun right hright => .pure (.two (htarget.withRole _) hright)
    · refine .bind .advance fun _ _ => .bind (.declarators hgo false) fun found hfound => ?_
      refine .bind (.finish hfirst (Nat.le_refl _) hfound) fun node hnode => ?_
      refine .bind (.expect _) fun _ _ => .bind (.forTail hgo) fun tail htail => ?_
      exact .pure (.cons hnode htail)
  · -- An expression, which is a pattern if `of` or `in` follows.
    refine .bind (hgo _ _ _) fun init hinit => .bind .atOfOrIn fun _ _ => .ite (fun _ => ?_) fun _ => ?_
    · refine .bind (takes_ofOrIn hgo _ _) fun right hright => ?_
      exact .pure (.two (hinit.asPattern.withRole _) hright)
    · refine .bind (.expect _) fun _ _ => .bind (.forTail hgo) fun tail htail => ?_
      exact .pure (.cons hinit htail)

/-- The parts of a `for` are those of its head and its body. -/
theorem takes_forStatement (hgo : ∀ goal, Takes src (go goal)) : Takes src (forStatement go) := by
  intro k b
  unfold forStatement
  refine .start fun first hfirst _ => .bind .advance fun _ _ => .bind (.eatWord _) fun _ _ => ?_
  refine .bind (.expect _) fun _ _ => .bind (.forHead hgo) fun parts hparts => ?_
  refine .bind (hgo _ _ _) fun body hbody => ?_
  exact .finish hfirst (Nat.le_refl _) (hparts.append (.one hbody))

/-- A jump ends before its semicolon, with its value if it has one. -/
theorem takes_jumpStatement (hgo : ∀ goal, Takes src (go goal)) : Takes src (jumpStatement go) := by
  intro k b
  unfold jumpStatement
  refine .start fun first hfirst _ => .bind .advance fun _ _ => .bind .token fun t _ => ?_
  -- A value must start on the line of the word.
  refine .ite_bind (A := AllPlaced src) (fun _ => .pure .nil) (fun _ => .single (hgo _ _ _))
    fun value hvalue => ?_
  refine .bind (.finish hfirst (Nat.le_refl _) hvalue) fun node hnode => ?_
  exact .bind .endStatement fun _ _ => .pure hnode

/-- The label of a jump is taken without a node of its own. -/
theorem takes_labelJump : Takes src labelJump := by
  intro k b
  unfold labelJump
  refine .start fun first hfirst _ => .bind .advance fun _ _ => .bind .atName fun _ _ => ?_
  refine .bind .token fun t _ => .when (fun _ => .advance) ?_
  refine .bind (.finish hfirst (Nat.le_refl _) .nil) fun node hnode => ?_
  exact .bind .endStatement fun _ _ => .pure hnode

/-- A case and its statements; the default one has no test. -/
theorem takes_switchCase (hgo : ∀ goal, Takes src (go goal)) : Takes src (switchCase go) := by
  intro k b
  unfold switchCase
  refine .start fun first hfirst _ => .bind (.eatWord _) fun _ _ => ?_
  refine .ite_bind (A := AllPlaced src) (fun _ => .pure .nil) (fun _ => Sound.forget ?_)
    fun test htest => .bind (.expect _) fun _ _ => .bind (.statements hgo) fun body hbody =>
      .finish hfirst (Nat.le_refl _) (htest.append hbody)
  exact .bind (.expectWord _) fun _ _ => .single (hgo _ _ _)

/-- A `switch` spans its value and all its cases. -/
theorem takes_switchStatement (hgo : ∀ goal, Takes src (go goal)) : Takes src (switchStatement go) := by
  intro k b
  unfold switchStatement
  refine .start fun first hfirst _ => .bind .advance fun _ _ => ?_
  refine .bind (takes_head hgo _ _) fun value hvalue => .bind (.expect _) fun _ _ => ?_
  refine .bind (.collect (fun found hfound => ?_) .nil) fun cases hcases =>
    .bind (.expect _) fun _ _ => .finish hfirst (Nat.le_refl _) (.cons hvalue hcases.reverse)
  refine .bind (.atPunct _) fun _ _ => .ite (fun _ => .pure AllPlaced.stop) fun _ => ?_
  exact .bind (takes_switchCase hgo _ _) fun _ hn => .pure (hfound.push hn)

/-- A `try` with its handler and its finalizer, as far as it has them. -/
theorem takes_tryStatement (hgo : ∀ goal, Takes src (go goal)) : Takes src (tryStatement go) := by
  intro k b
  unfold tryStatement
  refine .start fun first hfirst _ => .bind .advance fun _ _ => ?_
  refine .bind (takes_block hgo _ _) fun body hbody => .bind (.eatWord _) fun _ _ => ?_
  refine .ite_bind (A := AllPlaced src) (fun _ => ?_) (fun _ => .pure .nil) fun handler hhandler => ?_
  · -- The handler, with or without a parameter.
    refine .bind (.eat _) fun _ _ => .ite_bind (A := AllPlaced src) (fun _ => ?_) (fun _ => .pure .nil)
      fun parameter hparameter => ?_
    · refine .bind (hgo _ _ _) fun target htarget => ?_
      exact .bind (.expect _) fun _ _ => .pure (.one htarget)
    · exact .bind (takes_block hgo _ _) fun _ hn => .pure (hparameter.append (.one hn))
  · -- The finalizer.
    refine .bind (.eatWord _) fun _ _ => .ite_bind (A := AllPlaced src)
      (fun _ => .single (takes_block hgo _ _)) (fun _ => .pure .nil) fun finalizer hfinalizer => ?_
    exact .finish hfirst (Nat.le_refl _) ((AllPlaced.cons hbody hhandler).append hfinalizer)

/-- A label is taken without a node of its own. -/
theorem takes_labelled (hgo : ∀ goal, Takes src (go goal)) : Takes src (labelled go) := by
  intro k b
  unfold labelled
  refine .start fun first hfirst _ => .bind .atName fun _ _ => .bind (.require _) fun _ _ => ?_
  refine .bind .advance fun _ _ => .bind (.expect _) fun _ _ => .bind (hgo _ _ _) fun body hbody => ?_
  exact .finish hfirst (Nat.le_refl _) (.one hbody)

/-- An expression is a statement that ends before its semicolon. -/
theorem takes_expressionStatement (hgo : ∀ goal, Takes src (go goal)) :
    Takes src (expressionStatement go) := by
  intro k b
  unfold expressionStatement
  refine .start fun first hfirst _ => .bind (hgo _ _ _) fun inner hinner => ?_
  refine .bind (.finish hfirst (Nat.le_refl _) (.one hinner)) fun node hnode => ?_
  exact .bind .endStatement fun _ _ => .pure hnode

/-! ## Imports and exports -/

/-- The name of an export is one token, a word or a string. -/
theorem takes_exportedName : Takes src exportedName := by
  intro k b
  unfold exportedName
  refine .bind .token fun t _ => ?_
  split
  · exact .leaf _
  · exact .leaf _
  · exact .refuse

/-- A specifier has one name or two. -/
theorem takes_specifier (kind : Kind) : Takes src (specifier kind) := by
  intro k b
  unfold specifier
  refine .start fun first hfirst _ => .bind (takes_exportedName _ _) fun name hname => ?_
  refine .bind (.eatWord _) fun _ _ => .ite_bind (A := AllPlaced src) (fun _ => ?_) (fun _ => .pure .nil)
    fun renamed hrenamed => .finish hfirst (Nat.le_refl _) (.cons (hname.withRole _) hrenamed)
  exact .bind (takes_exportedName _ _) fun _ hn => .pure (.one (hn.withRole _))

/-- The names that an import lists in braces. -/
theorem takes_namedImports : Takes src namedImports := by
  intro k b
  unfold namedImports
  refine .start fun first hfirst _ => .bind (.expect _) fun _ _ => ?_
  refine .bind (.listUntil _ (takes_specifier _ _)) fun items hitems => ?_
  exact .finish hfirst (Nat.le_refl _) hitems

/-- The name that a whole module is imported under. -/
theorem takes_namespaceImport : Takes src namespaceImport := by
  intro k b
  unfold namespaceImport
  refine .start fun first hfirst _ => .bind (.expect _) fun _ _ => .bind (.expectWord _) fun _ _ => ?_
  exact .bind .identifier fun name hname => .finish hfirst (Nat.le_refl _) (.one hname)

/-- What an import binds, in one of its four forms. -/
theorem takes_importClause : Takes src importClause := by
  intro k b
  unfold importClause
  refine .start fun first hfirst _ => .bind (.atPunct _) fun _ _ => .ite (fun _ => ?_) fun _ => ?_
  · exact .bind (takes_namedImports _ _) fun _ hn => .finish hfirst (Nat.le_refl _) (.one hn)
  refine .bind (.atPunct _) fun _ _ => .ite (fun _ => ?_) fun _ => ?_
  · exact .bind (takes_namespaceImport _ _) fun _ hn => .finish hfirst (Nat.le_refl _) (.one hn)
  refine .bind .identifier fun name hname => .bind (.eat _) fun _ _ => .ite (fun _ => ?_) fun _ => ?_
  · -- A default import and others behind it.
    refine .bind (.atPunct _) fun _ _ => .ite_bind (fun _ => takes_namespaceImport _ _)
      (fun _ => takes_namedImports _ _) fun others hothers => ?_
    exact .finish hfirst (Nat.le_refl _) (.two hname hothers)
  · exact .finish hfirst (Nat.le_refl _) (.one hname)

/-- The test for a word that is no keyword looks at the characters of the token. -/
theorem Sound.atPlainWord (word : List Char) : Sound src k b (atPlainWord word) b fun _ => True := by
  unfold Parser.atPlainWord
  refine .bind .token fun t _ => ?_
  split
  · exact .bind .look fun _ _ => .bind .look fun _ _ => .pure trivial
  · exact .pure trivial

/-- The attributes of a module are an object literal, or nothing. -/
theorem Sound.moduleAttributes (hgo : ∀ goal, Takes src (go goal)) :
    Sound src k b (moduleAttributes go) b (AllPlaced src) := by
  unfold Parser.moduleAttributes
  refine .bind (.atPlainWord _) fun _ _ => .bind (.atWord _) fun _ _ => .bind .token fun _ _ => ?_
  refine .ite (fun _ => Sound.forget ?_) fun _ => .pure .nil
  exact .bind .advance fun _ _ => .single (takes_objectLiteral hgo _ _)

/-- The name of a module is one token. -/
theorem takes_moduleName : Takes src moduleName := by
  intro k b
  unfold moduleName
  refine .bind .token fun t _ => .bind (.require _) fun _ _ => ?_
  exact .bind (.leaf _) fun n hn => .pure (hn.withRole _)

/-- An import with what it binds, its module and the attributes of the module. -/
theorem takes_importStatement (hgo : ∀ goal, Takes src (go goal)) : Takes src (importStatement go) := by
  intro k b
  unfold importStatement
  refine .start fun first hfirst _ => .bind (.expectWord _) fun _ _ => .bind .token fun t _ => ?_
  -- A module may be imported for its effects only, and then nothing is bound.
  refine .ite_bind (A := AllPlaced src) (fun _ => .pure .nil) (fun _ => ?_) fun clause hclause => ?_
  · refine .bind (takes_importClause _ _) fun clause hclause => ?_
    exact .bind (.expectWord _) fun _ _ => .pure (.one hclause)
  refine .bind (takes_moduleName _ _) fun source hsource => ?_
  refine .bind (.moduleAttributes hgo) fun attributes hattributes => ?_
  refine .bind (.finish hfirst (Nat.le_refl _) (hclause.append (.cons hsource hattributes)))
    fun node hnode => ?_
  exact .bind .endStatement fun _ _ => .pure hnode

/-- A definition starts where its decorators do. -/
theorem takes_definition (hgo : ∀ goal, Takes src (go goal)) (hfirst : first.Of src)
    {marks : List Node} (hmarks : AllPlaced src marks) :
    TakesFrom src first (definition go first marks) := by
  intro k b hk
  unfold definition
  refine .bind (.atWord _) fun _ _ => .ite (fun _ => ?_) fun _ => ?_
  · exact takes_classFrom hgo hfirst hmarks k b hk
  · exact takes_functionFrom hgo hfirst k b hk

/-- The names of an export, and the module behind them if one is named. -/
theorem Sound.exportNames (hgo : ∀ goal, Takes src (go goal)) :
    Sound src k b (exportNames go) true (AllPlaced src) := by
  unfold Parser.exportNames
  refine .bind (.expect _) fun _ _ => .bind (.listUntil _ (takes_specifier _ _)) fun items hitems => ?_
  refine .bind (.eatWord _) fun _ _ => .ite (fun _ => ?_) fun _ => .pure hitems
  refine .bind (takes_moduleName _ _) fun source hsource => ?_
  refine .bind (.moduleAttributes hgo) fun attributes hattributes => ?_
  exact .pure (hitems.append (.cons hsource hattributes))

/-- An export of all names always has a module. -/
theorem Sound.exportAll (hgo : ∀ goal, Takes src (go goal)) :
    Sound src k b (exportAll go) true (AllPlaced src) := by
  unfold Parser.exportAll
  refine .bind (.expect _) fun _ _ => .bind (.eatWord _) fun _ _ => ?_
  refine .ite_bind (A := AllPlaced src) (fun _ => .single (takes_exportedName _ _)) (fun _ => .pure .nil)
    fun name hname => ?_
  refine .bind (.expectWord _) fun _ _ => .bind (takes_moduleName _ _) fun source hsource => ?_
  refine .bind (.moduleAttributes hgo) fun attributes hattributes => ?_
  exact .pure (hname.append (.cons hsource hattributes))

/-- A default export is tried as a definition first, and as an expression if that fails. -/
theorem takes_exportDefault (hgo : ∀ goal, Takes src (go goal)) : Takes src (exportDefault go) := by
  intro k b
  unfold exportDefault
  refine .orElse ?_ ?_
  · -- A function or a class without a name is left to the expressions.
    refine .start fun first hfirst _ => .bind (.decorators hgo) fun marks hmarks => ?_
    refine .bind (takes_definition hgo hfirst hmarks _ _ (Nat.le_refl _)) fun defined hdefined => ?_
    exact .bind (.require _) fun _ _ => .pure hdefined
  · exact .bind (hgo _ _ _) fun value hvalue => .bind .endStatement fun _ _ => .pure hvalue

/-- An export starts where the decorators of its class do. -/
theorem takes_exportStatement (hgo : ∀ goal, Takes src (go goal)) (hfirst : first.Of src)
    {marks : List Node} (hmarks : AllPlaced src marks) :
    TakesFrom src first (exportStatement go first marks) := by
  intro k b hk
  unfold exportStatement
  refine .bind (.expectWord _) fun _ _ => .bind (.eatWord _) fun _ _ => .ite (fun _ => ?_) fun _ => ?_
  · -- A default export.
    refine .bind (takes_exportDefault hgo _ _) fun n hn => ?_
    exact .finish hfirst hk (hmarks.append (.one hn))
  refine .bind (.atPunct _) fun _ _ => .ite (fun _ => ?_) fun _ => ?_
  · -- A list of names.
    refine .bind (.exportNames hgo) fun names hnames => ?_
    refine .bind (.finish hfirst hk hnames) fun node hnode => ?_
    exact .bind .endStatement fun _ _ => .pure hnode
  refine .bind (.atPunct _) fun _ _ => .ite (fun _ => ?_) fun _ => ?_
  · -- All names of a module.
    refine .bind (.exportAll hgo) fun names hnames => ?_
    refine .bind (.finish hfirst hk hnames) fun node hnode => ?_
    exact .bind .endStatement fun _ _ => .pure hnode
  · exact .bind (hgo _ _ _) fun n hn => .finish hfirst hk (hmarks.append (.one hn))

/-! ## Programs -/

/-- The first word of a statement decides which production it is read by. -/
theorem takes_wordStatement (hgo : ∀ goal, Takes src (go goal)) (word : Keyword) :
    Takes src (wordStatement go word) := by
  have hplain : Takes src (labelled go <|> expressionStatement go) :=
    fun k b => .orElse (takes_labelled hgo k b) (takes_expressionStatement hgo k b)
  have hfunction : ∀ k b, Sound src k b (do functionFrom go (← start)) true (Placed src) :=
    fun k b => .start fun first hfirst _ => takes_functionFrom hgo hfirst _ _ (Nat.le_refl _)
  intro k b
  unfold wordStatement
  split
  · exact takes_ifStatement hgo k b
  · exact takes_forStatement hgo k b
  · exact takes_whileStatement hgo k b
  · exact takes_whileStatement hgo k b
  · exact takes_doStatement hgo k b
  · exact takes_jumpStatement hgo k b
  · exact takes_jumpStatement hgo k b
  · exact takes_labelJump k b
  · exact takes_labelJump k b
  · exact takes_switchStatement hgo k b
  · exact takes_tryStatement hgo k b
  · exact takes_jumpStatement hgo k b
  · exact .start fun first hfirst _ => takes_classFrom hgo hfirst .nil _ _ (Nat.le_refl _)
  · exact hfunction k b
  · -- The word `async` is a name unless a function follows.
    refine .bind .following fun next _ => .ite (fun _ => ?_) fun _ => ?_
    · exact hfunction k b
    · exact hplain k b
  · -- The word `import` starts an expression if a call or a property follows.
    refine .bind .following fun next _ => .ite (fun _ => ?_) fun _ => ?_
    · exact takes_expressionStatement hgo k b
    · exact takes_importStatement hgo k b
  · exact .start fun first hfirst _ => takes_exportStatement hgo hfirst .nil _ _ (Nat.le_refl _)
  · exact hplain k b

/-- A statement is read by its first token. -/
theorem takes_statement (hgo : ∀ goal, Takes src (go goal)) : Takes src (statement go) := by
  intro k b
  unfold statement
  refine .bind .atDeclaration fun _ _ => .ite (fun _ => takes_declaration hgo k b) fun _ => ?_
  refine .bind .token fun t _ => ?_
  split
  · exact takes_block hgo k b
  · exact .leaf _
  · -- Decorators stand before a class, or before the export of one.
    refine .start fun first hfirst _ => .bind (.decorators hgo) fun marks hmarks => ?_
    refine .bind (.atWord _) fun _ _ => .ite (fun _ => ?_) fun _ => ?_
    · exact takes_exportStatement hgo hfirst hmarks _ _ (Nat.le_refl _)
    · exact takes_classFrom hgo hfirst hmarks _ _ (Nat.le_refl _)
  · exact takes_wordStatement hgo _ k b
  · exact .orElse (takes_labelled hgo k b) (takes_expressionStatement hgo k b)
  · exact takes_expressionStatement hgo k b

/-- Every production takes a placed phrase if the recogniser of the parts does. -/
theorem takes_production (hgo : ∀ goal, Takes src (go goal)) (goal : Goal) :
    Takes src (production go goal) := by
  cases goal with
  | statement => exact takes_statement hgo
  | block => exact takes_block hgo
  | expression allowIn => exact takes_expression hgo allowIn
  | assignment allowIn => exact takes_assignment hgo allowIn
  | operation allowIn least => exact takes_operation hgo allowIn least
  | unary => exact takes_unary hgo
  | leftHandSide => exact takes_leftHandSide hgo
  | construction => exact takes_construction hgo
  | pattern => exact takes_pattern hgo
  | element => exact takes_element hgo

/-- Phrases are placed, by induction on the bound for their nesting. -/
theorem takes_phrase (bound : Nat) (goal : Goal) : Takes src (phrase bound goal) := by
  induction bound generalizing goal with
  | zero => exact fun _ _ => .refuse
  | succ bound ih => exact takes_production ih goal

/-- A program is placed though it may be empty, because it ends at the place reached and not at its
    last token. -/
theorem Sound.program (bound : Nat) (hfirst : first.Of src) (hk : first.offset ≤ k) :
    Sound src k b (program bound first) true (Placed src) := by
  unfold Parser.program
  refine .bind (.collect (fun found hfound => ?_) .nil) fun body hbody => ?_
  · refine .bind .token fun t _ => .ite (fun _ => .pure AllPlaced.stop) fun _ => ?_
    exact Sound.forget (.bind (takes_phrase bound _ _ _) fun _ hn => .pure (hfound.push hn))
  · -- The program ends where the end of the input is reached.
    have hfinish : Sound src k true (Parser.finish .program first body.reverse) true (Placed src) :=
      .finish hfirst hk hbody.reverse
    intro s hs
    exact From.stopAt (g := fun _ => _) hs hs.token (Nat.le_refl _) hfinish

end Parser

/-- The state before the first token of an input. -/
theorem holds_initial {src : List Char} {inp : Input} (h : inp.Of src) (limit : Nat) :
    Holds src inp.offset true (.initial limit inp) := by
  obtain ⟨htoken, hle, hafter, hle', hcomments⟩ := nextToken_of h limit
  refine ⟨htoken, hafter, h.place, ?_, hle', hle, fun _ => Nat.le_refl _⟩
  intro c hc
  obtain ⟨⟨first, stop⟩, hmem, rfl⟩ := List.mem_map.1 hc
  obtain ⟨hfirst, hstop, hle⟩ := hcomments _ hmem
  exact .spanning hfirst hstop hle fun c hc => absurd hc List.not_mem_nil

/-- The tree of a source is placed in it. -/
theorem placed_parse (source : List Char) : Placed source (Tree.parse source).root := by
  have hinp : (Input.ofSource source).Of source := (Input.of_source source).advance _
  unfold Tree.parse
  dsimp only
  split
  · rename_i root s hrun
    have hstart := holds_initial hinp (source.length + 1)
    exact (Parser.Sound.program _ hinp (Nat.le_refl _) _ hstart root s hrun).1
  · -- What cannot be parsed has an empty tree.
    refine .spanning (Input.of_source source) ⟨[], List.nil_prefix, rfl⟩ (Nat.le_refl _) ?_
    exact fun c hc => absurd hc List.not_mem_nil

end LodashStyle.JavaScript
