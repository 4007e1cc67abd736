import LodashStyle.Proofs.Escapes
import LodashStyle.Proofs.Findings

/-!
# The strings that linting reads

Linting fails only where it needs the value of a string literal that has none.  This module says
which literals it reads: names of modules and of exports in imports, and the strings of paths.  A
path is not always read to its end: an addition up to the first place where a variable meets a `.`
or `[`, and an array with variables up to the first number without a key.

## Key results

- `ofNode_isOk_iff`: the bindings of a node are known when its strings have values
- `judge_isOk_iff`: a path is judged when its strings have values
- `lint_isOk_iff`: a source is linted exactly when all strings that are read have values
-/

namespace LodashStyle

open JavaScript

/-- A string literal with a value. -/
def HasValue (literal : Node) : Prop := ∃ v, stringValue literal.text = .ok v

namespace Bindings

/-! ## Imports -/

/-- The name of an export that is given as a string. -/
def exportedName? (n : Node) : Option Node :=
  if n.kind == .importSpecifier then (n.child? .name).filter (·.kind == .string) else none

/-- The names of exports in an import clause that are given as strings. -/
def exportedNames (clause : Node) : List Node :=
  (clause.children.filter (·.kind == .namedImports)).flatMap fun names =>
    names.children.filterMap exportedName?

/-- Whether a string literal names the library. -/
def namesLibrary (source : Node) : Bool :=
  (stringValue source.text).toOption.any fun name => moduleOf name == .library

/-- The string literals that are read for an import: the name of the module and, if it is the
    library, names of its exports. -/
def importStrings (n : Node) : List Node :=
  match n.children.find? (·.kind == .importClause), n.child? .source with
  | some clause, some source =>
    if source.kind == .string then source :: if namesLibrary source then exportedNames clause else []
    else []
  | _, _ => []

/-- The string literal that is read for a declarator: the name of the module. -/
def requireStrings (n : Node) : List Node :=
  match n.child? .name, (n.child? .value).bind requiredModule? with
  | some _, some source => [source]
  | _, _ => []

/-- The string literals that are read for the bindings of a node. -/
def strings (n : Node) : List Node :=
  match n.kind with
  | .importStatement => importStrings n
  | .declarator => requireStrings n
  | _ => []

/-- Bindings without a fault. -/
def AllOk (bindings : List (Except EscapeFault Binding)) : Prop := ∀ b ∈ bindings, ∃ x, b = .ok x

/-- All bindings are registered when none is at fault. -/
theorem addAll_snd_eq_none_iff {b : Bindings} {bindings : List (Except EscapeFault Binding)} :
    (b.addAll bindings).2 = none ↔ AllOk bindings := by
  induction bindings generalizing b with
  | nil => simp [addAll, AllOk]
  | cons first rest ih =>
    cases first with
    | error fault => simp [addAll, AllOk]
    | ok binding =>
      rw [addAll, ih]
      simp [AllOk]

theorem allOk_whole (module : Module) (name : Text) : AllOk (whole module name) := by
  cases module <;> simp [whole, AllOk]

/-- Only the name of an export can be at fault. -/
theorem allOk_ofSpecifier_iff (n : Node) :
    AllOk (ofSpecifier n) ↔ ∀ l, exportedName? n = some l → HasValue l := by
  unfold ofSpecifier exportedName?
  split
  · rename_i imported hkind hname
    rw [hkind, hname]
    cases hstring : imported.kind == .string with
    | false =>
      have hne : imported.kind ≠ .string := ne_of_beq_false hstring
      simp [AllOk, hne, Except.map]
    | true =>
      -- The name is the one thing that is read.
      have hlist : AllOk [(stringValue imported.text).map fun e =>
          if e = ("default" : Text) then Binding.library ((n.child? .localName).getD imported).text
          else .method ((n.child? .localName).getD imported).text e] ↔ HasValue imported := by
        simp only [AllOk, List.mem_singleton, forall_eq]
        exact map_isOk_iff
      simpa [Option.filter, hstring] using hlist
  · rename_i hnot
    -- Without a name, or for another kind of node, nothing is read.
    have hnone : (if n.kind == .importSpecifier then (n.child? .name).filter (·.kind == .string)
        else none) = none := by
      split
      · rename_i hkind
        cases hname : n.child? .name with
        | none => rfl
        | some imported => exact absurd hname (hnot imported (eq_of_beq hkind))
      · rfl
    rw [hnone]
    simp [AllOk]

theorem allOk_flatMap_iff {α : Type} {xs : List α} {f : α → List (Except EscapeFault Binding)} :
    AllOk (xs.flatMap f) ↔ ∀ x ∈ xs, AllOk (f x) := by
  simp only [AllOk, List.mem_flatMap]
  constructor
  · intro h x hx b hb
    exact h b ⟨x, hx, hb⟩
  · rintro h b ⟨x, hx, hb⟩
    exact h x hx b hb

/-- A part of an import clause is at fault only in its names of exports of the library. -/
theorem allOk_ofClausePart_iff (module : Module) (n : Node) :
    AllOk (ofClausePart module n) ↔
      (module = .library → n.kind = .namedImports →
        ∀ l ∈ n.children.filterMap exportedName?, HasValue l) := by
  unfold ofClausePart
  split
  · rename_i hkind
    simp [allOk_whole, hkind]
  · rename_i hkind
    simp only [hkind, reduceCtorEq, false_implies, implies_true, iff_true]
    intro b hb
    obtain ⟨name, -, rfl⟩ := List.mem_map.1 hb
    exact ⟨_, rfl⟩
  · rename_i hkind
    simp only [allOk_flatMap_iff, allOk_ofSpecifier_iff, hkind, List.mem_filterMap, true_implies]
    constructor
    · rintro h l ⟨c, hc, hl⟩
      exact h c hc l hl
    · intro h c hc l hl
      exact h l ⟨c, hc, hl⟩
  · rename_i _ hnames
    simp only [AllOk, List.not_mem_nil, false_implies, implies_true, true_iff]
    intro hmodule hkind
    exact (hnames hkind hmodule).elim

theorem allOk_ofTarget (module : Module) (target : Node) : AllOk (ofTarget module target) := by
  unfold ofTarget
  split
  · exact allOk_whole _ _
  · refine allOk_flatMap_iff.2 fun n _ => ?_
    unfold ofProperty
    repeat' split
    all_goals simp [AllOk]
  · simp [AllOk]

/-- The bindings of a module are known when its name has a value and the bindings that the module
    has are known. -/
theorem allOk_fromModule_iff {source : Node} {bind : Module → List (Except EscapeFault Binding)} :
    AllOk (fromModule source bind) ↔
      HasValue source ∧ ∀ name, stringValue source.text = .ok name → AllOk (bind (moduleOf name)) := by
  unfold fromModule HasValue
  cases stringValue source.text with
  | error fault => simp [AllOk]
  | ok name => simp

/-- The exports of an import clause are read when the module is the library. -/
theorem allOk_clause_iff {source clause : Node} {name : Text} (hname : stringValue source.text = .ok name) :
    AllOk (clause.children.flatMap (ofClausePart (moduleOf name))) ↔
      ∀ l ∈ if namesLibrary source then exportedNames clause else [], HasValue l := by
  have hlibrary : namesLibrary source = true ↔ moduleOf name = .library := by
    simp [namesLibrary, hname, Except.toOption]
  simp only [allOk_flatMap_iff, allOk_ofClausePart_iff]
  split
  · rename_i h
    simp only [hlibrary.1 h, exportedNames, List.mem_flatMap, List.mem_filter, beq_iff_eq, true_implies]
    constructor
    · rintro hall l ⟨part, ⟨hpart, hkind⟩, hl⟩
      exact hall part hpart hkind l hl
    · intro hall part hpart hkind l hl
      exact hall l ⟨part, ⟨hpart, hkind⟩, hl⟩
  · rename_i h
    simp only [List.not_mem_nil, false_implies, implies_true, iff_true]
    exact fun part _ hmodule => absurd (hlibrary.2 hmodule) h

theorem allOk_ofImport_iff (n : Node) : AllOk (ofImport n) ↔ ∀ l ∈ importStrings n, HasValue l := by
  unfold ofImport importStrings
  cases n.children.find? (·.kind == .importClause) with
  | none => simp [AllOk]
  | some clause =>
    cases n.child? .source with
    | none => simp [AllOk]
    | some source =>
      dsimp only
      split
      · -- Whether exports are read depends on the value of the module name.
        rw [allOk_fromModule_iff, List.forall_mem_cons]
        constructor
        · rintro ⟨⟨name, hname⟩, hall⟩
          exact ⟨⟨name, hname⟩, (allOk_clause_iff hname).1 (hall name hname)⟩
        · rintro ⟨hvalue, hall⟩
          exact ⟨hvalue, fun name hname => (allOk_clause_iff hname).2 hall⟩
      · simp [AllOk]

theorem allOk_ofDeclarator_iff (n : Node) :
    AllOk (ofDeclarator n) ↔ ∀ l ∈ requireStrings n, HasValue l := by
  unfold ofDeclarator requireStrings
  cases n.child? .name with
  | none => simp [AllOk]
  | some target =>
    cases (n.child? .value).bind requiredModule? with
    | none => simp [AllOk]
    | some source => simp [allOk_fromModule_iff, allOk_ofTarget]

/-- The bindings of a node are known when its strings have values. -/
theorem ofNode_isOk_iff (n : Node) : AllOk (ofNode n) ↔ ∀ l ∈ strings n, HasValue l := by
  by_cases himport : n.kind = .importStatement
  · simp only [ofNode, strings, himport]
    exact allOk_ofImport_iff n
  by_cases hdeclarator : n.kind = .declarator
  · simp only [ofNode, strings, hdeclarator]
    exact allOk_ofDeclarator_iff n
  have hbindings : ofNode n = [] := by
    unfold ofNode
    split <;> trivial
  have hstrings : strings n = [] := by
    unfold strings
    split <;> trivial
  simp [hbindings, hstrings, AllOk]

end Bindings

namespace PathStyle

/-! ## Paths -/

/-- The places of an addition where a string and a variable meet: the string, and what tells
    whether a key comes there. -/
def seams : List Node → List (Node × (Text → Bool))
  | a :: b :: rest =>
    if a.kind == .string && !b.isLiteral then (a, endsWithAccess) :: seams (b :: rest)
    else if !a.isLiteral && b.kind == .string then (b, startsWithAccess) :: seams (b :: rest)
    else seams (b :: rest)
  | _ => []

/-- Whether a key comes where a string and a variable meet. -/
def isGlued (seam : Node × (Text → Bool)) : Bool := (stringValue seam.1.text).toOption.any seam.2

/-- Whether an element of an array has a key, if it is a number. -/
def hasKey (n : Node) : Bool := n.kind != .number || (numericKey? n.text).isSome

/-- The strings of an addition that are read for its shape: those before the first place where a
    key comes.  The one at that place has a value. -/
def seamStrings (n : Node) : List Node :=
  if n.kind = .addition then ((seams n.operands).takeWhile (!isGlued ·)).map (·.1) else []

/-- The strings that are read to write a path in another form.  An array with variables is read up
    to the first number without a key. -/
def keyStrings (style : PathStyle) (n : Node) : List Node :=
  match style with
  | .asNeeded => if isLiteralArray n then n.parts.filter (·.kind == .string) else []
  | .array => if n.kind = .string then [n] else []
  | .string =>
    if n.kind = .array ∧ isConvertible n then
      (if isLiteralArray n then n.parts else n.parts.takeWhile hasKey).filter (·.kind == .string)
    else []

/-- Looks at the places of an addition one by one. -/
def gluedSeams : List (Node × (Text → Bool)) → Except EscapeFault Bool
  | [] => .ok false
  | (l, meets) :: rest => stringValue l.text >>= fun v => if meets v then .ok true else gluedSeams rest

theorem isLiteral_of_string {n : Node} (h : n.kind = .string) : n.isLiteral = true := by
  rw [Node.isLiteral, h]
  rfl

theorem gluedOperands_eq_gluedSeams (ns : List Node) : gluedOperands ns = gluedSeams (seams ns) := by
  induction ns with
  | nil => rfl
  | cons a ns ih =>
    cases ns with
    | nil => rfl
    | cons b rest =>
      unfold gluedOperands seams
      by_cases hafter : (a.kind == .string && !b.isLiteral) = true
      · -- A string is a literal, so that only this side is looked at.
        have hkind : a.kind = .string := eq_of_beq ((Bool.and_eq_true _ _).mp hafter).1
        have hbefore : ¬(!a.isLiteral && b.kind == .string) = true := by
          simp [isLiteral_of_string hkind]
        rw [if_pos hafter, if_pos hafter, gluedSeams, ← ih]
        simp only [hbefore]
        rfl
      · rw [if_neg hafter, if_neg hafter]
        by_cases hbefore : (!a.isLiteral && b.kind == .string) = true
        · rw [if_pos hbefore, if_pos hbefore, gluedSeams, ← ih]
          rfl
        · rw [if_neg hbefore, if_neg hbefore, ← ih]

/-- An addition is read up to the first place where a key comes. -/
theorem gluedSeams_isOk_iff (seams : List (Node × (Text → Bool))) :
    (∃ b, gluedSeams seams = .ok b) ↔ ∀ l ∈ (seams.takeWhile (!isGlued ·)).map (·.1), HasValue l := by
  induction seams with
  | nil => simp [gluedSeams]
  | cons seam rest ih =>
    obtain ⟨l, meets⟩ := seam
    rw [gluedSeams]
    cases hvalue : stringValue l.text with
    -- A string without a value is not glued, so it is among those that are read.
    | error fault => simp [isGlued, hvalue, HasValue, Except.toOption, bind, Except.bind]
    | ok v =>
      cases hmeets : meets v with
      -- The string is glued: nothing behind it is read.
      | true => simp [isGlued, hvalue, hmeets, Except.toOption, bind, Except.bind]
      | false =>
        have hl : HasValue l := ⟨v, hvalue⟩
        have hglued : isGlued (l, meets) = false := by
          simp [isGlued, hvalue, hmeets, Except.toOption]
        rw [List.takeWhile_cons_of_pos (by rw [hglued]; rfl), List.map_cons, List.forall_mem_cons, ← ih]
        simp [hmeets, hl, bind, Except.bind]

/-- Of the literals only strings can be at fault. -/
theorem literalKey_isOk_iff (n : Node) :
    (∃ k, literalKey n = .ok k) ↔ (n.kind = .string → HasValue n) := by
  unfold literalKey
  split
  · rename_i hkind
    simp only [hkind, true_implies]
    exact map_isOk_iff
  · rename_i hkind
    simp [hkind]
  · rename_i hkind _
    simp only [Except.ok.injEq, exists_eq', true_iff]
    exact fun h => (hkind h).elim

theorem literalPath_isOk_iff (n : Node) :
    (∃ t, literalPath n = .ok t) ↔ ∀ l ∈ n.parts.filter (·.kind == .string), HasValue l := by
  have hkeys : (∃ t, literalPath n = .ok t) ↔ ∃ keys, n.parts.mapM literalKey = .ok keys := by
    unfold literalPath
    cases n.parts.mapM literalKey with
    | error fault => simp [bind, Except.bind]
    | ok keys => simp [bind, Except.bind, pure, Except.pure]
  simp only [hkeys, mapM_isOk_iff, literalKey_isOk_iff, List.mem_filter, beq_iff_eq, and_imp]

/-- A literal without a key is a number. -/
theorem hasKey_of_literalKey {n : Node} {key : Option Text} (h : literalKey n = .ok key) :
    hasKey n = key.isSome := by
  unfold literalKey at h
  unfold hasKey
  split at h
  · rename_i hkind
    obtain ⟨v, -, rfl⟩ := map_eq_ok h
    simp [hkind]
  · rename_i hkind
    obtain rfl := Except.ok.inj h
    simp [hkind]
  · rename_i hkind
    obtain rfl := Except.ok.inj h
    have hnumber : n.kind ≠ .number := hkind
    simp [hnumber]

theorem not_string_of_not_isLiteral {n : Node} (h : ¬n.isLiteral = true) : n.kind ≠ .string :=
  fun hkind => h (isLiteral_of_string hkind)

theorem hasKey_of_not_isLiteral {n : Node} (h : ¬n.isLiteral = true) : hasKey n = true := by
  have hkind : n.kind ≠ .number := by
    intro hkind
    apply h
    rw [Node.isLiteral, hkind]
    rfl
  simp [hasKey, hkind]

/-- What holds of the strings up to the first number without a key, element by element. -/
theorem takeWhile_hasKey_cons {P : Node → Prop} {n : Node} {rest : List Node} :
    (∀ l ∈ ((n :: rest).takeWhile hasKey).filter (·.kind == .string), P l) ↔
      (hasKey n = true → (n.kind = .string → P n) ∧
        ∀ l ∈ (rest.takeWhile hasKey).filter (·.kind == .string), P l) := by
  cases hn : hasKey n with
  | false => simp [hn]
  | true => simp [hn]

/-- The template text of a literal with a key. -/
theorem templateSegments_literal {n : Node} {rest : List Node} {key : Text} (hn : n.isLiteral = true)
    (hkey : literalKey n = .ok (some key)) :
    templateSegments (n :: rest) = (templateSegments rest).map
      (Option.map (PropertyPath.escapeTemplate (PropertyPath.segment key) ++ ·)) := by
  rw [templateSegments, if_pos hn, hkey]
  cases templateSegments rest <;> rfl

/-- The template text of an element that is no literal. -/
theorem templateSegments_variable {n : Node} {rest : List Node} (hn : ¬n.isLiteral = true) :
    templateSegments (n :: rest) = (templateSegments rest).map
      (Option.map fun after => ("[$\x7b" : Text) ++ n.text ++ ("\x7d]" : Text) ++ after) := by
  rw [templateSegments, if_neg hn]
  cases templateSegments rest <;> rfl

/-- The elements of an array are read up to the first number without a key. -/
theorem templateSegments_isOk_iff (ns : List Node) :
    (∃ t, templateSegments ns = .ok t) ↔
      ∀ l ∈ (ns.takeWhile hasKey).filter (·.kind == .string), HasValue l := by
  induction ns with
  | nil => simp [templateSegments]
  | cons n rest ih =>
    rw [takeWhile_hasKey_cons, ← ih]
    by_cases hliteral : n.isLiteral = true
    · cases hkey : literalKey n with
      | error fault =>
        -- A string without a value: the rest is not read.
        have hnot : ¬(n.kind = .string → HasValue n) := by
          rw [← literalKey_isOk_iff, hkey]
          simp
        have hkind : n.kind = .string := Classical.byContradiction fun h => hnot fun h' => absurd h' h
        have hhas : hasKey n = true := by simp [hasKey, hkind]
        rw [templateSegments, if_pos hliteral, hkey]
        simp only [hhas, hnot, false_and, true_implies, iff_false]
        rintro ⟨t, ht⟩
        exact nomatch ht
      | ok key =>
        have hhas := hasKey_of_literalKey hkey
        have hn : n.kind = .string → HasValue n := (literalKey_isOk_iff n).1 ⟨key, hkey⟩
        cases key with
        -- A number without a key: the rest is not read.
        | none =>
          rw [templateSegments, if_pos hliteral, hkey]
          simp [hhas, bind, Except.bind, pure, Except.pure]
        | some key =>
          rw [templateSegments_literal hliteral hkey, map_isOk_iff]
          simp only [hhas, Option.isSome_some, true_implies]
          exact ⟨fun h => ⟨hn, h⟩, fun h => h.2⟩
    · have hkind := not_string_of_not_isLiteral hliteral
      rw [templateSegments_variable hliteral, map_isOk_iff]
      simp only [hasKey_of_not_isLiteral hliteral, true_implies, hkind, false_implies, true_and]

/-- The shape of an argument is known when the strings of an addition are. -/
theorem shapeOf_isOk_iff (n : Node) :
    (∃ shape, shapeOf n = .ok shape) ↔ ∀ l ∈ seamStrings n, HasValue l := by
  unfold seamStrings
  by_cases hkind : n.kind = .addition
  · rw [if_pos hkind, ← gluedSeams_isOk_iff, ← gluedOperands_eq_gluedSeams]
    simp only [shapeOf, hkind, isGluedAddition, beq_self_eq_true, if_true]
    cases gluedOperands n.operands with
    | error fault => simp [bind, Except.bind]
    | ok b => simp [bind, Except.bind, pure, Except.pure]
  · rw [if_neg hkind]
    simp only [List.not_mem_nil, false_implies, implies_true, iff_true]
    unfold shapeOf
    split <;> first | contradiction | exact ⟨_, rfl⟩

theorem kind_of_isLiteralArray {n : Node} (h : isLiteralArray n = true) : n.kind = .array := by
  simp only [isLiteralArray, Bool.and_eq_true, beq_iff_eq] at h
  exact h.1.1

/-- What a shape says about an argument. -/
theorem shapeOf_spec {n : Node} {shape : Shape} (h : shapeOf n = .ok shape) :
    (shape = .literalArray ↔ isLiteralArray n = true) ∧
      (shape = .array ↔ n.kind = .array ∧ ¬isLiteralArray n = true) ∧
      (shape = .string ↔ n.kind = .string) := by
  -- Only arrays are literal arrays.
  have hother : ∀ {kind : Kind}, n.kind = kind → kind ≠ .array → isLiteralArray n = false := by
    intro kind hkind hne
    rw [Bool.eq_false_iff]
    exact fun hliteral => hne (hkind.symm.trans (kind_of_isLiteralArray hliteral))
  unfold shapeOf at h
  split at h
  · rename_i hkind
    obtain rfl := Except.ok.inj h
    cases hliteral : isLiteralArray n <;> simp [hkind]
  · rename_i hkind
    obtain rfl := Except.ok.inj h
    simp [hkind, hother hkind]
  · rename_i hkind
    obtain rfl := Except.ok.inj h
    cases isGluedTemplate n <;> simp [hkind, hother hkind]
  · rename_i hkind
    obtain ⟨glued, -, h⟩ := bind_eq_ok h
    obtain rfl := Except.ok.inj h
    cases glued <;> simp [hkind, hother hkind]
  · rename_i hnotArray hnotString _ _
    obtain rfl := Except.ok.inj h
    have hne : n.kind ≠ .array := hnotArray
    have hne' : n.kind ≠ .string := hnotString
    simp [hne, hne', hother rfl hne]

/-- The text that is offered in the place of an argument. -/
def rewritten (style : PathStyle) (n : Node) : Except EscapeFault (Option Text) :=
  match style with
  | .asNeeded => if isLiteralArray n then literalPath n else .ok none
  | .array => if n.kind = .string then (arrayStyle n).map some else .ok none
  | .string => if n.kind = .array ∧ isConvertible n then stringStyle n else .ok none

theorem map_judgeAsNeeded (n : Node) (shape : Shape) :
    (judgeAsNeeded n shape).map (·.replacement) =
      if shape = .literalArray then literalPath n else .ok none := by
  cases shape with
  | literalArray =>
    rw [judgeAsNeeded, if_pos rfl]
    cases literalPath n <;> rfl
  | _ => rfl

theorem map_judgeArray (n : Node) (shape : Shape) :
    (judgeArray n shape).map (·.replacement) =
      if shape = .string then (arrayStyle n).map some else .ok none := by
  cases shape with
  | string =>
    rw [judgeArray, if_pos rfl]
    cases arrayStyle n <;> rfl
  | _ => rfl

theorem map_judgeString (n : Node) (shape : Shape) :
    (judgeString n shape).map (·.replacement) =
      if (shape = .literalArray ∨ shape = .array) ∧ isConvertible n then stringStyle n else .ok none := by
  have harray : (if isConvertible n then do return .violation n .string (← stringStyle n)
      else return .violation n .string none : Except EscapeFault Verdict).map (·.replacement) =
      if isConvertible n then stringStyle n else .ok none := by
    split
    · cases stringStyle n <;> rfl
    · rfl
  cases shape with
  | literalArray => simpa [judgeString] using harray
  | array => simpa [judgeString] using harray
  | _ => rfl

/-- A verdict takes the shape of the argument and the text in its place. -/
theorem judge_replacement_eq {style : PathStyle} {n : Node} (hn : n.unwrap = some n) :
    (judge style n).map (·.replacement) = shapeOf n >>= fun _ => rewritten style n := by
  unfold judge
  rw [hn]
  dsimp only
  cases hshape : shapeOf n with
  | error fault => rfl
  | ok shape =>
    -- The shape stands for what each style asks about the argument.
    obtain ⟨hliteral, harray, hstring⟩ := shapeOf_spec hshape
    cases style with
    | asNeeded =>
      refine (map_judgeAsNeeded n shape).trans ?_
      show _ = if isLiteralArray n then literalPath n else .ok none
      simp only [hliteral]
    | array =>
      refine (map_judgeArray n shape).trans ?_
      show _ = if n.kind = .string then (arrayStyle n).map some else .ok none
      simp only [hstring]
    | string =>
      refine (map_judgeString n shape).trans ?_
      show _ = if n.kind = .array ∧ isConvertible n then stringStyle n else .ok none
      have hshapes : shape = .literalArray ∨ shape = .array ↔ n.kind = .array := by
        rw [hliteral, harray]
        constructor
        · rintro (h | ⟨h, -⟩)
          · exact kind_of_isLiteralArray h
          · exact h
        · intro h
          by_cases hall : isLiteralArray n = true
          · exact .inl hall
          · exact .inr ⟨h, hall⟩
      simp only [hshapes]

/-- The text in the place of an argument is known when the strings for it have values. -/
theorem rewritten_isOk_iff (style : PathStyle) (n : Node) :
    (∃ t, rewritten style n = .ok t) ↔ ∀ l ∈ keyStrings style n, HasValue l := by
  unfold rewritten keyStrings
  cases style with
  | asNeeded =>
    dsimp only
    split
    · exact literalPath_isOk_iff n
    · simp
  | array =>
    dsimp only
    split
    · rw [map_isOk_iff, arrayStyle, map_isOk_iff]
      simp [HasValue]
    · simp
  | string =>
    dsimp only
    split
    · unfold stringStyle
      split
      · exact literalPath_isOk_iff n
      · rw [← templateSegments_isOk_iff]
        unfold templatePath
        cases templateSegments n.parts with
        | error fault => simp [bind, Except.bind]
        | ok t => simp [bind, Except.bind, pure, Except.pure]
    · simp

/-- The strings whose values decide about a path. -/
def strings (style : PathStyle) (n : Node) : List Node := seamStrings n ++ keyStrings style n

/-- A path is judged when its strings have values. -/
theorem judge_isOk_iff {style : PathStyle} {n : Node} (hn : n.unwrap = some n) :
    (∃ v, judge style n = .ok v) ↔ ∀ l ∈ strings style n, HasValue l := by
  have hmap : (∃ v, judge style n = .ok v) ↔ ∃ t, (judge style n).map (·.replacement) = .ok t :=
    map_isOk_iff.symm
  rw [hmap, judge_replacement_eq hn, strings, List.forall_mem_append, ← shapeOf_isOk_iff,
    ← rewritten_isOk_iff]
  cases shapeOf n with
  | error fault => simp [bind, Except.bind]
  | ok shape => simp [bind, Except.bind]

end PathStyle

namespace Lint

/-! ## Sources -/

/-- The string literals that are read in a tree: in its imports and in its paths. -/
def readStrings (config : Config) (root : Node) : List Node :=
  (Site.visits root).flatMap (fun s => Bindings.strings s.node) ++
    (paths config root).flatMap (PathStyle.strings config.pathStyle)

variable {config : Config}

/-- The imports of a tree are known when their strings have values. -/
theorem collect_snd_eq_none_iff {b : Bindings} {root : Node} :
    (b.collect root).2 = none ↔
      ∀ l ∈ (Site.visits root).flatMap (fun s => Bindings.strings s.node), HasValue l := by
  rw [Bindings.collect, Bindings.addAll_snd_eq_none_iff, Bindings.allOk_flatMap_iff]
  simp only [Bindings.ofNode_isOk_iff, List.mem_flatMap]
  constructor
  · rintro h l ⟨s, hs, hl⟩
    exact h s hs l hl
  · intro h s hs l hl
    exact h l ⟨s, hs, hl⟩

/-- The path of a call is judged when its strings have values. -/
theorem judgePath_isOk_iff {u : Usage} {n : Node} :
    (∃ found, judgePath config u n = .ok found) ↔
      ∀ path, (pathOf? u n).bind Node.unwrap = some path →
        ∀ l ∈ PathStyle.strings config.pathStyle path, HasValue l := by
  unfold judgePath
  cases hargument : pathOf? u n with
  | none => simp
  | some argument =>
    dsimp only
    rw [map_isOk_iff, Option.bind_some]
    cases hpath : argument.unwrap with
    | none =>
      simp [PathStyle.judge, hpath, pure, Except.pure]
    | some path =>
      -- The argument is judged as what stands inside its parentheses.
      rw [← judge_unwrap hpath, PathStyle.judge_isOk_iff (unwrap_unwrap hpath)]
      simp

/-- The calls of a tree are looked at when the strings of its paths have values. -/
theorem visitAll_calls_isOk_iff {root : Node} :
    (∃ findings, (visitAll config (usageOf config root) (Site.calls root)).outcome = .ok findings) ↔
      ∀ l ∈ (paths config root).flatMap (PathStyle.strings config.pathStyle), HasValue l := by
  rw [visitAll_isOk_iff]
  simp only [outcome_visit, map_isOk_iff, List.mem_flatMap]
  -- Only the path rule reads strings.
  unfold paths
  cases hrule : config.rules.pathStyle with
  | false => simp
  | true =>
    simp only [if_true, judgePath_isOk_iff, List.mem_filterMap]
    constructor
    · rintro h l ⟨path, ⟨s, hs, hpath⟩, hl⟩
      exact h s hs path hpath l hl
    · intro h s hs path hpath l hl
      exact h l ⟨path, ⟨s, hs, hpath⟩, hl⟩

/-- **Linting.**  A source is linted exactly when all strings that are read have values. -/
theorem lint_isOk_iff {file : Option Text} {source : List Char} :
    (∃ ds, (lint config file source).outcome = .ok ds) ↔
      ∀ l ∈ readStrings config (Tree.parse source).root, HasValue l := by
  rw [outcome_lint, readStrings, List.forall_mem_append]
  generalize (Tree.parse source).root = root
  simp only [lintTree_ok_iff]
  constructor
  · rintro ⟨ds, u, findings, hu, hfindings, -⟩
    obtain ⟨hcollect, rfl⟩ := usage_eq_ok_iff.1 hu
    exact ⟨collect_snd_eq_none_iff.1 hcollect, visitAll_calls_isOk_iff.1 ⟨findings, hfindings⟩⟩
  · rintro ⟨himports, hpaths⟩
    obtain ⟨findings, hfindings⟩ := visitAll_calls_isOk_iff.2 hpaths
    have hu : (usage config.settings root).outcome = .ok (usageOf config root) :=
      usage_eq_ok_iff.2 ⟨collect_snd_eq_none_iff.2 himports, rfl⟩
    exact ⟨_, _, findings, hu, hfindings, rfl⟩

end Lint

end LodashStyle
