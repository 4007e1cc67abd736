import LodashStyle.JavaScript.Grammar.Program
import LodashStyle.Proofs.Escapes
import LodashStyle.Proofs.Traversal
import LodashStyle.Usage.Bindings
import Mathlib.Data.List.Forall2

/-!
# Imports and requires of the same bindings

A module is bound by an import, `import {map as m} from 'lodash'`, or by a declaration with
`require`, `const {map: m} = require('lodash')`.  The two are read from trees of different shapes.
Here a `Clause` says what is bound, whatever the shape, and both readers are described by it.

They agree but for one thing: the name of an export may be quoted.  An import binds the value of the
string, a `require` the string as it is written, quotes included, which is never the name itself.

## Key results

- `takenFor_moduleOf`: what the name of a module is taken for
- `collect_import`, `collect_require`: what is registered for a clause, in order
- `understood_foldl`: what each name is bound to then
- `imports_and_requires_alike_iff`: both bind the same unless a name that stays bound is quoted
-/

namespace LodashStyle

open JavaScript

/-! ## String literals -/

namespace JavaScript

/-- A literal in quotes with its value. -/
structure IsLiteralOf (literal value : Text) : Prop where
  quote : ∃ p ∈ literal.head?, p.isChar '\'' ∨ p.isChar '"'
  value : stringValue literal = .ok value

/-- An escape stands for one code point or for none. -/
theorem length_le_of_escapeAt {p : CodePoint} {rest value : Text} {used : Nat}
    (h : escapeAt p rest = .ok (value, used)) : value.length ≤ 1 := by
  have hnumbered : ∀ n k, (numbered n).map (fun q => ([q], k)) = .ok (value, used) → value.length ≤ 1 := by
    intro n k hn
    obtain ⟨q, -, hq⟩ := map_eq_ok hn
    cases hq
    exact Nat.le_refl 1
  -- The numerals, the ends of lines, and any other character.
  unfold escapeAt at h
  dsimp only at h
  split at h
  · exact hnumbered _ _ h
  split at h
  · exact hnumbered _ _ h
  split at h
  · exact hnumbered _ _ h
  split at h
  · cases h
    exact Nat.zero_le 1
  split at h
  · cases h
    exact Nat.zero_le 1
  · cases h
    exact Nat.le_refl 1

/-- The value is no longer than the text that it is read from. -/
theorem length_le_of_cook {raw value : Text} (h : cook raw = .ok value) : value.length ≤ raw.length := by
  induction raw using escape_induction generalizing value with
  | nil =>
    cases h
    exact Nat.le_refl 0
  | lone =>
    cases h
    exact Nat.le_refl 1
  | plain p rest hp ih =>
    rw [cook_cons hp] at h
    obtain ⟨after, hafter, rfl⟩ := map_eq_ok h
    exact Nat.succ_le_succ (ih hafter)
  | escape next more ih =>
    rw [cook_escape] at h
    obtain ⟨⟨first, used⟩, hfirst, h⟩ := bind_eq_ok h
    obtain ⟨after, hafter, rfl⟩ := map_eq_ok h
    have hone := length_le_of_escapeAt hfirst
    have hrest := ih used hafter
    simp only [List.length_append, List.length_drop, List.length_cons] at hrest ⊢
    omega

/-- The quotes are lost, so a literal is longer than its value. -/
theorem IsLiteralOf.ne {literal value : Text} (h : IsLiteralOf literal value) : literal ≠ value := by
  obtain ⟨⟨p, hp, -⟩, hvalue⟩ := h
  rintro rfl
  have hlength := length_le_of_cook hvalue
  cases literal with
  | nil => cases hp
  | cons q rest =>
    rw [List.tail_cons, List.length_dropLast, List.length_cons] at hlength
    omega

end JavaScript

namespace Bindings

/-! ## What the name of a module is taken for -/

/-- The names of the library. -/
def libraryNames : List Text := ["lodash", "lodash-es"]

/-- The name of a method that has a module of its own; `lodash/fp` is another library. -/
structure IsMethodName (method : Text) : Prop where
  identifier : method.isIdentifier
  ne_fp : method ≠ ("fp" : Text)

/-- The name of the module of one method. -/
def IsMethodModule (name method : Text) : Prop :=
  IsMethodName method ∧ ∃ library ∈ libraryNames, name = library ++ ("/" : Text) ++ method

/-- What a module of a name is taken for.  A line feed at the end of the name of a method's module
    makes another name, and yet the module is taken for that of the method. -/
inductive TakenFor (name : Text) : Module → Prop where
  | library (h : name ∈ libraryNames) : TakenFor name .library
  | method {method : Text} (h : IsMethodModule name method) : TakenFor name (.method method)
  | line {line method : Text} (hname : name = line ++ ("\n" : Text)) (h : IsMethodModule line method) :
      TakenFor name (.method method)
  | other (hlibrary : name ∉ libraryNames) (hmethod : ∀ method, ¬IsMethodModule name method)
      (hline : ∀ line method, name = line ++ ("\n" : Text) → ¬IsMethodModule line method) :
      TakenFor name .other

/-- What follows a beginning. -/
theorem after?_eq_some_iff {beginning t rest : Text} :
    after? beginning t = some rest ↔ t = beginning ++ rest := by
  unfold after?
  constructor
  · intro h
    split at h
    · rename_i hprefix
      obtain ⟨tail, rfl⟩ := List.isPrefixOf_iff_prefix.1 hprefix
      rw [List.drop_left] at h
      rw [Option.some.inj h]
    · cases h
  · rintro rfl
    rw [if_pos (List.isPrefixOf_iff_prefix.2 (List.prefix_append beginning rest)), List.drop_left]

/-- No identifier ends in a line feed. -/
theorem isIdentifier_append_lineFeed (t : Text) : Text.isIdentifier (t ++ ("\n" : Text)) = false := by
  have hlast : CodePoint.isIdentifierRest (.scalar '\n') = false := by decide
  cases t with
  | nil => decide
  | cons p rest =>
    show (p.isIdentifierStart && (rest ++ [CodePoint.scalar '\n']).all CodePoint.isIdentifierRest) = false
    simp [hlast]

/-- A line feed at the end. -/
theorem endsLine_iff {t : Text} :
    t.getLast?.any (·.isChar '\n') = true ↔ ∃ line, t = line ++ ("\n" : Text) := by
  rw [Option.any_eq_true]
  simp only [CodePoint.isChar_iff, exists_eq_right]
  exact List.getLast?_eq_some_iff

/-- A line feed behind the name of a method is passed over. -/
theorem methodName?_eq_some_iff {rest method : Text} :
    methodName? rest = some method ↔
      IsMethodName method ∧ (rest = method ∨ rest = method ++ ("\n" : Text)) := by
  have hsome : ∀ name : Text,
      (if name.isIdentifier && name != ("fp" : Text) then some name else none) = some method ↔
        IsMethodName method ∧ name = method := by
    intro name
    constructor
    · intro h
      split at h
      · rename_i hname
        obtain rfl := Option.some.inj h
        rw [Bool.and_eq_true, bne_iff_ne] at hname
        exact ⟨⟨hname.1, hname.2⟩, rfl⟩
      · cases h
    · rintro ⟨hmethod, rfl⟩
      simp [hmethod.identifier, hmethod.ne_fp]
  rw [methodName?, hsome, and_congr_right_iff]
  intro hmethod
  split
  · rename_i hends
    obtain ⟨line, rfl⟩ := endsLine_iff.1 hends
    -- With the line feed it is no identifier.
    have hne : line ++ ("\n" : Text) ≠ method := by
      rintro rfl
      exact absurd hmethod.identifier (by rw [isIdentifier_append_lineFeed]; exact Bool.false_ne_true)
    have hdrop : (line ++ ("\n" : Text)).dropLast = line := List.dropLast_concat
    rw [hdrop, List.append_left_inj]
    simp only [hne, false_or]
  · rename_i hends
    have hne : rest ≠ method ++ ("\n" : Text) := fun h => hends (endsLine_iff.2 ⟨method, h⟩)
    simp only [hne, or_false]

/-- What follows the name of the library and a slash. -/
theorem afterLibrary_eq_some_iff {name rest : Text} :
    (after? "lodash/" name <|> after? "lodash-es/" name) = some rest ↔
      ∃ library ∈ libraryNames, name = library ++ ("/" : Text) ++ rest := by
  have hshort : ∀ t, after? "lodash/" name = some t ↔ name = ("lodash" : Text) ++ ("/" : Text) ++ t :=
    fun t => after?_eq_some_iff
  have hlong : ∀ t, after? "lodash-es/" name = some t ↔ name = ("lodash-es" : Text) ++ ("/" : Text) ++ t :=
    fun t => after?_eq_some_iff
  simp only [libraryNames, List.exists_mem_cons_iff, List.not_mem_nil, false_and, exists_false, or_false]
  rw [← hshort, ← hlong]
  cases hfirst : after? "lodash/" name with
  | none => simp
  | some t =>
    -- The seventh code point tells the two names apart.
    have hsecond : after? "lodash-es/" name ≠ some rest := by
      rw [Ne, hlong, (hshort t).1 hfirst]
      intro h
      have hpoint : some (CodePoint.scalar '/') = some (CodePoint.scalar '-') := congrArg (·[6]?) h
      exact absurd hpoint (by decide)
    simp [hsecond]

/-- The module is that of a method, or would be without a line feed at the end. -/
theorem methodOf_eq_some_iff {name method : Text} :
    (after? "lodash/" name <|> after? "lodash-es/" name).bind methodName? = some method ↔
      IsMethodModule name method ∨ ∃ line, name = line ++ ("\n" : Text) ∧ IsMethodModule line method := by
  simp only [Option.bind_eq_some_iff, afterLibrary_eq_some_iff, methodName?_eq_some_iff]
  constructor
  · rintro ⟨rest, ⟨library, hlibrary, rfl⟩, hmethod, rfl | rfl⟩
    · exact .inl ⟨hmethod, library, hlibrary, rfl⟩
    · exact .inr ⟨library ++ ("/" : Text) ++ method, (List.append_assoc _ _ _).symm, hmethod,
        library, hlibrary, rfl⟩
  · rintro (⟨hmethod, library, hlibrary, rfl⟩ | ⟨line, rfl, hmethod, library, hlibrary, rfl⟩)
    · exact ⟨method, ⟨library, hlibrary, rfl⟩, hmethod, .inl rfl⟩
    · exact ⟨method ++ ("\n" : Text), ⟨library, hlibrary, List.append_assoc _ _ _⟩, hmethod, .inr rfl⟩

/-- Every name is taken for just one module. -/
theorem takenFor_moduleOf (name : Text) : TakenFor name (moduleOf name) := by
  unfold moduleOf
  split
  · rename_i hname
    rw [Bool.or_eq_true, decide_eq_true_eq, decide_eq_true_eq] at hname
    exact .library (by simpa [libraryNames] using hname)
  · rename_i hname
    rw [Bool.or_eq_true, decide_eq_true_eq, decide_eq_true_eq] at hname
    split
    · rename_i method hmethod
      obtain hmethod | ⟨line, hline, hmethod⟩ := methodOf_eq_some_iff.1 hmethod
      · exact .method hmethod
      · exact .line hline hmethod
    · rename_i hnone
      -- Otherwise the name would have a method.
      have hno : ∀ method, ¬(IsMethodModule name method ∨
          ∃ line, name = line ++ ("\n" : Text) ∧ IsMethodModule line method) := by
        intro method hmethod
        rw [methodOf_eq_some_iff.2 hmethod] at hnone
        cases hnone
      exact .other (by simpa [libraryNames] using hname) (fun method h => hno method (.inl h))
        fun line method hline h => hno method (.inr ⟨line, hline, h⟩)

example : moduleOf "lodash-es/map" = .method "map" ∧ moduleOf "lodash/map\n" = .method "map" ∧
    moduleOf "lodash/fp" = .other ∧ moduleOf "lodash.map" = .other := by decide

/-! ## Bindings as they are written -/

/-- An export, other than the default one, under a local name. -/
structure Renaming where
  exported : Text
  /-- The string that the name of the export is written as; none if it is an identifier. -/
  literal? : Option Text
  localName : Text
  ne_default : exported ≠ ("default" : Text)
  isLiteralOf : ∀ literal ∈ literal?, IsLiteralOf literal exported

/-- The name of the export as it is written. -/
def Renaming.written (r : Renaming) : Text := r.literal?.getD r.exported

/-- The name as it is written is the name exported, unless it is a quoted one. -/
theorem Renaming.written_eq_exported_iff (r : Renaming) : r.written = r.exported ↔ r.literal? = none := by
  cases hliteral : r.literal? with
  | none => simp [written, hliteral]
  | some literal => simp [written, hliteral, (r.isLiteralOf literal hliteral).ne]

/-- What is bound: a name to the whole module, or names to exports of it. -/
inductive Clause where
  | whole (localName : Text)
  | named (names : List Renaming)

/-- The last of some renamings to a local name. -/
def last? (names : List Renaming) (localName : Text) : Option Renaming :=
  (names.filter (·.localName == localName)).getLast?

/-- The method that a clause binds a name to, the names of exports being read in a given way. -/
def Clause.method? (read : Renaming → Text) (module : Module) (clause : Clause) (localName : Text) :
    Option Text :=
  match module, clause with
  | .library, .named names => (last? names localName).map read
  | .method method, .whole name => if localName = name then some method else none
  | _, _ => none

/-- What a clause adds to the bindings before: the local name of the library, and methods in place of
    those that the names were bound to. -/
structure Understood (read : Renaming → Text) (module : Module) (clause : Clause)
    (before after : Bindings) : Prop where
  library : ∀ name,
    name ∈ after.library ↔ name ∈ before.library ∨ module = .library ∧ clause = .whole name
  methods : ∀ name,
    after.methods.lookup name = (clause.method? read module name).or (before.methods.lookup name)

/-- The same names are bound, and to the same. -/
structure Same (b c : Bindings) : Prop where
  library : ∀ name, name ∈ b.library ↔ name ∈ c.library
  methods : ∀ name, b.methods.lookup name = c.methods.lookup name

/-- Some name stays bound to an export whose name is quoted. -/
def Clause.Quotes (clause : Clause) : Prop :=
  ∃ names localName r, clause = .named names ∧ last? names localName = some r ∧ r.literal? ≠ none

/-- Read in the two ways, a clause binds the same names unless it quotes one of the whole library. -/
theorem same_iff {module : Module} {clause : Clause} {b bi br : Bindings}
    (hi : Understood (·.exported) module clause b bi) (hr : Understood (·.written) module clause b br) :
    Same bi br ↔ ¬(module = .library ∧ clause.Quotes) := by
  constructor
  · rintro hsame ⟨rfl, names, localName, r, rfl, hlast, hliteral⟩
    -- The last renaming of the local name is read in two ways.
    have hmethod := hsame.methods localName
    rw [hi.methods, hr.methods] at hmethod
    simp only [Clause.method?, hlast, Option.map_some, Option.some_or, Option.some.injEq] at hmethod
    exact hliteral (r.written_eq_exported_iff.1 hmethod.symm)
  · intro hquotes
    have hmethod : ∀ name,
        clause.method? (·.exported) module name = clause.method? (·.written) module name := by
      intro name
      unfold Clause.method?
      split
      · rename_i names
        cases hlast : last? names name with
        | none => rfl
        | some r =>
          have hliteral : r.literal? = none := by
            by_contra hne
            exact hquotes ⟨rfl, names, name, r, rfl, hlast, hne⟩
          rw [Option.map_some, Option.map_some, r.written_eq_exported_iff.2 hliteral]
      · rfl
      · rfl
    constructor
    · intro name
      rw [hi.library, hr.library]
    · intro name
      rw [hi.methods, hr.methods, hmethod]

/-! ## Registering bindings -/

/-- Bindings without a fault are added one by one. -/
theorem addAll_map_ok (b : Bindings) (bindings : List Binding) :
    b.addAll (bindings.map .ok) = (bindings.foldl add b, none) := by
  induction bindings generalizing b with
  | nil => rfl
  | cons binding rest ih =>
    rw [List.map_cons, addAll, ih, List.foldl_cons]

theorem lookup_entry (l name method : Text) (rest : List (Text × Text)) :
    ((name, method) :: rest).lookup l = if l = name then some method else rest.lookup l := by
  by_cases hl : l = name
  · rw [if_pos hl, hl, List.lookup_cons_self]
  · rw [if_neg hl, List.lookup_cons, beq_eq_false_iff_ne.2 hl]

/-- Binding a name changes what that name is bound to, and no other. -/
theorem lookup_putMethod (name method l : Text) (methods : List (Text × Text)) :
    (putMethod name method methods).lookup l = if l = name then some method else methods.lookup l := by
  induction methods with
  | nil => exact lookup_entry l name method []
  | cons entry rest ih =>
    obtain ⟨n, m⟩ := entry
    rw [putMethod]
    by_cases hn : n = name
    · subst hn
      rw [if_pos rfl, lookup_entry, lookup_entry]
      split
      · rfl
      · rfl
    · rw [if_neg hn, lookup_entry, lookup_entry, ih]
      by_cases hl : l = n
      · subst hl
        rw [if_pos rfl, if_pos rfl, if_neg hn]
      · rw [if_neg hl, if_neg hl]

/-- The bindings of a clause, in order. -/
def Clause.bindings (read : Renaming → Text) (module : Module) : Clause → List Binding
  | .whole name =>
    match module with
    | .library => [.library name]
    | .method method => [.method name method]
    | .other => []
  | .named names =>
    match module with
    | .library => names.map fun r => .method r.localName (read r)
    | _ => []

/-- After some renamings a name is bound to the last of its exports. -/
theorem lookup_foldl_add (read : Renaming → Text) (names : List Renaming) (b : Bindings) (name : Text) :
    (names.foldl (fun b r => b.add (.method r.localName (read r))) b).methods.lookup name =
      ((last? names name).map read).or (b.methods.lookup name) := by
  induction names generalizing b with
  | nil => rfl
  | cons r rest ih =>
    rw [List.foldl_cons, ih, add, lookup_putMethod]
    by_cases hr : r.localName = name
    · have hlast : last? (r :: rest) name = some ((last? rest name).getD r) := by
        have hkept : (r.localName == name) = true := beq_iff_eq.2 hr
        simp only [last?, List.filter_cons, hkept, if_true, List.getLast?_cons]
      rw [if_pos hr.symm, hlast]
      cases last? rest name with
      | none => rfl
      | some later => rfl
    · have hlast : last? (r :: rest) name = last? rest name := by
        have hdropped : (r.localName == name) = false := beq_eq_false_iff_ne.2 hr
        simp only [last?, List.filter_cons, hdropped, Bool.false_eq_true, if_false]
      rw [if_neg (Ne.symm hr), hlast]

/-- Methods do not touch the names of the library. -/
theorem library_foldl_add (read : Renaming → Text) (names : List Renaming) (b : Bindings) :
    (names.foldl (fun b r => b.add (.method r.localName (read r))) b).library = b.library := by
  induction names generalizing b with
  | nil => rfl
  | cons r rest ih => rw [List.foldl_cons, ih, add]

/-- One more name stands for the library. -/
theorem mem_library_add (b : Bindings) (name l : Text) :
    l ∈ (b.add (.library name)).library ↔ l ∈ b.library ∨ name = l := by
  rw [add]
  split
  · rename_i hname
    rw [List.contains_iff_mem] at hname
    constructor
    · exact .inl
    · rintro (hl | rfl)
      · exact hl
      · exact hname
  · rw [List.mem_append, List.mem_singleton, eq_comm]

theorem understood_foldl (read : Renaming → Text) (module : Module) (clause : Clause) (b : Bindings) :
    Understood read module clause b ((clause.bindings read module).foldl add b) := by
  cases clause with
  | whole name =>
    cases module with
    | library =>
      refine ⟨fun l => ?_, fun l => ?_⟩
      · show l ∈ (b.add (.library name)).library ↔ _
        rw [mem_library_add]
        simp
      · show (b.add (.library name)).methods.lookup l = b.methods.lookup l
        rw [add]
        split
        · rfl
        · rfl
    | method method =>
      refine ⟨fun l => ?_, fun l => ?_⟩
      · simp [Clause.bindings, add]
      · show (putMethod name method b.methods).lookup l = _
        rw [lookup_putMethod, Clause.method?]
        split
        · rfl
        · rfl
    | other => exact ⟨fun l => by simp [Clause.bindings], fun l => rfl⟩
  | named names =>
    cases module with
    | library =>
      -- The names are put in one after the other.
      rw [Clause.bindings, List.foldl_map]
      refine ⟨fun l => ?_, fun l => lookup_foldl_add read names b l⟩
      rw [library_foldl_add]
      simp
    | method method => exact ⟨fun l => by simp [Clause.bindings], fun l => rfl⟩
    | other => exact ⟨fun l => by simp [Clause.bindings], fun l => rfl⟩

/-! ## Clauses in a tree -/

/-- How a tree shows renamings: the kinds of the list and of its items, and the roles of the two names
    in an item. -/
structure Form where
  list : Kind
  item : Kind
  exported : Role
  localName : Role

/-- `{a as b}` -/
def Form.ofImport : Form := ⟨.namedImports, .importSpecifier, .name, .localName⟩

/-- `{a: b}` -/
def Form.ofRequire : Form := ⟨.objectPattern, .pairPattern, .key, .value⟩

/-- A node of a kind with a text. -/
def Reads (kind : Kind) (n : Node) (text : Text) : Prop := n.kind = kind ∧ n.text = text

/-- An item that shows a renaming. -/
def Renames (form : Form) (n : Node) (r : Renaming) : Prop :=
  n.kind = form.item ∧
    (∃ name ∈ n.child? form.exported, name.text = r.written ∧ (name.kind = .string ↔ r.literal?.isSome)) ∧
    ∃ name ∈ n.child? form.localName, Reads .identifier name r.localName

/-- A name or a list that shows a clause; there may be comments between the items. -/
def Shows (form : Form) (n : Node) : Clause → Prop
  | .whole name => Reads .identifier n name
  | .named names => n.kind = form.list ∧ List.Forall₂ (Renames form) n.parts names

/-- `import … from '…'` -/
def IsImport (source : Text) (n : Node) (clause : Clause) : Prop :=
  n.kind = .importStatement ∧
    (∃ c ∈ n.children.find? (·.kind == .importClause), List.Forall₂ (Shows .ofImport) c.parts [clause]) ∧
    ∃ s ∈ n.child? .source, Reads .string s source

/-- `require('…')` -/
def IsRequireCall (source : Text) (n : Node) : Prop :=
  n.kind = .call ∧ (∃ f ∈ n.callee?, Reads .identifier f "require") ∧
    ∃ list ∈ n.child? .arguments, list.kind = .arguments ∧ ∃ s ∈ list.children.head?, Reads .string s source

/-- `… = require('…')` -/
def IsRequire (source : Text) (n : Node) (clause : Clause) : Prop :=
  n.kind = .declarator ∧ (∃ target ∈ n.child? .name, Shows .ofRequire target clause) ∧
    ∃ value ∈ n.child? .value, IsRequireCall source value

/-- Whether bindings are read from a node. -/
def isBinder (n : Node) : Bool := n.kind == .importStatement || n.kind == .declarator

/-- A tree whose one statement that binds anything is an import. -/
def ImportsFrom (source : Text) (clause : Clause) (root : Node) : Prop :=
  List.Forall₂ (IsImport source) (root.nodes.filter isBinder) [clause]

/-- A tree whose one declarator is a `require`. -/
def RequiresFrom (source : Text) (clause : Clause) (root : Node) : Prop :=
  List.Forall₂ (IsRequire source) (root.nodes.filter isBinder) [clause]

instance (kind : Kind) (n : Node) (text : Text) : Decidable (Reads kind n text) :=
  inferInstanceAs (Decidable (_ ∧ _))

instance (form : Form) (n : Node) (r : Renaming) : Decidable (Renames form n r) :=
  inferInstanceAs (Decidable (_ ∧ _))

instance (form : Form) (n : Node) : (clause : Clause) → Decidable (Shows form n clause)
  | .whole _ => inferInstanceAs (Decidable (Reads _ _ _))
  | .named _ => inferInstanceAs (Decidable (_ ∧ _))

instance (source : Text) (n : Node) (clause : Clause) : Decidable (IsImport source n clause) :=
  inferInstanceAs (Decidable (_ ∧ _))

instance (source : Text) (n : Node) : Decidable (IsRequireCall source n) :=
  inferInstanceAs (Decidable (_ ∧ _))

instance (source : Text) (n : Node) (clause : Clause) : Decidable (IsRequire source n clause) :=
  inferInstanceAs (Decidable (_ ∧ _))

instance (source : Text) (clause : Clause) (root : Node) : Decidable (ImportsFrom source clause root) :=
  inferInstanceAs (Decidable (List.Forall₂ _ _ _))

instance (source : Text) (clause : Clause) (root : Node) : Decidable (RequiresFrom source clause root) :=
  inferInstanceAs (Decidable (List.Forall₂ _ _ _))

/-! ## Reading a clause -/

variable {source name : Text} {clause : Clause} {module : Module} {n root : Node}

/-- What is no part is a comment or a missing element. -/
theorem kind_of_not_isPart (h : n.isPart = false) : n.kind = .comment ∨ n.kind = .elision := by
  rw [Node.isPart] at h
  cases hkind : n.kind with
  | comment => exact .inl rfl
  | elision => exact .inr rfl
  | _ =>
    rw [hkind] at h
    exact absurd h (by decide)

/-- Nothing is read but from what a filter keeps, which is read as some other list. -/
theorem flatMap_eq_of_filter {α β : Type} {keep : Node → Bool} {R : Node → β → Prop} {f : Node → List α}
    {g : β → List α} {nodes : List Node} {xs : List β} (hnone : ∀ c, keep c = false → f c = [])
    (hsome : ∀ c x, R c x → f c = g x) (h : List.Forall₂ R (nodes.filter keep) xs) :
    nodes.flatMap f = xs.flatMap g := by
  induction nodes generalizing xs with
  | nil =>
    cases h
    rfl
  | cons c rest ih =>
    rw [List.flatMap_cons]
    cases hc : keep c with
    | false =>
      rw [List.filter_cons_of_neg (ne_true_of_eq_false hc)] at h
      rw [hnone c hc, List.nil_append, ih h]
    | true =>
      rw [List.filter_cons_of_pos hc] at h
      cases h with
      | cons hx hrest => rw [hsome c _ hx, ih hrest, List.flatMap_cons]

theorem whole_eq (read : Renaming → Text) (module : Module) (name : Text) :
    whole module name = ((Clause.whole name).bindings read module).map .ok := by
  cases module with
  | library => rfl
  | method method => rfl
  | other => rfl

/-- No specifier among the names of an import is a comment. -/
theorem ofSpecifier_eq_nil (n : Node) (h : n.isPart = false) : ofSpecifier n = [] := by
  obtain hkind | hkind := kind_of_not_isPart h
  · rw [ofSpecifier, hkind]
  · rw [ofSpecifier, hkind]

theorem ofProperty_eq_nil (n : Node) (h : n.isPart = false) : ofProperty n = [] := by
  obtain hkind | hkind := kind_of_not_isPart h
  · rw [ofProperty, hkind]
  · rw [ofProperty, hkind]

theorem ofClausePart_eq_nil (module : Module) (n : Node) (h : n.isPart = false) :
    ofClausePart module n = [] := by
  unfold ofClausePart
  obtain hkind | hkind := kind_of_not_isPart h
  · rw [hkind]
  · rw [hkind]

/-- Items that are read one by one are read as a list of names of the library. -/
theorem flatMap_items {form : Form} {f : Node → List (Except EscapeFault Binding)} {read : Renaming → Text}
    {names : List Renaming} (hnone : ∀ c : Node, c.isPart = false → f c = [])
    (hitem : ∀ c r, Renames form c r → f c = [.ok (.method r.localName (read r))])
    (h : List.Forall₂ (Renames form) n.parts names) :
    n.children.flatMap f = ((Clause.named names).bindings read .library).map .ok := by
  rw [flatMap_eq_of_filter hnone hitem h, Clause.bindings, List.map_map, List.map_eq_flatMap]
  rfl

/-- A specifier binds the name that is exported. -/
theorem ofSpecifier_eq (n : Node) (r : Renaming) (h : Renames .ofImport n r) :
    ofSpecifier n = [.ok (.method r.localName r.exported)] := by
  obtain ⟨hkind, ⟨exported, hexported, htext, hstring⟩, localName, hlocal, -, hname⟩ := h
  -- A quoted name is read as a string, any other as it is written.
  have hread : (if exported.kind == .string then stringValue exported.text else .ok exported.text) =
      .ok r.exported := by
    cases hliteral : r.literal? with
    | none =>
      have hkind : ¬exported.kind = .string := by
        rw [hstring, hliteral]
        exact Bool.false_ne_true
      rw [if_neg (by simpa using hkind), htext, r.written_eq_exported_iff.2 hliteral]
    | some literal =>
      have hkind : exported.kind = .string := by
        rw [hstring, hliteral]
        rfl
      have htext : exported.text = literal := by rw [htext, Renaming.written, hliteral, Option.getD_some]
      rw [if_pos (beq_iff_eq.2 hkind), htext, (r.isLiteralOf literal hliteral).value]
  have hkind : n.kind = .importSpecifier := hkind
  have hexported : n.child? .name = some exported := hexported
  have hlocal : n.child? .localName = some localName := hlocal
  rw [ofSpecifier, hkind, hexported]
  simp only [hread, hlocal, Option.getD_some, hname, Except.map, if_neg r.ne_default]

/-- A property binds the key as it is written. -/
theorem ofProperty_eq (n : Node) (r : Renaming) (h : Renames .ofRequire n r) :
    ofProperty n = [.ok (.method r.localName r.written)] := by
  -- Whether the key is a string is not asked.
  obtain ⟨hkind, ⟨key, hkey, htext, -⟩, value, hvalue, hidentifier, hname⟩ := h
  have hkind : n.kind = .pairPattern := hkind
  have hkey : n.child? .key = some key := hkey
  have hvalue : n.child? .value = some value := hvalue
  rw [ofProperty, hkind]
  simp only [hkey, hvalue, hidentifier, htext, hname, beq_self_eq_true, if_pos]

/-- A part of an import clause binds what the clause does. -/
theorem ofClausePart_eq (module : Module) (n : Node) (clause : Clause) (h : Shows .ofImport n clause) :
    ofClausePart module n = (clause.bindings (·.exported) module).map .ok := by
  cases clause with
  | whole name =>
    obtain ⟨hkind, htext⟩ := h
    unfold ofClausePart
    rw [hkind, htext]
    exact whole_eq _ module name
  | named names =>
    obtain ⟨hkind, hitems⟩ := h
    have hkind : n.kind = .namedImports := hkind
    unfold ofClausePart
    rw [hkind]
    cases module with
    | library =>
      show n.children.flatMap ofSpecifier = _
      exact flatMap_items ofSpecifier_eq_nil ofSpecifier_eq hitems
    | method method => rfl
    | other => rfl

/-- The target of a `require` binds what the clause does. -/
theorem ofTarget_eq (h : Shows .ofRequire n clause) :
    ofTarget module n = (clause.bindings (·.written) module).map .ok := by
  cases clause with
  | whole name =>
    obtain ⟨hkind, htext⟩ := h
    unfold ofTarget
    rw [hkind, htext]
    exact whole_eq _ module name
  | named names =>
    obtain ⟨hkind, hitems⟩ := h
    have hkind : n.kind = .objectPattern := hkind
    unfold ofTarget
    rw [hkind]
    cases module with
    | library =>
      show n.children.flatMap ofProperty = _
      exact flatMap_items ofProperty_eq_nil ofProperty_eq hitems
    | method method => rfl
    | other => rfl

/-- An import binds what its clause does, under the name of its module. -/
theorem ofImport_eq (hname : stringValue source = .ok name) (h : IsImport source n clause) :
    ofImport n = (clause.bindings (·.exported) (moduleOf name)).map .ok := by
  obtain ⟨-, ⟨c, hc, hclause⟩, s, hs, hstring, htext⟩ := h
  have hc : n.children.find? (·.kind == .importClause) = some c := hc
  have hs : n.child? .source = some s := hs
  unfold ofImport
  rw [hc, hs]
  dsimp only
  rw [if_pos (beq_iff_eq.2 hstring), fromModule, htext, hname]
  dsimp only
  rw [flatMap_eq_of_filter (ofClausePart_eq_nil _) (ofClausePart_eq _) hclause, List.flatMap_singleton]

/-- The module that is required is found in the call. -/
theorem requiredModule?_eq (h : IsRequireCall source n) :
    ∃ s, requiredModule? n = some s ∧ s.text = source := by
  obtain ⟨hkind, ⟨f, hf, hidentifier, hrequire⟩, list, hlist, harguments, s, hs, hstring, htext⟩ := h
  have hf : n.callee? = some f := hf
  have hlist : n.child? .arguments = some list := hlist
  obtain ⟨rest, hchildren⟩ := List.head?_eq_some_iff.1 hs
  refine ⟨s, ?_, htext⟩
  unfold requiredModule?
  rw [hkind, hf, hlist]
  have hnamed : s.kind.isNamed = true := by
    rw [hstring]
    rfl
  have hfirst : (list.children.find? (·.kind.isNamed)).filter (·.kind == .string) = some s := by
    rw [hchildren, List.find?_cons, hnamed]
    simp [hstring]
  simp only [hidentifier, hrequire, harguments, hfirst, beq_self_eq_true, Bool.and_self, if_true]

/-- A declarator with a `require` binds what its clause does. -/
theorem ofDeclarator_eq (hname : stringValue source = .ok name) (h : IsRequire source n clause) :
    ofDeclarator n = (clause.bindings (·.written) (moduleOf name)).map .ok := by
  obtain ⟨-, ⟨target, htarget, hshows⟩, value, hvalue, hcall⟩ := h
  have htarget : n.child? .name = some target := htarget
  have hvalue : n.child? .value = some value := hvalue
  obtain ⟨s, hs, htext⟩ := requiredModule?_eq hcall
  unfold ofDeclarator
  rw [htarget, hvalue, Option.bind_some, hs]
  dsimp only
  rw [fromModule, htext, hname]
  exact ofTarget_eq hshows

/-- Other nodes bind nothing. -/
theorem ofNode_eq_nil (n : Node) (h : isBinder n = false) : ofNode n = [] := by
  rw [isBinder, Bool.or_eq_false_iff, beq_eq_false_iff_ne, beq_eq_false_iff_ne] at h
  unfold ofNode
  split
  · rename_i hkind
    exact absurd hkind h.1
  · rename_i hkind
    exact absurd hkind h.2
  · rfl

/-- The bindings of the one node of a tree that binds anything are registered. -/
theorem collect_eq {R : Node → Clause → Prop} {read : Renaming → Text}
    (hread : ∀ n clause, R n clause → ofNode n = (clause.bindings read module).map .ok)
    (h : List.Forall₂ R (root.nodes.filter isBinder) [clause]) (b : Bindings) :
    b.collect root = ((clause.bindings read module).foldl add b, none) := by
  -- The way through the tree does not matter here, only the nodes on it.
  have hnodes : (Site.visits root).flatMap (fun s => ofNode s.node) = root.nodes.flatMap ofNode := by
    rw [← Site.map_node_visits, List.flatMap_map]
  rw [collect, hnodes, flatMap_eq_of_filter ofNode_eq_nil hread h, List.flatMap_singleton, addAll_map_ok]

/-- A program with one import has the bindings of its clause. -/
theorem collect_import (hname : stringValue source = .ok name) (h : ImportsFrom source clause root)
    (b : Bindings) :
    b.collect root = ((clause.bindings (·.exported) (moduleOf name)).foldl add b, none) := by
  refine collect_eq (fun n clause hn => ?_) h b
  rw [ofNode, hn.1]
  exact ofImport_eq hname hn

/-- A program with one `require` has the bindings of its clause. -/
theorem collect_require (hname : stringValue source = .ok name) (h : RequiresFrom source clause root)
    (b : Bindings) :
    b.collect root = ((clause.bindings (·.written) (moduleOf name)).foldl add b, none) := by
  refine collect_eq (fun n clause hn => ?_) h b
  rw [ofNode, hn.1]
  exact ofDeclarator_eq hname hn

/-! ## Imports and requires -/

/-- **Imports and requires of the same bindings.**  Both are read to the end, whatever was bound before.
    An import binds each name to the last export that it is given to.  A `require` binds the same names to
    the exports as they are written.  So they leave the same bindings exactly unless the module is the
    library and some name stays bound to a quoted export.  Any other module than the library and those of
    its methods changes nothing. -/
theorem imports_and_requires_alike_iff {source name : Text} {clause : Clause} {i r : Node}
    (hsource : IsLiteralOf source name) (hi : ImportsFrom source clause i)
    (hr : RequiresFrom source clause r) (b : Bindings) :
    ∃ module bi br, TakenFor name module ∧ b.collect i = (bi, none) ∧ b.collect r = (br, none) ∧
      Understood (·.exported) module clause b bi ∧ Understood (·.written) module clause b br ∧
      (Same bi br ↔ ¬(module = .library ∧ clause.Quotes)) ∧ (module = .other → bi = b ∧ br = b) := by
  have hbi := understood_foldl (·.exported) (moduleOf name) clause b
  have hbr := understood_foldl (·.written) (moduleOf name) clause b
  refine ⟨moduleOf name, _, _, takenFor_moduleOf name, collect_import hsource.value hi b,
    collect_require hsource.value hr b, hbi, hbr, same_iff hbi hbr, ?_⟩
  intro hother
  rw [hother]
  cases clause with
  | whole => exact ⟨rfl, rfl⟩
  | named => exact ⟨rfl, rfl⟩

/-- `'map'` under the name `m`. -/
def quotedMap : Renaming where
  exported := "map"
  literal? := some "'map'"
  localName := "m"
  ne_default := by decide
  isLiteralOf := by
    intro literal h
    cases h
    exact ⟨⟨.scalar '\'', rfl, .inl rfl⟩, by decide⟩

/-- The import binds `m` to the method, and the `require` to its name in quotes. -/
theorem imports_and_requires_of_quoted_map :
    let clause := Clause.named [quotedMap]
    let i := (Tree.parse "import \x7b'map' as m\x7d from 'lodash';".toList).root
    let r := (Tree.parse "const \x7b'map': m\x7d = require('lodash');".toList).root
    IsLiteralOf "'lodash'" "lodash" ∧ ImportsFrom "'lodash'" clause i ∧ RequiresFrom "'lodash'" clause r ∧
      (∃ module bi br, TakenFor "lodash" module ∧ collect {} i = (bi, none) ∧ collect {} r = (br, none) ∧
        Understood (·.exported) module clause {} bi ∧ Understood (·.written) module clause {} br ∧
        (Same bi br ↔ ¬(module = .library ∧ clause.Quotes)) ∧ (module = .other → bi = {} ∧ br = {})) ∧
      collect {} i = (⟨[], [("m", "map")]⟩, none) ∧ collect {} r = (⟨[], [("m", "'map'")]⟩, none) := by
  intro clause i r
  have hsource : IsLiteralOf "'lodash'" "lodash" := ⟨⟨.scalar '\'', rfl, .inl rfl⟩, by decide⟩
  have hi : ImportsFrom "'lodash'" clause i := by decide +kernel
  have hr : RequiresFrom "'lodash'" clause r := by decide +kernel
  have halike := imports_and_requires_alike_iff hsource hi hr {}
  exact ⟨hsource, hi, hr, halike, by decide +kernel, by decide +kernel⟩

end Bindings

end LodashStyle
