import LodashStyle.Proofs.Nesting
import LodashStyle.Proofs.PathPieces

/-!
# Trees without their comments

Comments may stand among the children of any node, and whoever looks for a part of a node has to pass
over them: the operand inside parentheses, the arguments of a call by their number, the elements of an
array, the operands of an addition.  `Node.withoutComments` takes the comments out of a tree.  Every
part of a node that the rules look at is found in the tree without comments as well, and there it is
the part without its comments.  So a call means the same in both trees, and paths are judged alike.

A comment is taken to play no role in its parent and to hold no call.

## Key results

- `children_withoutComments`: what is left of the children of a node
- `child?_withoutComments`, `unwrap_withoutComments`, `argument?_withoutComments`: parts of a node
- `isNested_withoutComments`, `isChainStart_withoutComments`: nested calls and starts of chains
- `pathOf?_withoutComments`, `judge_withoutComments`: the path of a call, and the verdict on it
-/

namespace LodashStyle

open JavaScript

namespace JavaScript.Node

mutual

/-- The tree without the comments below its root. -/
def withoutComments : Node → Node
  | mk label children => mk label (withoutCommentsAll children)

/-- The trees that are no comments, without the comments in them. -/
def withoutCommentsAll : List Node → List Node
  | [] => []
  | n :: rest =>
    if n.kind = .comment then withoutCommentsAll rest
    else n.withoutComments :: withoutCommentsAll rest

end

/-- Whether a node is no comment. -/
def isCode (n : Node) : Bool := n.kind != .comment

/-- The comments in a tree play no role and hold no call. -/
def CommentsAside (n : Node) : Prop :=
  ∀ c ∈ n.nodes, c.kind = .comment → c.role = none ∧ ∀ m ∈ c.nodes, m.isCall = false

instance (n : Node) : Decidable n.CommentsAside := inferInstanceAs (Decidable (∀ c ∈ _, _ → _))

variable {n c : Node}

/-! ## Children -/

/-- Taking the comments out of a list of trees is a filter and a map. -/
theorem withoutCommentsAll_eq (children : List Node) :
    withoutCommentsAll children = (children.filter isCode).map withoutComments := by
  induction children with
  | nil => rfl
  | cons n rest ih =>
    rw [withoutCommentsAll]
    by_cases hkind : n.kind = .comment
    · rw [if_pos hkind, List.filter_cons_of_neg (by simp [isCode, hkind]), ih]
    · rw [if_neg hkind, List.filter_cons_of_pos (by simp [isCode, hkind]), List.map_cons, ih]

/-- The root keeps its label, and with it kind, role, extent and text: comments are only taken from
    below it. -/
@[simp] theorem label_withoutComments (n : Node) : n.withoutComments.label = n.label := by
  obtain ⟨label, children⟩ := n
  rw [withoutComments, label_mk, label_mk]

@[simp] theorem kind_withoutComments (n : Node) : n.withoutComments.kind = n.kind := by
  rw [kind, label_withoutComments, kind]

@[simp] theorem role_withoutComments (n : Node) : n.withoutComments.role = n.role := by
  rw [role, label_withoutComments, role]

@[simp] theorem extent_withoutComments (n : Node) : n.withoutComments.extent = n.extent := by
  rw [extent, label_withoutComments, extent]

@[simp] theorem text_withoutComments (n : Node) : n.withoutComments.text = n.text := by
  rw [text, label_withoutComments, text]

/-- The children of a node that are no comments are still its children, in the same order. -/
theorem children_withoutComments (n : Node) :
    n.withoutComments.children = (n.children.filter isCode).map withoutComments := by
  obtain ⟨label, children⟩ := n
  rw [withoutComments, children_mk, children_mk, withoutCommentsAll_eq]

/-- Whether a child counts as a part rests on its own label. -/
@[simp] theorem isPart_withoutComments (n : Node) : n.withoutComments.isPart = n.isPart := by
  rw [isPart, kind_withoutComments, isPart]

@[simp] theorem isCall_withoutComments (n : Node) : n.withoutComments.isCall = n.isCall := by
  rw [isCall, kind_withoutComments, isCall]

@[simp] theorem isLiteral_withoutComments (n : Node) : n.withoutComments.isLiteral = n.isLiteral := by
  rw [isLiteral, kind_withoutComments, isLiteral]

/-- A name is the text of its node. -/
@[simp] theorem identifierName?_withoutComments (n : Node) :
    n.withoutComments.identifierName? = n.identifierName? := by
  rw [identifierName?, kind_withoutComments, text_withoutComments, identifierName?]

/-- What is left out of a list does not matter to a test that it does not pass. -/
theorem filter_map_filter {α β : Type} {keep test : α → Bool} {f : α → β} {test' : β → Bool} {xs : List α}
    (htest : ∀ x, test' (f x) = test x) (hkeep : ∀ x ∈ xs, test x = true → keep x = true) :
    ((xs.filter keep).map f).filter test' = (xs.filter test).map f := by
  have hboth : ∀ x ∈ xs, ((test' ∘ f) x && keep x) = test x := by
    intro x hx
    rw [Function.comp_apply, htest, Bool.and_eq_left_iff_imp]
    exact hkeep x hx
  rw [List.filter_map, List.filter_filter, List.filter_congr hboth]

/-- What is left out of a list is not what a test finds, if it does not pass that test. -/
theorem find?_map_filter {α β : Type} {keep test : α → Bool} {f : α → β} {test' : β → Bool} {xs : List α}
    (htest : ∀ x, test' (f x) = test x) (hkeep : ∀ x ∈ xs, test x = true → keep x = true) :
    ((xs.filter keep).map f).find? test' = (xs.find? test).map f := by
  rw [← List.head?_filter, filter_map_filter htest hkeep, List.head?_map, List.head?_filter]

/-- A part is no comment. -/
theorem isCode_of_isPart (h : n.isPart = true) : n.isCode = true := by
  rw [isPart, Bool.and_eq_true] at h
  exact h.2

/-- No part is lost, since a comment is none. -/
@[simp] theorem parts_withoutComments (n : Node) : n.withoutComments.parts = n.parts.map withoutComments := by
  rw [parts, children_withoutComments]
  exact filter_map_filter isPart_withoutComments fun _ _ h => isCode_of_isPart h

/-- The substitutions of a template are all there. -/
theorem substitutions_withoutComments (n : Node) :
    n.withoutComments.substitutions = n.substitutions.map withoutComments := by
  rw [substitutions, children_withoutComments]
  apply filter_map_filter
  · intro c
    rw [kind_withoutComments]
  · intro c _ hc
    rw [isCode, eq_of_beq hc]
    rfl

/-! ## Parentheses -/

/-- What is inside parentheses is looked for in the first part only. -/
theorem unwrapFirst_eq (nodes : List Node) : unwrapFirst nodes = (nodes.find? isPart).bind unwrap := by
  induction nodes with
  | nil => rfl
  | cons n rest ih =>
    rw [unwrapFirst, List.find?_cons]
    split
    · rename_i hpart
      rw [hpart, Option.bind_some]
    · rename_i hpart
      rw [Bool.not_eq_true] at hpart
      rw [hpart, ih]

/-- A comment inside parentheses, before or behind the expression, is not what they hold. -/
theorem unwrap_of_parenthesized (h : n.kind = .parenthesized) :
    n.unwrap = (n.children.find? isPart).bind unwrap := by
  obtain ⟨label, children⟩ := n
  have hkind : label.kind = .parenthesized := h
  rw [unwrap, if_pos hkind, unwrapFirst_eq, children_mk]

/-- The same expression is inside the parentheses, without its comments. -/
theorem unwrap_withoutComments (n : Node) : n.withoutComments.unwrap = n.unwrap.map withoutComments := by
  induction n using Node.induction with
  | mk label children ih =>
    by_cases hkind : (mk label children).kind = .parenthesized
    · -- Comments do not count, so that the first child that does is the same.
      rw [unwrap_of_parenthesized hkind, unwrap_of_parenthesized (by rw [kind_withoutComments, hkind]),
        children_withoutComments, find?_map_filter isPart_withoutComments fun _ _ h => isCode_of_isPart h]
      cases hfind : (mk label children).children.find? isPart with
      | none => rfl
      | some c => exact ih c (List.mem_of_find?_eq_some hfind)
    · rw [unwrap_of_kind hkind, unwrap_of_kind (by rwa [kind_withoutComments])]
      rfl

/-! ## Parts in a role -/

/-- What holds of the comments in a tree holds of those in any part of it. -/
theorem CommentsAside.of_mem_nodes (h : n.CommentsAside) (hc : c ∈ n.nodes) : c.CommentsAside :=
  fun d hd => h d (mem_nodes_trans hc hd)

/-- The case of a child. -/
theorem CommentsAside.of_child (h : n.CommentsAside) (hc : c ∈ n.children) : c.CommentsAside :=
  h.of_mem_nodes (mem_nodes_of_child hc (mem_nodes_self c))

/-- The case of a child in a role. -/
theorem CommentsAside.of_child? {role : Role} (h : n.CommentsAside) (hc : n.child? role = some c) :
    c.CommentsAside :=
  h.of_child (List.mem_of_find?_eq_some hc)

/-- A child in a role is no comment. -/
theorem CommentsAside.isCode_of_role {role : Role} (h : n.CommentsAside) (hc : c ∈ n.children)
    (hrole : c.role = some role) : c.isCode = true := by
  rw [isCode, bne_iff_ne]
  intro hkind
  have hnone := (h c (mem_nodes_of_child hc (mem_nodes_self c)) hkind).1
  rw [hnone] at hrole
  cases hrole

/-- The first child in a role is the same, because comments have no role. -/
theorem child?_withoutComments (h : n.CommentsAside) (role : Role) :
    n.withoutComments.child? role = (n.child? role).map withoutComments := by
  rw [child?, children_withoutComments]
  apply find?_map_filter
  · intro c
    rw [role_withoutComments]
  · intro c hc hrole
    exact h.isCode_of_role hc (eq_of_beq hrole)

/-- What is called is the same. -/
theorem callee?_withoutComments (h : n.CommentsAside) :
    n.withoutComments.callee? = n.callee?.map withoutComments :=
  child?_withoutComments h .callee

/-- A call of a method is one in both trees, of the same member. -/
theorem memberCallee?_withoutComments (h : n.CommentsAside) :
    n.withoutComments.memberCallee? = n.memberCallee?.map withoutComments := by
  rw [memberCallee?, callee?_withoutComments h, Option.filter_map, memberCallee?]
  simp only [Function.comp_def, kind_withoutComments]

/-- What holds of the comments in a call holds of those in its callee. -/
theorem CommentsAside.of_memberCallee? (h : n.CommentsAside) (hc : n.memberCallee? = some c) :
    c.CommentsAside :=
  h.of_child? (Option.filter_eq_some_iff.1 hc).1

/-- Calls of methods stay such calls. -/
theorem isMethodCall_withoutComments (h : n.CommentsAside) :
    n.withoutComments.isMethodCall = n.isMethodCall := by
  rw [isMethodCall, isCall_withoutComments, memberCallee?_withoutComments h, Option.isSome_map, isMethodCall]

/-- A part of the callee of a method call. -/
theorem memberPart_withoutComments (h : n.CommentsAside) (role : Role) :
    n.withoutComments.memberCallee?.bind (·.child? role) =
      (n.memberCallee?.bind (·.child? role)).map withoutComments := by
  rw [memberCallee?_withoutComments h]
  cases hcallee : n.memberCallee? with
  | none => rfl
  | some callee => exact child?_withoutComments (h.of_memberCallee? hcallee) role

/-- The receiver of a method is the same. -/
theorem receiver?_withoutComments (h : n.CommentsAside) :
    n.withoutComments.receiver? = n.receiver?.map withoutComments :=
  memberPart_withoutComments h .object

/-- What holds of the comments in a call holds of those in the receiver. -/
theorem CommentsAside.of_receiver? (h : n.CommentsAside) (hc : n.receiver? = some c) : c.CommentsAside := by
  obtain ⟨callee, hcallee, hc⟩ := Option.bind_eq_some_iff.1 hc
  exact (h.of_memberCallee? hcallee).of_child? hc

/-- The name of a method may have comments beside it. -/
theorem methodName?_withoutComments (h : n.CommentsAside) :
    n.withoutComments.methodName? = n.methodName? := by
  rw [methodName?, memberPart_withoutComments h, methodName?]
  cases n.memberCallee?.bind (·.child? .property) with
  | none => rfl
  | some property => simp only [Option.map_some, kind_withoutComments, text_withoutComments]

/-- Comments are not counted among the arguments of a call. -/
theorem arguments_withoutComments (h : n.CommentsAside) :
    n.withoutComments.arguments = n.arguments.map withoutComments := by
  rw [arguments, child?_withoutComments h, arguments]
  cases n.child? .arguments with
  | none => rfl
  | some list =>
    dsimp only [Option.map_some]
    rw [kind_withoutComments, parts_withoutComments]
    split
    · rfl
    · rfl

/-- Arguments are found by the same numbers. -/
theorem argument?_withoutComments (h : n.CommentsAside) (index : Nat) :
    n.withoutComments.argument? index = (n.argument? index).map withoutComments := by
  rw [argument?, arguments_withoutComments h, List.getElem?_map, argument?]
  cases n.arguments[index]? with
  | none => rfl
  | some argument => exact unwrap_withoutComments argument

/-- What holds of the comments in parentheses holds of those inside the expression in them. -/
theorem CommentsAside.of_unwrap (h : n.CommentsAside) (hc : n.unwrap = some c) : c.CommentsAside :=
  h.of_mem_nodes (mem_nodes_of_unwrap hc)

/-- What holds of the comments in a call holds of those in each of its arguments. -/
theorem CommentsAside.of_argument? {index : Nat} (h : n.CommentsAside)
    (hc : n.argument? index = some c) : c.CommentsAside := by
  obtain ⟨list, hlist, -, argument, hargument, hc⟩ := argument?_cases hc
  exact ((h.of_child hlist).of_child hargument).of_unwrap hc

/-! ## Pieces of templates and additions -/

/-- The pieces of text are cut at the extents of the substitutions, which stay the same. -/
theorem quasisFrom_map_withoutComments (text : Text) (base cursor : Nat) (substitutions : List Node) :
    quasisFrom text base cursor (substitutions.map withoutComments) =
      quasisFrom text base cursor substitutions := by
  induction substitutions generalizing cursor with
  | nil => rfl
  | cons s rest ih => rw [List.map_cons, quasisFrom, quasisFrom, extent_withoutComments, ih]

/-- A template is cut into the same pieces of text. -/
theorem quasis_withoutComments (n : Node) : n.withoutComments.quasis = n.quasis := by
  rw [quasis, text_withoutComments, extent_withoutComments, substitutions_withoutComments,
    quasisFrom_map_withoutComments, quasis]

/-- An addition has the same operands, however deep they are nested. -/
theorem operands_withoutComments (h : n.CommentsAside) :
    n.withoutComments.operands = n.operands.map withoutComments := by
  induction n using Node.induction with
  | mk label children ih =>
    by_cases hkind : (mk label children).kind = .addition
    · -- The first node in the role of a side is the same in both trees.
      have hside : ∀ role, (((mk label children).withoutComments.child? role).map operands).getD [] =
          ((((mk label children).child? role).map operands).getD []).map withoutComments := by
        intro role
        rw [child?_withoutComments h]
        cases hchild : (mk label children).child? role with
        | none => rfl
        | some side => exact ih side (List.mem_of_find?_eq_some hchild) (h.of_child? hchild)
      rw [operands_of_addition hkind, operands_of_addition (by rw [kind_withoutComments, hkind]), hside,
        hside, List.map_append]
    · rw [operands_of_kind hkind, operands_of_kind (by rwa [kind_withoutComments])]
      rfl

end JavaScript.Node


open Node

variable {u : Usage} {n : Node}

/-! ## Uses of the library -/

namespace Usage

/-- The library is known by its name. -/
@[simp] theorem isLibrary_withoutComments (n : Node) : u.isLibrary n.withoutComments = u.isLibrary n := by
  rw [isLibrary, identifierName?_withoutComments, isLibrary]

/-- A call of the library stays one. -/
theorem isLibraryCall_withoutComments (h : n.CommentsAside) :
    u.isLibraryCall n.withoutComments = u.isLibraryCall n := by
  rw [isLibraryCall, isMethodCall_withoutComments h, receiver?_withoutComments h,
    methodName?_withoutComments h, Option.any_map, isLibraryCall]
  simp only [isLibrary_withoutComments]

/-- A call of an imported method stays one. -/
theorem importedMethod?_withoutComments (h : n.CommentsAside) :
    u.importedMethod? n.withoutComments = u.importedMethod? n := by
  rw [importedMethod?, isCall_withoutComments, callee?_withoutComments h, Option.bind_map, importedMethod?]
  simp only [Function.comp_def, identifierName?_withoutComments]

/-- The method of the library that is called is the same. -/
theorem libraryMethod?_withoutComments (h : n.CommentsAside) :
    u.libraryMethod? n.withoutComments = u.libraryMethod? n := by
  rw [libraryMethod?, isLibraryCall_withoutComments h, methodName?_withoutComments h,
    importedMethod?_withoutComments h, libraryMethod?]

/-- An explicit chain starts at the same calls. -/
theorem isExplicitStart_withoutComments (h : n.CommentsAside) :
    u.isExplicitStart n.withoutComments = u.isExplicitStart n := by
  rw [isExplicitStart, libraryMethod?_withoutComments h, isExplicitStart]

/-- Chains start at the same calls. -/
theorem isChainStart_withoutComments (h : n.CommentsAside) :
    u.isChainStart n.withoutComments = u.isChainStart n := by
  rw [isChainStart, isCall_withoutComments, callee?_withoutComments h, isExplicitStart_withoutComments h,
    Option.any_map, isChainStart]
  simp only [isLibrary_withoutComments]

/-- The way down a chain passes the corresponding calls, with the same fuel. -/
theorem chainFrom_withoutComments (h : n.CommentsAside) (fuel : Nat) :
    u.chainFrom fuel n.withoutComments = u.chainFrom fuel n := by
  induction fuel generalizing n with
  | zero => rfl
  | succ fuel ih =>
    rw [chainFrom, isChainStart_withoutComments h, isExplicitStart_withoutComments h,
      isMethodCall_withoutComments h, methodName?_withoutComments h, receiver?_withoutComments h, chainFrom]
    -- The next node on the way down is the same, and the rest of the way is by induction.
    cases hreceiver : n.receiver? with
    | none => rfl
    | some receiver =>
      rw [Option.map_some, Option.bind_some, Option.bind_some, unwrap_withoutComments]
      cases hinner : receiver.unwrap with
      | none => rfl
      | some inner =>
        rw [Option.map_some]
        dsimp only
        rw [ih ((h.of_receiver? hreceiver).of_unwrap hinner)]

/-- A value is wrapped in both trees or in neither. -/
theorem isWrapper_withoutComments (h : n.CommentsAside) :
    u.isWrapper n.withoutComments = u.isWrapper n := by
  rw [isWrapper, unwrap_withoutComments, isWrapper]
  cases hinner : n.unwrap with
  | none => rfl
  | some inner =>
    have hinner' : n.withoutComments.unwrap = some inner.withoutComments := by
      rw [unwrap_withoutComments, hinner, Option.map_some]
    have hsize := size_le_of_mem_nodes (mem_nodes_of_unwrap hinner)
    have hsize' := size_le_of_mem_nodes (mem_nodes_of_unwrap hinner')
    -- Without comments there are fewer nodes and so there is less fuel, but enough on either side.
    have hchain : u.chainFrom n.withoutComments.size inner.withoutComments =
        u.chainFrom n.size inner := by
      have hmore : inner.withoutComments.size ≤ n.withoutComments.size + n.size := by omega
      rw [Mirrors.chainFrom_of_le hsize' hmore, chainFrom_withoutComments (h.of_unwrap hinner)]
      exact Mirrors.chainFrom_of_le (by omega) hsize
    rw [Option.map_some, Option.bind_some, Option.bind_some, hchain]

/-- A call is of the same method and in the same form. -/
theorem classify?_withoutComments (h : n.CommentsAside) :
    u.classify? n.withoutComments = u.classify? n := by
  have hreceiver : n.withoutComments.receiver?.any u.isWrapper = n.receiver?.any u.isWrapper := by
    rw [receiver?_withoutComments h]
    cases hreceiver : n.receiver? with
    | none => rfl
    | some receiver => exact isWrapper_withoutComments (h.of_receiver? hreceiver)
  rw [classify?, isMethodCall_withoutComments h, hreceiver, methodName?_withoutComments h,
    isLibraryCall_withoutComments h, importedMethod?_withoutComments h, classify?]

/-- The argument that is a path is found at the same place. -/
theorem pathArgument?_withoutComments (h : n.CommentsAside) (method : Text) (form : CallForm) :
    u.pathArgument? n.withoutComments method form =
      (u.pathArgument? n method form).map withoutComments := by
  unfold pathArgument?
  split
  · rfl
  · exact argument?_withoutComments h _
  · exact argument?_withoutComments h _
  · rfl

end Usage

/-- The path of a call is the same. -/
theorem Lint.pathOf?_withoutComments (h : n.CommentsAside) :
    pathOf? u n.withoutComments = (pathOf? u n).map withoutComments := by
  rw [pathOf?, Usage.classify?_withoutComments h, pathOf?, Option.map_bind]
  congr 1
  funext ⟨method, form⟩
  exact Usage.pathArgument?_withoutComments h method form

/-- What holds of the comments in a call holds of those in its path. -/
theorem JavaScript.Node.CommentsAside.of_pathOf? {path : Node} (h : n.CommentsAside)
    (hpath : Lint.pathOf? u n = some path) : path.CommentsAside := by
  obtain ⟨list, hlist, -, argument, hargument, hpath⟩ := Lint.pathOf?_cases hpath
  exact ((h.of_child hlist).of_child hargument).of_unwrap hpath

/-! ## Nested calls -/

namespace Chaining

/-- A call of a library method stays one. -/
theorem callsLibrary_withoutComments (h : n.CommentsAside) :
    CallsLibrary u n.withoutComments ↔ CallsLibrary u n := by
  rw [CallsLibrary, Usage.libraryMethod?_withoutComments h, CallsLibrary]

/-- A call that an implicit chain can hold stays one. -/
theorem callsChainable_withoutComments (h : n.CommentsAside) :
    CallsChainable u n.withoutComments ↔ CallsChainable u n := by
  rw [CallsChainable, Usage.libraryMethod?_withoutComments h, CallsChainable]

/-- As many nodes that pass a test are met in a row, if the test does not see comments. -/
theorem meets_withoutComments {test : Node → Prop} {count : Nat} {first : Option Node}
    (htest : ∀ {m : Node}, m.CommentsAside → (test m.withoutComments ↔ test m))
    (hfirst : ∀ m, first = some m → m.CommentsAside) :
    Meets test count (first.map withoutComments) ↔ Meets test count first := by
  induction count generalizing first with
  | zero => simp [meets_zero]
  | succ count ih =>
    cases first with
    | none => rfl
    | some m =>
      -- The test sees no comment in the node, and the first argument is the same.
      have hm := hfirst m rfl
      rw [Option.map_some, meets_succ, meets_succ, htest hm, argument?_withoutComments hm,
        ih fun a ha => hm.of_argument? ha]

/-- A call is nested as deep, so that it is reported for the same depths. -/
theorem isNested_withoutComments (h : n.CommentsAside) (anyMethod : Bool) (levels : Int) :
    isNested u anyMethod levels n.withoutComments = isNested u anyMethod levels n := by
  rw [Bool.eq_iff_iff]
  cases anyMethod with
  | true =>
    have hmeets : Meets (CallsLibrary u) levels.toNat (some n.withoutComments) ↔
        Meets (CallsLibrary u) levels.toNat (some n) :=
      meets_withoutComments callsLibrary_withoutComments fun m hm => Option.some.inj hm ▸ h
    rw [isNested_any_iff, isNested_any_iff, hmeets]
  | false =>
    rw [isNested_chainable_iff, isNested_chainable_iff, callsLibrary_withoutComments h,
      argument?_withoutComments h,
      meets_withoutComments callsChainable_withoutComments fun m hm => h.of_argument? hm]

end Chaining

/-! ## Paths -/

namespace PathStyle

/-- A violation is reported where the node stands. -/
@[simp] theorem violation_withoutComments (n : Node) (advice : Advice) (replacement : Option Text) :
    Verdict.violation n.withoutComments advice replacement = .violation n advice replacement := by
  rw [Verdict.violation, extent_withoutComments, Verdict.violation]

/-- An array of literals may have comments between its elements. -/
theorem isLiteralArray_withoutComments (n : Node) : isLiteralArray n.withoutComments = isLiteralArray n := by
  rw [isLiteralArray, kind_withoutComments, parts_withoutComments, List.isEmpty_map, List.all_map,
    isLiteralArray]
  simp only [Function.comp_def, isLiteral_withoutComments]

/-- Whether an array may become a string rests on the kinds of its elements. -/
theorem isConvertible_withoutComments (n : Node) : isConvertible n.withoutComments = isConvertible n := by
  rw [isConvertible, parts_withoutComments, List.isEmpty_map, List.any_map, isConvertible]
  simp only [Function.comp_def, kind_withoutComments]

/-- The key that a literal stands for is in its text. -/
@[simp] theorem literalKey_withoutComments (n : Node) : literalKey n.withoutComments = literalKey n := by
  rw [literalKey, kind_withoutComments, text_withoutComments, literalKey]

/-- An array of literals stands for the same keys. -/
theorem literalPath_withoutComments (n : Node) : literalPath n.withoutComments = literalPath n := by
  rw [literalPath, parts_withoutComments, List.mapM_map, literalPath]
  simp only [Function.comp_def, literalKey_withoutComments]

/-- The segments of a template are made from the texts of the elements. -/
theorem templateSegments_map_withoutComments (nodes : List Node) :
    templateSegments (nodes.map withoutComments) = templateSegments nodes := by
  induction nodes with
  | nil => rfl
  | cons n rest ih =>
    rw [List.map_cons, templateSegments, isLiteral_withoutComments, literalKey_withoutComments,
      text_withoutComments, ih, templateSegments]

/-- The replacement of an array by a string or a template is the same. -/
theorem stringStyle_withoutComments (n : Node) : stringStyle n.withoutComments = stringStyle n := by
  rw [stringStyle, isLiteralArray_withoutComments, literalPath_withoutComments, templatePath,
    parts_withoutComments, templateSegments_map_withoutComments, stringStyle, templatePath]

/-- The replacement of a string by an array is the same. -/
theorem arrayStyle_withoutComments (n : Node) : arrayStyle n.withoutComments = arrayStyle n := by
  rw [arrayStyle, text_withoutComments, arrayStyle]

/-- Whether operands are glued at a dot or bracket rests on their kinds and texts. -/
theorem gluedOperands_map_withoutComments (nodes : List Node) :
    gluedOperands (nodes.map withoutComments) = gluedOperands nodes := by
  induction nodes with
  | nil => rfl
  | cons a rest ih =>
    cases rest with
    | nil => rfl
    | cons b rest =>
      rw [List.map_cons] at ih
      rw [List.map_cons, List.map_cons, gluedOperands, ih, gluedOperands]
      simp only [kind_withoutComments, isLiteral_withoutComments, text_withoutComments]

/-- A path has the same shape. -/
theorem shapeOf_withoutComments (h : n.CommentsAside) : shapeOf n.withoutComments = shapeOf n := by
  have haddition : isGluedAddition n.withoutComments = isGluedAddition n := by
    rw [isGluedAddition, kind_withoutComments, operands_withoutComments h, gluedOperands_map_withoutComments,
      isGluedAddition]
  have htemplate : isGluedTemplate n.withoutComments = isGluedTemplate n := by
    rw [isGluedTemplate, kind_withoutComments, quasis_withoutComments, isGluedTemplate]
  rw [shapeOf, kind_withoutComments, isLiteralArray_withoutComments, haddition, htemplate, shapeOf]

/-- The verdict on a path is the same. -/
theorem judge_withoutComments (style : PathStyle) (h : n.CommentsAside) :
    judge style n.withoutComments = judge style n := by
  rw [judge, unwrap_withoutComments, judge]
  cases hinner : n.unwrap with
  | none => rfl
  | some inner =>
    -- What each style says rests on the parts and texts of the argument and on where it stands.
    have hasNeeded : ∀ shape, judgeAsNeeded inner.withoutComments shape = judgeAsNeeded inner shape := by
      intro shape
      simp only [judgeAsNeeded, violation_withoutComments, literalPath_withoutComments]
    have harray : ∀ shape, judgeArray inner.withoutComments shape = judgeArray inner shape := by
      intro shape
      simp only [judgeArray, violation_withoutComments, arrayStyle_withoutComments]
    have hstring : ∀ shape, judgeString inner.withoutComments shape = judgeString inner shape := by
      intro shape
      simp only [judgeString, violation_withoutComments, isConvertible_withoutComments,
        stringStyle_withoutComments]
    dsimp only [Option.map_some]
    simp only [shapeOf_withoutComments (h.of_unwrap hinner), hasNeeded, harray, hstring]

/-- An array that cannot become a string is found at the same place. -/
theorem unconvertible?_withoutComments (style : PathStyle) (n : Node) :
    unconvertible? style n.withoutComments = (unconvertible? style n).map withoutComments := by
  rw [unconvertible?, unwrap_withoutComments, Option.filter_map, unconvertible?]
  simp only [Function.comp_def, kind_withoutComments, isConvertible_withoutComments]

end PathStyle

end LodashStyle
