import LodashStyle.Proofs.MirroredTrees

/-!
# Trees in which paths are replaced

A pass writes some paths in another form.  In the tree of the source each of these paths makes way for
the literal that its replacement denotes: a string, an array of strings, or a template whose
substitutions hold the elements of an array that are no literals.  `replacePaths` makes this tree, up to
the places of its nodes, and `Alike` says that another tree is the same but for places.

## Key results

- `Node.argument?_setArgument`, `Node.perm_setArgument`: an argument of a call that is exchanged for
  another node
- `PathStyle.weight_denoted`: what stands in a path stands in the literal in its place
- `Lint.mirrors_replacePaths`, `mirrors_alike`: both change nothing that calls are told by
-/

namespace LodashStyle

open JavaScript

/-! ## Arguments exchanged for others -/

namespace JavaScript.Node

mutual

/-- The tree with `q` in the place of the expression inside any number of parentheses. -/
def rewrap (q : Node) : Node → Node
  | .mk label children =>
    if label.kind = .parenthesized then .mk label (rewrapFirst q children) else q

/-- The nodes with `q` in the place of the expression inside the first one that counts. -/
def rewrapFirst (q : Node) : List Node → List Node
  | [] => []
  | n :: rest => if n.isPart then rewrap q n :: rest else n :: rewrapFirst q rest

end

/-- The nodes with `q` in the place of the expression inside the one that counts at an index. -/
def setPart (q : Node) : Nat → List Node → List Node
  | _, [] => []
  | 0, n :: rest => if n.isPart then rewrap q n :: rest else n :: setPart q 0 rest
  | index + 1, n :: rest => n :: setPart q (if n.isPart then index else index + 1) rest

/-- The children of a call with `q` in the place of an argument. -/
def setArgumentIn (q : Node) (index : Nat) : List Node → List Node
  | [] => []
  | n :: rest =>
    if n.role == some .arguments then .mk n.label (setPart q index n.children) :: rest
    else n :: setArgumentIn q index rest

/-- The call with `q` in the place of an argument, parentheses around it being kept. -/
def setArgument (n : Node) (index : Nat) (q : Node) : Node :=
  .mk n.label (setArgumentIn q index n.children)

variable {n p q : Node} {ns : List Node} {index : Nat}

/-- What takes the place of a part is a part. -/
theorem isPart_rewrap (hn : n.isPart = true) (hq : q.isPart = true) : (rewrap q n).isPart = true := by
  obtain ⟨label, children⟩ := n
  rw [rewrap]
  split
  · exact hn
  · exact hq

/-- What was put inside parentheses stands there. -/
theorem unwrap_rewrap (h : n.unwrap = some p) (hq : q.unwrap = some q) (hpart : q.isPart = true) :
    (rewrap q n).unwrap = some q := by
  induction n using Node.induction with
  | mk label children ih =>
    rw [rewrap]
    rw [unwrap] at h
    split
    · rename_i hkind
      rw [if_pos hkind] at h
      rw [unwrap, if_pos hkind]
      -- The comments before the expression stay, and it is still the first child that counts.
      induction children with
      | nil => cases h
      | cons c rest ihrest =>
        rw [unwrapFirst] at h
        rw [rewrapFirst]
        split
        · rename_i hc
          rw [if_pos hc] at h
          rw [unwrapFirst, if_pos (isPart_rewrap hc hpart)]
          exact ih c List.mem_cons_self h
        · rename_i hc
          rw [if_neg hc] at h
          rw [unwrapFirst, if_neg hc]
          exact ihrest (fun d hd => ih d (List.mem_cons_of_mem c hd)) h
    · exact hq

theorem setPart_of_not_isPart (hn : ¬n.isPart = true) :
    setPart q index (n :: ns) = n :: setPart q index ns := by
  cases index <;> rw [setPart, if_neg hn]

/-- The new part is found where the old one was. -/
theorem unwrap_setPart (h : ((ns.filter isPart)[index]?).bind unwrap = some p)
    (hq : q.unwrap = some q) (hpart : q.isPart = true) :
    (((setPart q index ns).filter isPart)[index]?).bind unwrap = some q := by
  induction ns generalizing index with
  | nil => exact nomatch h
  | cons n rest ih =>
    rw [List.filter_cons] at h
    by_cases hn : n.isPart = true
    · rw [if_pos hn] at h
      cases index with
      | zero =>
        rw [setPart, if_pos hn, List.filter_cons, if_pos (isPart_rewrap hn hpart)]
        exact unwrap_rewrap h hq hpart
      | succ index =>
        rw [setPart, if_pos hn, List.filter_cons, if_pos hn]
        exact ih h
    · rw [if_neg hn] at h
      rw [setPart_of_not_isPart hn, List.filter_cons, if_neg hn]
      exact ih h

/-- The first child in a role, after an argument was exchanged. -/
theorem find_setArgumentIn (q : Node) (index : Nat) (role : Role) (ns : List Node) :
    (setArgumentIn q index ns).find? (·.role == some role) =
      (ns.find? (·.role == some role)).map fun c =>
        if role = .arguments then .mk c.label (setPart q index c.children) else c := by
  induction ns with
  | nil => rfl
  | cons n rest ih =>
    rw [setArgumentIn]
    -- The argument list keeps its role, so that it is found where it was.
    have hrole : ∀ children, (mk n.label children).role = n.role := fun _ => rfl
    split
    · rename_i hn
      rw [List.find?_cons, List.find?_cons, hrole, eq_of_beq hn]
      by_cases hrole : role = .arguments
      · simp [hrole]
      · have hne : (some Role.arguments == some role) = false := by
          simp [Ne.symm hrole]
        simp [hne, hrole]
    · rename_i hn
      rw [List.find?_cons, List.find?_cons, ih]
      cases hfound : n.role == some role with
      | false => rfl
      | true =>
        have hne : role ≠ .arguments := by
          rintro rfl
          exact hn hfound
        simp [hne]

/-- The callee stays, whichever argument is replaced. -/
theorem callee?_setArgument (n : Node) (index : Nat) (q : Node) :
    (n.setArgument index q).callee? = n.callee? := by
  rw [callee?, child?, setArgument, children_mk, find_setArgumentIn]
  simp [callee?, child?]

/-- The argument that was put into a call is the argument of the call. -/
theorem argument?_setArgument (h : n.argument? index = some p) (hq : q.unwrap = some q)
    (hpart : q.isPart = true) : (n.setArgument index q).argument? index = some q := by
  unfold argument? arguments at h ⊢
  rw [child?, setArgument, children_mk, find_setArgumentIn]
  rw [child?] at h
  cases hlist : n.children.find? (·.role == some .arguments) with
  | none =>
    rw [hlist] at h
    cases h
  | some list =>
    rw [hlist] at h
    dsimp only at h
    split at h
    · rename_i hkind
      have hkind' : (mk list.label (setPart q index list.children)).kind == .arguments := hkind
      simp only [Option.map_some, if_true, hkind']
      exact unwrap_setPart h hq hpart
    · cases h

/-! ### What stands in them -/

section Weights

variable {α : Type} {W : Node → List α}

theorem perm_append_tail {a b c d : List α} (h : (a ++ c).Perm (b ++ d)) (r : List α) :
    (a ++ r ++ c).Perm (b ++ r ++ d) := by
  have hmove : ∀ x y : List α, (x ++ r ++ y).Perm (x ++ y ++ r) := by
    intro x y
    rw [List.append_assoc, List.append_assoc]
    exact List.perm_append_comm.append_left x
  exact (hmove a c).trans ((h.append_right r).trans (hmove b d).symm)

theorem perm_append_head {a b c d : List α} (h : (a ++ c).Perm (b ++ d)) (r : List α) :
    (r ++ a ++ c).Perm (r ++ b ++ d) := by
  rw [List.append_assoc, List.append_assoc]
  exact h.append_left r

variable (hW : ∀ n : Node, n.kind ≠ .call → W n = n.children.flatMap W)
include hW

/-- Replacing what parentheses hold exchanges its nodes for the new ones. -/
theorem perm_rewrap (h : n.unwrap = some p) : (W (rewrap q n) ++ W p).Perm (W n ++ W q) := by
  induction n using Node.induction with
  | mk label children ih =>
    rw [rewrap]
    rw [unwrap] at h
    split
    · rename_i hkind
      rw [if_pos hkind] at h
      -- Parentheses add nothing of their own.
      have hcall : ∀ cs, (mk label cs).kind ≠ .call := by
        intro cs
        rw [kind, label_mk, hkind]
        decide
      rw [hW _ (hcall _), hW _ (hcall _), children_mk, children_mk]
      clear hkind hcall
      induction children with
      | nil => cases h
      | cons c rest ihrest =>
        rw [unwrapFirst] at h
        rw [rewrapFirst]
        split
        · rename_i hc
          rw [if_pos hc] at h
          rw [List.flatMap_cons, List.flatMap_cons]
          exact perm_append_tail (ih c List.mem_cons_self h) _
        · rename_i hc
          rw [if_neg hc] at h
          rw [List.flatMap_cons, List.flatMap_cons]
          exact perm_append_head (ihrest (fun d hd => ih d (List.mem_cons_of_mem c hd)) h) _
    · rename_i hkind
      rw [if_neg hkind] at h
      obtain rfl := Option.some.inj h
      exact List.perm_append_comm

/-- So does replacing a part among others. -/
theorem perm_setPart (h : ((ns.filter isPart)[index]?).bind unwrap = some p) :
    ((setPart q index ns).flatMap W ++ W p).Perm (ns.flatMap W ++ W q) := by
  induction ns generalizing index with
  | nil => exact nomatch h
  | cons n rest ih =>
    rw [List.filter_cons] at h
    by_cases hn : n.isPart = true
    · rw [if_pos hn] at h
      cases index with
      | zero =>
        rw [setPart, if_pos hn, List.flatMap_cons, List.flatMap_cons]
        exact perm_append_tail (perm_rewrap hW h) _
      | succ index =>
        rw [setPart, if_pos hn, List.flatMap_cons, List.flatMap_cons]
        exact perm_append_head (ih h) _
    · rw [if_neg hn] at h
      rw [setPart_of_not_isPart hn, List.flatMap_cons, List.flatMap_cons]
      exact perm_append_head (ih h) _

/-- What stands in the children of a call after an argument was exchanged for another one. -/
theorem perm_setArgument (h : n.argument? index = some p) :
    ((n.setArgument index q).children.flatMap W ++ W p).Perm (n.children.flatMap W ++ W q) := by
  unfold argument? arguments child? at h
  rw [setArgument, children_mk]
  generalize n.children = children at h
  induction children with
  | nil => cases h
  | cons c rest ih =>
    rw [setArgumentIn]
    by_cases hc : (c.role == some .arguments) = true
    · rw [List.find?_cons, hc] at h
      dsimp only at h
      split at h
      · rename_i hkind
        -- An argument list is no call, so that it weighs what stands in it.
        have hcall : c.kind ≠ .call := by
          rw [eq_of_beq hkind]
          decide
        rw [if_pos hc, List.flatMap_cons, List.flatMap_cons, hW c hcall,
          hW (mk c.label (setPart q index c.children)) hcall]
        exact perm_append_tail (perm_setPart hW h) _
      · cases h
    · rw [List.find?_cons, Bool.eq_false_iff.2 hc] at h
      rw [if_neg hc, List.flatMap_cons, List.flatMap_cons]
      exact perm_append_head (ih h) _

/-- Without a call nothing stands in a tree. -/
theorem weight_of_not_isCall (h : ∀ m ∈ n.nodes, m.isCall = false) : W n = [] := by
  induction n using Node.induction with
  | mk label children ih =>
    have hkind : (mk label children).kind ≠ .call := by
      intro hkind
      have hcall := h _ (mem_nodes_self _)
      rw [isCall, hkind] at hcall
      exact absurd hcall (by decide)
    rw [hW _ hkind, List.flatMap_eq_nil_iff]
    intro c hc
    exact ih c hc fun m hm => h m (mem_nodes_of_child hc hm)

end Weights

end JavaScript.Node

/-! ## The literals of replacements -/

namespace PathStyle

/-- The keys of a string path. -/
def keysOf (p : Node) : List Text :=
  match stringValue p.text with
  | .ok value => PropertyPath.split value
  | .error _ => []

/-- The literal that the replacement `text` of a path denotes. -/
def denoted (style : PathStyle) (text : Text) (p : Node) : Node :=
  let literal (kind : Kind) (children : List Node) : Node := .mk ⟨kind, p.role, p.extent, text⟩ children
  if style = .array then
    literal .array ((keysOf p).map fun key => .mk ⟨.string, none, p.extent, PropertyPath.quote "'" key⟩ [])
  else if isLiteralArray p then literal .string []
  else
    literal .templateString ((p.parts.filter fun e => !e.isLiteral).map fun e =>
      .mk ⟨.templateSubstitution, none, e.extent, "$\x7b" ++ e.text ++ ("\x7d" : Text)⟩ [e])

variable {style : PathStyle} {text : Text} {p : Node}

/-- The literal in the place of a path is of another kind than what the style replaces. -/
theorem kind_denoted (style : PathStyle) (text : Text) (p : Node) :
    (denoted style text p).kind =
      if style = .array then .array else if isLiteralArray p then .string else .templateString := by
  unfold denoted
  dsimp only
  split
  · rfl
  · split <;> rfl

theorem isPart_denoted : (denoted style text p).isPart = true := by
  rw [Node.isPart, kind_denoted]
  split
  · rfl
  · split <;> rfl

theorem unwrap_denoted : (denoted style text p).unwrap = some (denoted style text p) := by
  apply Node.unwrap_of_kind
  rw [kind_denoted]
  split
  · decide
  · split <;> decide

/-- The literal in the place of a path that is replaced is what the style asks for. -/
theorem judge_denoted (hp : Lint.IsReplaced p style) :
    judge style (denoted style text p) = .ok .compliant := by
  have hkind := kind_denoted style text p
  rw [judge, unwrap_denoted]
  dsimp only
  -- In each style the kind of the literal alone decides; a template may be glued in style `string`.
  cases style with
  | asNeeded =>
    have hliteral : isLiteralArray p = true := hp
    rw [if_neg (by decide), if_pos hliteral] at hkind
    rw [shapeOf, hkind]
    rfl
  | array =>
    rw [if_pos rfl] at hkind
    rw [shapeOf, hkind]
    cases hliteral : isLiteralArray (denoted .array text p) <;> rfl
  | string =>
    rw [if_neg (by decide)] at hkind
    rw [shapeOf, hkind]
    cases isLiteralArray p with
    | true => rfl
    | false => cases hglued : isGluedTemplate (denoted .string text p) <;> rfl

/-! ### What stands in a path -/

section Weight

variable {α : Type} {W : Node → List α} (hW : ∀ n : Node, n.kind ≠ .call → W n = n.children.flatMap W)
  (hlayout : ∀ n ∈ p.nodes, n.LaidOut)
include hW hlayout

/-- A child of a path that is a literal, a comment or an empty slot holds nothing. -/
theorem weight_atom {c : Node} (hc : c ∈ p.children) (hatom : c.isLiteral = true ∨ c.isPart = false) :
    W c = [] := by
  have hcalls := (hlayout c (Node.mem_nodes_of_child hc (Node.mem_nodes_self c))).atoms hatom
  exact Node.weight_of_not_isCall hW hcalls

/-- An array holds what its elements hold that are no literals. -/
theorem weight_array (hkind : p.kind = .array) :
    W p = (p.parts.filter fun e => !e.isLiteral).flatMap W := by
  have hatom : ∀ c ∈ p.children, c.isLiteral = true ∨ c.isPart = false → W c = [] :=
    fun c hc => weight_atom hW hlayout hc
  rw [hW p (by rw [hkind]; decide), Node.parts, List.filter_filter]
  -- The children are gone through one by one, whatever they are children of.
  clear hlayout hkind
  generalize p.children = children at hatom
  induction children with
  | nil => rfl
  | cons c rest ih =>
    rw [List.forall_mem_cons] at hatom
    rw [List.flatMap_cons, ih hatom.2, List.filter_cons]
    split
    · rfl
    · rename_i hc
      rw [hatom.1 (by simpa [Classical.or_iff_not_imp_left] using hc)]
      rfl

/-- What stands in a path that is replaced stands in the literal in its place. -/
theorem weight_denoted (hp : Lint.IsReplaced p style) : W (denoted style text p) = W p := by
  have hmk : ∀ (kind : Kind) (role : Option Role) (extent : Extent) (t : Text) (cs : List Node),
      kind ≠ .call → W (.mk ⟨kind, role, extent, t⟩ cs) = cs.flatMap W :=
    fun _ _ _ _ _ hkind => hW (.mk _ _) hkind
  unfold denoted
  dsimp only
  split
  · -- A string and the strings of its keys hold nothing.
    rename_i hstyle
    subst hstyle
    have hkind : p.kind = .string := hp
    have hcalls := (hlayout p (Node.mem_nodes_self p)).atoms (.inl (isLiteral_of_string hkind))
    rw [Node.weight_of_not_isCall hW hcalls, hmk .array _ _ _ _ (by decide), List.flatMap_eq_nil_iff]
    intro c hc
    obtain ⟨key, -, rfl⟩ := List.mem_map.1 hc
    exact hmk .string _ _ _ [] (by decide)
  · rename_i hstyle
    have hkind : p.kind = .array := by
      cases style with
      | asNeeded => exact kind_of_isLiteralArray hp
      | array => exact absurd rfl hstyle
      | string => exact hp
    rw [weight_array hW hlayout hkind]
    split
    · -- Nor does an array of literals.
      rename_i hliteral
      simp only [isLiteralArray, Bool.and_eq_true, List.all_eq_true] at hliteral
      have hnone : (p.parts.filter fun e => !e.isLiteral) = [] := by
        rw [List.filter_eq_nil_iff]
        intro e he
        simp [hliteral.2 e he]
      rw [hmk .string _ _ _ _ (by decide), hnone]
    · -- Each other element is in a substitution of the template.
      rw [hmk .templateString _ _ _ _ (by decide), List.flatMap_map]
      refine List.flatMap_congr fun e _ => ?_
      rw [hmk .templateSubstitution _ _ _ _ (by decide), List.flatMap_singleton]

end Weight

end PathStyle

/-! ## The tree after a pass -/

namespace Lint

mutual

/-- The tree with the paths replaced whose fixes were applied.  What stands in such a path is taken over
    as it is. -/
def replacePaths (config : Config) (u : Usage) (applied : List Fix) : Node → Node
  | .mk label children =>
    let call : Node := .mk label children
    let below : Node := .mk label (replaceAllPaths config u applied children)
    match fixOf? config u call, pathIndex? u call, pathOf? u call with
    | some f, some index, some p =>
      if f ∈ applied then below.setArgument index (PathStyle.denoted config.pathStyle f.text p)
      else below
    | _, _, _ => below

/-- The trees with such paths replaced. -/
def replaceAllPaths (config : Config) (u : Usage) (applied : List Fix) : List Node → List Node
  | [] => []
  | n :: rest => replacePaths config u applied n :: replaceAllPaths config u applied rest

end

variable {config : Config} {u : Usage} {applied : List Fix} {n p : Node} {f : Fix} {index : Nat}

/-- The paths of several trees are replaced in one tree after the other. -/
theorem replaceAllPaths_eq (children : List Node) :
    replaceAllPaths config u applied children = children.map (replacePaths config u applied) := by
  induction children with
  | nil => rfl
  | cons n rest ih => rw [replaceAllPaths, ih, List.map_cons]

/-- The tree with the paths in its children replaced. -/
def replaceBelow (config : Config) (u : Usage) (applied : List Fix) (n : Node) : Node :=
  .mk n.label (n.children.map (replacePaths config u applied))

/-- The path of a call that has a fix is one of its arguments. -/
theorem exists_pathIndex (h : pathOf? u n = some p) :
    ∃ index, pathIndex? u n = some index ∧ n.argument? index = some p := by
  rw [pathOf?_eq] at h
  exact Option.bind_eq_some_iff.1 h

/-- A call without an applied fix keeps its path, and only what is below it changes. -/
theorem replacePaths_of_not_mem (h : ∀ f, fixOf? config u n = some f → f ∉ applied) :
    replacePaths config u applied n = replaceBelow config u applied n := by
  obtain ⟨label, children⟩ := n
  rw [replacePaths, replaceAllPaths_eq]
  split
  · rename_i f index p hf _ _
    rw [if_neg (h f hf)]
    rfl
  · rfl

/-- A call with an applied fix has what the replacement denotes in the place of its path. -/
theorem replacePaths_of_mem (hfix : fixOf? config u n = some f) (hmem : f ∈ applied)
    (hindex : pathIndex? u n = some index) (hpath : pathOf? u n = some p) :
    replacePaths config u applied n = (replaceBelow config u applied n).setArgument index
      (PathStyle.denoted config.pathStyle f.text p) := by
  obtain ⟨label, children⟩ := n
  rw [replacePaths, replaceAllPaths_eq, hfix, hindex, hpath]
  exact if_pos hmem

/-- The fix of a call is applied or not. -/
theorem replacePaths_cases (config : Config) (u : Usage) (applied : List Fix) (n : Node) :
    ((∀ f, fixOf? config u n = some f → f ∉ applied) ∧
      replacePaths config u applied n = replaceBelow config u applied n) ∨
    ∃ f index p, fixOf? config u n = some f ∧ f ∈ applied ∧ pathIndex? u n = some index ∧
      pathOf? u n = some p ∧ n.argument? index = some p ∧ IsFixOf config.pathStyle p f ∧
      replacePaths config u applied n = (replaceBelow config u applied n).setArgument index
        (PathStyle.denoted config.pathStyle f.text p) := by
  by_cases h : ∃ f, fixOf? config u n = some f ∧ f ∈ applied
  · obtain ⟨f, hfix, hmem⟩ := h
    obtain ⟨p, hpath, hisFix⟩ := fixOf?_path hfix
    obtain ⟨index, hindex, hargument⟩ := exists_pathIndex hpath
    exact .inr ⟨f, index, p, hfix, hmem, hindex, hpath, hargument, hisFix,
      replacePaths_of_mem hfix hmem hindex hpath⟩
  · have hnone : ∀ f, fixOf? config u n = some f → f ∉ applied := fun f hf hmem => h ⟨f, hf, hmem⟩
    exact .inl ⟨hnone, replacePaths_of_not_mem hnone⟩

/-- No node changes its label. -/
theorem label_replacePaths (n : Node) : (replacePaths config u applied n).label = n.label := by
  obtain ⟨-, h⟩ | ⟨f, index, p, -, -, -, -, -, -, h⟩ := replacePaths_cases config u applied n
  · rw [h]
    rfl
  · rw [h]
    rfl

/-- The children of a node are replaced one by one. -/
theorem forall₂_replacePaths (children : List Node) :
    List.Forall₂ (fun n m => m = replacePaths config u applied n) children
      (children.map (replacePaths config u applied)) := by
  induction children with
  | nil => exact .nil
  | cons n rest ih => exact .cons rfl ih

/-- What calls are told by stays as it was when paths are replaced. -/
theorem mirrors_replacePaths (config : Config) (u : Usage) (applied : List Fix) :
    Mirrors fun n m => m = replacePaths config u applied n := by
  have hrole : ∀ {n m : Node}, m = replacePaths config u applied n → m.role = n.role := by
    rintro n m rfl
    rw [Node.role, label_replacePaths]
    rfl
  refine ⟨?_, hrole, ?_, ?_, ?_⟩
  · rintro n m rfl
    rw [Node.kind, label_replacePaths]
    rfl
  · rintro n m rfl -
    rw [Node.text, label_replacePaths]
    rfl
  · rintro n m rfl hkind
    -- What is no call has no fix, so that only what stands in its children is replaced.
    have hnone : ∀ f, fixOf? config u n = some f → f ∉ applied := by
      intro f hf
      simp [fixOf?, Node.isCall, hkind] at hf
    rw [replacePaths_of_not_mem hnone]
    exact forall₂_replacePaths n.children
  · rintro n m rfl
    have hbelow := rel_find_role hrole (forall₂_replacePaths n.children) .callee
    obtain ⟨-, h⟩ | ⟨f, index, p, -, -, -, -, -, -, h⟩ := replacePaths_cases config u applied n
    · rw [h]
      exact hbelow
    · rw [h, Node.callee?_setArgument]
      exact hbelow

/-- A tree without a fix that was applied stays as it is. -/
theorem replacePaths_eq_self (h : ∀ f ∈ fixesIn config u n, f ∉ applied) :
    replacePaths config u applied n = n := by
  induction n using Node.induction with
  | mk label children ih =>
    have hfix : ∀ f, fixOf? config u (.mk label children) = some f → f ∉ applied := by
      intro f hf
      apply h f
      rw [fixesIn_eq, hf]
      exact List.mem_append_left _ List.mem_cons_self
    have hchildren : children.map (replacePaths config u applied) = children := by
      refine (List.map_congr_left fun c hc => ?_).trans (List.map_id children)
      apply ih c hc
      intro f hf
      apply h f
      rw [fixesIn_eq]
      exact List.mem_append_right _ (List.mem_flatMap.2 ⟨c, hc, hf⟩)
    rw [replacePaths_of_not_mem hfix, replaceBelow, Node.children_mk, hchildren]
    rfl

end Lint

/-! ## Trees that are the same but for places -/

namespace JavaScript

namespace Node

mutual

/-- Whether two trees have the same kinds and roles and the same spelling of names and literals.  Where
    they stand does not matter, nor does the text of what has parts of its own. -/
def alike : Node → Node → Bool
  | .mk l ns, .mk l' ms =>
    l'.kind == l.kind && l'.role == l.role && (!l.kind.isSpelled || l'.text == l.text) && allAlike ns ms

/-- Whether trees are alike one by one. -/
def allAlike : List Node → List Node → Bool
  | [], [] => true
  | n :: ns, m :: ms => alike n m && allAlike ns ms
  | _, _ => false

end

theorem allAlike_iff {ns ms : List Node} :
    allAlike ns ms = true ↔ List.Forall₂ (fun n m => n.alike m = true) ns ms := by
  induction ns generalizing ms with
  | nil => cases ms <;> simp [allAlike]
  | cons n ns ih => cases ms <;> simp [allAlike, ih]

/-- Trees are alike if their kinds, roles and spelled texts agree throughout. -/
theorem alike_iff {n m : Node} :
    n.alike m = true ↔ m.kind = n.kind ∧ m.role = n.role ∧
      (n.kind.isSpelled = true → m.text = n.text) ∧
      List.Forall₂ (fun a b => a.alike b = true) n.children m.children := by
  obtain ⟨l, ns⟩ := n
  obtain ⟨l', ms⟩ := m
  simp only [alike, Bool.and_eq_true, beq_iff_eq, Bool.or_eq_true, Bool.not_eq_true', allAlike_iff, kind,
    role, text, label_mk, children_mk, Bool.eq_false_iff, ← imp_iff_not_or, and_assoc, ne_eq]

/-- The nodes of trees that are alike are alike one by one. -/
theorem alike_nodes {n m : Node} (h : n.alike m = true) :
    List.Forall₂ (fun a b => a.alike b = true) n.nodes m.nodes := by
  induction n using Node.induction generalizing m with
  | mk label children ih =>
    obtain ⟨-, -, -, hchildren⟩ := alike_iff.1 h
    rw [nodes_eq, nodes_eq]
    refine .cons h ?_
    rw [children_mk] at hchildren ⊢
    clear h
    generalize m.children = children' at hchildren
    induction hchildren with
    | nil => exact .nil
    | cons hab _ ihrest =>
      rw [List.flatMap_cons, List.flatMap_cons]
      refine List.rel_append (ih _ List.mem_cons_self hab) ?_
      exact ihrest fun c hc => ih c (List.mem_cons_of_mem _ hc)

end Node

/-- Trees that are alike mirror one another. -/
theorem mirrors_alike : Mirrors fun n m => n.alike m = true where
  kind h := (Node.alike_iff.1 h).1
  role h := (Node.alike_iff.1 h).2.1
  text h := (Node.alike_iff.1 h).2.2.1
  children h _ := (Node.alike_iff.1 h).2.2.2
  callee h := rel_find_role (fun h => (Node.alike_iff.1 h).2.1) (Node.alike_iff.1 h).2.2.2 .callee

end JavaScript

end LodashStyle
