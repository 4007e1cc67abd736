import LodashStyle.Proofs.MirroredTrees
import LodashStyle.Proofs.PathPieces
import LodashStyle.Proofs.StringQuoting

/-!
# Templates and additions of the same path

A path with variables in it can be a template, or an addition of strings and variables.  The template
is judged by the texts around its substitutions, the addition by going through its operands two by
two.  Where both spell the same chunks with the same expressions between them, both are judged alike:
a variable is glued to a `.` or `[` in the one exactly when it is in the other.

The chunks may hold anything but a backslash, so that they are spelled alike in both.

## Key results

- `IsTemplate.shapeOf_eq`: a template is judged by its chunks
- `IsAddition.alternates`: the operands of the addition are the chunks and expressions in turn
- `Alternates.gluedOperands_eq`: the operands are judged by the chunks as the template is
- `path_spellings_judged_alike`: so the template and the addition are judged alike
-/

namespace LodashStyle

open JavaScript

namespace JavaScript

theorem cook_of_not_mem {t : Text} (h : .scalar '\\' ∉ t) : cook t = .ok t := by
  induction t with
  | nil => rfl
  | cons p rest ih =>
    rw [List.mem_cons, not_or] at h
    have hp : p.isChar '\\' = false := by
      rw [Bool.eq_false_iff, ne_eq, CodePoint.isChar_iff]
      exact fun hp => h.1 hp.symm
    rw [cook_cons hp, ih h.2]
    rfl

end JavaScript

namespace PathStyle

/-! ## Spellings -/

/-- A string literal of a text as it is. -/
def SpellsString (n : Node) (chunk : Text) : Prop :=
  n.kind = .string ∧ ∃ mark, PropertyPath.IsMark mark ∧ n.text = .scalar mark :: (chunk ++ [.scalar mark])

/-- An expression that is no literal and no addition. -/
def IsVariable (n : Node) : Prop := n.isLiteral = false ∧ n.kind ≠ .addition

/-- The addition of two nodes. -/
def Adds (n left right : Node) : Prop :=
  n.kind = .addition ∧ n.child? .left = some left ∧ n.child? .right = some right

/-- A template of chunks with expressions between them. -/
structure IsTemplate (n : Node) (chunks : List Text) (expressions : List Node) : Prop where
  kind : n.kind = .templateString
  substitutions : List.Forall₂ (fun s e => s.text = ("$\x7b" : Text) ++ e.text ++ ("\x7d" : Text))
    n.substitutions expressions
  text : ∃ body, n.text = .scalar '\x60' :: (body ++ [.scalar '\x60']) ∧
    Interleaves (n.extent.start + 1) chunks n.substitutions body

/-- An addition, from left to right, of string literals of chunks with expressions between them. -/
inductive IsAddition : Node → List Text → List Node → Prop where
  | string {n : Node} {chunk : Text} (hn : SpellsString n chunk) : IsAddition n [chunk] []
  | add {n before both e s : Node} {chunks : List Text} {expressions : List Node} {chunk : Text}
    (hbefore : IsAddition before chunks expressions) (he : IsVariable e) (hboth : Adds both before e)
    (hs : SpellsString s chunk) (hn : Adds n both s) :
    IsAddition n (chunks ++ [chunk]) (expressions ++ [e])

/-! ## Operands -/

/-- String literals of chunks and expressions in turn. -/
inductive Alternates : List Node → List Text → List Node → Prop where
  | last {s : Node} {chunk : Text} (hs : SpellsString s chunk) : Alternates [s] [chunk] []
  | next {s e : Node} {rest : List Node} {chunk : Text} {chunks : List Text} {expressions : List Node}
    (hs : SpellsString s chunk) (he : IsVariable e) (hrest : Alternates rest chunks expressions) :
    Alternates (s :: e :: rest) (chunk :: chunks) (e :: expressions)

theorem Alternates.snoc {operands expressions : List Node} {chunks : List Text} {e s : Node} {chunk : Text}
    (h : Alternates operands chunks expressions) (he : IsVariable e) (hs : SpellsString s chunk) :
    Alternates (operands ++ [e, s]) (chunks ++ [chunk]) (expressions ++ [e]) := by
  induction h with
  | last hfirst => exact .next hfirst he (.last hs)
  | next hfirst he' _ ih => exact .next hfirst he' ih

/-- The operands of an addition are those of its left side and those of its right side. -/
theorem Adds.operands_eq {n left right : Node} (h : Adds n left right) :
    n.operands = left.operands ++ right.operands := by
  obtain ⟨hkind, hleft, hright⟩ := h
  rw [Node.operands_of_addition hkind, hleft, hright]
  rfl

/-- The operands of an addition of chunks and expressions are these in turn. -/
theorem IsAddition.alternates {n : Node} {chunks : List Text} {expressions : List Node}
    (h : IsAddition n chunks expressions) : Alternates n.operands chunks expressions := by
  induction h with
  | string hn =>
    rw [Node.operands_of_kind (by rw [hn.1]; decide)]
    exact .last hn
  | @add n before both e s _ _ _ _ he hboth hs hn ih =>
    have hs' : s.kind ≠ .addition := by
      rw [hs.1]
      decide
    have hoperands : n.operands = before.operands ++ [e, s] := by
      rw [hn.operands_eq, hboth.operands_eq, Node.operands_of_kind he.2, Node.operands_of_kind hs',
        List.append_assoc]
      rfl
    rw [hoperands]
    exact ih.snoc he hs

/-! ## Judging -/

theorem SpellsString.stringValue_eq {n : Node} {chunk : Text} (h : SpellsString n chunk)
    (hchunk : .scalar '\\' ∉ chunk) : stringValue n.text = .ok chunk := by
  obtain ⟨-, mark, -, htext⟩ := h
  rw [htext, stringValue, List.tail_cons, List.dropLast_concat]
  exact cook_of_not_mem hchunk

theorem SpellsString.isLiteral {n : Node} {chunk : Text} (h : SpellsString n chunk) :
    n.isLiteral = true := by
  rw [Node.isLiteral, h.1]
  rfl

theorem IsVariable.kind_ne {e : Node} (h : IsVariable e) : e.kind ≠ .string := by
  intro hkind
  have hliteral := h.1
  rw [Node.isLiteral, hkind] at hliteral
  exact absurd hliteral (by decide)

/-- A string and then a variable: the end of the string decides, or what follows does. -/
theorem gluedOperands_string {s e : Node} {rest : List Node} {chunk : Text} (hs : SpellsString s chunk)
    (hchunk : .scalar '\\' ∉ chunk) (he : IsVariable e) :
    gluedOperands (s :: e :: rest) =
      if endsWithAccess chunk then .ok true else gluedOperands (e :: rest) := by
  rw [gluedOperands]
  simp only [hs.1, he.1, hs.isLiteral, hs.stringValue_eq hchunk]
  by_cases hends : endsWithAccess chunk = true
  · simp [hends, bind, Except.bind, pure, Except.pure]
  · simp [hends, bind, Except.bind]

/-- A variable and then a string: the start of the string decides, or what follows does. -/
theorem gluedOperands_variable {s e : Node} {rest : List Node} {chunk : Text} (hs : SpellsString s chunk)
    (hchunk : .scalar '\\' ∉ chunk) (he : IsVariable e) :
    gluedOperands (e :: s :: rest) =
      if startsWithAccess chunk then .ok true else gluedOperands (s :: rest) := by
  rw [gluedOperands]
  simp only [hs.1, he.1, hs.stringValue_eq hchunk]
  by_cases hstarts : startsWithAccess chunk = true
  · simp [hstarts, he.kind_ne, bind, Except.bind, pure, Except.pure]
  · simp [hstarts, he.kind_ne, bind, Except.bind]

theorem Alternates.exists_head {operands expressions : List Node} {chunks : List Text}
    (h : Alternates operands chunks expressions) :
    ∃ s rest chunk later, operands = s :: rest ∧ chunks = chunk :: later ∧ SpellsString s chunk := by
  cases h with
  | last hs => exact ⟨_, _, _, _, rfl, rfl, hs⟩
  | next hs _ _ => exact ⟨_, _, _, _, rfl, rfl, hs⟩

/-- Operands in turn are judged by the chunks alone, as a template is by the texts around its
    substitutions. -/
theorem Alternates.gluedOperands_eq {operands expressions : List Node} {chunks : List Text}
    (h : Alternates operands chunks expressions) (hchunks : ∀ chunk ∈ chunks, .scalar '\\' ∉ chunk) :
    gluedOperands operands = .ok (gluedQuasis chunks) := by
  induction h with
  | last _ => rfl
  | next hs he hrest ih =>
    -- Behind the variable comes the string of the next chunk.
    obtain ⟨s', rest', chunk', later, rfl, rfl, hs'⟩ := hrest.exists_head
    rw [List.forall_mem_cons] at hchunks
    have hchunk' := hchunks.2 chunk' List.mem_cons_self
    rw [gluedOperands_string hs hchunks.1 he, gluedOperands_variable hs' hchunk' he, ih hchunks.2,
      gluedQuasis]
    split
    · rename_i hends
      simp [hends]
    · rename_i hends
      split
      · rename_i hstarts
        simp [hstarts]
      · rename_i hstarts
        simp [hends, hstarts]

/-- A variable is glued where one chunk before it ends, or the one behind it starts, with a `.` or `[`. -/
theorem gluedQuasis_iff (chunks : List Text) :
    gluedQuasis chunks = true ↔
      ∃ before a b after, chunks = before ++ a :: b :: after ∧
        (endsWithAccess a = true ∨ startsWithAccess b = true) := by
  induction chunks with
  | nil => simp [gluedQuasis]
  | cons a chunks ih =>
    cases chunks with
    | nil =>
      -- One chunk stands beside no other.
      simp only [gluedQuasis, Bool.false_eq_true, false_iff]
      rintro ⟨before, c, d, after, heq, -⟩
      have hlength := congrArg List.length heq
      simp only [List.length_append, List.length_cons, List.length_nil] at hlength
      omega
    | cons b rest =>
      rw [gluedQuasis, Bool.or_eq_true, Bool.or_eq_true, ih]
      constructor
      · rintro (hglued | ⟨before, c, d, after, heq, hglued⟩)
        · exact ⟨[], a, b, rest, rfl, hglued⟩
        · exact ⟨a :: before, c, d, after, by rw [heq, List.cons_append], hglued⟩
      · rintro ⟨before, c, d, after, heq, hglued⟩
        cases before with
        | nil =>
          simp only [List.nil_append, List.cons.injEq] at heq
          obtain ⟨rfl, rfl, -⟩ := heq
          exact .inl hglued
        | cons _ before =>
          obtain ⟨-, heq⟩ := List.cons.inj heq
          exact .inr ⟨before, c, d, after, heq, hglued⟩

theorem IsTemplate.shapeOf_eq {n : Node} {chunks : List Text} {expressions : List Node}
    (h : IsTemplate n chunks expressions) :
    shapeOf n = .ok (if gluedQuasis chunks then .gluedTemplate else .template) := by
  obtain ⟨body, htext, hbody⟩ := h.text
  simp [shapeOf, h.kind, isGluedTemplate, Node.quasis_eq htext hbody]

/-- Without a variable the addition is a string, which is not glued. -/
theorem IsAddition.shapeOf_eq {n : Node} {chunks : List Text} {expressions : List Node}
    (h : IsAddition n chunks expressions) (hchunks : ∀ chunk ∈ chunks, .scalar '\\' ∉ chunk) :
    shapeOf n = .ok (if gluedQuasis chunks then .gluedAddition
      else if expressions.isEmpty then .string else .addition) := by
  have hglued := h.alternates.gluedOperands_eq hchunks
  cases h with
  | string hn => simp [shapeOf, hn.1, gluedQuasis]
  | add _ _ _ _ hn =>
    simp [shapeOf, hn.1, isGluedAddition, hglued, bind, Except.bind, pure, Except.pure]

theorem IsAddition.kind_ne {n : Node} {chunks : List Text} {expressions : List Node}
    (h : IsAddition n chunks expressions) : n.kind ≠ .parenthesized := by
  cases h with
  | string hn =>
    rw [hn.1]
    decide
  | add _ _ _ _ hn =>
    rw [hn.1]
    decide

/-- What stands in no parentheses is judged by its shape. -/
theorem judge_asNeeded_of_shapeOf {n : Node} {found : Shape} (hkind : n.kind ≠ .parenthesized)
    (h : shapeOf n = .ok found) :
    shape (some n) = .ok found ∧ judge .asNeeded n = judgeAsNeeded n found := by
  have hself := Node.unwrap_of_kind hkind
  constructor
  · rw [shape, Option.bind_some, hself]
    exact h
  · rw [judge, hself]
    simp only [h]
    rfl

/-- **Spellings of a path.**  Let a template and an addition spell the same chunks, without backslashes,
    with the same expressions between them, none of which is a literal or an addition.  Then the template
    is found to glue a variable to a `.` or `[` exactly when the addition is, and this is when a chunk
    before an expression ends with one or the chunk behind it starts with one.  So in style `asNeeded`
    either both should be arrays, without a replacement, or nothing is wrong with either. -/
theorem path_spellings_judged_alike {template addition : Node} {chunks : List Text}
    {expressions : List Node} (hchunks : ∀ chunk ∈ chunks, .scalar '\\' ∉ chunk)
    (htemplate : IsTemplate template chunks expressions)
    (haddition : IsAddition addition chunks expressions) :
    (shape (some template) = .ok .gluedTemplate ↔ shape (some addition) = .ok .gluedAddition) ∧
    (shape (some template) = .ok .gluedTemplate ↔
      ∃ before a b after, chunks = before ++ a :: b :: after ∧
        (endsWithAccess a = true ∨ startsWithAccess b = true)) ∧
    (judge .asNeeded template = .ok (.violation template .arrayForVars none) ∧
        judge .asNeeded addition = .ok (.violation addition .arrayForVars none) ∨
      judge .asNeeded template = .ok .compliant ∧ judge .asNeeded addition = .ok .compliant) := by
  have hkind : template.kind ≠ .parenthesized := by
    rw [htemplate.kind]
    decide
  obtain ⟨hshape, hjudge⟩ := judge_asNeeded_of_shapeOf hkind htemplate.shapeOf_eq
  obtain ⟨hshape', hjudge'⟩ :=
    judge_asNeeded_of_shapeOf haddition.kind_ne (haddition.shapeOf_eq hchunks)
  rw [← gluedQuasis_iff, hshape, hshape', hjudge, hjudge']
  cases gluedQuasis chunks with
  | true => exact ⟨by simp, by simp, .inl ⟨rfl, rfl⟩⟩
  | false =>
    -- Neither is glued, whether or not there is a variable.
    cases expressions.isEmpty with
    | true => exact ⟨by simp, by simp, .inr ⟨rfl, rfl⟩⟩
    | false => exact ⟨by simp, by simp, .inr ⟨rfl, rfl⟩⟩

/-- Two expressions, the first one behind a dot and the second one at the end, so that an empty chunk
    follows it. -/
theorem path_spellings_judged_alike_empty_chunk :
    let leaf (kind : Kind) (role : Role) (start stop : Nat) (text : Text) : Node :=
      .mk ⟨kind, some role, ⟨start, stop, 0, start, 0, stop⟩, text⟩ []
    let sum (left right : Node) : Node :=
      .mk ⟨.addition, some .left, left.extent, ""⟩ [left, right]
    let x := leaf .identifier .right 0 1 "x"
    let y := leaf .identifier .right 0 1 "y"
    let template : Node := .mk ⟨.templateString, none, ⟨0, 13, 0, 0, 0, 13⟩, "\x60a.$\x7bx\x7db$\x7by\x7d\x60"⟩
      [leaf .templateSubstitution .value 3 7 "$\x7bx\x7d", leaf .templateSubstitution .value 8 12 "$\x7by\x7d"]
    let addition := sum (sum (sum (sum (leaf .string .left 0 4 "'a.'") x) (leaf .string .right 0 3 "'b'")) y)
      (leaf .string .right 0 2 "''")
    IsTemplate template ["a.", "b", ""] [x, y] ∧ IsAddition addition ["a.", "b", ""] [x, y] ∧
      shape (some template) = .ok .gluedTemplate ∧ shape (some addition) = .ok .gluedAddition := by
  intro leaf sum x y template addition
  have htemplate : IsTemplate template ["a.", "b", ""] [x, y] := by
    refine ⟨rfl, .cons rfl (.cons rfl .nil), "a.$\x7bx\x7db$\x7by\x7d", rfl, ?_⟩
    exact @Interleaves.next _ "a." ["b", ""] (leaf .templateSubstitution .value 3 7 "$\x7bx\x7d") _
      "b$\x7by\x7d" rfl rfl
      (@Interleaves.next _ "b" [""] (leaf .templateSubstitution .value 8 12 "$\x7by\x7d") _ "" rfl rfl .last)
  have hfirst : IsAddition (leaf .string .left 0 4 "'a.'") ["a."] [] := .string ⟨rfl, '\'', .inl rfl, rfl⟩
  have hsecond : IsAddition (sum (sum (leaf .string .left 0 4 "'a.'") x) (leaf .string .right 0 3 "'b'"))
      (["a."] ++ ["b"]) ([] ++ [x]) :=
    .add hfirst ⟨rfl, by decide⟩ ⟨rfl, rfl, rfl⟩ ⟨rfl, '\'', .inl rfl, rfl⟩ ⟨rfl, rfl, rfl⟩
  have haddition : IsAddition addition (["a.", "b"] ++ [""]) ([x] ++ [y]) :=
    .add hsecond ⟨rfl, by decide⟩ ⟨rfl, rfl, rfl⟩ ⟨rfl, '\'', .inl rfl, rfl⟩ ⟨rfl, rfl, rfl⟩
  have hchunks : ∀ chunk ∈ (["a.", "b", ""] : List Text), .scalar '\\' ∉ chunk := by decide
  obtain ⟨halike, hglued, -⟩ := path_spellings_judged_alike hchunks htemplate haddition
  have hshape := hglued.2 ⟨[], "a.", "b", [""], rfl, .inl rfl⟩
  exact ⟨htemplate, haddition, hshape, halike.1 hshape⟩

end PathStyle

end LodashStyle
