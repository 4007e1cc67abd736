import LodashStyle.JavaScript.Access

/-!
# The pieces of templates and additions

A path with variables in it is judged by its pieces.

Those of a template are the texts around its substitutions.  They are cut out of the text of the
template by the places of the substitutions, which count bytes from the start of the source.
`Interleaves` says that a text is made of chunks with the texts of substitutions between them, each
of these at its place.  The texts that are cut out are the chunks.

Those of an addition are its operands, first those of its left side and then those of its right side.

## Key results

- `sliceBytes_append`: a text is cut out by the number of bytes before it and in it
- `quasis_eq`: the texts around the substitutions are the chunks
- `operands_of_addition`: the operands of an addition are those of its sides
-/

namespace LodashStyle

/-! ## Bytes of a text -/

/-- No code point is written without bytes. -/
theorem CodePoint.utf8Size_pos (p : CodePoint) : 0 < p.utf8Size := by
  cases p with
  | scalar c => exact c.utf8Size_pos
  | surrogate _ => exact Nat.zero_lt_succ 2

namespace Text

@[simp] theorem utf8Size_nil : utf8Size [] = 0 := rfl

@[simp] theorem utf8Size_cons (p : CodePoint) (t : Text) :
    utf8Size (p :: t) = p.utf8Size + utf8Size t := rfl

/-- Texts joined together take as many bytes as the texts do. -/
@[simp] theorem utf8Size_append (s t : Text) : utf8Size (s ++ t) = utf8Size s + utf8Size t := by
  induction s with
  | nil => simp
  | cons p s ih =>
    rw [List.cons_append, utf8Size_cons, utf8Size_cons, ih]
    omega

/-- Dropping the bytes of a first part leaves the rest. -/
theorem dropBytes_append (s t : Text) : dropBytes s.utf8Size (s ++ t) = t := by
  induction s with
  | nil => cases t <;> rfl
  | cons p s ih =>
    have hpos := p.utf8Size_pos
    obtain ⟨k, hk⟩ : ∃ k, utf8Size (p :: s) = k + 1 := ⟨p.utf8Size + utf8Size s - 1, by simp; omega⟩
    have hleft : k + 1 - p.utf8Size = utf8Size s := by
      rw [utf8Size_cons] at hk
      omega
    rw [hk, List.cons_append, dropBytes, hleft, ih]

/-- As many bytes as a text has take this text, for the next code point would need one more. -/
theorem takeBytes_append (s t : Text) : takeBytes s.utf8Size (s ++ t) = s := by
  induction s with
  | nil =>
    cases t with
    | nil => rfl
    | cons p t =>
      have hpos := p.utf8Size_pos
      rw [List.nil_append, takeBytes, if_neg (by simp; omega)]
  | cons p s ih =>
    have hleft : utf8Size (p :: s) - p.utf8Size = utf8Size s := by
      rw [utf8Size_cons]
      omega
    rw [List.cons_append, takeBytes, if_pos (by simp), hleft, ih]

/-- A text is cut out by the number of bytes before it and in it. -/
theorem sliceBytes_append (before t after : Text) :
    sliceBytes before.utf8Size (before.utf8Size + t.utf8Size) (before ++ (t ++ after)) = t := by
  rw [sliceBytes, Nat.add_sub_cancel_left, dropBytes_append, takeBytes_append]

end Text

namespace JavaScript

/-! ## Substitutions -/

/-- A text from a byte of the source on that is made of chunks, with the texts of substitutions between
    them.  A substitution stands where its text does. -/
inductive Interleaves : Nat → List Text → List Node → Text → Prop where
  | last {start : Nat} {chunk : Text} : Interleaves start [chunk] [] chunk
  | next {start : Nat} {chunk : Text} {chunks : List Text} {s : Node} {rest : List Node} {body : Text}
    (hstart : s.extent.start = start + chunk.utf8Size)
    (hstop : s.extent.stop = s.extent.start + s.text.utf8Size)
    (hrest : Interleaves s.extent.stop chunks rest body) :
    Interleaves start (chunk :: chunks) (s :: rest) (chunk ++ (s.text ++ body))

namespace Node

/-- Behind what has been passed, the chunks are cut out up to the last code point. -/
theorem quasisFrom_eq {base start : Nat} {chunks : List Text} {rest : List Node} {before body : Text}
    {close : CodePoint} (h : Interleaves start chunks rest body) (hstart : start = base + before.utf8Size)
    (hclose : close.utf8Size = 1) :
    quasisFrom (before ++ (body ++ [close])) base before.utf8Size rest = chunks := by
  induction h generalizing before with
  | @last start chunk =>
    have hstop : (before ++ (chunk ++ [close])).utf8Size - 1 = before.utf8Size + chunk.utf8Size := by
      simp [hclose]
    rw [quasisFrom, hstop, Text.sliceBytes_append]
  | @next start chunk chunks s rest body hplace hstop _ ih =>
    -- What has been passed grows by the chunk and the substitution behind it.
    have hfrom : s.extent.start - base = before.utf8Size + chunk.utf8Size := by omega
    have hto : s.extent.stop - base = (before ++ (chunk ++ s.text)).utf8Size := by
      simp
      omega
    have hpassed : before ++ (chunk ++ (s.text ++ body) ++ [close]) =
        before ++ (chunk ++ s.text) ++ (body ++ [close]) := by
      simp
    have hchunk : before ++ (chunk ++ (s.text ++ body) ++ [close]) =
        before ++ (chunk ++ (s.text ++ body ++ [close])) := by
      simp
    rw [quasisFrom, hfrom, hto]
    congr 1
    · rw [hchunk, Text.sliceBytes_append]
    · rw [hpassed]
      apply ih
      simp
      omega

/-- The texts of a template around its substitutions are the chunks between two backticks. -/
theorem quasis_eq {n : Node} {chunks : List Text} {body : Text}
    (htext : n.text = .scalar '\x60' :: (body ++ [.scalar '\x60']))
    (h : Interleaves (n.extent.start + 1) chunks n.substitutions body) : n.quasis = chunks := by
  have hquasis : quasisFrom ([.scalar '\x60'] ++ (body ++ [.scalar '\x60'])) n.extent.start
      (Text.utf8Size [.scalar '\x60']) n.substitutions = chunks := quasisFrom_eq h rfl rfl
  rw [quasis, htext]
  exact hquasis

/-! ## Operands -/

/-- What is no addition is its own only operand. -/
theorem operands_of_kind {n : Node} (h : n.kind ≠ .addition) : n.operands = [n] := by
  obtain ⟨label, children⟩ := n
  have hkind : ¬label.kind = .addition := h
  rw [operands, if_neg hkind]

/-- The operands of a side are those of the first child in its role. -/
theorem sideOperands_eq (role : Role) (children : List Node) :
    sideOperands role children =
      ((children.find? (·.role == some role)).map operands).getD [] := by
  induction children with
  | nil => rfl
  | cons n rest ih =>
    rw [sideOperands, List.find?_cons]
    by_cases hrole : n.role = some role
    · simp [hrole]
    · have hbeq : (n.role == some role) = false := by simpa using hrole
      rw [if_neg hrole, hbeq, ih]

/-- The operands of an addition are those of its left side and those of its right side; a side that is
    missing has none. -/
theorem operands_of_addition {n : Node} (h : n.kind = .addition) :
    n.operands = ((n.child? .left).map operands).getD [] ++ ((n.child? .right).map operands).getD [] := by
  obtain ⟨label, children⟩ := n
  have hkind : label.kind = .addition := h
  rw [operands, if_pos hkind, sideOperands_eq, sideOperands_eq]
  rfl

end Node

end JavaScript

end LodashStyle
