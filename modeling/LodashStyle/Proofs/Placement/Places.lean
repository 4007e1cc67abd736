import LodashStyle.JavaScript.Grammar.Pattern
import LodashStyle.Proofs.Utf8

/-!
# Places in a source

An input or a position is of a source when it is reached by going through characters of the
source.  A tree is placed in a source when each of its nodes lies between two such places, one
not before the other: then spans of nodes are made of whole characters, and the text of a node is
the characters of its span.

## Key results

- `Position.byte_after`: a position counts the bytes of the characters before it
- `nextToken_of`: reading a token leads to later places of the same source
- `Covers.between`: the label between two places
- `Placed.asPattern`: a tree stays in its place when it is taken as a pattern
-/

namespace LodashStyle.JavaScript

/-! ## Positions and inputs -/

/-- The position after some characters. -/
def Position.after (cs : List Char) : Position := cs.foldl Position.step {}

/-- The place behind one more character is one step on. -/
theorem Position.after_append (cs : List Char) (c : Char) :
    Position.after (cs ++ [c]) = (Position.after cs).step c := by
  rw [Position.after, List.foldl_append]
  rfl

theorem Position.offset_step (p : Position) (c : Char) : (p.step c).offset = p.offset + 1 := by
  unfold Position.step
  split <;> rfl

theorem Position.byte_step (p : Position) (c : Char) :
    (p.step c).byte = p.byte + (Utf8.encodeChar c).length := by
  unfold Position.step
  split
  · rename_i hc
    rw [hc]
    rfl
  · rw [Utf8.encodeChar, String.length_utf8EncodeChar]

/-- A position counts characters. -/
theorem Position.offset_after (cs : List Char) : (Position.after cs).offset = cs.length := by
  suffices ∀ p : Position, (cs.foldl Position.step p).offset = p.offset + cs.length by
    rw [Position.after, this, Nat.zero_add]
  induction cs with
  | nil => exact fun p => rfl
  | cons c cs ih =>
    intro p
    rw [List.foldl_cons, ih, Position.offset_step, List.length_cons]
    omega

/-- A position counts bytes. -/
theorem Position.byte_after (cs : List Char) :
    (Position.after cs).byte = (Utf8.encode cs).length := by
  suffices ∀ p : Position, (cs.foldl Position.step p).byte = p.byte + (Utf8.encode cs).length by
    rw [Position.after, this, Nat.zero_add]
  induction cs with
  | nil => exact fun p => rfl
  | cons c cs ih =>
    intro p
    rw [List.foldl_cons, ih, Position.byte_step, Utf8.encode_cons, List.length_append]
    omega

/-- A position of a source. -/
def Position.Of (src : List Char) (p : Position) : Prop := ∃ before, before <+: src ∧ p = .after before

/-- An input that is what remains of a source. -/
def Input.Of (src : List Char) (inp : Input) : Prop :=
  ∃ before, src = before ++ inp.rest ∧ inp.place = .after before

/-- The characters from the start of the source to the place of an input. -/
def Input.offset (inp : Input) : Nat := inp.place.offset

variable {src : List Char}

/-- An input over the source is at a place of the source. -/
theorem Input.Of.place {inp : Input} (h : inp.Of src) : inp.place.Of src := by
  obtain ⟨before, hsrc, hplace⟩ := h
  exact ⟨before, ⟨inp.rest, hsrc.symm⟩, hplace⟩

/-- The source is an input of itself. -/
theorem Input.of_source (src : List Char) : Input.Of src ⟨src, {}⟩ := ⟨[], rfl, rfl⟩

/-- Going on leads to an input of the same source. -/
theorem Input.Of.advance {inp : Input} (h : inp.Of src) (n : Nat) : (inp.advance n).Of src := by
  induction n generalizing inp with
  | zero => exact h
  | succ n ih =>
    obtain ⟨before, hsrc, hplace⟩ := h
    rw [Input.advance]
    split
    · exact ⟨before, hsrc, hplace⟩
    · rename_i c rest hrest
      apply ih
      -- The character that is passed over joins those before the place.
      refine ⟨before ++ [c], ?_, ?_⟩
      · rw [hsrc, hrest, List.append_assoc]
        rfl
      · rw [Position.after_append, hplace]

/-- Going on leads to no earlier place. -/
theorem Input.le_offset_advance (inp : Input) (n : Nat) : inp.offset ≤ (inp.advance n).offset := by
  induction n generalizing inp with
  | zero => exact Nat.le_refl _
  | succ n ih =>
    rw [Input.advance]
    split
    · exact Nat.le_refl _
    · rename_i c rest _
      have hstep : inp.offset ≤ Input.offset ⟨rest, inp.place.step c⟩ := by
        change inp.place.offset ≤ (inp.place.step c).offset
        rw [Position.offset_step]
        omega
      exact Nat.le_trans hstep (ih _)

/-! ## Tokens -/

/-- A comment from an input to a position of a source. -/
def CommentOf (src : List Char) (c : Input × Position) : Prop :=
  c.1.Of src ∧ c.2.Of src ∧ c.1.offset ≤ c.2.offset

/-- What is passed over from a place on. -/
structure GapOf (src : List Char) (k : Nat) (gap : Gap) : Prop where
  input : gap.input.Of src
  le_input : k ≤ gap.input.offset
  comments : ∀ c ∈ gap.comments, CommentOf src c

/-- Passing over some characters. -/
theorem GapOf.advance {k : Nat} {gap : Gap} (h : GapOf src k gap) (n : Nat) (lineEnd : Bool) :
    GapOf src k ⟨gap.input.advance n, lineEnd, gap.comments⟩ where
  input := h.input.advance n
  le_input := Nat.le_trans h.le_input (gap.input.le_offset_advance n)
  comments := h.comments

/-- Passing over a comment. -/
theorem GapOf.comment {k : Nat} {gap : Gap} (h : GapOf src k gap) (n : Nat) (lineEnd : Bool) :
    GapOf src k ⟨gap.input.advance n, lineEnd, (gap.input, (gap.input.advance n).place) :: gap.comments⟩ where
  input := h.input.advance n
  le_input := Nat.le_trans h.le_input (gap.input.le_offset_advance n)
  comments := by
    intro c hc
    obtain rfl | hc := List.mem_cons.1 hc
    · exact ⟨h.input, (h.input.advance n).place, gap.input.le_offset_advance n⟩
    · exact h.comments c hc

/-- Passing over blanks and comments stays over the source, for any number of them. -/
theorem GapOf.skipGap {k : Nat} {gap : Gap} (h : GapOf src k gap) (limit : Nat) :
    GapOf src k (skipGap limit gap) := by
  induction limit generalizing gap with
  | zero => exact h
  | succ limit ih =>
    unfold JavaScript.skipGap
    dsimp only
    -- White space, a comment to the end of the line, a comment in stars, or a token.
    split
    · exact ih (h.advance _ _)
    · split
      · exact ih (h.comment _ _)
      · split
        · exact h
        · exact ih (h.comment _ _)
      · exact h

/-- The next token stands at a later place of the source, and so do its end and the comments
    before it. -/
theorem nextToken_of {inp : Input} (h : inp.Of src) (limit : Nat) :
    (nextToken limit inp).1.start.Of src ∧ inp.offset ≤ (nextToken limit inp).1.start.offset ∧
      (nextToken limit inp).2.1.Of src ∧
      (nextToken limit inp).1.start.offset ≤ (nextToken limit inp).2.1.offset ∧
      ∀ c ∈ (nextToken limit inp).2.2, CommentOf src c := by
  have hstart : GapOf src inp.offset ⟨inp, false, []⟩ :=
    ⟨h, Nat.le_refl _, fun c hc => absurd hc List.not_mem_nil⟩
  have hgap := hstart.skipGap limit
  unfold nextToken
  dsimp only
  refine ⟨hgap.input, hgap.le_input, hgap.input.advance _, Input.le_offset_advance _ _, ?_⟩
  intro c hc
  exact hgap.comments c (List.mem_reverse.1 hc)

/-! ## Extents -/

/-- An extent of whole characters of a source. -/
def Spans (src : List Char) (e : Extent) : Prop :=
  ∃ before inside rest, src = before ++ (inside ++ rest) ∧ e.start = (Utf8.encode before).length ∧
    e.stop = (Utf8.encode (before ++ inside)).length

/-- An extent between places does not end before it starts. -/
theorem Spans.start_le_stop {e : Extent} (h : Spans src e) : e.start ≤ e.stop := by
  obtain ⟨before, inside, rest, -, hstart, hstop⟩ := h
  rw [Utf8.encode_append, List.length_append] at hstop
  omega

/-- It ends in the source. -/
theorem Spans.stop_le {e : Extent} (h : Spans src e) : e.stop ≤ (Utf8.encode src).length := by
  obtain ⟨before, inside, rest, hsrc, -, hstop⟩ := h
  rw [hsrc, Utf8.encode_append, Utf8.encode_append, List.length_append, List.length_append]
  rw [Utf8.encode_append, List.length_append] at hstop
  omega

/-! ## Trees -/

/-- A label that covers whole characters of a source and has them as its text. -/
def Covers (src : List Char) (label : Label) : Prop :=
  ∃ before inside rest, src = before ++ (inside ++ rest) ∧
    label.extent.start = (Utf8.encode before).length ∧
    label.extent.stop = (Utf8.encode (before ++ inside)).length ∧ label.text = Text.ofChars inside

/-- The label from an input to a later place. -/
theorem Covers.between {kind : Kind} {role : Option Role} {first : Input} {stop : Position}
    (hfirst : first.Of src) (hstop : stop.Of src) (hle : first.offset ≤ stop.offset) :
    Covers src ⟨kind, role, .between first.place stop,
      Text.ofChars (first.rest.take (stop.offset - first.place.offset))⟩ := by
  obtain ⟨before, hsrc, hplace⟩ := hfirst
  obtain ⟨both, hboth, rfl⟩ := hstop
  rw [Input.offset, hplace, Position.offset_after, Position.offset_after] at hle
  -- Of two first parts of the source, the shorter one is a first part of the other.
  obtain ⟨inside, rfl⟩ := List.prefix_of_prefix_length_le ⟨first.rest, hsrc.symm⟩ hboth hle
  obtain ⟨rest, hrest⟩ := hboth
  rw [List.append_assoc] at hrest
  have hfirst : first.rest = inside ++ rest := List.append_cancel_left (hsrc.symm.trans hrest.symm)
  have hlength : (Position.after (before ++ inside)).offset - (Position.after before).offset =
      inside.length := by
    rw [Position.offset_after, Position.offset_after, List.length_append]
    omega
  refine ⟨before, inside, rest, hrest.symm, ?_, ?_, ?_⟩
  · rw [hplace]
    exact Position.byte_after before
  · exact Position.byte_after (before ++ inside)
  · rw [hplace, hlength, hfirst, List.take_left]

/-- A tree of which every node covers whole characters of the source and has them as its text. -/
inductive Placed (src : List Char) : Node → Prop where
  | mk {label : Label} {children : List Node} (hlabel : Covers src label)
    (hchildren : ∀ c ∈ children, Placed src c) : Placed src (.mk label children)

/-- The text of a placed node is what the source has at its extent. -/
theorem Placed.covers {n : Node} (h : Placed src n) : Covers src n.label := by
  cases h with
  | mk hlabel hchildren => exact hlabel

theorem Placed.spans {n : Node} (h : Placed src n) : Spans src n.extent := by
  cases h with
  | mk hlabel hchildren =>
    obtain ⟨before, inside, rest, hsrc, hstart, hstop, -⟩ := hlabel
    exact ⟨before, inside, rest, hsrc, hstart, hstop⟩

/-- The text of a node is made of characters. -/
theorem Placed.text {n : Node} (h : Placed src n) : ∃ cs, n.text = Text.ofChars cs := by
  cases h with
  | mk hlabel hchildren =>
    obtain ⟨before, inside, rest, -, -, -, htext⟩ := hlabel
    exact ⟨inside, htext⟩

/-- The trees below a placed one are placed. -/
theorem Placed.child {n c : Node} (h : Placed src n) (hc : c ∈ n.children) : Placed src c := by
  cases h with
  | mk hlabel hchildren => exact hchildren c hc

/-- The role of a node does not matter to its place. -/
theorem Placed.withRole {n : Node} (h : Placed src n) (role : Role) : Placed src (n.withRole role) := by
  cases h with
  | mk hlabel hchildren => exact .mk hlabel hchildren

/-- Nor does its kind. -/
theorem Placed.withKind {n : Node} (h : Placed src n) (kind : Kind) : Placed src (n.withKind kind) := by
  cases h with
  | mk hlabel hchildren => exact .mk hlabel hchildren

/-- A node from an input to a later place. -/
theorem Placed.spanning {kind : Kind} {first : Input} {stop : Position} {children : List Node}
    (hfirst : first.Of src) (hstop : stop.Of src) (hle : first.offset ≤ stop.offset)
    (hchildren : ∀ c ∈ children, Placed src c) : Placed src (.spanning kind first stop children) :=
  .mk (.between hfirst hstop hle) hchildren

theorem mem_insertComment {comment c : Node} {nodes : List Node} (h : c ∈ insertComment comment nodes) :
    c = comment ∨ c ∈ nodes := by
  induction nodes with
  | nil => exact .inl (List.mem_singleton.1 h)
  | cons n rest ih =>
    rw [insertComment] at h
    split at h
    · exact List.mem_cons.1 h
    · obtain rfl | h := List.mem_cons.1 h
      · exact .inr List.mem_cons_self
      · obtain h | h := ih h
        · exact .inl h
        · exact .inr (List.mem_cons_of_mem n h)

theorem mem_foldr_insertComment {comments nodes : List Node} {c : Node}
    (h : c ∈ comments.foldr insertComment nodes) : c ∈ comments ∨ c ∈ nodes := by
  induction comments with
  | nil => exact .inr h
  | cons comment comments ih =>
    obtain rfl | h := mem_insertComment h
    · exact .inl List.mem_cons_self
    · obtain h | h := ih h
      · exact .inl (List.mem_cons_of_mem comment h)
      · exact .inr h

mutual

/-- Taking a tree as a pattern changes kinds only. -/
theorem Placed.asPattern {src : List Char} : ∀ {n : Node}, Placed src n → Placed src n.asPattern
  | .mk label children, h => by
    obtain ⟨hlabel, hchildren⟩ := h
    unfold Node.asPattern
    split
    -- A shorthand property, and what is no literal, keeps its children.
    case h_6 => exact .mk hlabel hchildren
    case h_7 => exact .mk hlabel hchildren
    all_goals exact .mk hlabel (Placed.asPatterns hchildren)

/-- Children taken as patterns stay where they are. -/
theorem Placed.asPatterns {src : List Char} :
    ∀ {children : List Node}, (∀ c ∈ children, Placed src c) → ∀ c ∈ asPatterns children, Placed src c
  | [], _ => fun c hc => absurd hc List.not_mem_nil
  | n :: rest, h => by
    intro c hc
    unfold JavaScript.asPatterns at hc
    obtain rfl | hc := List.mem_cons.1 hc
    · split
      · exact h n List.mem_cons_self
      · exact Placed.asPattern (h n List.mem_cons_self)
    · exact Placed.asPatterns (fun c hc => h c (List.mem_cons_of_mem n hc)) c hc

end

end LodashStyle.JavaScript
