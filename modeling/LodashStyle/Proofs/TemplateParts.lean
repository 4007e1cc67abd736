import LodashStyle.Proofs.Findings
import LodashStyle.Proofs.PathPieces

/-!
# The parts of a template

A template is cut into the texts around its substitutions by counting bytes from its start, with a
cursor that moves behind one substitution after the other.  Where the substitutions stand one after
the other between the backticks, no byte is lost and none is taken twice: the texts and the
substitutions in turn, between backticks, are the template again.

## Key results

- `length_quasis`: there is one text more than there are substitutions
- `exists_interleaves`: a stretch of a source is made of chunks with the nodes in it between them
- `template_parts_rebuild`: the parts of a template make up the template
-/

namespace LodashStyle

namespace Text

/-- Chunks and the texts between them in turn; what has no partner comes last. -/
def interleave : List Text → List Text → Text
  | chunk :: chunks, t :: between => chunk ++ (t ++ interleave chunks between)
  | chunks, between => chunks.flatten ++ between.flatten

theorem utf8Size_ofChars (cs : List Char) : (ofChars cs).utf8Size = (Utf8.encode cs).length := by
  induction cs with
  | nil => rfl
  | cons c cs ih =>
    have hc : (Utf8.encodeChar c).length = c.utf8Size := String.length_utf8EncodeChar c
    show c.utf8Size + (ofChars cs).utf8Size = _
    rw [ih, Utf8.encode_cons, List.length_append, hc]

theorem ofChars_append (cs ds : List Char) : ofChars (cs ++ ds) = ofChars cs ++ ofChars ds :=
  List.map_append

end Text

namespace JavaScript

/-! ## Chunks between nodes of a source -/

/-- A text that is made of chunks and nodes is the chunks with the texts of the nodes between them. -/
theorem Interleaves.text_eq {start : Nat} {chunks : List Text} {nodes : List Node} {body : Text}
    (h : Interleaves start chunks nodes body) :
    body = Text.interleave chunks (nodes.map Node.text) := by
  induction h with
  | last => simp [Text.interleave]
  | next hstart hstop hrest ih => rw [List.map_cons, Text.interleave, ← ih]

/-- A stretch of a source is made of chunks with the nodes that stand in it between them. -/
theorem exists_interleaves {src before body rest : List Char} {nodes : List Node}
    (hsrc : src = before ++ (body ++ rest)) (hcovers : ∀ s ∈ nodes, Covers src s.label)
    (hinside : ∀ s ∈ nodes, (Utf8.encode before).length ≤ s.extent.start ∧
      s.extent.stop ≤ (Utf8.encode (before ++ body)).length)
    (hordered : nodes.Pairwise fun s t => s.extent.stop ≤ t.extent.start) :
    ∃ chunks, Interleaves (Utf8.encode before).length chunks nodes (Text.ofChars body) := by
  induction nodes generalizing before body with
  | nil => exact ⟨[Text.ofChars body], .last⟩
  | cons s nodes ih =>
    obtain ⟨upTo, inside, after, hsrc', hstart, hstop, htext⟩ := hcovers s List.mem_cons_self
    obtain ⟨hfirst, hlast⟩ := hinside s List.mem_cons_self
    have hstretch : before ++ body <+: src := ⟨rest, by rw [hsrc, List.append_assoc]⟩
    have hnode : upTo ++ inside <+: src := ⟨after, by rw [hsrc', List.append_assoc]⟩
    -- The node starts behind what has been passed and ends within the stretch.
    obtain ⟨chunk, rfl⟩ : before <+: upTo :=
      Utf8.prefix_of_length_le ⟨_, hsrc.symm⟩ ⟨_, hsrc'.symm⟩ (hstart ▸ hfirst)
    obtain ⟨body', hbody'⟩ : before ++ chunk ++ inside <+: before ++ body :=
      Utf8.prefix_of_length_le hnode hstretch (hstop ▸ hlast)
    obtain rfl : chunk ++ (inside ++ body') = body := by
      simpa using hbody'
    -- What is passed with the node lies before all other nodes.
    obtain ⟨hbehind, hordered⟩ := List.pairwise_cons.1 hordered
    have hothers : ∀ t ∈ nodes, (Utf8.encode (before ++ chunk ++ inside)).length ≤ t.extent.start ∧
        t.extent.stop ≤ (Utf8.encode (before ++ chunk ++ inside ++ body')).length := by
      intro t ht
      rw [← hstop, hbody']
      exact ⟨hbehind t ht, (hinside t (List.mem_cons_of_mem s ht)).2⟩
    obtain ⟨chunks, hchunks⟩ := ih (by rw [hsrc]; simp)
      (fun t ht => hcovers t (List.mem_cons_of_mem s ht)) hothers hordered
    refine ⟨Text.ofChars chunk :: chunks, ?_⟩
    rw [Text.ofChars_append, Text.ofChars_append]
    have htext : s.text = Text.ofChars inside := htext
    have hstart : s.extent.start = (Utf8.encode (before ++ chunk)).length := hstart
    have hstop : s.extent.stop = (Utf8.encode (before ++ chunk ++ inside)).length := hstop
    rw [← htext]
    apply Interleaves.next
    · rw [hstart, Text.utf8Size_ofChars, Utf8.encode_append, List.length_append]
    · rw [hstop, hstart, htext, Text.utf8Size_ofChars, Utf8.encode_append, List.length_append]
    · rw [hstop]
      exact hchunks

/-! ## Templates -/

namespace Node

theorem length_quasisFrom (text : Text) (base cursor : Nat) (substitutions : List Node) :
    (quasisFrom text base cursor substitutions).length = substitutions.length + 1 := by
  induction substitutions generalizing cursor with
  | nil => rfl
  | cons s rest ih => rw [quasisFrom, List.length_cons, ih, List.length_cons]

theorem length_quasis (n : Node) : n.quasis.length = n.substitutions.length + 1 :=
  length_quasisFrom _ _ _ _

/-- A template of a source: its substitutions stand between its backticks, one after the other, and
    are made of whole characters.  What stands inside a substitution may be anything. -/
structure IsTemplateIn (src : List Char) (n : Node) : Prop where
  covers : Covers src n.label
  backticks : ∃ body, n.text = .scalar '\x60' :: (body ++ [.scalar '\x60'])
  substitutions : ∀ s ∈ n.substitutions, Covers src s.label
  inside : ∀ s ∈ n.substitutions, n.extent.start < s.extent.start ∧ s.extent.stop < n.extent.stop
  ordered : n.substitutions.Pairwise fun s t => s.extent.stop ≤ t.extent.start

/-- What stands between the backticks is made of the texts around the substitutions, with these between
    them. -/
theorem IsTemplateIn.exists_body {src : List Char} {n : Node} (h : n.IsTemplateIn src) :
    ∃ body, n.text = .scalar '\x60' :: (body ++ [.scalar '\x60']) ∧
      Interleaves (n.extent.start + 1) n.quasis n.substitutions body := by
  obtain ⟨before, all, rest, hsrc, hstart, hstop, hall⟩ := h.covers
  obtain ⟨body, htext⟩ := h.backticks
  have hstart : n.extent.start = (Utf8.encode before).length := hstart
  have hstop : n.extent.stop = (Utf8.encode (before ++ all)).length := hstop
  -- The characters of the template are a backtick, those of the body, and a backtick.
  have hchars : Text.ofChars all = .scalar '\x60' :: (body ++ [.scalar '\x60']) := hall.symm.trans htext
  obtain ⟨inner, rfl, rfl⟩ : ∃ inner, all = '\x60' :: (inner ++ ['\x60']) ∧ body = Text.ofChars inner := by
    obtain ⟨c, behind, rfl, hc, hbehind⟩ := List.map_eq_cons_iff.1 hchars
    obtain ⟨inner, last, rfl, hinner, hlast⟩ := List.map_eq_append_iff.1 hbehind
    obtain ⟨d, rfl, hd⟩ := List.map_eq_singleton_iff.1 hlast
    obtain rfl := CodePoint.scalar.inj hc
    obtain rfl := CodePoint.scalar.inj hd
    exact ⟨inner, rfl, hinner.symm⟩
  have hfirst : (Utf8.encode (before ++ ['\x60'])).length = n.extent.start + 1 := by
    rw [hstart, Utf8.encode_append, List.length_append]
    rfl
  have hlast : (Utf8.encode (before ++ ['\x60'] ++ inner)).length + 1 = n.extent.stop := by
    have hone : (Utf8.encodeChar '\x60').length = 1 := rfl
    rw [hstop]
    simp [hone]
    omega
  obtain ⟨chunks, hchunks⟩ := @exists_interleaves src (before ++ ['\x60']) inner ('\x60' :: rest)
    n.substitutions (by rw [hsrc]; simp) h.substitutions
    (by
      intro s hs
      have hs := h.inside s hs
      omega) h.ordered
  rw [hfirst] at hchunks
  exact ⟨Text.ofChars inner, htext, quasis_eq htext hchunks ▸ hchunks⟩

/-- **The parts of a template.**  A template has one text more than it has substitutions.  Where the
    substitutions stand one after the other between its backticks, the texts and the substitutions in
    turn, between two backticks, are the template. -/
theorem template_parts_rebuild (n : Node) :
    n.quasis.length = n.substitutions.length + 1 ∧
    ∀ src, n.IsTemplateIn src → n.text =
      Text.ofChar '\x60' ++ Text.interleave n.quasis (n.substitutions.map text) ++ Text.ofChar '\x60' := by
  refine ⟨length_quasis n, ?_⟩
  intro src h
  obtain ⟨body, htext, hbody⟩ := h.exists_body
  rw [htext, ← hbody.text_eq]
  rfl

/-- A template between characters of two bytes: the first of its two substitutions holds a template
    again, and the second one stands right behind it. -/
theorem template_parts_rebuild_nested :
    let src := "x = \x60é$\x7b\x60$\x7bb\x7d\x60\x7d$\x7bc\x7dß\x60;".toList
    ∃ s ∈ Site.visits (Tree.parse src).root, s.node.IsTemplateIn src ∧
      s.node.quasis = (["é", "", "ß"] : List Text) ∧
      s.node.substitutions.map text = (["$\x7b\x60$\x7bb\x7d\x60\x7d", "$\x7bc\x7d"] : List Text) ∧
      s.node.text = Text.ofChar '\x60' ++
        Text.interleave s.node.quasis (s.node.substitutions.map text) ++ Text.ofChar '\x60' := by
  intro src
  have hfound : ∃ s ∈ Site.visits (Tree.parse src).root,
      s.node.text = .scalar '\x60' ::
        (("é$\x7b\x60$\x7bb\x7d\x60\x7d$\x7bc\x7dß" : Text) ++ [.scalar '\x60']) ∧
      (∀ t ∈ s.node.substitutions,
        s.node.extent.start < t.extent.start ∧ t.extent.stop < s.node.extent.stop) ∧
      (s.node.substitutions.Pairwise fun t u => t.extent.stop ≤ u.extent.start) ∧
      s.node.quasis = (["é", "", "ß"] : List Text) ∧
      s.node.substitutions.map text = (["$\x7b\x60$\x7bb\x7d\x60\x7d", "$\x7bc\x7d"] : List Text) := by
    decide +kernel
  obtain ⟨s, hs, htext, hinside, hordered, hquasis, hsubstitutions⟩ := hfound
  -- The site was parsed from the source, so that its texts are those at its places.
  have hplaced : Placed src s.node := Lint.placed_visits (placed_parse src) s hs
  have htemplate : s.node.IsTemplateIn src :=
    { covers := hplaced.covers
      backticks := ⟨_, htext⟩
      substitutions := fun t ht => (hplaced.child (List.mem_filter.1 ht).1).covers
      inside := hinside
      ordered := hordered }
  exact ⟨s, hs, htemplate, hquasis, hsubstitutions, (template_parts_rebuild s.node).2 src htemplate⟩

end Node

end JavaScript

end LodashStyle
