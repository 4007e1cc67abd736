import LodashStyle.Proofs.PlainKeys
import LodashStyle.Proofs.ReadStrings
import LodashStyle.Proofs.StringFix
import LodashStyle.Proofs.TemplateText

/-!
# What a template offered for an array means

In style `string` an array with elements that are no literals becomes a template: literals are
written into its characters, and the other elements become substitutions inside brackets.  This
module says how a template is taken apart and evaluated, and that the template of an array evaluates
to a path with the keys of the array, whatever values the substitutions have.

Where the expression in a substitution ends is a matter of the grammar of expressions.  Here it is a
parameter, `expression`, which gives the number of code points of the expression at the start of a text.

## Key results

- `readTemplateFrom_escapeTemplate`: escaped text is read as characters, up to what follows it
- `IsTemplateOf.literal`, `IsTemplateOf.dynamic`: one element in front of a template
- `template_fix_keeps_keys`: the template of an array evaluates to the keys of the array
-/

namespace LodashStyle

namespace JavaScript

/-! ## Templates -/

/-- A template literal taken apart: the characters before its substitutions, and each substitution as
    its source text with the characters behind it. -/
structure Template where
  head : Text
  spans : List (Text × Text)
  deriving DecidableEq, Repr

namespace Template

/-- The source texts of the substitutions. -/
def sources (t : Template) : List Text := t.spans.map Prod.fst

/-- The template with more characters in front. -/
def push (raw : Text) (t : Template) : Template := { t with head := raw ++ t.head }

/-- The template with one more substitution in front, directly before its characters. -/
def pushSource (source : Text) (t : Template) : Template := ⟨[], (source, t.head) :: t.spans⟩

/-- The value of characters and substitutions in turn, where the substitutions have the given values. -/
def valueFrom (head : Text) : List (Text × Text) → List Text → Option Text
  | [], [] => cookTemplate head
  | (_, next) :: spans, value :: values => do
    let before ← cookTemplate head
    let after ← valueFrom next spans values
    return before ++ value ++ after
  | _, _ => none

/-- The value of a template whose substitutions have the given values, one for each. -/
def value? (t : Template) (values : List Text) : Option Text := valueFrom t.head t.spans values

end Template

/-- Reads a template behind its opening backtick, after passing over `skip` code points.  A backslash
    takes the next code point with it, `${` starts a substitution, which goes on for as many code
    points as `expression` says and ends with a brace, and a backtick ends the template. -/
def readTemplateFrom (expression : Text → Option Nat) (skip : Nat) : Text → Option Template
  | [] => none
  | p :: rest =>
    match skip with
    | skip + 1 => readTemplateFrom expression skip rest
    | 0 =>
      if p.isChar '\x60' then
        -- nothing may follow the closing backtick
        if rest.isEmpty then some ⟨[], []⟩ else none
      else if p.isChar '\\' then
        match rest with
        | [] => none
        | next :: _ => (readTemplateFrom expression 1 rest).map (·.push [p, next])
      else if p.isChar '$' && rest.head?.any (·.isChar '\x7b') then
        match expression rest.tail with
        | none => none
        | some used =>
          if (rest.drop (used + 1)).head?.any (·.isChar '\x7d') then
            (readTemplateFrom expression (used + 2) rest).map (·.pushSource (rest.tail.take used))
          else none
      else
        (readTemplateFrom expression 0 rest).map (·.push [p])

/-- The template that a text is, from its opening to its closing backtick. -/
def readTemplate? (expression : Text → Option Nat) : Text → Option Template
  | [] => none
  | p :: rest => if p.isChar '\x60' then readTemplateFrom expression 0 rest else none

/-! ## Reading -/

section Reading

open PropertyPath

variable {expression : Text → Option Nat}

theorem readTemplateFrom_eq_drop (skip : Nat) (t : Text) :
    readTemplateFrom expression skip t = readTemplateFrom expression 0 (t.drop skip) := by
  induction t generalizing skip with
  | nil => simp [readTemplateFrom]
  | cons p rest ih =>
    cases skip with
    | zero => rfl
    | succ skip => simpa [readTemplateFrom] using ih skip

@[simp] theorem Template.push_nil (t : Template) : t.push [] = t := rfl

@[simp] theorem Template.push_push (r s : Text) (t : Template) : (t.push s).push r = t.push (r ++ s) := by
  simp [push]

@[simp] theorem Template.sources_push (raw : Text) (t : Template) : (t.push raw).sources = t.sources := rfl

@[simp] theorem Template.sources_pushSource (source : Text) (t : Template) :
    (t.pushSource source).sources = source :: t.sources := rfl

/-- A code point that ends no characters and is no backslash is one of the characters. -/
theorem readTemplateFrom_cons {p : CodePoint} {rest : Text} (hslash : p.isChar '\\' = false)
    (hends : endsTemplateText (p :: rest) = false) :
    readTemplateFrom expression 0 (p :: rest) = (readTemplateFrom expression 0 rest).map (·.push [p]) := by
  simp only [endsTemplateText, Bool.or_eq_false_iff] at hends
  simp [readTemplateFrom, hslash, hends]

/-- A backslash and the code point behind it are among the characters. -/
theorem readTemplateFrom_escape (p : CodePoint) (rest : Text) :
    readTemplateFrom expression 0 (.scalar '\\' :: p :: rest) =
      (readTemplateFrom expression 0 rest).map (·.push [.scalar '\\', p]) := by
  show (readTemplateFrom expression 1 (p :: rest)).map _ = _
  rw [readTemplateFrom_eq_drop]
  rfl

/-- A substitution is taken as a whole. -/
theorem readTemplateFrom_source {source rest : Text}
    (h : expression (source ++ .scalar '\x7d' :: rest) = some source.length) :
    readTemplateFrom expression 0 (.scalar '$' :: .scalar '\x7b' :: (source ++ .scalar '\x7d' :: rest)) =
      (readTemplateFrom expression 0 rest).map (·.pushSource source) := by
  have hskip : readTemplateFrom expression (source.length + 2)
      (.scalar '\x7b' :: (source ++ .scalar '\x7d' :: rest)) = readTemplateFrom expression 0 rest := by
    rw [readTemplateFrom_eq_drop]
    simp
  simp [readTemplateFrom, h, ← hskip]

/-- Escaped text is read as characters, if no brace follows it that could complete a `${`. -/
theorem readTemplateFrom_escapeTemplate (t : Text) {rest : Text}
    (hrest : rest.head?.any (·.isChar '\x7b') = false) :
    readTemplateFrom expression 0 (escapeTemplate t ++ rest) =
      (readTemplateFrom expression 0 rest).map (·.push (escapeTemplate t)) := by
  induction t with
  | nil => simp [escapeTemplate]
  | cons p t ih =>
    obtain ⟨h, -⟩ | ⟨h, hslash, hends⟩ := escapeTemplate_cons_cases p t
    · rw [h, List.cons_append, List.cons_append, readTemplateFrom_escape, ih, Option.map_map]
      simp [Function.comp_def]
    · -- A `$` at the end of the text meets `rest`, which is why `rest` must not start with a brace.
      have hends := endsTemplateText_escapeTemplate hends rest hrest
      rw [h, List.cons_append, readTemplateFrom_cons hslash hends, ih, Option.map_map]
      simp [Function.comp_def]

end Reading

/-! ## Evaluating -/

/-- Escaped text in front of a template stands for itself. -/
theorem Template.value?_push {t : Text} (ht : .scalar '\r' ∉ t) (template : Template)
    (values : List Text) :
    (template.push (PropertyPath.escapeTemplate t)).value? values =
      (template.value? values).map (t ++ ·) := by
  obtain ⟨head, spans⟩ := template
  -- Only the characters in front change, and they are cooked in both cases.
  have hhead := PropertyPath.cookTemplate_escapeTemplate_append ht head
  cases spans with
  | nil =>
    cases values with
    | nil => exact hhead
    | cons value values => rfl
  | cons span spans =>
    cases values with
    | nil => rfl
    | cons value values =>
      simp only [value?, push, valueFrom, hhead]
      cases cookTemplate head with
      | none => rfl
      | some before =>
        cases valueFrom span.2 spans values with
        | none => rfl
        | some after => simp

/-- A substitution in front of a template stands for its value. -/
theorem Template.value?_pushSource (source : Text) (template : Template) (value : Text) (values : List Text) :
    (template.pushSource source).value? (value :: values) = (template.value? values).map (value ++ ·) := by
  simp only [value?, pushSource, valueFrom]
  cases valueFrom template.head template.spans values <;> rfl

end JavaScript

namespace PathStyle

open JavaScript PropertyPath

/-! ## The keys of an array with variables -/

/-- The keys that slots stand for when the elements that are no literals have the given values, in
    order: `KeysWith hole slots values keys`. -/
inductive KeysWith (hole : Text) : List Node → List Text → List Text → Prop where
  | nil : KeysWith hole [] [] []
  | fixed {n : Node} {ns : List Node} {values keys : List Text} {key : Text} (hkey : SlotKey hole n key)
      (hrest : KeysWith hole ns values keys) : KeysWith hole (n :: ns) values (key :: keys)
  | dynamic {n : Node} {ns : List Node} {values keys : List Text} (value : Text)
      (hliteral : n.isLiteral = false) (hslot : n.kind ≠ .elision)
      (hrest : KeysWith hole ns values keys) : KeysWith hole (n :: ns) (value :: values) (value :: keys)

/-- Only literals and empty slots have keys of their own. -/
theorem SlotKey.isLiteral {hole key : Text} {n : Node} (h : SlotKey hole n key)
    (hslot : n.kind ≠ .elision) : n.isLiteral = true := by
  unfold Node.isLiteral
  cases h with
  | string hkind => rw [hkind]; rfl
  | number hkind => rw [hkind]; rfl
  | verbatim hkind =>
    simp only [List.mem_cons, List.not_mem_nil, or_false] at hkind
    obtain hkind | hkind | hkind | hkind := hkind <;> rw [hkind] <;> rfl
  | elided hkind => exact absurd hkind hslot

/-! ## The template of an array -/

/-- How elements are written in a template: `Written elements body`. -/
inductive Written : List Node → Text → Prop where
  | nil : Written [] []
  | literal {n : Node} {ns : List Node} {key body : Text} (hliteral : n.isLiteral = true)
      (hkey : literalKey n = .ok (some key)) (hrest : Written ns body) :
      Written (n :: ns) (escapeTemplate (segment key) ++ body)
  | dynamic {n : Node} {ns : List Node} {body : Text} (hliteral : n.isLiteral = false)
      (hrest : Written ns body) :
      Written (n :: ns) (("[$\x7b" : Text) ++ n.text ++ ("\x7d]" : Text) ++ body)

/-- The text of elements is written one by one. -/
theorem written_of_templateSegments {ns : List Node} {body : Text}
    (h : templateSegments ns = .ok (some body)) : Written ns body := by
  induction ns generalizing body with
  | nil =>
    obtain rfl : [] = body := by simpa [templateSegments] using h
    exact .nil
  | cons n ns ih =>
    -- A literal has a key, or there would be no text.
    by_cases hliteral : n.isLiteral = true
    · cases hkey : literalKey n with
      | error fault =>
        rw [templateSegments, if_pos hliteral, hkey] at h
        cases h
      | ok found =>
        cases found with
        | none =>
          rw [templateSegments, if_pos hliteral, hkey] at h
          cases h
        | some key =>
          rw [templateSegments_literal hliteral hkey] at h
          obtain ⟨after, hafter, hsome⟩ := map_eq_ok h
          obtain ⟨rest, rfl, rfl⟩ := Option.map_eq_some_iff.1 hsome
          exact .literal hliteral hkey (ih hafter)
    · rw [templateSegments_variable hliteral] at h
      obtain ⟨after, hafter, hsome⟩ := map_eq_ok h
      obtain ⟨rest, rfl, rfl⟩ := Option.map_eq_some_iff.1 hsome
      exact .dynamic (by simpa using hliteral) (ih hafter)

/-- Values for all elements that are no literals give keys to all elements. -/
theorem Written.exists_keysWith (hole : Text) {ns : List Node} {body : Text} (h : Written ns body)
    (hslots : ∀ n ∈ ns, n.kind ≠ .elision) {values : List Text}
    (hvalues : values.length = (ns.filter fun n => !n.isLiteral).length) :
    ∃ keys, KeysWith hole ns values keys := by
  induction h generalizing values with
  | nil =>
    obtain rfl := List.eq_nil_of_length_eq_zero hvalues
    exact ⟨[], .nil⟩
  | literal hliteral hkey _ ih =>
    rw [List.forall_mem_cons] at hslots
    rw [List.filter_cons_of_neg (by simp [hliteral])] at hvalues
    obtain ⟨keys, hkeys⟩ := ih hslots.2 hvalues
    exact ⟨_, .fixed (slotKey_of_literalKey hliteral hkey) hkeys⟩
  | dynamic hliteral _ ih =>
    rw [List.forall_mem_cons] at hslots
    rw [List.filter_cons_of_pos (by simp [hliteral]), List.length_cons] at hvalues
    obtain ⟨value, values, rfl⟩ := List.exists_cons_of_length_eq_add_one hvalues
    obtain ⟨keys, hkeys⟩ := ih hslots.2 (by simpa using hvalues)
    exact ⟨_, .dynamic value hliteral hslots.1 hkeys⟩

/-- What `template` must be to stand for some elements that are written as `body`: it is read from
    the body, its substitutions are the elements that are no literals, and its value spells the keys
    and starts as the body does. -/
structure IsTemplateOf (expression : Text → Option Nat) (hole : Text) (ns : List Node) (body : Text)
    (template : Template) : Prop where
  read : readTemplateFrom expression 0 (body ++ Text.ofChar '\x60') = some template
  sources : template.sources = (ns.filter fun n => !n.isLiteral).map Node.text
  start : (body ++ Text.ofChar '\x60').head?.any (·.isChar '\x7b') = false
  value : ∀ values keys, KeysWith hole ns values keys →
    (∀ n ∈ ns, ∀ key, SlotKey hole n key → .scalar '\r' ∉ key) →
    ∃ t, template.value? values = some t ∧ Spells t keys ∧ t.head? = body.head?

section Steps

variable {expression : Text → Option Nat} {hole : Text} {n : Node} {ns : List Node} {body : Text}
  {template : Template}

theorem isTemplateOf_nil : IsTemplateOf expression hole [] [] ⟨[], []⟩ where
  read := rfl
  sources := rfl
  start := rfl
  value := by
    intro values keys hkeys _
    cases hkeys
    exact ⟨[], rfl, .nil, rfl⟩

/-- A segment starts with a `.` or a bracket, which are written as they are. -/
theorem head?_escapeTemplate_segment (key body : Text) :
    (escapeTemplate (segment key) ++ body).head? = (segment key).head? ∧
      ((segment key).head? = some (.scalar '.') ∨ (segment key).head? = some (.scalar '[')) := by
  unfold PropertyPath.segment
  split
  · exact ⟨rfl, .inl rfl⟩
  · exact ⟨rfl, .inr rfl⟩

/-- A literal in front of a template becomes characters of it. -/
theorem IsTemplateOf.literal (h : IsTemplateOf expression hole ns body template) {key : Text}
    (hliteral : n.isLiteral = true) (hkey : literalKey n = .ok (some key)) :
    IsTemplateOf expression hole (n :: ns) (escapeTemplate (segment key) ++ body)
      (template.push (escapeTemplate (segment key))) where
  read := by
    rw [List.append_assoc, readTemplateFrom_escapeTemplate _ h.start, h.read]
    rfl
  sources := by
    rw [Template.sources_push, h.sources, List.filter_cons_of_neg (by simp [hliteral])]
  start := by
    obtain ⟨hhead, hsegment⟩ := head?_escapeTemplate_segment key (body ++ Text.ofChar '\x60')
    rw [List.append_assoc, hhead]
    rcases hsegment with hsegment | hsegment <;> rw [hsegment] <;> rfl
  value := by
    intro values keys hkeys hreturn
    rw [List.forall_mem_cons] at hreturn
    have hslot : SlotKey hole n key := slotKey_of_literalKey hliteral hkey
    cases hkeys with
    | dynamic _ hnot => simp [hliteral] at hnot
    | fixed hfound hrest =>
      obtain rfl := hslot.unique hfound
      obtain ⟨t, hvalue, hspells, hhead⟩ := h.value _ _ hrest hreturn.2
      -- A carriage return would be read as a line feed.
      have hclean : .scalar '\r' ∉ segment key := by
        have := hreturn.1 key hslot
        unfold PropertyPath.segment
        split <;> simp [this, Text.ofChar]
      refine ⟨segment key ++ t, ?_, spells_segment key hspells, ?_⟩
      · rw [Template.value?_push hclean, hvalue]
        rfl
      · obtain ⟨hbody, hsegment⟩ := head?_escapeTemplate_segment key body
        rw [hbody]
        rcases hsegment with hsegment | hsegment <;> simp [List.head?_append, hsegment]

/-- Any other element in front of a template becomes a substitution in brackets. -/
theorem IsTemplateOf.dynamic (h : IsTemplateOf expression hole ns body template)
    (hliteral : n.isLiteral = false) (hslot : n.kind ≠ .elision)
    (hparse : ∀ after, expression (n.text ++ .scalar '\x7d' :: after) = some n.text.length) :
    IsTemplateOf expression hole (n :: ns) (("[$\x7b" : Text) ++ n.text ++ ("\x7d]" : Text) ++ body)
      (((template.push (Text.ofChar ']')).pushSource n.text).push (Text.ofChar '[')) where
  read := by
    have hshape : ("[$\x7b" : Text) ++ n.text ++ ("\x7d]" : Text) ++ body ++ Text.ofChar '\x60' =
        .scalar '[' :: .scalar '$' :: .scalar '\x7b' ::
          (n.text ++ .scalar '\x7d' :: .scalar ']' :: (body ++ Text.ofChar '\x60')) := by
      have hfront : ("[$\x7b" : Text) = [.scalar '[', .scalar '$', .scalar '\x7b'] := rfl
      have hback : ("\x7d]" : Text) = [.scalar '\x7d', .scalar ']'] := rfl
      simp [hfront, hback]
    rw [hshape, readTemplateFrom_cons rfl rfl, readTemplateFrom_source (hparse _),
      readTemplateFrom_cons rfl rfl, h.read]
    rfl
  sources := by
    rw [Template.sources_push, Template.sources_pushSource, Template.sources_push, h.sources,
      List.filter_cons_of_pos (by simp [hliteral]), List.map_cons]
  start := rfl
  value := by
    intro values keys hkeys hreturn
    rw [List.forall_mem_cons] at hreturn
    cases hkeys with
    | fixed hfound =>
      have := hfound.isLiteral hslot
      simp [hliteral] at this
    | dynamic value _ _ hrest =>
      obtain ⟨t, hvalue, hspells, -⟩ := h.value _ _ hrest hreturn.2
      -- The brackets are written as they are.
      have hopen : Text.ofChar '[' = escapeTemplate (Text.ofChar '[') := rfl
      have hclose : Text.ofChar ']' = escapeTemplate (Text.ofChar ']') := rfl
      refine ⟨_, ?_, .bracket value hspells, rfl⟩
      rw [hopen, hclose, Template.value?_push (by decide), Template.value?_pushSource,
        Template.value?_push (by decide), hvalue]
      rfl

/-- The template of all elements of an array, step by step. -/
theorem Written.exists_isTemplateOf (h : Written ns body) (hslots : ∀ n ∈ ns, n.kind ≠ .elision)
    (hparse : ∀ n ∈ ns, n.isLiteral = false →
      ∀ after, expression (n.text ++ .scalar '\x7d' :: after) = some n.text.length) :
    ∃ template, IsTemplateOf expression hole ns body template := by
  induction h with
  | nil => exact ⟨_, isTemplateOf_nil⟩
  | literal hliteral hkey _ ih =>
    rw [List.forall_mem_cons] at hslots hparse
    obtain ⟨template, htemplate⟩ := ih hslots.2 hparse.2
    exact ⟨_, htemplate.literal hliteral hkey⟩
  | dynamic hliteral _ ih =>
    rw [List.forall_mem_cons] at hslots hparse
    obtain ⟨template, htemplate⟩ := ih hslots.2 hparse.2
    exact ⟨_, htemplate.dynamic hliteral hslots.1 (hparse.1 hliteral)⟩

/-- The `.` in front of the body may be dropped from the template and from its value. -/
theorem IsTemplateOf.exists_dropDot (h : IsTemplateOf expression hole ns body template) :
    ∃ dropped, readTemplateFrom expression 0 (dropDot body ++ Text.ofChar '\x60') = some dropped ∧
      dropped.sources = template.sources ∧
      ∀ values t, template.value? values = some t → t.head? = body.head? →
        dropped.value? values = some (dropDot t) := by
  have hread := h.read
  cases body with
  | nil =>
    refine ⟨template, hread, rfl, fun values t hvalue hhead => ?_⟩
    rw [hvalue, List.head?_eq_none_iff.1 hhead]
    rfl
  | cons p body =>
    by_cases hp : p.isChar '.' = true
    · obtain rfl := (CodePoint.isChar_iff p _).1 hp
      -- The dot is the first character of the template.
      rw [List.cons_append, readTemplateFrom_cons rfl rfl] at hread
      obtain ⟨dropped, hdropped, rfl⟩ := Option.map_eq_some_iff.1 hread
      refine ⟨dropped, hdropped, rfl, fun values t hvalue _ => ?_⟩
      have hdot : [CodePoint.scalar '.'] = escapeTemplate [.scalar '.'] := rfl
      rw [hdot, Template.value?_push (by decide)] at hvalue
      obtain ⟨rest, hrest, rfl⟩ := Option.map_eq_some_iff.1 hvalue
      exact hrest
    · have hbody : dropDot (p :: body) = p :: body := by simp [dropDot, hp]
      refine ⟨template, by rw [hbody, hread], rfl, fun values t hvalue hhead => ?_⟩
      obtain ⟨rest, rfl⟩ : ∃ rest, t = p :: rest := List.head?_eq_some_iff.1 hhead
      rw [hvalue]
      simp [dropDot, hp]

end Steps

/-! ## The whole template -/

/-- Without empty slots the elements are all the slots. -/
theorem parts_eq_slots {n : Node} (h : ∀ slot ∈ slots n, slot.kind ≠ .elision) : n.parts = slots n := by
  rw [parts_eq_filter_slots, List.filter_eq_self]
  intro slot hslot
  simpa using h slot hslot

/-- **Templates for arrays.**  Let an array without empty slots be offered a template, and let the
    source of each element that is no literal be one expression inside `${ }`.  Then the text is a
    template whose substitutions are the sources of these elements, in order.  Values for them give a
    key to every slot; if all keys are plain and not empty, and no literal stands for a key with a
    carriage return, then the template has a value, and it is split into the keys. -/
theorem template_fix_keeps_keys {n : Node} {text : Text} {expression : Text → Option Nat} (hole : Text)
    (hslots : ∀ slot ∈ slots n, slot.kind ≠ .elision) (htext : templatePath n = .ok (some text))
    (hparse : ∀ element ∈ n.parts, element.isLiteral = false →
      ∀ after, expression (element.text ++ .scalar '\x7d' :: after) = some element.text.length) :
    ∃ template, readTemplate? expression text = some template ∧
      template.sources = (n.parts.filter fun element => !element.isLiteral).map Node.text ∧
      ∀ values, values.length = template.sources.length →
        (∃ keys, KeysWith hole (slots n) values keys) ∧
        ∀ keys, KeysWith hole (slots n) values keys →
          (∀ key ∈ keys, key ≠ [] ∧ IsPlainKey key) →
          (∀ slot ∈ slots n, ∀ key, SlotKey hole slot key → .scalar '\r' ∉ key) →
          ∃ path, template.value? values = some path ∧ split path = keys := by
  have hparts := parts_eq_slots hslots
  rw [← hparts] at hslots ⊢
  obtain ⟨found, hsegments, hfound⟩ := map_eq_ok htext
  obtain ⟨body, rfl, rfl⟩ := Option.map_eq_some_iff.1 hfound
  have hwritten := written_of_templateSegments hsegments
  obtain ⟨template, htemplate⟩ : ∃ template, IsTemplateOf expression hole n.parts body template :=
    hwritten.exists_isTemplateOf hslots hparse
  obtain ⟨dropped, hread, hsources, hvalue⟩ := htemplate.exists_dropDot
  refine ⟨dropped, hread, hsources.trans htemplate.sources, fun values hvalues => ⟨?_, ?_⟩⟩
  · apply hwritten.exists_keysWith hole hslots
    rw [hvalues, hsources, htemplate.sources, List.length_map]
  · intro keys hkeys hplain hreturn
    obtain ⟨t, ht, hspells, hhead⟩ := htemplate.value values keys hkeys hreturn
    refine ⟨dropDot t, hvalue values t ht hhead, ?_⟩
    rw [hspells.split_dropDot, splitFrom_of_spells hspells hplain]

/-- An array of `'a$'`, `key` and a string with `${x}` and a backtick in it, which must neither open a
    substitution nor end the template; `key` has a value with a dot and a bracket. -/
theorem template_fix_keeps_awkward_keys :
    let leaf (kind : Kind) (text : Text) : Node := .mk ⟨kind, none, ⟨0, 0, 0, 0, 0, 0⟩, text⟩ []
    let n : Node := .mk ⟨.array, none, ⟨0, 0, 0, 0, 0, 0⟩, "['a$', key, '$\x7bx\x7d\x60']"⟩
      [leaf .string "'a$'", leaf .identifier "key", leaf .string "'$\x7bx\x7d\x60'"]
    let expression (t : Text) : Option Nat := some (t.takeWhile fun p => !p.isChar '\x7d').length
    let text : Text := "\x60a$[$\x7bkey\x7d][\\$\x7bx\x7d\\\x60]\x60"
    templatePath n = .ok (some text) ∧ ∃ template path, readTemplate? expression text = some template ∧
      template.sources = ["key"] ∧ template.value? ["x.y]"] = some path ∧
      split path = ["a$", "x.y]", "$\x7bx\x7d\x60"] := by
  intro leaf n expression text
  have htext : templatePath n = .ok (some text) := rfl
  have hslots : slots n =
      [leaf .string "'a$'", leaf .identifier "key", leaf .string "'$\x7bx\x7d\x60'"] := rfl
  have hfull : ∀ slot ∈ slots n, slot.kind ≠ .elision := by
    rw [hslots]
    decide
  have hparse : ∀ element ∈ n.parts, element.isLiteral = false →
      ∀ after, expression (element.text ++ .scalar '\x7d' :: after) = some element.text.length := by
    intro element helement hliteral after
    rw [parts_eq_slots hfull, hslots] at helement
    simp only [List.mem_cons, List.not_mem_nil, or_false] at helement
    obtain rfl | rfl | rfl := helement
    · exact nomatch hliteral
    · rfl
    · exact nomatch hliteral
  have hfirst : SlotKey [] (leaf .string "'a$'") "a$" := .string rfl rfl
  have hlast : SlotKey [] (leaf .string "'$\x7bx\x7d\x60'") "$\x7bx\x7d\x60" := .string rfl rfl
  have hkeys : KeysWith [] (slots n) ["x.y]"] ["a$", "x.y]", "$\x7bx\x7d\x60"] :=
    .fixed hfirst (.dynamic _ rfl (by decide) (.fixed hlast .nil))
  have hreturn : ∀ slot ∈ slots n, ∀ key, SlotKey [] slot key → .scalar '\r' ∉ key := by
    intro slot hslot key hkey
    rw [hslots] at hslot
    simp only [List.mem_cons, List.not_mem_nil, or_false] at hslot
    obtain rfl | rfl | rfl := hslot
    · rw [hkey.unique hfirst]
      decide
    · exact nomatch hkey.isLiteral (by decide)
    · rw [hkey.unique hlast]
      decide
  obtain ⟨template, hread, hsources, hvalue⟩ := template_fix_keeps_keys [] hfull htext hparse
  have hlength : [Text.ofString "x.y]"].length = template.sources.length := by
    rw [hsources]
    rfl
  obtain ⟨path, hpath, hsplit⟩ := (hvalue _ hlength).2 _ hkeys (by decide) hreturn
  exact ⟨htext, template, path, hread, hsources, hpath, hsplit⟩

end PathStyle

end LodashStyle
