import LodashStyle.Proofs.Escapes
import LodashStyle.Proofs.StringQuoting
import LodashStyle.PropertyPath.Render

/-!
# Text as the characters of a template

`cookTemplate` is the value that the language gives to the characters of a template literal: escapes
are decoded, and a carriage return, with the line feed behind it or without, counts as one line
feed.  `escapeTemplate` puts a backslash in front of what could end the characters, and the backslash
is taken away again when they are cooked.  It leaves carriage returns as they are, and these do not
survive.  The backslashes are written in one pass here, which comes to the same as replacing
backslashes, backticks and openings one after the other.

## Key results

- `escapeTemplate_eq_replace`: escaping is three replacements, one after the other
- `allEscaped_escapeTemplate`: no backtick and no `${` is left without a backslash
- `cookTemplate_escapeTemplate_append`: a text without carriage returns is read back, whatever follows
- `template_text_reads_back_iff`: a text is read back exactly when it holds no carriage return
-/

namespace LodashStyle

namespace JavaScript

/-! ## Values -/

/-- A decimal digit. -/
def isDecimal (p : CodePoint) : Bool := (hexValue? p).any (· < 10)

/-- The value of the escape `\p` among the characters of a template, where `rest` follows, and the
    number of code points of `rest` that belong to it.  There is none for an `x` or `u` without its
    digits, for a number beyond the code points, and for a digit that is no lone zero. -/
def templateEscape? (p : CodePoint) (rest : Text) : Option (Text × Nat) :=
  if p.isChar 'u' then
    if rest.head?.any (·.isChar '\x7b') then
      let digits := hexRun rest.tail
      if !digits.isEmpty && (rest.drop (digits.length + 1)).head?.any (·.isChar '\x7d') then
        (CodePoint.ofNat? (hexNumber digits)).map fun q => ([q], digits.length + 2)
      else none
    else if (hexRun (rest.take 4)).length = 4 then
      (CodePoint.ofNat? (hexNumber (rest.take 4))).map fun q => ([q], 4)
    else none
  else if p.isChar 'x' then
    if (hexRun (rest.take 2)).length = 2 then
      (CodePoint.ofNat? (hexNumber (rest.take 2))).map fun q => ([q], 2)
    else none
  else if isDecimal p then
    if p.isChar '0' && !rest.head?.any isDecimal then some ([.scalar '\x00'], 0) else none
  -- a line end behind a backslash continues the line
  else if p.isChar '\r' && rest.head?.any (·.isChar '\n') then some ([], 1)
  else if isLineEnd p then some ([], 0)
  else some ([letterEscape p], 0)

/-- The value of the characters of a template after the first `skip` code points. -/
def cookTemplateFrom (skip : Nat) : Text → Option Text
  | [] => some []
  | p :: rest =>
    match skip with
    | skip + 1 => cookTemplateFrom skip rest
    | 0 =>
      if p.isChar '\\' then
        match rest with
        | [] => none
        | next :: more =>
          match templateEscape? next more with
          | none => none
          | some (value, used) => (cookTemplateFrom (used + 1) rest).map (value ++ ·)
      else if p.isChar '\r' then
        -- the line feed behind a carriage return belongs to it
        (cookTemplateFrom (if rest.head?.any (·.isChar '\n') then 1 else 0) rest).map (.scalar '\n' :: ·)
      else
        (cookTemplateFrom 0 rest).map (p :: ·)

/-- The value of the characters of a template, if every escape among them has one. -/
def cookTemplate (raw : Text) : Option Text := cookTemplateFrom 0 raw

/-- Whether a text starts with what ends the characters of a template: a backtick or `${`. -/
def endsTemplateText : Text → Bool
  | [] => false
  | p :: rest => p.isChar '\x60' || (p.isChar '$' && rest.head?.any (·.isChar '\x7b'))

theorem cookTemplateFrom_eq_drop (skip : Nat) (t : Text) :
    cookTemplateFrom skip t = cookTemplate (t.drop skip) := by
  induction t generalizing skip with
  | nil => simp [cookTemplate, cookTemplateFrom]
  | cons p rest ih =>
    cases skip with
    | zero => rfl
    | succ skip => simpa [cookTemplateFrom] using ih skip

/-- A code point that is no backslash and no carriage return stands for itself. -/
theorem cookTemplate_cons {p : CodePoint} (hslash : p.isChar '\\' = false) (hreturn : p.isChar '\r' = false)
    (rest : Text) : cookTemplate (p :: rest) = (cookTemplate rest).map (p :: ·) := by
  simp [cookTemplate, cookTemplateFrom, hslash, hreturn]

/-- A carriage return stands for a line feed, together with one behind it. -/
theorem cookTemplate_return (rest : Text) :
    cookTemplate (.scalar '\r' :: rest) =
      (cookTemplate (rest.drop (if rest.head?.any (·.isChar '\n') then 1 else 0))).map
        (.scalar '\n' :: ·) := by
  rw [← cookTemplateFrom_eq_drop]
  rfl

/-- A backslash is taken away from a backslash, a backtick and a `$`. -/
theorem cookTemplate_escape {p : CodePoint}
    (hp : p = .scalar '\\' ∨ p = .scalar '\x60' ∨ p = .scalar '$') (rest : Text) :
    cookTemplate (.scalar '\\' :: p :: rest) = (cookTemplate rest).map (p :: ·) := by
  have hescape : templateEscape? p rest = some ([p], 0) := by
    obtain rfl | rfl | rfl := hp <;> rfl
  have hslash : (CodePoint.scalar '\\').isChar '\\' = true := rfl
  simp only [cookTemplate, cookTemplateFrom, hslash, if_true, hescape]
  rfl

end JavaScript

namespace PropertyPath

open JavaScript

/-! ## Escaping -/

/-- What is written for a code point: a backslash in front of it, or the code point alone if it
    ends nothing and starts no escape. -/
theorem escapeTemplate_cons_cases (p : CodePoint) (rest : Text) :
    (escapeTemplate (p :: rest) = .scalar '\\' :: p :: escapeTemplate rest ∧
      (p = .scalar '\\' ∨ p = .scalar '\x60' ∨ p = .scalar '$')) ∨
    (escapeTemplate (p :: rest) = p :: escapeTemplate rest ∧ p.isChar '\\' = false ∧
      endsTemplateText (p :: rest) = false) := by
  rw [escapeTemplate]
  split
  · rename_i h
    simp only [Bool.or_eq_true, Bool.and_eq_true, CodePoint.isChar_iff] at h
    refine .inl ⟨rfl, ?_⟩
    rcases h with (h | h) | h
    · exact .inl h
    · exact .inr (.inl h)
    · exact .inr (.inr h.1)
  · rename_i h
    simp only [Bool.or_assoc, Bool.not_eq_true, Bool.or_eq_false_iff] at h
    exact .inr ⟨rfl, h.1, by simp [endsTemplateText, h.2]⟩

/-- An escaped text starts as the text does, or with a backslash. -/
theorem head?_escapeTemplate {c : Char} (hc : c ≠ '\\') {t : Text}
    (ht : t.head?.any (·.isChar c) = false) (raw : Text) (hraw : raw.head?.any (·.isChar c) = false) :
    (escapeTemplate t ++ raw).head?.any (·.isChar c) = false := by
  cases t with
  | nil => exact hraw
  | cons p rest =>
    obtain ⟨h, -⟩ | ⟨h, -⟩ := escapeTemplate_cons_cases p rest
    · simp [h, hc.symm]
    · simpa [h] using ht

/-- What ends no characters before the text is escaped ends none afterwards. -/
theorem endsTemplateText_escapeTemplate {p : CodePoint} {rest : Text}
    (h : endsTemplateText (p :: rest) = false) (raw : Text)
    (hraw : raw.head?.any (·.isChar '\x7b') = false) :
    endsTemplateText (p :: (escapeTemplate rest ++ raw)) = false := by
  simp only [endsTemplateText, Bool.or_eq_false_iff, Bool.and_eq_false_iff] at h ⊢
  refine ⟨h.1, ?_⟩
  rcases h.2 with hdollar | hbrace
  · exact .inl hdollar
  · exact .inr (head?_escapeTemplate (by decide) hbrace raw hraw)

/-- Every backtick and every `${` of an escaped text has a backslash that is not escaped itself. -/
theorem allEscaped_escapeTemplate (t : Text) : AllEscaped endsTemplateText (escapeTemplate t) := by
  induction t with
  | nil => exact allEscaped_nil rfl
  | cons p rest ih =>
    obtain ⟨h, -⟩ | ⟨h, hslash, hends⟩ := escapeTemplate_cons_cases p rest
    · rw [h]
      exact ih.escape rfl
    · rw [h]
      have hnext := endsTemplateText_escapeTemplate hends [] rfl
      rw [List.append_nil] at hnext
      exact ih.cons hslash hnext

/-! ## One replacement after the other -/

/-- What becomes of a code point when backslashes and backticks are escaped. -/
def escapeAlone (p : CodePoint) : Text :=
  if p = .scalar '\\' ∨ p = .scalar '\x60' then [.scalar '\\', p] else [p]

/-- Backslashes and backticks are single code points, so that escaping the ones and then the others
    is one pass. -/
theorem replace_marks_eq_flatMap (t : Text) :
    Text.replace "\x60" "\\\x60" (Text.replace "\\" "\\\\" t) = t.flatMap escapeAlone := by
  have hslash : ("\\" : Text) = [.scalar '\\'] := rfl
  have hmark : ("\x60" : Text) = [.scalar '\x60'] := rfl
  rw [hslash, hmark, Text.replace_singleton, Text.replace_singleton, List.flatMap_assoc]
  congr 1
  funext p
  unfold escapeAlone
  by_cases hp : p = .scalar '\\'
  · subst hp
    rfl
  by_cases hm : p = .scalar '\x60'
  · subst hm
    rfl
  simp [hp, hm]

/-- An opening `${` gets a backslash where it stands. -/
theorem replace_opening_cons (p : CodePoint) (rest : Text) :
    Text.replace "$\x7b" "\\$\x7b" (p :: rest) =
      if p.isChar '$' && rest.head?.any (·.isChar '\x7b') then
        .scalar '\\' :: .scalar '$' :: .scalar '\x7b' :: Text.replace "$\x7b" "\\$\x7b" rest.tail
      else p :: Text.replace "$\x7b" "\\$\x7b" rest := by
  have hold : ("$\x7b" : Text) = [.scalar '$', .scalar '\x7b'] := rfl
  have hnew : ("\\$\x7b" : Text) = [.scalar '\\', .scalar '$', .scalar '\x7b'] := rfl
  simp only [Text.replace, hold, hnew, List.isEmpty_cons, Bool.false_eq_true, if_false]
  rw [Text.replaceFrom]
  cases rest with
  | nil => simp [List.isPrefixOf, Text.replaceFrom]
  | cons q rest =>
    have hpair : List.isPrefixOf [CodePoint.scalar '$', .scalar '\x7b'] (p :: q :: rest) =
        (p.isChar '$' && q.isChar '\x7b') := by
      rw [Bool.eq_iff_iff]
      simp [List.isPrefixOf, CodePoint.isChar_iff, @eq_comm _ _ p, @eq_comm _ _ q]
    rw [hpair]
    simp [Text.replaceFrom]

/-- A brace comes first in a text exactly when it does after the marks have been escaped. -/
theorem head?_flatMap_escapeAlone (t : Text) :
    (t.flatMap escapeAlone).head?.any (·.isChar '\x7b') = t.head?.any (·.isChar '\x7b') := by
  cases t with
  | nil => rfl
  | cons p rest =>
    rw [List.flatMap_cons, escapeAlone]
    split
    · rename_i hp
      obtain rfl | rfl := hp <;> rfl
    · rfl

/-- Escaping is one replacement after the other: of backslashes, of backticks and of openings. -/
theorem escapeTemplate_eq_replace (t : Text) :
    escapeTemplate t =
      Text.replace "$\x7b" "\\$\x7b"
        (Text.replace "\x60" "\\\x60" (Text.replace "\\" "\\\\" t)) := by
  rw [replace_marks_eq_flatMap]
  induction t with
  | nil => rfl
  | cons p rest ih =>
    rw [List.flatMap_cons]
    by_cases hp : p = .scalar '\\' ∨ p = .scalar '\x60'
    · -- Neither the backslash nor the mark behind it starts an opening.
      have hwritten : escapeTemplate (p :: rest) = .scalar '\\' :: p :: escapeTemplate rest := by
        obtain rfl | rfl := hp <;> rfl
      have hdollar : p.isChar '$' = false := by
        obtain rfl | rfl := hp <;> rfl
      rw [hwritten, ih, escapeAlone, if_pos hp, List.cons_append, List.singleton_append,
        replace_opening_cons, replace_opening_cons]
      simp [hdollar]
    · have hslash : p.isChar '\\' = false := by
        rw [Bool.eq_false_iff, ne_eq, CodePoint.isChar_iff]
        exact fun h => hp (.inl h)
      have hmark : p.isChar '\x60' = false := by
        rw [Bool.eq_false_iff, ne_eq, CodePoint.isChar_iff]
        exact fun h => hp (.inr h)
      rw [escapeAlone, if_neg hp, List.singleton_append, replace_opening_cons, head?_flatMap_escapeAlone,
        escapeTemplate, hslash, hmark, ih, Bool.false_or, Bool.false_or]
      by_cases hopening : (p.isChar '$' && rest.head?.any (·.isChar '\x7b')) = true
      · -- The replacement takes the brace of the opening too, and leaves it as it is.
        rw [if_pos hopening, if_pos hopening]
        rw [Bool.and_eq_true] at hopening
        obtain ⟨hdollar, hbrace⟩ := hopening
        cases rest with
        | nil => exact nomatch hbrace
        | cons q rest =>
          obtain rfl := (CodePoint.isChar_iff p _).1 hdollar
          obtain rfl := (CodePoint.isChar_iff q _).1 hbrace
          have halone : (CodePoint.scalar '\x7b' :: rest).flatMap escapeAlone =
              .scalar '\x7b' :: rest.flatMap escapeAlone := rfl
          rw [halone, replace_opening_cons]
          rfl
      · rw [if_neg hopening, if_neg hopening]

/-! ## Reading back -/

/-- Any code point but a carriage return is read back in front of any characters. -/
theorem cookTemplate_escapeTemplate_cons {p : CodePoint} (hp : p.isChar '\r' = false) (rest raw : Text) :
    cookTemplate (escapeTemplate (p :: rest) ++ raw) =
      (cookTemplate (escapeTemplate rest ++ raw)).map (p :: ·) := by
  obtain ⟨h, hp⟩ | ⟨h, hslash, -⟩ := escapeTemplate_cons_cases p rest
  · rw [h, List.cons_append, List.cons_append, cookTemplate_escape hp]
  · rw [h, List.cons_append, cookTemplate_cons hslash hp]

/-- A text without carriage returns is read back in front of any characters. -/
theorem cookTemplate_escapeTemplate_append {t : Text} (ht : .scalar '\r' ∉ t) (raw : Text) :
    cookTemplate (escapeTemplate t ++ raw) = (cookTemplate raw).map (t ++ ·) := by
  induction t with
  | nil => simp [escapeTemplate]
  | cons p rest ih =>
    rw [List.mem_cons, not_or] at ht
    have hp : p.isChar '\r' = false := by
      rw [Bool.eq_false_iff, ne_eq, CodePoint.isChar_iff]
      exact fun h => ht.1 h.symm
    rw [cookTemplate_escapeTemplate_cons hp, ih ht.2, Option.map_map]
    rfl

/-- The text with every carriage return, alone or before a line feed, as one line feed. -/
def unifyLines : Text → Text
  | [] => []
  | .scalar '\r' :: .scalar '\n' :: rest => .scalar '\n' :: unifyLines rest
  | p :: rest => (if p.isChar '\r' then .scalar '\n' else p) :: unifyLines rest

theorem not_mem_unifyLines (t : Text) : .scalar '\r' ∉ unifyLines t := by
  fun_induction unifyLines t with
  | case1 => simp
  | case2 rest ih => simpa using ih
  | case3 p rest _ ih =>
    rw [List.mem_cons, not_or]
    refine ⟨?_, ih⟩
    split
    · decide
    · rename_i hp
      rw [CodePoint.isChar_iff] at hp
      exact fun h => hp h.symm

/-- Only carriage returns make a difference. -/
theorem unifyLines_eq_self_iff (t : Text) : unifyLines t = t ↔ .scalar '\r' ∉ t := by
  constructor
  · intro h
    rw [← h]
    exact not_mem_unifyLines t
  · intro h
    fun_induction unifyLines t with
    | case1 => rfl
    | case2 rest ih => simp at h
    | case3 p rest _ ih =>
      rw [List.mem_cons, not_or] at h
      have hp : ¬p.isChar '\r' = true := by
        rw [CodePoint.isChar_iff]
        exact fun hp => h.1 hp.symm
      rw [if_neg hp, ih h.2]

/-- What an escaped text is read as. -/
theorem cookTemplate_escapeTemplate (t : Text) : cookTemplate (escapeTemplate t) = some (unifyLines t) := by
  fun_induction unifyLines t with
  | case1 => rfl
  | case2 rest ih =>
    -- The line feed is read together with the carriage return before it.
    have hwritten : escapeTemplate (.scalar '\r' :: .scalar '\n' :: rest) =
        .scalar '\r' :: .scalar '\n' :: escapeTemplate rest := rfl
    rw [hwritten, cookTemplate_return]
    simp [ih]
  | case3 p rest hpair ih =>
    cases hp : p.isChar '\r' with
    | false =>
      have hstep := cookTemplate_escapeTemplate_cons hp rest []
      rw [List.append_nil, List.append_nil, ih] at hstep
      rw [hstep]
      rfl
    | true =>
      obtain rfl := (CodePoint.isChar_iff p _).1 hp
      -- No line feed follows, so none follows in the escaped text.
      have hhead : rest.head?.any (·.isChar '\n') = false := by
        cases rest with
        | nil => rfl
        | cons q rest =>
          rw [List.head?_cons, Option.any_some, Bool.eq_false_iff, ne_eq, CodePoint.isChar_iff]
          rintro rfl
          exact hpair rest rfl rfl
      have hnone := head?_escapeTemplate (by decide) hhead [] rfl
      rw [List.append_nil] at hnone
      have hwritten : escapeTemplate (.scalar '\r' :: rest) = .scalar '\r' :: escapeTemplate rest := rfl
      rw [hwritten, cookTemplate_return, hnone]
      simp [ih]

/-- **Template text.**  No backtick and no `${` of an escaped text is without a backslash.  The text
    is read back up to its line ends: a carriage return, alone or before a line feed, comes back as
    one line feed.  So it is read back as it was exactly when it holds no carriage return. -/
theorem template_text_reads_back_iff (t : Text) :
    AllEscaped endsTemplateText (escapeTemplate t) ∧
      cookTemplate (escapeTemplate t) = some (unifyLines t) ∧
      (cookTemplate (escapeTemplate t) = some t ↔ .scalar '\r' ∉ t) := by
  refine ⟨allEscaped_escapeTemplate t, cookTemplate_escapeTemplate t, ?_⟩
  rw [cookTemplate_escapeTemplate, Option.some.injEq]
  exact unifyLines_eq_self_iff t

/-- A carriage return is read back as a line feed. -/
theorem template_text_loses_return :
    cookTemplate (escapeTemplate "\r") = some ("\n" : Text) ∧
      cookTemplate (escapeTemplate "\r") ≠ some ("\r" : Text) := by
  obtain ⟨-, hvalue, hsame⟩ := template_text_reads_back_iff "\r"
  refine ⟨hvalue, ?_⟩
  rw [ne_eq, hsame]
  decide

end PropertyPath

end LodashStyle
