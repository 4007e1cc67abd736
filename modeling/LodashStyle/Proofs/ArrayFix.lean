import LodashStyle.Proofs.Escapes
import LodashStyle.Proofs.StringQuoting
import LodashStyle.Rule.PathStyle

/-!
# What an array offered for a string means

For a string path the path rule offers an array of string literals, one for each key.  The literals
are complete: none of them ends early or runs into the next one, whatever the keys hold.  Their
values are the keys that the string is split into.

A literal whose escapes all write code points has a value, and then it has an array.  Other literals
are not part of the language; for them neither the value nor the array exists.

## Key results

- `isStringToken_quote`: a quoted value is one complete literal
- `mapM_stringValue_map_quote`: quoted values are read back one by one
- `array_fix_keeps_keys`: the array denotes the keys of the string
-/

namespace LodashStyle

open JavaScript

namespace PropertyPath

/-- One complete string literal: a mark at both ends, of which the last is not escaped, marks
    between them only where they are escaped, and no line end. -/
def IsStringToken (mark : Char) (t : Text) : Prop :=
  ∃ body, t = .scalar mark :: (body ++ [.scalar mark]) ∧
    AllEscaped (fun after => after.head?.any (·.isChar mark)) body ∧ isEscaped body = false ∧
    ∀ p ∈ t, p.isChar '\n' = false ∧ p.isChar '\r' = false

/-- A code point is written as a backslash and one more code point, or as itself. -/
theorem escapePoint_cases {mark : Char} (h : IsMark mark) (p : CodePoint) :
    (∃ q : CodePoint, escapePoint mark p = [.scalar '\\', q] ∧ q.isChar '\n' = false ∧
      q.isChar '\r' = false) ∨
    (escapePoint mark p = [p] ∧ p.isChar '\\' = false ∧ p.isChar mark = false ∧
      p.isChar '\n' = false ∧ p.isChar '\r' = false) := by
  unfold escapePoint
  by_cases hp : p = .scalar '\\'
  · rw [if_pos hp]
    exact .inl ⟨_, rfl, rfl, rfl⟩
  by_cases hm : p = .scalar mark
  · rw [if_neg hp, if_pos hm]
    -- The mark is none of the line ends.
    rcases h with rfl | rfl <;> exact .inl ⟨_, rfl, rfl, rfl⟩
  by_cases hn : p = .scalar '\n'
  · rw [if_neg hp, if_neg hm, if_pos hn]
    exact .inl ⟨_, rfl, rfl, rfl⟩
  by_cases hr : p = .scalar '\r'
  · rw [if_neg hp, if_neg hm, if_neg hn, if_pos hr]
    exact .inl ⟨_, rfl, rfl, rfl⟩
  rw [if_neg hp, if_neg hm, if_neg hn, if_neg hr]
  refine .inr ⟨rfl, ?_⟩
  simp only [Bool.eq_false_iff, ne_eq, CodePoint.isChar_iff]
  exact ⟨hp, hm, hn, hr⟩

/-- Between the marks of a literal every mark is escaped. -/
theorem allEscaped_escapeString {mark : Char} (h : IsMark mark) (value : Text) :
    AllEscaped (fun after => after.head?.any (·.isChar mark))
      (escapeString (Text.ofChar mark) value) := by
  rw [escapeString_eq_flatMap h]
  induction value with
  | nil => exact allEscaped_nil rfl
  | cons p value ih =>
    rw [List.flatMap_cons]
    obtain ⟨q, hq, -⟩ | ⟨hself, hslash, hmark, -⟩ := escapePoint_cases h p
    · -- The backslash itself is no mark.
      have hback : (CodePoint.scalar '\\').isChar mark = false := by rcases h with rfl | rfl <;> rfl
      rw [hq]
      exact ih.escape (by simpa using hback)
    · rw [hself]
      exact ih.cons hslash (by simpa using hmark)

/-- No backslash is left over in front of the closing mark. -/
theorem isEscaped_escapeString {mark : Char} (h : IsMark mark) (value : Text) :
    isEscaped (escapeString (Text.ofChar mark) value) = false := by
  rw [escapeString_eq_flatMap h]
  induction value with
  | nil => rfl
  | cons p value ih =>
    rw [List.flatMap_cons]
    obtain ⟨q, hq, -⟩ | ⟨hself, hslash, -⟩ := escapePoint_cases h p
    · rw [hq]
      exact (isEscaped_escape q _).trans ih
    · rw [hself]
      exact (isEscaped_cons hslash _).trans ih

/-- A literal stands on one line. -/
theorem not_lineEnd_escapeString {mark : Char} (h : IsMark mark) (value : Text) :
    ∀ p ∈ escapeString (Text.ofChar mark) value, p.isChar '\n' = false ∧ p.isChar '\r' = false := by
  rw [escapeString_eq_flatMap h]
  intro p hp
  obtain ⟨v, -, hp⟩ := List.mem_flatMap.1 hp
  obtain ⟨q, hq, hline⟩ | ⟨hself, -, -, hline⟩ := escapePoint_cases h v
  · rw [hq] at hp
    simp only [List.mem_cons, List.not_mem_nil, or_false] at hp
    rcases hp with rfl | rfl
    · exact ⟨rfl, rfl⟩
    · exact hline
  · rw [hself, List.mem_singleton] at hp
    rw [hp]
    exact hline

/-- A quoted value is one complete literal. -/
theorem isStringToken_quote {mark : Char} (h : IsMark mark) (value : Text) :
    IsStringToken mark (quote (Text.ofChar mark) value) := by
  refine ⟨escapeString (Text.ofChar mark) value, by simp [quote, Text.ofChar],
    allEscaped_escapeString h value, isEscaped_escapeString h value, ?_⟩
  intro p hp
  simp only [quote, Text.ofChar, List.mem_append, List.mem_singleton] at hp
  have hmark : ∀ p, p = CodePoint.scalar mark → p.isChar '\n' = false ∧ p.isChar '\r' = false := by
    rintro p rfl
    rcases h with rfl | rfl <;> exact ⟨rfl, rfl⟩
  obtain (hp | hp) | hp := hp
  · exact hmark p hp
  · exact not_lineEnd_escapeString h value p hp
  · exact hmark p hp

/-- Quoted values are read back one by one. -/
theorem mapM_stringValue_map_quote {mark : Char} (h : IsMark mark) (values : List Text) :
    (values.map (quote (Text.ofChar mark))).mapM stringValue = .ok values := by
  induction values with
  | nil => rfl
  | cons value values ih =>
    rw [List.map_cons, List.mapM_cons, stringValue_quote h, ih]
    rfl

end PropertyPath

namespace PathStyle

open PropertyPath

/-- **Arrays for strings.**  A string has an array exactly when every number that it writes by an
    escape is a code point, as the language asks for.  For every path that is the value of a string,
    the array holds complete single-quoted literals, separated by `, `, and their values are the keys
    of the path.  Underneath is the law that a quoted value is read back, with either mark. -/
theorem array_fix_keeps_keys (n : Node) :
    ((∃ text, arrayStyle n = .ok text) ↔
      ∀ number, Writes n.text.tail.dropLast number → number < 0x110000) ∧
    (∀ path, stringValue n.text = .ok path → ∃ tokens : List Text,
      arrayStyle n = .ok (.scalar '[' :: Text.join ", " tokens ++ Text.ofChar ']') ∧
      (∀ token ∈ tokens, IsStringToken '\'' token) ∧ tokens.mapM stringValue = .ok (split path)) ∧
    ∀ mark, IsMark mark → ∀ value, stringValue (quote (Text.ofChar mark) value) = .ok value := by
  have hsingle : IsMark '\'' := .inl rfl
  refine ⟨?_, ?_, fun mark h value => stringValue_quote h value⟩
  · rw [arrayStyle, map_isOk_iff, stringValue, cook_isOk_iff]
  · intro path hpath
    refine ⟨(split path).map (quote (Text.ofChar '\'')), ?_, ?_, ?_⟩
    · rw [arrayStyle, hpath]
      rfl
    · intro token htoken
      obtain ⟨key, -, rfl⟩ := List.mem_map.1 htoken
      exact isStringToken_quote hsingle key
    · exact mapM_stringValue_map_quote hsingle (split path)

/-- A key with a quote and a comma, and one with a line feed, written by an escape. -/
theorem array_fix_keeps_quoted_key :
    let n : Node := .mk ⟨.string, none, ⟨0, 0, 0, 0, 0, 0⟩, "'a[\"it\\'s, \"].b\\n'"⟩ []
    arrayStyle n = .ok "['a', 'it\\'s, ', 'b\\n']" ∧ ∃ tokens : List Text,
      arrayStyle n = .ok (.scalar '[' :: Text.join ", " tokens ++ Text.ofChar ']') ∧
      tokens.mapM stringValue = .ok ["a", "it's, ", "b\n"] := by
  intro n
  have hpath : stringValue n.text = .ok "a[\"it's, \"].b\n" := rfl
  have hsplit : split "a[\"it's, \"].b\n" = (["a", "it's, ", "b\n"] : List Text) := by decide
  obtain ⟨tokens, harray, -, hkeys⟩ := (array_fix_keeps_keys n).2.1 _ hpath
  rw [hsplit] at hkeys
  exact ⟨rfl, tokens, harray, hkeys⟩

end PathStyle

end LodashStyle
