import LodashStyle.JavaScript.StringLiteral
import LodashStyle.PropertyPath.Render

/-!
# A quoted value is read back

`escapeString` replaces backslashes, marks and line ends one after the other.  Since each of
them is a single code point, this is one pass over the value (`escapeString_eq_flatMap`), and
`cook` undoes it code point by code point.

## Key results

- `cook_escapeString`: the text between the marks denotes the value
- `stringValue_quote`: so does the literal
-/

namespace LodashStyle

open JavaScript

/-- Replacing one code point replaces it at each of its places. -/
theorem Text.replace_singleton (old : CodePoint) (new t : Text) :
    Text.replace [old] new t = t.flatMap fun p => if p = old then new else [p] := by
  simp only [replace, List.isEmpty_cons, Bool.false_eq_true, if_false]
  induction t with
  | nil => rfl
  | cons p t ih =>
    rw [List.flatMap_cons, ← ih]
    by_cases h : p = old
    · simp [replaceFrom, List.isPrefixOf, h]
    · simp [replaceFrom, List.isPrefixOf, h, Ne.symm h]

namespace PropertyPath

/-- The two marks that a string literal may stand between. -/
def IsMark (q : Char) : Prop := q = '\'' ∨ q = '"'

/-- How one code point of a value is written. -/
def escapePoint (mark : Char) (p : CodePoint) : Text :=
  if p = .scalar '\\' then [.scalar '\\', .scalar '\\']
  else if p = .scalar mark then [.scalar '\\', .scalar mark]
  else if p = .scalar '\n' then [.scalar '\\', .scalar 'n']
  else if p = .scalar '\r' then [.scalar '\\', .scalar 'r']
  else [p]

theorem escapeString_eq_flatMap {mark : Char} (h : IsMark mark) (value : Text) :
    escapeString (Text.ofChar mark) value = value.flatMap (escapePoint mark) := by
  have hback : ("\\" : Text) = [.scalar '\\'] := rfl
  have hline : ("\n" : Text) = [.scalar '\n'] := rfl
  have hreturn : ("\r" : Text) = [.scalar '\r'] := rfl
  simp only [escapeString, Text.ofChar, hback, hline, hreturn, Text.replace_singleton,
    List.flatMap_assoc]
  -- One pass after the other comes to what all of them make of each code point.
  congr 1
  funext p
  unfold escapePoint
  by_cases hp : p = .scalar '\\'
  · rcases h with rfl | rfl <;> subst hp <;> rfl
  by_cases hm : p = .scalar mark
  · rcases h with rfl | rfl <;> subst hm <;> rfl
  by_cases hn : p = .scalar '\n'
  · rcases h with rfl | rfl <;> subst hn <;> rfl
  by_cases hr : p = .scalar '\r'
  · rcases h with rfl | rfl <;> subst hr <;> rfl
  simp [hp, hm, hn, hr]

/-! ## Reading -/

/-- What stands for one code point of the value is read as that code point. -/
theorem cookFrom_escapePoint {mark : Char} (h : IsMark mark) (p : CodePoint) (rest : Text) :
    cookFrom 0 (escapePoint mark p ++ rest) = (cookFrom 0 rest).map (p :: ·) := by
  by_cases hp : p = .scalar '\\'
  · subst hp
    rfl
  by_cases hm : p = .scalar mark
  · rcases h with rfl | rfl <;> subst hm <;> rfl
  by_cases hn : p = .scalar '\n'
  · rcases h with rfl | rfl <;> subst hn <;> rfl
  by_cases hr : p = .scalar '\r'
  · rcases h with rfl | rfl <;> subst hr <;> rfl
  -- Any other code point stands for itself, for it is no backslash.
  have hchar : p.isChar '\\' = false := by
    rw [Bool.eq_false_iff, ne_eq, CodePoint.isChar_iff]
    exact hp
  simp [escapePoint, hp, hm, hn, hr, cookFrom, hchar]

/-- The text between the marks denotes the value. -/
theorem cook_escapeString {mark : Char} (h : IsMark mark) (value : Text) :
    cook (escapeString (Text.ofChar mark) value) = .ok value := by
  rw [escapeString_eq_flatMap h, cook]
  induction value with
  | nil => rfl
  | cons p value ih =>
    rw [List.flatMap_cons, cookFrom_escapePoint h, ih]
    rfl

/-- A quoted value is a literal with that value. -/
theorem stringValue_quote {mark : Char} (h : IsMark mark) (value : Text) :
    stringValue (quote (Text.ofChar mark) value) = .ok value := by
  have hbody : (quote (Text.ofChar mark) value).tail.dropLast =
      escapeString (Text.ofChar mark) value := by
    simp [quote, Text.ofChar]
  rw [stringValue, hbody, cook_escapeString h]

/-- The literal that keys are written as denotes the path that they are written as. -/
theorem stringValue_stringLiteral (keys : List Text) :
    stringValue (stringLiteral keys) = .ok (render keys) :=
  stringValue_quote (.inl rfl) (render keys)

end PropertyPath

end LodashStyle
