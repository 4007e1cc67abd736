import LodashStyle.Proofs.Escapes
import LodashStyle.Proofs.StringQuoting
import Mathlib.Algebra.GroupWithZero.Nat

/-!
# The value of a string literal in the language

`StringLiteral` is the grammar of string literals in strict mode together with the values that the
language gives to them.  A value is a list of 16-bit code units: a character of the literal counts as
the units of its encoding in UTF-16, and an escape as its own.  `stringValue` computes code points
instead, among which a surrogate stands for itself.  Written as code units the two are the same.

Legacy octal escapes and the escapes `\8` and `\9` are no part of strict mode, and a number in braces
is at most `10FFFF`.

## Key results

- `HexNumber.hexNumber_eq`: the digits are read as the number that they denote
- `escapeAt_numeral`, `escapeAt_of_not_numbered`: what an escape of each form comes to
- `StringCharacters.exists_cook`: the characters of a literal have a value, with these units
- `string_value_units`: so has the literal
-/

namespace LodashStyle

/-! ## Code units -/

/-- The encoding of the code point with a number in UTF-16. -/
def codeUnits (n : Nat) : List Nat :=
  if n ≤ 0xFFFF then [n] else [0xD800 + (n - 0x10000) / 0x400, 0xDC00 + (n - 0x10000) % 0x400]

/-- The encoding of a text in UTF-16; a surrogate stands for itself. -/
def Text.utf16 (t : Text) : List Nat := t.flatMap fun p => codeUnits p.val

@[simp] theorem Text.utf16_nil : Text.utf16 [] = [] := rfl

@[simp] theorem Text.utf16_cons (p : CodePoint) (t : Text) :
    Text.utf16 (p :: t) = codeUnits p.val ++ Text.utf16 t := rfl

namespace JavaScript

/-! ## The grammar -/

/-- A hexadecimal digit and its value, which is its place among the digits. -/
def HexDigit (p : CodePoint) (value : Nat) : Prop :=
  ("0123456789abcdef" : Text)[value]? = some p ∨ ("0123456789ABCDEF" : Text)[value]? = some p

/-- Hexadecimal digits and the number that they denote. -/
inductive HexNumber : Text → Nat → Prop where
  | one {p : CodePoint} {value : Nat} (hp : HexDigit p value) : HexNumber [p] value
  | snoc {digits : Text} {n : Nat} {p : CodePoint} {value : Nat} (hdigits : HexNumber digits n)
    (hp : HexDigit p value) : HexNumber (digits ++ [p]) (n * 16 + value)

/-- The characters that stand for another one, or for a mark or backslash, behind a backslash. -/
def singleEscapes : List (Char × Nat) :=
  [('b', 0x08), ('t', 0x09), ('n', 0x0A), ('v', 0x0B), ('f', 0x0C), ('r', 0x0D), ('"', 0x22),
    ('\'', 0x27), ('\\', 0x5C)]

/-- The ends of a line. -/
def lineEnds : List Text := ["\n", "\r", "\u2028", "\u2029", "\r\n"]

/-- A character that stands for itself behind a backslash: no character of an escape sequence and no
    end of a line. -/
def IsOrdinary (p : CodePoint) : Prop :=
  (∀ escape ∈ singleEscapes, p ≠ .scalar escape.1) ∧ p ∉ ("0123456789xu" : Text) ∧ [p] ∉ lineEnds

instance (p : CodePoint) : Decidable (IsOrdinary p) := inferInstanceAs (Decidable (_ ∧ _ ∧ _))

/-- The text between two marks of a string literal and its value. -/
inductive StringCharacters (mark : Char) : Text → List Nat → Prop where
  | nil : StringCharacters mark [] []
  | plain {p : CodePoint} {rest : Text} {units : List Nat} (hmark : p ≠ .scalar mark)
    (hslash : p ≠ .scalar '\\') (hline : p ≠ .scalar '\n') (hreturn : p ≠ .scalar '\r')
    (hrest : StringCharacters mark rest units) :
    StringCharacters mark (p :: rest) (codeUnits p.val ++ units)
  -- a line goes on behind its end, which counts for nothing
  | continued {lineEnd rest : Text} {units : List Nat} (hend : lineEnd ∈ lineEnds)
    (hwhole : lineEnd = "\r" → rest.head? ≠ some (.scalar '\n')) (hrest : StringCharacters mark rest units) :
    StringCharacters mark (.scalar '\\' :: (lineEnd ++ rest)) units
  | single {c : Char} {unit : Nat} {rest : Text} {units : List Nat} (hc : (c, unit) ∈ singleEscapes)
    (hrest : StringCharacters mark rest units) :
    StringCharacters mark (.scalar '\\' :: .scalar c :: rest) (unit :: units)
  | ordinary {p : CodePoint} {rest : Text} {units : List Nat} (hp : IsOrdinary p)
    (hrest : StringCharacters mark rest units) :
    StringCharacters mark (.scalar '\\' :: p :: rest) (codeUnits p.val ++ units)
  | zero {rest : Text} {units : List Nat} (hnext : ∀ p ∈ rest.head?, p ∉ ("0123456789" : Text))
    (hrest : StringCharacters mark rest units) :
    StringCharacters mark (.scalar '\\' :: .scalar '0' :: rest) (0 :: units)
  | hex {digits rest : Text} {n : Nat} {units : List Nat} (hdigits : HexNumber digits n)
    (hlength : digits.length = 2) (hrest : StringCharacters mark rest units) :
    StringCharacters mark (.scalar '\\' :: .scalar 'x' :: (digits ++ rest)) (n :: units)
  | unicode {digits rest : Text} {n : Nat} {units : List Nat} (hdigits : HexNumber digits n)
    (hlength : digits.length = 4) (hrest : StringCharacters mark rest units) :
    StringCharacters mark (.scalar '\\' :: .scalar 'u' :: (digits ++ rest)) (n :: units)
  | braced {digits rest : Text} {n : Nat} {units : List Nat} (hdigits : HexNumber digits n)
    (hn : n ≤ 0x10FFFF) (hrest : StringCharacters mark rest units) :
    StringCharacters mark
      (.scalar '\\' :: .scalar 'u' :: .scalar '\x7b' :: (digits ++ .scalar '\x7d' :: rest))
      (codeUnits n ++ units)

/-- A string literal of strict mode and its value. -/
inductive StringLiteral : Text → List Nat → Prop where
  | mk {mark : Char} {raw : Text} {units : List Nat} (hmark : PropertyPath.IsMark mark)
    (hraw : StringCharacters mark raw units) :
    StringLiteral (.scalar mark :: (raw ++ [.scalar mark])) units

/-! ## Numbers -/

theorem HexDigit.hexValue?_eq {p : CodePoint} {value : Nat} (h : HexDigit p value) :
    hexValue? p = some value := by
  have hlower : ∀ i < 16, ("0123456789abcdef" : Text)[i]?.bind hexValue? = some i := by decide
  have hupper : ∀ i < 16, ("0123456789ABCDEF" : Text)[i]?.bind hexValue? = some i := by decide
  rcases h with h | h
  · obtain ⟨hlt, -⟩ := List.getElem?_eq_some_iff.1 h
    simpa [h] using hlower value hlt
  · obtain ⟨hlt, -⟩ := List.getElem?_eq_some_iff.1 h
    simpa [h] using hupper value hlt

theorem HexNumber.ne_nil {digits : Text} {n : Nat} (h : HexNumber digits n) : digits ≠ [] := by
  cases h <;> simp

theorem HexNumber.isSome_hexValue? {digits : Text} {n : Nat} (h : HexNumber digits n) :
    ∀ p ∈ digits, (hexValue? p).isSome := by
  induction h with
  | one hp => simp [hp.hexValue?_eq]
  | snoc _ hp ih =>
    intro q hq
    rcases List.mem_append.1 hq with hq | hq
    · exact ih q hq
    · rw [List.mem_singleton.1 hq, hp.hexValue?_eq]
      rfl

/-- Digits are read as the number that they denote. -/
theorem HexNumber.hexNumber_eq {digits : Text} {n : Nat} (h : HexNumber digits n) :
    hexNumber digits = n := by
  induction h with
  | one hp => simp [hexNumber, hp.hexValue?_eq]
  | snoc _ hp ih =>
    rw [hexNumber, List.foldl_append]
    simp only [List.foldl_cons, List.foldl_nil, hp.hexValue?_eq, Option.getD_some]
    rw [← ih, hexNumber]

/-- A number below the bound is the number of its code point. -/
theorem numbered_of_le {n : Nat} (h : n ≤ 0x10FFFF) : ∃ p, numbered n = .ok p ∧ p.val = n := by
  unfold numbered CodePoint.ofNat?
  by_cases hsurrogate : 0xD800 ≤ n ∧ n < 0xE000
  · refine ⟨.surrogate ⟨n - 0xD800, by omega⟩, by simp [hsurrogate], ?_⟩
    simp only [CodePoint.val]
    omega
  · have hlt : n < 0x110000 := by omega
    have hvalid : n.isValidChar := by
      unfold Nat.isValidChar
      omega
    refine ⟨.scalar (Char.ofNat n), by simp [hsurrogate, hlt], ?_⟩
    rw [CodePoint.val, Char.ofNat, dif_pos hvalid]
    rfl

/-! ## Escapes -/

/-- A numeral behind a backslash is taken as a whole and stands for the code point of its number. -/
theorem escapeAt_numeral {next : CodePoint} {written digits : Text} (h : Numeral (next :: written) digits)
    (rest : Text) :
    escapeAt next (written ++ rest) =
      (numbered (hexNumber digits)).map fun q => ([q], written.length) := by
  cases h with
  | braced hsome hdigits =>
    have hrun := hexRun_append hdigits (p := .scalar '\x7d') rfl rest
    simp [escapeAt, hrun, hsome]
  | four hlength hdigits =>
    -- The first digit is no brace.
    have hbrace : (written ++ rest).head?.any (·.isChar '\x7b') = false := by
      cases written with
      | nil => simp at hlength
      | cons p written =>
        have hp := hdigits p List.mem_cons_self
        rw [List.cons_append, List.head?_cons, Option.any_some, Bool.eq_false_iff, ne_eq,
          CodePoint.isChar_iff]
        rintro rfl
        exact absurd hp (by decide)
    simp only [escapeAt, hbrace, Bool.and_false, Bool.false_and, Bool.false_eq_true, if_false,
      List.take_left' hlength, hexRun_eq_self hdigits, hlength]
    rfl
  | two hlength hdigits =>
    simp [escapeAt, List.take_left' hlength, hexRun_eq_self hdigits, hlength]

/-- Behind a backslash, an end of a line counts for nothing, and any other code point that starts no
    number stands for a character or for itself. -/
theorem escapeAt_of_not_numbered {next : CodePoint} (hu : next ≠ .scalar 'u') (hx : next ≠ .scalar 'x')
    (rest : Text) :
    escapeAt next rest =
      if next.isChar '\r' && rest.head?.any (·.isChar '\n') then .ok ([], 1)
      else if isLineEnd next then .ok ([], 0)
      else .ok ([letterEscape next], 0) := by
  have hu' : next.isChar 'u' = false := by
    rw [Bool.eq_false_iff, ne_eq, CodePoint.isChar_iff]
    exact hu
  have hx' : next.isChar 'x' = false := by
    rw [Bool.eq_false_iff, ne_eq, CodePoint.isChar_iff]
    exact hx
  simp [escapeAt, hu', hx']

/-- An escape that takes a text with it leaves what stands behind the text. -/
theorem cook_escape_append {next : CodePoint} (written : Text) {rest value after : Text}
    (hescape : escapeAt next (written ++ rest) = .ok (value, written.length))
    (hafter : cook rest = .ok after) :
    cook (.scalar '\\' :: next :: (written ++ rest)) = .ok (value ++ after) := by
  rw [cook_escape, hescape]
  have hdrop : (written ++ rest).drop written.length = rest := List.drop_left
  show (cook ((written ++ rest).drop written.length)).map (value ++ ·) = .ok (value ++ after)
  rw [hdrop, hafter]
  rfl

theorem cook_numeral {next : CodePoint} {written digits rest after : Text} {n : Nat}
    (hwritten : Numeral (next :: written) digits) (hdigits : HexNumber digits n) (hn : n ≤ 0x10FFFF)
    (hafter : cook rest = .ok after) :
    ∃ value, cook (.scalar '\\' :: next :: (written ++ rest)) = .ok value ∧
      value.utf16 = codeUnits n ++ after.utf16 := by
  obtain ⟨p, hp, hval⟩ := numbered_of_le hn
  have hescape := escapeAt_numeral hwritten rest
  rw [hdigits.hexNumber_eq, hp] at hescape
  refine ⟨[p] ++ after, cook_escape_append written hescape hafter, ?_⟩
  simp [hval]

/-- Two digits write a number below `0x100`, four one below `0x10000`. -/
theorem HexNumber.lt {digits : Text} {n : Nat} (h : HexNumber digits n) : n < 16 ^ digits.length := by
  have hdigit : ∀ {p : CodePoint} {value : Nat}, HexDigit p value → value < 16 := by
    rintro p value (hp | hp)
    · exact (List.getElem?_eq_some_iff.1 hp).1
    · exact (List.getElem?_eq_some_iff.1 hp).1
  induction h with
  | one hp => simpa using hdigit hp
  | snoc _ hp ih =>
    have hlt := hdigit hp
    rw [List.length_append, List.length_singleton, Nat.pow_succ]
    omega

theorem codeUnits_of_le {n : Nat} (h : n ≤ 0xFFFF) : codeUnits n = [n] := by
  rw [codeUnits, if_pos h]

/-- A character that starts no escape sequence stands for itself. -/
theorem escapeAt_ordinary {p : CodePoint} (hp : IsOrdinary p) (rest : Text) :
    escapeAt p rest = .ok ([p], 0) := by
  have hnot : ∀ c, ¬IsOrdinary (.scalar c) → p.isChar c = false := by
    intro c hc
    rw [Bool.eq_false_iff, ne_eq, CodePoint.isChar_iff]
    rintro rfl
    exact hc hp
  simp (disch := decide) [escapeAt, isLineEnd, letterEscape, hnot]

/-- A character of the table stands for its code unit. -/
theorem escapeAt_single {c : Char} {unit : Nat} (hc : (c, unit) ∈ singleEscapes) (rest : Text) :
    ∃ p : CodePoint, escapeAt (.scalar c) rest = .ok ([p], 0) ∧ p.val = unit ∧ unit ≤ 0xFFFF := by
  simp only [singleEscapes, List.mem_cons, Prod.mk.injEq, List.not_mem_nil, or_false] at hc
  obtain ⟨rfl, rfl⟩ | ⟨rfl, rfl⟩ | ⟨rfl, rfl⟩ | ⟨rfl, rfl⟩ | ⟨rfl, rfl⟩ | ⟨rfl, rfl⟩ | ⟨rfl, rfl⟩ |
    ⟨rfl, rfl⟩ | ⟨rfl, rfl⟩ := hc <;> exact ⟨_, rfl, rfl, by decide⟩

/-- An end of a line is taken as a whole and counts for nothing. -/
theorem escapeAt_lineEnd {next : CodePoint} {written rest : Text} (hend : next :: written ∈ lineEnds)
    (hwhole : next :: written = "\r" → rest.head? ≠ some (.scalar '\n')) :
    escapeAt next (written ++ rest) = .ok ([], written.length) := by
  have hends : lineEnds = [[.scalar '\n'], [.scalar '\r'], [.scalar '\u2028'], [.scalar '\u2029'],
      [.scalar '\r', .scalar '\n']] := rfl
  simp only [hends, List.mem_cons, List.cons.injEq, List.not_mem_nil, or_false] at hend
  obtain ⟨rfl, rfl⟩ | ⟨rfl, rfl⟩ | ⟨rfl, rfl⟩ | ⟨rfl, rfl⟩ | ⟨rfl, rfl⟩ := hend
  · rfl
  · -- No line feed follows, so that the carriage return is the whole end.
    have hnext : rest.head?.any (·.isChar '\n') = false := by
      cases rest with
      | nil => rfl
      | cons q rest =>
        rw [List.head?_cons, Option.any_some, Bool.eq_false_iff, ne_eq, CodePoint.isChar_iff]
        rintro rfl
        exact hwhole rfl rfl
    rw [escapeAt_of_not_numbered (by decide) (by decide)]
    simp [hnext, isLineEnd]
  · rfl
  · rfl
  · rfl

/-- The characters of a literal have a value, with the code units that the language gives to them. -/
theorem StringCharacters.exists_cook {mark : Char} {raw : Text} {units : List Nat}
    (h : StringCharacters mark raw units) : ∃ value, cook raw = .ok value ∧ value.utf16 = units := by
  induction h with
  | nil => exact ⟨[], rfl, rfl⟩
  | @plain p rest units _ hslash _ _ _ ih =>
    obtain ⟨value, hvalue, rfl⟩ := ih
    have hp : p.isChar '\\' = false := by
      rw [Bool.eq_false_iff, ne_eq, CodePoint.isChar_iff]
      exact hslash
    refine ⟨p :: value, ?_, rfl⟩
    rw [cook_cons hp, hvalue]
    rfl
  | @continued lineEnd rest units hend hwhole _ ih =>
    obtain ⟨value, hvalue, rfl⟩ := ih
    cases lineEnd with
    | nil => exact absurd hend (by decide)
    | cons next written =>
      exact ⟨value, cook_escape_append written (escapeAt_lineEnd hend hwhole) hvalue, rfl⟩
  | @single c unit rest units hc _ ih =>
    obtain ⟨value, hvalue, rfl⟩ := ih
    obtain ⟨p, hescape, hunit, hle⟩ := escapeAt_single hc rest
    refine ⟨[p] ++ value, cook_escape_append [] hescape hvalue, ?_⟩
    simp [hunit, codeUnits_of_le hle]
  | @ordinary p rest units hp _ ih =>
    obtain ⟨value, hvalue, rfl⟩ := ih
    exact ⟨[p] ++ value, cook_escape_append [] (escapeAt_ordinary hp rest) hvalue, rfl⟩
  | @zero rest units _ _ ih =>
    obtain ⟨value, hvalue, rfl⟩ := ih
    have hescape : escapeAt (.scalar '0') rest = .ok ([.scalar '\x00'], 0) := rfl
    exact ⟨_, cook_escape_append [] hescape hvalue, rfl⟩
  | @hex digits rest n units hdigits hlength _ ih =>
    obtain ⟨value, hvalue, rfl⟩ := ih
    -- Two digits make a number of one unit.
    have hlt := hdigits.lt
    rw [hlength] at hlt
    obtain ⟨value', hvalue', hunits⟩ :=
      cook_numeral (.two hlength hdigits.isSome_hexValue?) hdigits (by omega) hvalue
    exact ⟨value', hvalue', by rw [hunits, codeUnits_of_le (by omega), List.singleton_append]⟩
  | @unicode digits rest n units hdigits hlength _ ih =>
    obtain ⟨value, hvalue, rfl⟩ := ih
    have hlt := hdigits.lt
    rw [hlength] at hlt
    obtain ⟨value', hvalue', hunits⟩ :=
      cook_numeral (.four hlength hdigits.isSome_hexValue?) hdigits (by omega) hvalue
    exact ⟨value', hvalue', by rw [hunits, codeUnits_of_le (by omega), List.singleton_append]⟩
  | @braced digits rest n units hdigits hn _ ih =>
    obtain ⟨value, hvalue, rfl⟩ := ih
    have hnumeral := Numeral.braced hdigits.ne_nil hdigits.isSome_hexValue?
    simpa using cook_numeral hnumeral hdigits hn hvalue

/-- **Values.**  A string literal of strict mode has a value, which in UTF-16 is the one that the language
    gives to the literal. -/
theorem string_value_units {literal : Text} {units : List Nat} (h : StringLiteral literal units) :
    ∃ value, stringValue literal = .ok value ∧ value.utf16 = units := by
  obtain ⟨-, hraw⟩ := h
  obtain ⟨value, hvalue, hunits⟩ := hraw.exists_cook
  refine ⟨value, ?_, hunits⟩
  rw [stringValue, List.tail_cons, List.dropLast_concat]
  exact hvalue

/-- A literal with an escape of each form: a surrogate by its number, the character of two surrogates by
    its number in braces, and an end of a line of two characters. -/
theorem string_value_units_each_form :
    let literal : Text := "'\"\\q\\n\\0\\x4f\\uD83d\\\r\n\\u\x7b1F600\x7d\\''"
    let units := [0x22, 0x71, 0x0A, 0, 0x4F, 0xD83D, 0xD83D, 0xDE00, 0x27]
    StringLiteral literal units ∧ ∃ value, stringValue literal = .ok value ∧ value.utf16 = units := by
  intro literal units
  have htwo : HexNumber "4f" 0x4F := @HexNumber.snoc "4" 4 (.scalar 'f') 15 (.one (.inl rfl)) (.inl rfl)
  have hpair : HexNumber "D8" 0xD8 := @HexNumber.snoc "D" 13 (.scalar '8') 8 (.one (.inr rfl)) (.inl rfl)
  have hfour : HexNumber "D83d" 0xD83D :=
    @HexNumber.snoc "D83" 0xD83 (.scalar 'd') 13 (@HexNumber.snoc "D8" 0xD8 (.scalar '3') 3 hpair (.inl rfl))
      (.inl rfl)
  have hsome : HexNumber "1F6" 0x1F6 :=
    @HexNumber.snoc "1F" 0x1F (.scalar '6') 6 (@HexNumber.snoc "1" 1 (.scalar 'F') 15 (.one (.inl rfl)) (.inr rfl))
      (.inl rfl)
  have hbraced : HexNumber "1F600" 0x1F600 :=
    @HexNumber.snoc "1F60" 0x1F60 (.scalar '0') 0 (@HexNumber.snoc "1F6" 0x1F6 (.scalar '0') 0 hsome (.inl rfl))
      (.inl rfl)
  -- The escapes from the last one to the first.
  have hlast := StringCharacters.single (by decide : ('\'', 0x27) ∈ singleEscapes) (@StringCharacters.nil '\'')
  have hline := StringCharacters.continued (by decide : ("\r\n" : Text) ∈ lineEnds) (by decide)
    (.braced hbraced (by decide) hlast)
  have hzero := StringCharacters.zero (by decide) (.hex htwo rfl (.unicode hfour rfl hline))
  have hletters := @StringCharacters.ordinary _ (.scalar 'q') _ _ (by decide)
    (.single (by decide : ('n', 0x0A) ∈ singleEscapes) hzero)
  have hraw := @StringCharacters.plain _ (.scalar '"') _ _ (by decide) (by decide) (by decide) (by decide)
    hletters
  have hliteral : StringLiteral literal units := StringLiteral.mk (.inl rfl) hraw
  exact ⟨hliteral, string_value_units hliteral⟩

end JavaScript

end LodashStyle
