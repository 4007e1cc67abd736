import LodashStyle.JavaScript.NumericLiteral
import LodashStyle.Proofs.Escapes
import LodashStyle.Proofs.PathReading
import LodashStyle.Proofs.StringQuoting

/-!
# Surrogates in paths

Writing keys as a path and splitting a path into keys neither add surrogates nor lose any: what is
put in or left out is made of characters.  So a rewritten path holds a surrogate exactly when one of
the values that it was made from does.

## Key results

- `plain_stringLiteral`, `plain_arrayLiteral`: a written path is plain when its keys are
- `plain_split`: the keys of a path are plain when the path is
- `plain_numericKey`: the key of a numeric literal is plain
-/

namespace LodashStyle

namespace Text

/-- Texts joined together are plain if each of them is. -/
theorem plain_flatten {ts : List Text} : Plain ts.flatten ↔ ∀ t ∈ ts, Plain t := by
  simp only [Plain, List.mem_flatten]
  constructor
  · intro h t ht p hp
    exact h p ⟨t, ht, hp⟩
  · rintro h p ⟨t, ht, hp⟩
    exact h t ht p hp

/-- The same, for a text made of what is written for each of some things. -/
theorem plain_flatMap {α : Type} {xs : List α} {f : α → Text} :
    Plain (xs.flatMap f) ↔ ∀ x ∈ xs, Plain (f x) := by
  rw [List.flatMap_def, plain_flatten, List.forall_mem_map]

/-- Separators without surrogates do not count. -/
theorem plain_join {separator : Text} (h : separator.Plain) (ts : List Text) :
    (join separator ts).Plain ↔ ∀ t ∈ ts, Plain t := by
  rw [join, plain_flatten]
  induction ts with
  | nil => simp
  | cons t ts ih =>
    cases ts with
    | nil => simp
    | cons u ts =>
      -- A separator stands only where another text follows.
      rw [List.intersperse_cons_cons, List.forall_mem_cons, List.forall_mem_cons, ih]
      simp only [List.forall_mem_cons, h, true_and]

end Text

namespace PropertyPath

open Text

/-! ## Writing -/

/-- Escaping writes characters around a code point, and keeps a surrogate. -/
theorem plain_escapePoint (mark : Char) (p : CodePoint) :
    (escapePoint mark p).Plain ↔ ∃ c, p = .scalar c := by
  unfold escapePoint
  repeat' split
  all_goals simp_all

/-- A quoted value is plain if the value is. -/
theorem plain_quote (value : Text) : (quote "'" value).Plain ↔ value.Plain := by
  have hmark : ("'" : Text) = Text.ofChar '\'' := rfl
  have hplain : (Text.ofChar '\'').Plain := plain_ofChars ['\'']
  rw [hmark, quote, plain_append, plain_append, escapeString_eq_flatMap (.inl rfl), plain_flatMap]
  -- That each code point is a character is what `Plain` says of the value.
  simp only [plain_escapePoint, hplain, true_and, and_true]
  rfl

/-- A segment of a path is plain if its key is. -/
theorem plain_segment (key : Text) : (segment key).Plain ↔ key.Plain := by
  unfold segment
  split
  · simp
  · simp [Text.ofChar]

/-- The dot that is left out is a character. -/
theorem plain_dropDot (t : Text) : (dropDot t).Plain ↔ t.Plain := by
  unfold dropDot
  split
  · rfl
  · split
    · rename_i hdot
      simp [(CodePoint.isChar_iff _ _).1 hdot]
    · rfl

/-- A path as a string literal is plain when its keys are. -/
theorem plain_stringLiteral (keys : List Text) : (stringLiteral keys).Plain ↔ ∀ k ∈ keys, k.Plain := by
  rw [stringLiteral, plain_quote, render, plain_dropDot, plain_flatMap]
  simp only [plain_segment]

/-- A path as an array literal is plain when its keys are. -/
theorem plain_arrayLiteral (keys : List Text) : (arrayLiteral keys).Plain ↔ ∀ k ∈ keys, k.Plain := by
  have hcomma : (", " : Text).Plain := plain_ofChars ", ".toList
  simp [arrayLiteral, Text.ofChar, plain_join hcomma, plain_quote]

/-- Template text is plain if the text is, since only backslashes are added. -/
theorem plain_escapeTemplate (t : Text) : (escapeTemplate t).Plain ↔ t.Plain := by
  induction t with
  | nil => rfl
  | cons p rest ih =>
    unfold escapeTemplate
    split
    · simp [ih]
    · simp [ih]

/-! ## Splitting -/

/-- Only backslashes are dropped from a quoted body. -/
theorem plain_unescape (t : Text) : (unescape t).Plain ↔ t.Plain := by
  fun_induction unescape t with
  | case1 => rfl
  -- A lone backslash at the end, and any other lone code point.
  | case2 p hslash => simp [(CodePoint.isChar_iff p _).1 hslash]
  | case3 p hslash => rfl
  -- A backslash, which is dropped, and what it stands before, which is kept.
  | case4 p next rest hslash hnext ih =>
    simp [(CodePoint.isChar_iff p _).1 hslash, (CodePoint.isChar_iff next _).1 hnext, ih]
  | case5 p next rest hslash hnext ih =>
    simp only [ih, (CodePoint.isChar_iff p _).1 hslash, plain_cons, CodePoint.scalar.injEq, exists_eq',
      true_and]
  | case6 p next rest hslash ih => rw [plain_cons, plain_cons, ih]

/-- What a test accepts that accepts no surrogate. -/
theorem scalar_of_test (test : CodePoint → Bool) (htest : ∀ index, test (.surrogate index) = false)
    {p : CodePoint} (h : test p = true) : ∃ c, p = .scalar c := by
  cases p with
  | scalar c => exact ⟨c, rfl⟩
  | surrogate index =>
    rw [htest index] at h
    exact nomatch h

/-- A key holds the surrogates of what is read for it. -/
theorem plain_keyAt? {p : CodePoint} {rest key : Text} {used : Nat}
    (h : keyAt? p rest = some (key, used)) : key.Plain ↔ Text.Plain (p :: rest.take used) := by
  obtain ⟨-, rfl, rfl⟩ | ⟨rfl, q, tail, before, rfl, -, hbefore, rfl, rfl⟩ |
    ⟨rfl, q, tail, body, rfl, hquote, hbody, rfl, rfl⟩ | ⟨hempty, rfl, rfl⟩ := keyAt?_cases h
  · -- A bare key is read as it stands.
    have hpre : rest.takeWhile (fun q => !isDelimiter q) <+: rest := List.takeWhile_prefix _
    rw [← List.prefix_iff_eq_take.1 hpre]
  · -- A bracketed key is read up to its `]`.
    obtain ⟨after, hafter⟩ := eq_append_of_beforeLastClose? hbefore
    obtain ⟨more, hmore⟩ : tail.takeWhile (fun q => !q.isChar '[') <+: tail := List.takeWhile_prefix _
    have htake : tail.take (before.length + 1) = before ++ [.scalar ']'] := by
      rw [← hmore, hafter]
      simp [List.take_append, List.take_of_length_le]
    rw [List.take_succ_cons, htake]
    simp
  · -- A quoted body is read with its quotes, which are characters.
    obtain ⟨after, rfl⟩ := eq_append_of_quotedBody? hbody
    have htake : (body ++ q :: .scalar ']' :: after).take (body.length + 2) = body ++ [q, .scalar ']'] := by
      simp [List.take_append, List.take_of_length_le]
    have hq := scalar_of_test isQuote (fun _ => rfl) hquote
    rw [List.take_succ_cons, htake, plain_unescape]
    simp [hq]
  · -- An empty key is read at a delimiter.
    have hp : ∃ c, p = .scalar c := scalar_of_test (isEmptyKey · rest) (fun _ => rfl) hempty
    simp [hp]

/-- What no key is read at is a delimiter. -/
theorem scalar_of_keyAt? {p : CodePoint} {rest : Text} (h : keyAt? p rest = none) : ∃ c, p = .scalar c := by
  cases hp : isDelimiter p with
  | true => exact scalar_of_test isDelimiter (fun _ => rfl) hp
  | false => simp [keyAt?, hp] at h

/-- The keys of a path leave out only delimiters, marks and backslashes, which are characters. -/
theorem plain_splitFrom (t : Text) : (∀ k ∈ splitFrom 0 t, k.Plain) ↔ t.Plain := by
  induction hlength : t.length using Nat.strongRecOn generalizing t with
  | ind n ih =>
    cases t with
    | nil => simp
    | cons p rest =>
      rw [List.length_cons] at hlength
      cases hkey : keyAt? p rest with
      | none =>
        rw [splitFrom_of_none hkey, ih rest.length (by omega) rest rfl, plain_cons]
        simp [scalar_of_keyAt? hkey]
      | some found =>
        -- The key takes `p` and `used` code points more; the induction is for what is left.
        obtain ⟨key, used⟩ := found
        have hdrop : (rest.drop used).length < n := by
          rw [List.length_drop]
          omega
        rw [splitFrom_of_some hkey, List.forall_mem_cons, ih _ hdrop (rest.drop used) rfl,
          plain_keyAt? hkey, plain_cons, plain_cons, and_assoc, ← plain_append, List.take_append_drop]

/-- The keys of a path are plain when the path is. -/
theorem plain_split (path : Text) : (∀ k ∈ split path, k.Plain) ↔ path.Plain := by
  unfold split
  split
  · rw [List.forall_mem_cons, plain_splitFrom]
    simp
  · exact plain_splitFrom path

end PropertyPath

/-! ## Numbers -/

namespace Decimal

open Text

theorem plain_digitText (digits : List Nat) : (digitText digits).Plain := by
  intro p hp
  obtain ⟨d, -, rfl⟩ := List.mem_map.1 hp
  exact ⟨_, rfl⟩

theorem plain_zeros (n : Nat) : (zeros n).Plain := by
  intro p hp
  exact ⟨'0', (List.mem_replicate.1 hp).2⟩

/-- A number as a key has digits, a sign, a point and an exponent. -/
theorem plain_keyText (d : Decimal) : d.keyText.Plain := by
  have hpointed : ∀ digits : List Nat, (pointed digits).Plain := by
    intro digits
    unfold pointed
    split
    · exact plain_nil
    · exact plain_digitText _
    · simp [plain_digitText, Text.ofChar]
  have hzero : ("0." : Text).Plain := plain_ofChars "0.".toList
  unfold keyText
  dsimp only
  repeat' split
  all_goals simp [plain_digitText, plain_zeros, hpointed, hzero, Text.ofChar, Text.ofNat]

end Decimal

/-- The key of a numeric literal is plain. -/
theorem JavaScript.plain_numericKey {literal key : Text} (h : numericKey? literal = some key) : key.Plain := by
  unfold numericKey? at h
  dsimp only at h
  split at h
  · exact nomatch h
  · obtain ⟨x, -, rfl⟩ := Option.map_eq_some_iff.1 h
    unfold valueKey
    split
    · exact Text.plain_ofChars "0".toList
    · exact Decimal.plain_keyText _

end LodashStyle
