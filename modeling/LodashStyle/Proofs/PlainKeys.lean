import LodashStyle.Proofs.PathReading
import LodashStyle.Proofs.StringQuoting
import Mathlib.Data.List.Chain

/-!
# Keys that no neighbour can spoil

Whether a key is read back from a path can depend on all that is written after it.  For plain
keys it hardly does: without a quote in front and without a `[` inside, a key in brackets ends at
its own `]`, whatever dots, backslashes, quotes, line ends and further `]` it holds.  Only an empty
key looks at its neighbour, for `[]` in front of another bracket that holds something is passed over.

## Key results

- `splitFrom_of_spells`: plain keys that are not empty are read back however they are spelled
- `readable_of_plain`: plain keys are `Readable` if no empty one meets a bracket
- `plain_keys_read_back`: writing such keys and reading them is the identity, as a path and as a
  string literal
-/

namespace LodashStyle.PropertyPath

open JavaScript

/-- A key that cannot be mistaken inside brackets: no quote is in front of it, and no `[` stands
    behind its first code point. -/
structure IsPlainKey (key : Text) : Prop where
  unquoted : key.head?.any isQuote = false
  unopened : ∀ q ∈ key.tail, q.isChar '[' = false

instance (key : Text) : Decidable (IsPlainKey key) :=
  decidable_of_iff (key.head?.any isQuote = false ∧ ∀ q ∈ key.tail, q.isChar '[' = false)
    ⟨fun h => ⟨h.1, h.2⟩, fun h => ⟨h.unquoted, h.unopened⟩⟩

/-! ## Any spelling -/

/-- One plain key in brackets, in front of keys spelled in any way. -/
theorem IsPlainKey.splitFrom_bracket {key after : Text} {keys : List Text} (h : IsPlainKey key)
    (hne : key ≠ []) (hafter : Spells after keys) :
    splitFrom 0 (.scalar '[' :: (key ++ .scalar ']' :: after)) = key :: splitFrom 0 after := by
  obtain ⟨p, rest, rfl⟩ := List.exists_cons_of_ne_nil hne
  apply PropertyPath.splitFrom_bracket
  · simpa using h.unquoted
  · simpa using h.unopened
  · exact hafter.close_not_mem

/-- Plain keys that are not empty are read back, whichever of them stand in brackets. -/
theorem splitFrom_of_spells {t : Text} {keys : List Text} (h : Spells t keys)
    (hkeys : ∀ key ∈ keys, key ≠ [] ∧ IsPlainKey key) : splitFrom 0 t = keys := by
  induction h with
  | nil => rfl
  | dot hkey hafter ih =>
    rw [List.forall_mem_cons] at hkeys
    rw [splitFrom_dot hkey hafter.takeWhile_bare, ih hkeys.2]
  | bracket key hafter ih =>
    rw [List.forall_mem_cons] at hkeys
    rw [hkeys.1.2.splitFrom_bracket hkeys.1.1 hafter, ih hkeys.2]

/-! ## Written paths -/

/-- An empty key is read in front of the end, of another empty key and of a key behind a `.`. -/
theorem endsEmptyKey_segments {keys : List Text}
    (h : ∀ key ∈ keys.head?, key ≠ [] → isDotKey key = true) :
    endsEmptyKey (segments keys) = true := by
  cases keys with
  | nil => rfl
  | cons key keys =>
    by_cases hkey : key = []
    · subst hkey
      rfl
    · -- The text goes on with a `.` and the first code point of the key.
      have hdot := h key rfl hkey
      obtain ⟨p, rest, rfl⟩ := List.exists_cons_of_ne_nil hkey
      rw [segments_dot hdot]
      rfl

/-- Plain keys read back if no empty one stands directly before a key in brackets that is not
    empty. -/
theorem readable_of_plain {keys : List Text} (hplain : ∀ key ∈ keys, IsPlainKey key)
    (hempty : keys.IsChain fun a b => a = [] → b ≠ [] → isDotKey b = true) : Readable keys := by
  induction keys with
  | nil => trivial
  | cons key keys ih =>
    rw [List.forall_mem_cons] at hplain
    rw [List.isChain_cons] at hempty
    refine ⟨?_, ih hplain.2 hempty.2⟩
    -- Only an empty key looks at the next one.
    cases key with
    | nil => exact endsEmptyKey_segments fun next hnext => hempty.1 next hnext rfl
    | cons p rest =>
      have hquote : isQuote p = false := by simpa using hplain.1.unquoted
      exact (readsBack_cons hquote).2 hplain.1.unopened

/-- **Round trip.**  Let no key begin with a quote or hold a `[` behind its first code point, and
    let no empty key be followed by a key that is neither empty nor written behind a `.`.  Then the
    written path is split into the keys, and so is the value of the literal; writing what was read
    gives the path again. -/
theorem plain_keys_read_back {keys : List Text} (hplain : ∀ key ∈ keys, IsPlainKey key)
    (hempty : keys.IsChain fun a b => a = [] → b ≠ [] → isDotKey b = true) :
    split (render keys) = keys ∧ (stringValue (stringLiteral keys)).map split = .ok keys ∧
      render (split (render keys)) = render keys := by
  have hsplit : split (render keys) = keys := (split_render_iff keys).2 (readable_of_plain hplain hempty)
  refine ⟨hsplit, ?_, by rw [hsplit]⟩
  rw [stringValue_stringLiteral, Except.map, hsplit]

/-- Closing brackets, dots, quotes and line ends inside the keys, `[` in front of one, and empty keys
    before a name, before each other and at the end. -/
theorem awkward_keys_read_back :
    let keys : List Text := ["", "name", "a].b", "[0", "it's \\ \"so\"\r\n", "]", "", ""]
    render keys = "[].name[a].b][[0][it's \\ \"so\"\r\n][]][][]" ∧ split (render keys) = keys ∧
      (stringValue (stringLiteral keys)).map split = .ok keys ∧
      render (split (render keys)) = render keys := by
  intro keys
  have hplain : ∀ key ∈ keys, IsPlainKey key := by decide
  have hempty : keys.IsChain fun a b => a = [] → b ≠ [] → isDotKey b = true := by decide
  exact ⟨by decide, plain_keys_read_back hplain hempty⟩

end LodashStyle.PropertyPath
