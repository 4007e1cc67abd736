/-! # Text that may hold lone surrogates

The value of a JavaScript string literal is a sequence of code points in which a
surrogate such as `\uD800` may stand alone.  Lean's `String` cannot hold such a
code point, so every computed text of this library (property keys, replacement
texts, messages) is a `Text`, a list of `CodePoint`s.  Source text and the contents
of files are plain `List Char`; `Text.ofChars` embeds them, and `Text.toChars?` goes
back exactly when no surrogate occurs.

* `toChars?_ofChars`   `(Text.ofChars cs).toChars? = some cs`
* `ofChars_toChars?`   `t.toChars? = some cs → t = Text.ofChars cs` -/

namespace LodashStyle

/-- A Unicode code point: a scalar value, or the surrogate `0xD800 + index`. -/
inductive CodePoint where
  | scalar (c : Char)
  | surrogate (index : Fin 0x800)
  deriving DecidableEq, Repr, Inhabited

/-- A sequence of code points. -/
abbrev Text := List CodePoint

namespace CodePoint

/-- The number of the code point. -/
def val : CodePoint → Nat
  | .scalar c => c.toNat
  | .surrogate index => 0xD800 + index.val

/-- The code point with a given number, if the number is below `0x110000`. -/
def ofNat? (n : Nat) : Option CodePoint :=
  if h : 0xD800 ≤ n ∧ n < 0xE000 then
    some (.surrogate ⟨n - 0xD800, by omega⟩)
  else if n < 0x110000 then
    some (.scalar (Char.ofNat n))
  else
    none

/-- Whether the code point is the given character. -/
def isChar (p : CodePoint) (c : Char) : Bool :=
  match p with
  | .scalar d => d == c
  | .surrogate _ => false

@[simp] theorem isChar_scalar (c d : Char) : (scalar c).isChar d = (c == d) := rfl

@[simp] theorem isChar_surrogate (index : Fin 0x800) (d : Char) :
    (surrogate index).isChar d = false := rfl

theorem isChar_iff (p : CodePoint) (c : Char) : p.isChar c = true ↔ p = .scalar c := by
  cases p <;> simp

/-- The number of bytes of the code point in UTF-8; a surrogate counts as the three
    bytes that its number would take. -/
def utf8Size : CodePoint → Nat
  | .scalar c => c.utf8Size
  | .surrogate _ => 3

end CodePoint

namespace Text

/-- The text of a list of characters. -/
def ofChars (cs : List Char) : Text := cs.map .scalar

/-- The text of a string. -/
def ofString (s : String) : Text := ofChars s.toList

instance : Coe String Text := ⟨ofString⟩

/-- The text of one character. -/
def ofChar (c : Char) : Text := [.scalar c]

/-- The characters of a text without surrogates. -/
def toChars? : Text → Option (List Char)
  | [] => some []
  | .scalar c :: rest => (toChars? rest).map (c :: ·)
  | .surrogate _ :: _ => none

@[simp] theorem toChars?_ofChars (cs : List Char) : (ofChars cs).toChars? = some cs := by
  induction cs with
  | nil => rfl
  | cons c cs ih => simp_all [ofChars, toChars?]

theorem ofChars_toChars? {t : Text} {cs : List Char} (h : t.toChars? = some cs) :
    t = ofChars cs := by
  induction t generalizing cs with
  | nil => simp_all [toChars?, ofChars]
  | cons p t ih =>
    cases p with
    | scalar c =>
      obtain ⟨ds, hds, rfl⟩ := Option.map_eq_some_iff.1 h
      simp [ih hds, ofChars]
    | surrogate _ => simp [toChars?] at h

/-- The number of bytes of the text in UTF-8. -/
def utf8Size : Text → Nat
  | [] => 0
  | p :: rest => p.utf8Size + utf8Size rest

/-- The longest part of `t` from its start that takes at most `bytes` bytes. -/
def takeBytes (bytes : Nat) : Text → Text
  | [] => []
  | p :: rest => if p.utf8Size ≤ bytes then p :: takeBytes (bytes - p.utf8Size) rest else []

/-- What remains after code points of at least `bytes` bytes. -/
def dropBytes : Nat → Text → Text
  | _, [] => []
  | 0, t => t
  | bytes + 1, p :: rest => dropBytes (bytes + 1 - p.utf8Size) rest

/-- The part of a text from the byte `first` up to, not including, the byte `stop`, both at the
    edge of a code point. -/
def sliceBytes (first stop : Nat) (t : Text) : Text := takeBytes (stop - first) (dropBytes first t)

/-- Lexicographic comparison by code point number. -/
def le : Text → Text → Bool
  | [], _ => true
  | _ :: _, [] => false
  | a :: s, b :: t => a.val < b.val || (a.val == b.val && le s t)

/-- Whether `t` starts with `s`. -/
def startsWith (t s : Text) : Bool := s.isPrefixOf t

/-- The pieces joined with `separator` between neighbours. -/
def join (separator : Text) (pieces : List Text) : Text :=
  (pieces.intersperse separator).flatten

/-- The decimal numeral of a natural number. -/
def ofNat (n : Nat) : Text := ofChars (Nat.toDigits 10 n)

/-- The decimal numeral of an integer, with a minus sign when it is negative. -/
def ofInt : Int → Text
  | .ofNat n => ofNat n
  | .negSucc n => .scalar '-' :: ofNat (n + 1)

/-- Replaces the occurrences of a non-empty `old`, the first `skip` code points being part of
    one already replaced. -/
def replaceFrom (old new : Text) (skip : Nat) : Text → Text
  | [] => []
  | p :: rest =>
    match skip with
    | skip + 1 => replaceFrom old new skip rest
    | 0 =>
      if old.isPrefixOf (p :: rest) then new ++ replaceFrom old new (old.length - 1) rest
      else p :: replaceFrom old new 0 rest

/-- Replaces the occurrences of `old` by `new`, from left to right and without overlap.  The
    empty text occurs before every code point and at the end. -/
def replace (old new t : Text) : Text :=
  if old.isEmpty then t.flatMap (fun p => new ++ [p]) ++ new else replaceFrom old new 0 t

/-- The pieces of a text between the code points equal to `c`. -/
def splitOn (c : Char) : Text → List Text
  | [] => [[]]
  | p :: rest =>
    match p.isChar c, splitOn c rest with
    | true, pieces => [] :: pieces
    | false, piece :: pieces => (p :: piece) :: pieces
    | false, [] => [[p]]

end Text

end LodashStyle
