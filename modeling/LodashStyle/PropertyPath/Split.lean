import LodashStyle.Text.Basic

/-! # Splitting a property path into keys

A string path is a sequence of keys, written bare (`a.b`), in brackets (`a[0]`) or in
quoted brackets (`a["b.c"]`).  The path is read from left to right; at each place one of
these is tried in turn, and a code point at which none applies is passed over:

1. a maximal run of code points other than `.`, `[` and `]` is a key;
2. `[`, a code point other than a quote, and then as much as possible without `[` up to a
   `]` is a key without its brackets;
3. `[`, a quote, a body in which a backslash takes the next code point with it, the same
   quote and `]` is the key that the body denotes;
4. a `.` or `[]` directly before another `.`, another `[]` or the end is an empty key.

A leading `.` adds an empty key.

* `splitFrom_eq_drop`  passing over code points is dropping them -/

namespace LodashStyle.PropertyPath

/-- The code points that end a bare key. -/
def isDelimiter (p : CodePoint) : Bool := p.isChar '.' || p.isChar '[' || p.isChar ']'

/-- A single or double quote. -/
def isQuote (p : CodePoint) : Bool := p.isChar '"' || p.isChar '\''

/-- The part of a text before its last `]`. -/
def beforeLastClose? : Text → Option Text
  | [] => none
  | p :: rest =>
    match beforeLastClose? rest with
    | some before => some (p :: before)
    | none => if p.isChar ']' then some [] else none

/-- The body of a quoted bracket, as written: all up to the closing quote, which `]` must
    follow.  A backslash takes the next code point with it, which is no line feed. -/
def quotedBody? (quote : CodePoint) : Text → Option Text
  | [] => none
  | [_] => none
  | p :: next :: rest =>
    if p = quote then
      if next.isChar ']' then some [] else none
    else if p.isChar '\\' then
      if next.isChar '\n' then none
      else (quotedBody? quote rest).map fun body => p :: next :: body
    else
      (quotedBody? quote (next :: rest)).map (p :: ·)

/-- The key that a quoted body denotes: a backslash is dropped, the one after it stays. -/
def unescape : Text → Text
  | [] => []
  | [p] => if p.isChar '\\' then [] else [p]
  | p :: next :: rest =>
    if p.isChar '\\' then
      if next.isChar '\\' then next :: unescape rest else unescape (next :: rest)
    else
      p :: unescape (next :: rest)

/-- The bracketed key after a `[`, with the number of code points it takes. -/
def bracketed? : Text → Option (Text × Nat)
  | [] => none
  | p :: rest =>
    if isQuote p then
      (quotedBody? p rest).map fun body => (unescape body, body.length + 3)
    else
      (beforeLastClose? (rest.takeWhile fun q => !q.isChar '[')).map fun before =>
        (p :: before, before.length + 2)

/-- Whether the text starts with `.`, with `[]`, or is at its end; a last line feed counts
    as the end. -/
def endsEmptyKey : Text → Bool
  | [] => true
  | [p] => p.isChar '.' || p.isChar '\n'
  | p :: next :: _ => p.isChar '.' || (p.isChar '[' && next.isChar ']')

/-- Whether an empty key stands at a `.` or `[` followed by `rest`. -/
def isEmptyKey (p : CodePoint) (rest : Text) : Bool :=
  (p.isChar '.' && endsEmptyKey rest) ||
    (p.isChar '[' && rest.head?.any (·.isChar ']') && endsEmptyKey rest.tail)

/-- The key at the start of `p :: rest`, with the number of code points of `rest` that it
    takes. -/
def keyAt? (p : CodePoint) (rest : Text) : Option (Text × Nat) :=
  if !isDelimiter p then
    let run := rest.takeWhile fun q => !isDelimiter q
    some (p :: run, run.length)
  else
    match if p.isChar '[' then bracketed? rest else none with
    | some found => some found
    | none => if isEmptyKey p rest then some ([], 0) else none

/-- The keys of a text after passing over its first `skip` code points. -/
def splitFrom (skip : Nat) : Text → List Text
  | [] => []
  | p :: rest =>
    match skip with
    | skip + 1 => splitFrom skip rest
    | 0 =>
      match keyAt? p rest with
      | some (key, used) => key :: splitFrom used rest
      | none => splitFrom 0 rest

/-- The keys of a property path. -/
def split (path : Text) : List Text :=
  if path.head?.any (·.isChar '.') then [] :: splitFrom 0 path else splitFrom 0 path

theorem splitFrom_eq_drop (skip : Nat) (t : Text) : splitFrom skip t = splitFrom 0 (t.drop skip) := by
  induction t generalizing skip with
  | nil => simp [splitFrom]
  | cons p rest ih =>
    cases skip with
    | zero => rfl
    | succ skip => simpa [splitFrom] using ih skip

end LodashStyle.PropertyPath
