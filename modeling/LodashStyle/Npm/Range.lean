import LodashStyle.Npm.Release

/-! # Version ranges

A range is a list of comparators separated by blanks or commas, or a span `a - b`; of
alternatives joined by `||` only the first is read.  A comparator is a relation sign, an
optional `v` and a release, in which `x`, `X` or `*` may stand for a number; what follows
it is ignored, and a piece that starts with no comparator is left out.

`majorOf` pins a range to one major: that of the greatest lower bound, or else the newest
one below the least upper bound. -/

namespace LodashStyle.Npm

/-- How a version must stand to the release of a comparator. -/
inductive Relation where
  | exact
  | above
  | atLeast
  | below
  | atMost
  | tilde
  | caret
  | wildcard
  deriving DecidableEq, Repr

/-- Whether the relation bounds versions from above only. -/
def Relation.isUpper : Relation → Bool
  | .below | .atMost => true
  | _ => false

/-- One comparator of a range, with the text it was read from. -/
structure Comparator where
  relation : Relation
  release : Release
  source : Text
  deriving DecidableEq, Repr

/-- Why a range has no comparators. -/
inductive RangeError where
  /-- The range is blank. -/
  | empty
  /-- No piece of the range, given without blanks at its ends, is a comparator. -/
  | unreadable (range : Text)
  deriving DecidableEq, Repr

/-- How the reading of a range fails: with an error to report, or at a number with more digits
    than are read. -/
inductive RangeFailure where
  | refused (error : RangeError)
  | numeralTooLong (digits : Nat)
  deriving DecidableEq, Repr

/-- The wording of an error. -/
def RangeError.message : RangeError → Text
  | .empty => "Empty version constraint"
  | .unreadable range => "Unable to parse version constraint: " ++ range

namespace Comparator

/-- The sign at the start of a comparator, none meaning equality, and what follows it. -/
def sign : Text → Relation × Text
  | [] => (.exact, [])
  | p :: rest =>
    let followedBy (c : Char) : Bool := rest.head?.any (·.isChar c)
    if p.isChar '>' then
      if followedBy '=' then (.atLeast, rest.tail) else (.above, rest)
    else if p.isChar '<' then
      if followedBy '=' then (.atMost, rest.tail) else (.below, rest)
    else if p.isChar '=' then (.exact, rest)
    else if p.isChar '^' then (.caret, rest)
    else if p.isChar '~' then
      if followedBy '>' then (.tilde, rest.tail) else (.tilde, rest)
    else (.exact, p :: rest)

/-- A code point that stands for any number. -/
def isAny (p : CodePoint) : Bool := p.isChar 'x' || p.isChar 'X' || p.isChar '*'

/-- The further numbers of a release, each after a point: digits, or one code point for any
    number.  The first `skip` code points are done with. -/
def furtherNumbers (skip : Nat) : Text → List Text
  | [] => []
  | p :: rest =>
    match skip with
    | skip + 1 => furtherNumbers skip rest
    | 0 =>
      let digits := rest.takeWhile CodePoint.isDigit
      if !p.isChar '.' then []
      else if !digits.isEmpty then digits :: furtherNumbers digits.length rest
      else
        match rest.head? with
        | some q => if isAny q then [q] :: furtherNumbers 1 rest else []
        | none => []

/-- The numbers at the start of a text, as written. -/
def numbers (t : Text) : List Text :=
  let first := t.takeWhile CodePoint.isDigit
  if first.isEmpty then [] else first :: furtherNumbers 0 (t.drop first.length)

/-- Drops a leading `v`. -/
def dropV : Text → Text
  | [] => []
  | p :: rest => if p.isChar 'v' then rest else p :: rest

/-- Reads the comparator at the start of a piece, if there is one. -/
def parse (piece : Text) : Except RangeFailure (Option Comparator) :=
  let (relation, rest) := sign piece
  let written := numbers (dropV (rest.dropWhile CodePoint.isSpace))
  if written.isEmpty then .ok none
  else
    let isNumber (t : Text) : Bool := !t.any isAny
    let known := written.takeWhile isNumber
    match known.mapM Release.number?, known.find? (Release.maxDigits < ·.length) with
    | none, _ => .ok none
    | some _, some long => .error (.numeralTooLong long.length)
    | some release, none =>
      .ok (some ⟨if known.length < written.length then .wildcard else relation, ⟨release⟩, piece⟩)

end Comparator

/-- The part of a text before the first `||`. -/
def firstAlternative : Text → Text
  | p :: q :: rest =>
    if p.isChar '|' && q.isChar '|' then [] else p :: firstAlternative (q :: rest)
  | t => t

/-- The maximal pieces of a text without separators. -/
def pieces (isSeparator : CodePoint → Bool) : Text → List Text
  | [] => []
  | p :: rest =>
    if isSeparator p then pieces isSeparator rest
    else
      match rest with
      | [] => [[p]]
      | q :: _ =>
        if isSeparator q then [p] :: pieces isSeparator rest
        else
          match pieces isSeparator rest with
          | piece :: more => (p :: piece) :: more
          | [] => [[p]]

/-- The comparators of one alternative, as written; a span `a - b` is two bounds. -/
def comparatorTexts (alternative : Text) : List Text :=
  match pieces CodePoint.isSpace alternative with
  | [low, [hyphen], high] =>
    if hyphen.isChar '-' then [">=" ++ low, "<=" ++ high]
    else pieces (fun p => p.isSpace || p.isChar ',') alternative
  | _ => pieces (fun p => p.isSpace || p.isChar ',') alternative

/-- The comparators of a range. -/
def comparators (range : Text) : Except RangeFailure (List Comparator) :=
  let range := range.trim
  if range.isEmpty then .error (.refused .empty)
  else do
    let read ← (comparatorTexts (Text.trim (firstAlternative range))).mapM Comparator.parse
    match read.filterMap id with
    | [] => .error (.refused (.unreadable range))
    | found => .ok found

/-- The first of the greatest releases. -/
def greatest (first : Release) (others : List Release) : Release :=
  others.foldl (fun best r => if best.lt r then r else best) first

/-- The first of the comparators with the least release. -/
def least (first : Comparator) (others : List Comparator) : Comparator :=
  others.foldl (fun best c => if c.release.lt best.release then c else best) first

/-- The newest major that an upper bound admits. -/
def majorBelow (bound : Comparator) : Nat :=
  let r := bound.release
  if bound.relation = .below ∧ r.minor = 0 ∧ r.patch = 0 then r.major - 1 else r.major

/-- The major that the comparators pin a project to. -/
def pinnedMajor (found : List Comparator) : Nat :=
  match found.filter (!·.relation.isUpper) with
  | lower :: others => (greatest lower.release (others.map (·.release))).major
  | [] =>
    match found with
    | upper :: others => majorBelow (least upper others)
    | [] => 0

/-- The major that a range pins a project to. -/
def majorOf (range : Text) : Except RangeFailure Nat := (comparators range).map pinnedMajor

end LodashStyle.Npm
