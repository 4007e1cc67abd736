import LodashStyle.Proofs.PathReading

/-!
# Paths of dots and paths of quoted brackets

Two ways to write a path leave the reader little choice.  Without brackets, the keys should be the
pieces between the dots.  An empty piece is not read as such: it is a `.` in front of another `.` or
of the end, and a last line feed passes for the end.  So a path that ends in a `.` and a line feed
has an empty key too many, and no other path has.

In quoted brackets a key may hold anything, provided that a backslash stands before each backslash
and before each occurrence of the quote.  The first quote without a backslash is then the closing
one, and the backslashes that are dropped on reading are those that were added.

## Key results

- `splitFrom_dot_run`: after a `.`, the run up to the next one is a key
- `dotted_path_pieces_iff`: a path without brackets is split at its dots, unless it ends in a `.` and
  a line feed
- `splitFrom_quotedBracket`: a key in quoted brackets is read as itself, whatever is written after it
- `quoted_brackets_read_back`: so are keys in quoted brackets one after the other
-/

namespace LodashStyle.PropertyPath

/-! ## Paths of dots -/

/-- What holds of every text without a dot, and of a text in front of which such a run and a dot
    are put, holds of every text. -/
@[elab_as_elim]
theorem dotted_induction {P : Text → Prop} (run : ∀ run, .scalar '.' ∉ run → P run)
    (dot : ∀ run rest, .scalar '.' ∉ run → P rest → P (run ++ .scalar '.' :: rest)) (t : Text) : P t := by
  induction hn : t.length using Nat.strongRecOn generalizing t with
  | ind n ih =>
    by_cases hmem : .scalar '.' ∈ t
    · obtain ⟨first, rest, rfl, hfirst⟩ := List.eq_append_cons_of_mem hmem
      have hshorter : rest.length < n := by
        simp only [List.length_append, List.length_cons] at hn
        omega
      exact dot first rest hfirst (ih rest.length hshorter rest rfl)
    · exact run t hmem

/-- Neither a dot nor a bracket. -/
theorem isDelimiter_eq_false_iff {p : CodePoint} :
    isDelimiter p = false ↔ p ≠ .scalar '.' ∧ p ≠ .scalar '[' ∧ p ≠ .scalar ']' := by
  rw [Bool.eq_false_iff]
  simp [isDelimiter, CodePoint.isChar_iff, and_assoc]

/-- A path without brackets. -/
def IsUnbracketed (path : Text) : Prop := .scalar '[' ∉ path ∧ .scalar ']' ∉ path

instance (path : Text) : Decidable (IsUnbracketed path) := inferInstanceAs (Decidable (_ ∧ _))

theorem isUnbracketed_append {t u : Text} :
    IsUnbracketed (t ++ u) ↔ IsUnbracketed t ∧ IsUnbracketed u := by
  simp only [IsUnbracketed, List.mem_append, not_or]
  exact and_and_and_comm

theorem isUnbracketed_dot {t : Text} : IsUnbracketed (.scalar '.' :: t) ↔ IsUnbracketed t := by
  simp [IsUnbracketed]

/-- The code points of a path without dots and brackets. -/
theorem IsUnbracketed.bare {t : Text} (h : IsUnbracketed t) (hdot : .scalar '.' ∉ t) :
    ∀ q ∈ t, isDelimiter q = false := by
  intro q hq
  rw [isDelimiter_eq_false_iff]
  refine ⟨?_, ?_, ?_⟩
  · rintro rfl
    exact hdot hq
  · rintro rfl
    exact h.1 hq
  · rintro rfl
    exact h.2 hq

/-- A dot is a key of its own exactly when an empty key ends behind it. -/
theorem splitFrom_dot_eq (rest : Text) :
    splitFrom 0 (.scalar '.' :: rest) =
      if endsEmptyKey rest then [] :: splitFrom 0 rest else splitFrom 0 rest := by
  have hat : keyAt? (.scalar '.') rest = if endsEmptyKey rest then some ([], 0) else none := by
    simp [keyAt?, isDelimiter, isEmptyKey]
  split
  · rename_i hempty
    rw [if_pos hempty] at hat
    rw [splitFrom_of_some hat, List.drop_zero]
  · rename_i hempty
    rw [if_neg hempty] at hat
    exact splitFrom_of_none hat

/-- After a dot, what stands before the next one is a key, also when nothing does. -/
theorem splitFrom_dot_run {run : Text} (hrun : ∀ q ∈ run, isDelimiter q = false) (rest : Text) :
    splitFrom 0 (.scalar '.' :: (run ++ .scalar '.' :: rest)) =
      run :: splitFrom 0 (.scalar '.' :: rest) := by
  cases run with
  | nil =>
    have hempty : endsEmptyKey (.scalar '.' :: rest) = true := by
      cases rest <;> rfl
    rw [List.nil_append, splitFrom_dot_eq, if_pos hempty]
  | cons p run =>
    have hp := hrun p List.mem_cons_self
    simp only [isDelimiter, Bool.or_eq_false_iff] at hp
    have hfull : endsEmptyKey (p :: (run ++ .scalar '.' :: rest)) = false := by
      cases run <;> simp [endsEmptyKey, hp]
    rw [List.cons_append, splitFrom_dot_eq, hfull, if_neg Bool.false_ne_true]
    exact splitFrom_bare hrun rfl

/-- All that is left is a key if no delimiter is. -/
theorem splitFrom_single {p : CodePoint} {run : Text} (hrun : ∀ q ∈ p :: run, isDelimiter q = false) :
    splitFrom 0 (p :: run) = [p :: run] := by
  have hbare : splitFrom 0 (p :: run ++ []) = _ := splitFrom_bare hrun rfl
  rwa [List.append_nil, splitFrom_nil] at hbare

/-- After the last dot, all that is left is a key, and one line feed makes an empty key as well. -/
theorem splitFrom_dot_last {run : Text} (hrun : ∀ q ∈ run, isDelimiter q = false) :
    splitFrom 0 (.scalar '.' :: run) = if run = [.scalar '\n'] then [[], run] else [run] := by
  cases run with
  | nil => rfl
  | cons p run =>
    have hp := hrun p List.mem_cons_self
    simp only [isDelimiter, Bool.or_eq_false_iff] at hp
    have hends : endsEmptyKey (p :: run) = true ↔ p :: run = [.scalar '\n'] := by
      cases run <;> simp [endsEmptyKey, hp, CodePoint.isChar_iff]
    rw [splitFrom_dot_eq, splitFrom_single hrun]
    by_cases hline : p :: run = [.scalar '\n']
    · rw [if_pos hline, if_pos (hends.2 hline)]
    · rw [if_neg hline, if_neg (mt hends.1 hline)]

/-- A dot and a line feed, which is taken for the end of the path. -/
def dotAndLineFeed : Text := [.scalar '.', .scalar '\n']

/-- After a dot, a path without brackets is split at its dots. -/
theorem splitFrom_pieces {t : Text} (ht : IsUnbracketed t)
    (hend : ¬dotAndLineFeed <:+ .scalar '.' :: t) :
    splitFrom 0 (.scalar '.' :: t) = List.splitOn (.scalar '.') t := by
  induction t using dotted_induction with
  | run run hrun =>
    have hne : run ≠ [.scalar '\n'] := by
      rintro rfl
      exact hend List.suffix_rfl
    rw [splitFrom_dot_last (ht.bare hrun), if_neg hne, List.splitOn_eq_singleton hrun]
  | dot run rest hrun ih =>
    rw [isUnbracketed_append, isUnbracketed_dot] at ht
    have hsuffix : .scalar '.' :: rest <:+ .scalar '.' :: (run ++ .scalar '.' :: rest) :=
      ⟨.scalar '.' :: run, rfl⟩
    have hrest := ih ht.2 fun h => hend (h.trans hsuffix)
    rw [splitFrom_dot_run (ht.1.bare hrun), hrest, List.splitOn_append_cons_self_of_not_mem hrun]

/-- After a dot, the line feed behind the last dot follows an empty key. -/
theorem splitFrom_pieces_lineFeed {t : Text} (ht : IsUnbracketed t) :
    splitFrom 0 (.scalar '.' :: (t ++ dotAndLineFeed)) =
      List.splitOn (.scalar '.') t ++ [[], [.scalar '\n']] := by
  induction t using dotted_induction with
  | run run hrun =>
    rw [dotAndLineFeed, splitFrom_dot_run (ht.bare hrun), List.splitOn_eq_singleton hrun]
    rfl
  | dot run rest hrun ih =>
    rw [isUnbracketed_append, isUnbracketed_dot] at ht
    rw [List.append_assoc, List.cons_append, splitFrom_dot_run (ht.1.bare hrun), ih ht.2,
      List.splitOn_append_cons_self_of_not_mem hrun, List.cons_append]

/-- No empty key is put in front of a path that starts with something else than a dot. -/
theorem split_bare {p : CodePoint} (hp : isDelimiter p = false) (rest : Text) :
    split (p :: rest) = splitFrom 0 (p :: rest) := by
  have hdot := (isDelimiter_eq_false_iff.1 hp).1
  have hhead : ¬(p :: rest).head?.any (·.isChar '.') = true := by
    simpa [CodePoint.isChar_iff] using hdot
  rw [split, if_neg hhead]

/-- What stands before the first dot of a path is its first key. -/
theorem split_run {run : Text} (hrun : ∀ q ∈ run, isDelimiter q = false) (rest : Text) :
    split (run ++ .scalar '.' :: rest) = run :: splitFrom 0 (.scalar '.' :: rest) := by
  cases run with
  | nil => rfl
  | cons p run =>
    rw [List.cons_append, split_bare (hrun p List.mem_cons_self)]
    exact splitFrom_bare hrun rfl

/-- A path without dots and brackets is one key. -/
theorem split_single {run : Text} (hne : run ≠ []) (hrun : ∀ q ∈ run, isDelimiter q = false) :
    split run = [run] := by
  obtain ⟨p, run, rfl⟩ := List.exists_cons_of_ne_nil hne
  rw [split_bare (hrun p List.mem_cons_self), splitFrom_single hrun]

theorem split_pieces {path : Text} (hne : path ≠ []) (hpath : IsUnbracketed path)
    (hend : ¬dotAndLineFeed <:+ path) : split path = List.splitOn (.scalar '.') path := by
  by_cases hmem : .scalar '.' ∈ path
  · obtain ⟨run, rest, rfl, hrun⟩ := List.eq_append_cons_of_mem hmem
    rw [isUnbracketed_append, isUnbracketed_dot] at hpath
    have hrest : ¬dotAndLineFeed <:+ .scalar '.' :: rest :=
      fun h => hend (h.trans (List.suffix_append run _))
    rw [split_run (hpath.1.bare hrun), splitFrom_pieces hpath.2 hrest,
      List.splitOn_append_cons_self_of_not_mem hrun]
  · rw [split_single hne (hpath.bare hmem), List.splitOn_eq_singleton hmem]

theorem split_pieces_lineFeed {start : Text} (hstart : IsUnbracketed start) :
    split (start ++ dotAndLineFeed) = List.splitOn (.scalar '.') start ++ [[], [.scalar '\n']] := by
  by_cases hmem : .scalar '.' ∈ start
  · obtain ⟨run, rest, rfl, hrun⟩ := List.eq_append_cons_of_mem hmem
    rw [isUnbracketed_append, isUnbracketed_dot] at hstart
    rw [List.append_assoc, List.cons_append, split_run (hstart.1.bare hrun),
      splitFrom_pieces_lineFeed hstart.2, List.splitOn_append_cons_self_of_not_mem hrun,
      List.cons_append]
  · rw [dotAndLineFeed, split_run (hstart.bare hmem), List.splitOn_eq_singleton hmem]
    rfl

/-- **Dots.**  The keys of a path without brackets that is not empty are the pieces between its dots,
    empty ones included, exactly when it does not end in a dot and a line feed.  If it does, an empty
    key stands between the last two pieces. -/
theorem dotted_path_pieces_iff {path : Text} (hne : path ≠ []) (hopen : .scalar '[' ∉ path)
    (hclose : .scalar ']' ∉ path) :
    (split path = List.splitOn (.scalar '.') path ↔ ¬dotAndLineFeed <:+ path) ∧
      ∀ start, path = start ++ dotAndLineFeed →
        List.splitOn (.scalar '.') path = List.splitOn (.scalar '.') start ++ [[.scalar '\n']] ∧
          split path = List.splitOn (.scalar '.') start ++ [[], [.scalar '\n']] := by
  have hpath : IsUnbracketed path := ⟨hopen, hclose⟩
  have hlast : ∀ start, path = start ++ dotAndLineFeed →
      List.splitOn (.scalar '.') path = List.splitOn (.scalar '.') start ++ [[.scalar '\n']] ∧
        split path = List.splitOn (.scalar '.') start ++ [[], [.scalar '\n']] := by
    rintro start rfl
    rw [isUnbracketed_append] at hpath
    exact ⟨List.splitOn_append_cons_self start [.scalar '\n'], split_pieces_lineFeed hpath.1⟩
  refine ⟨⟨?_, split_pieces hne hpath⟩, hlast⟩
  rintro heq ⟨start, hstart⟩
  -- There is one key more than there are pieces.
  obtain ⟨hpieces, hkeys⟩ := hlast start hstart.symm
  have hlength := congrArg List.length heq
  rw [hpieces, hkeys] at hlength
  simp at hlength

/-- Empty pieces at the start, in the middle and at the end, and line feeds elsewhere, are read as
    pieces; the path `a.` with a line feed has an empty key too many. -/
theorem dotted_path_pieces_at_line_feed :
    split ".a..\nb." = (["", "a", "", "\nb", ""] : List Text) ∧
      split "a.\n" = (["a", "", "\n"] : List Text) ∧
      List.splitOn (.scalar '.') ("a.\n" : Text) = (["a", "\n"] : List Text) := by
  have hdots : split ".a..\nb." = List.splitOn (.scalar '.') (".a..\nb." : Text) :=
    (dotted_path_pieces_iff (by decide) (by decide) (by decide)).1.2 (by decide)
  have hfeed : _ ∧ split "a.\n" = _ :=
    (dotted_path_pieces_iff (by decide) (by decide) (by decide)).2 "a" rfl
  exact ⟨hdots.trans (by decide), hfeed.2, hfeed.1⟩

/-! ## Paths of quoted brackets -/

/-- A quote that a key in brackets may be written in. -/
inductive Mark where
  | single
  | double
  deriving DecidableEq, Repr

/-- The quote as it is written. -/
def Mark.codePoint : Mark → CodePoint
  | .single => .scalar '\''
  | .double => .scalar '"'

/-- A key between two quotes: a backslash stands before each backslash and each such quote. -/
def escapeKey (mark : Mark) (key : Text) : Text :=
  key.flatMap fun p => if p = .scalar '\\' ∨ p = mark.codePoint then [.scalar '\\', p] else [p]

/-- A key in quotes and brackets. -/
def quotedBracket (mark : Mark) (key : Text) : Text :=
  .scalar '[' :: mark.codePoint :: (escapeKey mark key ++ [mark.codePoint, .scalar ']'])

@[simp] theorem isQuote_codePoint (mark : Mark) : isQuote mark.codePoint = true := by
  cases mark <;> rfl

theorem codePoint_ne_backslash (mark : Mark) : mark.codePoint ≠ .scalar '\\' := by
  cases mark <;> decide

theorem codePoint_ne_newline (mark : Mark) : mark.codePoint ≠ .scalar '\n' := by
  cases mark <;> decide

theorem escapeKey_cons_escaped {mark : Mark} {p : CodePoint}
    (hp : p = .scalar '\\' ∨ p = mark.codePoint) (key : Text) :
    escapeKey mark (p :: key) = .scalar '\\' :: p :: escapeKey mark key := by
  simp [escapeKey, hp]

theorem escapeKey_cons_plain {mark : Mark} {p : CodePoint}
    (hp : ¬(p = .scalar '\\' ∨ p = mark.codePoint)) (key : Text) :
    escapeKey mark (p :: key) = p :: escapeKey mark key := by
  simp [escapeKey, hp]

theorem quotedBody?_plain {mark : Mark} {p : CodePoint}
    (hp : ¬(p = .scalar '\\' ∨ p = mark.codePoint)) {t body : Text}
    (h : quotedBody? mark.codePoint t = some body) :
    quotedBody? mark.codePoint (p :: t) = some (p :: body) := by
  rw [not_or] at hp
  cases t with
  | nil => exact nomatch h
  | cons next rest => simp [quotedBody?, CodePoint.isChar_iff, hp.1, hp.2, h]

theorem quotedBody?_escaped {mark : Mark} {p : CodePoint}
    (hp : p = .scalar '\\' ∨ p = mark.codePoint) {t body : Text}
    (h : quotedBody? mark.codePoint t = some body) :
    quotedBody? mark.codePoint (.scalar '\\' :: p :: t) = some (.scalar '\\' :: p :: body) := by
  have hline : p ≠ .scalar '\n' := by
    obtain rfl | rfl := hp
    · decide
    · exact codePoint_ne_newline mark
  simp [quotedBody?, CodePoint.isChar_iff, hline, (codePoint_ne_backslash mark).symm, h]

/-- The body of a quoted bracket ends at the quote that was put behind the key. -/
theorem quotedBody?_escapeKey (mark : Mark) (key after : Text) :
    quotedBody? mark.codePoint (escapeKey mark key ++ mark.codePoint :: .scalar ']' :: after) =
      some (escapeKey mark key) := by
  induction key with
  | nil => simp [escapeKey, quotedBody?]
  | cons p key ih =>
    by_cases hp : p = .scalar '\\' ∨ p = mark.codePoint
    · rw [escapeKey_cons_escaped hp]
      exact quotedBody?_escaped hp ih
    · rw [escapeKey_cons_plain hp]
      exact quotedBody?_plain hp ih

theorem unescape_cons {p : CodePoint} (hp : p ≠ .scalar '\\') (t : Text) :
    unescape (p :: t) = p :: unescape t := by
  cases t <;> simp [unescape, CodePoint.isChar_iff, hp]

/-- Reading drops the backslashes that writing put in. -/
theorem unescape_escapeKey (mark : Mark) (key : Text) : unescape (escapeKey mark key) = key := by
  induction key with
  | nil => rfl
  | cons p key ih =>
    by_cases hp : p = .scalar '\\' ∨ p = mark.codePoint
    · rw [escapeKey_cons_escaped hp]
      by_cases hback : p = .scalar '\\'
      · subst hback
        simp [unescape, ih]
      · -- The backslash before a quote is dropped alone.
        have hdrop : unescape (.scalar '\\' :: p :: escapeKey mark key) =
            unescape (p :: escapeKey mark key) := by
          simp [unescape, CodePoint.isChar_iff, hback]
        rw [hdrop, unescape_cons hback, ih]
    · rw [escapeKey_cons_plain hp, unescape_cons (fun h => hp (.inl h)), ih]

/-- A key in quoted brackets is read as itself, and reading goes on after it. -/
theorem splitFrom_quotedBracket (mark : Mark) (key after : Text) :
    splitFrom 0 (quotedBracket mark key ++ after) = key :: splitFrom 0 after := by
  have hbody := quotedBody?_escapeKey mark key after
  have hat : keyAt? (.scalar '[') (mark.codePoint ::
      (escapeKey mark key ++ mark.codePoint :: .scalar ']' :: after)) =
        some (key, (escapeKey mark key).length + 3) := by
    simp [keyAt?, isDelimiter, bracketed?, hbody, unescape_escapeKey]
  have htext : quotedBracket mark key ++ after = .scalar '[' :: mark.codePoint ::
      (escapeKey mark key ++ mark.codePoint :: .scalar ']' :: after) := by
    simp [quotedBracket]
  rw [htext, splitFrom_of_some hat]
  simp

theorem splitFrom_quotedBrackets (keys : List (Mark × Text)) :
    splitFrom 0 (keys.flatMap fun (mark, key) => quotedBracket mark key) = keys.map (·.2) := by
  induction keys with
  | nil => rfl
  | cons first keys ih => rw [List.flatMap_cons, splitFrom_quotedBracket, ih, List.map_cons]

/-- **Quoted brackets.**  Keys of any kind, each in brackets and in quotes of either kind with a
    backslash before each backslash and each quote of that kind, are read back as they are. -/
theorem quoted_brackets_read_back (keys : List (Mark × Text)) :
    split (keys.flatMap fun (mark, key) => quotedBracket mark key) = keys.map (·.2) := by
  rw [← splitFrom_quotedBrackets]
  -- The path is empty or starts with a bracket, so that no empty key is put in front.
  cases keys with
  | nil => rfl
  | cons first keys => rfl

-- a quote of the other kind needs no backslash, and brackets and dots are part of the key
example : quotedBracket .single "it's \\ \"[x].\"" = ("['it\\'s \\\\ \"[x].\"']" : Text) := by decide

end LodashStyle.PropertyPath
