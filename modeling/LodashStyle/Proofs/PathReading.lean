import LodashStyle.PropertyPath.Render
import LodashStyle.PropertyPath.Split

/-!
# Which written paths read back

`render` writes keys as `.key` or `[key]` without any escape, and `split` reads a path from
left to right, so a key that holds a bracket or starts with a quote may be read as something
else, together with its neighbours.  `Readable` says of a list of keys that no key is
misread: it looks at each key and at the text written after it.  `Spells` is more general than
what `render` writes, for it leaves the choice of brackets open.

A key that is misread is never made up for later in the path.  The reason is a count of code
points (`tight`): a text that is part of the written keys and still yields all of them
misses at most one code point, and a misread quoted bracket swallows at least two.

## Key results

- `splitFrom_segment`: a key that is not misread is read where it is written
- `tight`: no part of the written keys yields them all and lacks two code points
- `split_render_iff`: `split (render keys) = keys ↔ Readable keys`
-/

namespace LodashStyle.PropertyPath

/-- The keys as they are written one after the other, the first one with its `.`. -/
def segments (keys : List Text) : Text := keys.flatMap segment

/-- Whether `key`, written before `after`, is read as itself: an empty key needs a path that
    ends, a `.` or `[]` after it; after a quote there may be no delimiter in the key and no
    end of a quoted bracket in the path; other keys may hold `[` only in front. -/
def ReadsBack (key after : Text) : Prop :=
  match key with
  | [] => endsEmptyKey after = true
  | p :: rest =>
    if isQuote p then
      (∀ q ∈ rest, isDelimiter q = false) ∧ quotedBody? p (rest ++ .scalar ']' :: after) = none
    else ∀ q ∈ rest, q.isChar '[' = false

/-- Every key reads back before the ones written after it. -/
def Readable : List Text → Prop
  | [] => True
  | key :: keys => ReadsBack key (segments keys) ∧ Readable keys

instance : (key after : Text) → Decidable (ReadsBack key after)
  | [], after => inferInstanceAs (Decidable (endsEmptyKey after = true))
  | p :: rest, after =>
    inferInstanceAs (Decidable (if isQuote p then
      (∀ q ∈ rest, isDelimiter q = false) ∧ quotedBody? p (rest ++ .scalar ']' :: after) = none
    else ∀ q ∈ rest, q.isChar '[' = false))

instance decidableReadable : (keys : List Text) → Decidable (Readable keys)
  | [] => isTrue trivial
  | key :: keys =>
    have := decidableReadable keys
    inferInstanceAs (Decidable (ReadsBack key (segments keys) ∧ Readable keys))

/-! ## Plain keys -/

/-- A plain identifier holds no delimiter. -/
private theorem isDelimiter_of_identifierRest {p : CodePoint} (h : p.isIdentifierRest = true) :
    isDelimiter p = false := by
  cases p with
  | surrogate _ => rfl
  | scalar c =>
    rw [Bool.eq_false_iff]
    intro hd
    simp only [isDelimiter, CodePoint.isChar_scalar, Bool.or_eq_true, beq_iff_eq] at hd
    rcases hd with (rfl | rfl) | rfl <;> revert h <;> decide

private theorem identifierRest_of_start {p : CodePoint} (h : p.isIdentifierStart = true) :
    p.isIdentifierRest = true := by
  cases p with
  | surrogate _ => exact absurd h Bool.false_ne_true
  | scalar c =>
    simp only [CodePoint.isIdentifierStart, Bool.or_eq_true, beq_iff_eq] at h
    simp only [CodePoint.isIdentifierRest, CodePoint.isWord, CodePoint.isChar_scalar, Char.isAlphanum,
      Bool.or_eq_true, beq_iff_eq]
    rcases h with (h | h) | h <;> simp [h]

/-- The code points of a plain identifier. -/
private theorem mem_identifier {t : Text} (h : t.isIdentifier = true) {p : CodePoint} (hp : p ∈ t) :
    isDelimiter p = false := by
  cases t with
  | nil => simp at hp
  | cons q rest =>
    simp only [Text.isIdentifier, Bool.and_eq_true, List.all_eq_true] at h
    rcases List.mem_cons.1 hp with rfl | hp
    · exact isDelimiter_of_identifierRest (identifierRest_of_start h.1)
    · exact isDelimiter_of_identifierRest (h.2 p hp)

/-- What is known of a key written as `.key`: it starts like an identifier, and it holds no
    delimiter. -/
theorem isDotKey_spec {key : Text} (h : isDotKey key = true) :
    (∃ p rest, key = p :: rest ∧ p.isIdentifierStart = true) ∧ ∀ p ∈ key, isDelimiter p = false := by
  simp only [isDotKey, Text.isIdentifierLine, Bool.or_eq_true, Bool.and_eq_true] at h
  rcases h with h | ⟨hlast, h⟩
  · refine ⟨?_, fun p hp => mem_identifier h hp⟩
    cases key with
    | nil => simp [Text.isIdentifier] at h
    | cons p rest => exact ⟨p, rest, rfl, by simp_all [Text.isIdentifier]⟩
  · -- A line feed may end the key, which is no delimiter either.
    obtain ⟨last, hl, hlf⟩ : ∃ last, key.getLast? = some last ∧ last.isChar '\n' = true := by
      simpa [Option.any_eq_true] using hlast
    obtain ⟨name, rfl⟩ := List.getLast?_eq_some_iff.1 hl
    rw [List.dropLast_concat] at h
    constructor
    · cases name with
      | nil => simp [Text.isIdentifier] at h
      | cons p rest =>
        simp only [Text.isIdentifier, Bool.and_eq_true] at h
        exact ⟨p, rest ++ [last], rfl, h.1⟩
    · intro p hp
      rcases List.mem_append.1 hp with hp | hp
      · exact mem_identifier h hp
      · rw [List.mem_singleton.1 hp, (CodePoint.isChar_iff last '\n').1 hlf]
        decide

/-! ## The written text -/

@[simp] theorem segments_nil : segments [] = [] := rfl

theorem segments_dot {key : Text} (h : isDotKey key = true) (keys : List Text) :
    segments (key :: keys) = .scalar '.' :: (key ++ segments keys) := by
  simp [segments, segment, h]

theorem segments_bracket {key : Text} (h : ¬isDotKey key = true) (keys : List Text) :
    segments (key :: keys) = .scalar '[' :: (key ++ .scalar ']' :: segments keys) := by
  simp [segments, segment, h, Text.ofChar]

/-- A written key takes at least two code points. -/
theorem two_le_length_segments (key : Text) (keys : List Text) :
    2 ≤ (segments (key :: keys)).length := by
  by_cases h : isDotKey key = true
  · obtain ⟨⟨p, rest, rfl, -⟩, -⟩ := isDotKey_spec h
    simp [segments_dot h]
  · simp only [segments_bracket h, List.length_cons, List.length_append]
    omega

/-- A text that spells keys one after the other: each in brackets or, where it may be written
    so, behind a `.`. -/
inductive Spells : Text → List Text → Prop where
  | nil : Spells [] []
  | dot {key after : Text} {keys : List Text} (hkey : isDotKey key = true) (hafter : Spells after keys) :
    Spells (.scalar '.' :: (key ++ after)) (key :: keys)
  | bracket (key : Text) {after : Text} {keys : List Text} (hafter : Spells after keys) :
    Spells (.scalar '[' :: (key ++ .scalar ']' :: after)) (key :: keys)

/-- A written key spells itself in front of others. -/
theorem spells_segment (key : Text) {t : Text} {keys : List Text} (h : Spells t keys) :
    Spells (segment key ++ t) (key :: keys) := by
  unfold segment
  split
  · rename_i hdot
    exact .dot hdot h
  · have hspells := Spells.bracket key h
    simpa [Text.ofChar] using hspells

theorem spells_segments (keys : List Text) : Spells (segments keys) keys := by
  induction keys with
  | nil => exact .nil
  | cons key keys ih => exact spells_segment key ih

/-- The text of keys starts with a delimiter, so a bare key before it ends there. -/
theorem Spells.takeWhile_bare {t : Text} {keys : List Text} (h : Spells t keys) :
    t.takeWhile (fun q => !isDelimiter q) = [] := by
  cases h <;> rfl

/-- Before the first `[` in the text of keys there is no `]`, so no bracket is closed there. -/
theorem Spells.close_not_mem {t : Text} {keys : List Text} (h : Spells t keys) :
    .scalar ']' ∉ t.takeWhile (fun q => !q.isChar '[') := by
  induction h with
  | nil => simp
  | @dot key after keys hkey _ ih =>
    have hkey := (isDotKey_spec hkey).2
    have hplain : ∀ p ∈ key, (!p.isChar '[') = true := by
      intro p hp
      have := hkey p hp
      simp only [isDelimiter, Bool.or_eq_false_iff] at this
      simp [this.1.2]
    rw [List.takeWhile_cons_of_pos (by decide), List.takeWhile_append_of_pos hplain]
    intro hmem
    rcases List.mem_cons.1 hmem with h | hmem
    · exact absurd h (by decide)
    · rcases List.mem_append.1 hmem with hk | hk
      · exact absurd (hkey _ hk) (by decide)
      · exact ih hk
  | bracket key _ _ =>
    rw [List.takeWhile_cons_of_neg (by decide)]
    simp

theorem takeWhile_bare_segments (keys : List Text) :
    (segments keys).takeWhile (fun q => !isDelimiter q) = [] :=
  (spells_segments keys).takeWhile_bare

theorem close_not_mem_segments (keys : List Text) :
    .scalar ']' ∉ (segments keys).takeWhile (fun q => !q.isChar '[') :=
  (spells_segments keys).close_not_mem

/-! ## One step of the reader -/

theorem splitFrom_of_none {p : CodePoint} {rest : Text} (h : keyAt? p rest = none) :
    splitFrom 0 (p :: rest) = splitFrom 0 rest := by
  simp [splitFrom, h]

theorem splitFrom_of_some {p : CodePoint} {rest key : Text} {used : Nat}
    (h : keyAt? p rest = some (key, used)) :
    splitFrom 0 (p :: rest) = key :: splitFrom 0 (rest.drop used) := by
  simp [splitFrom, h, splitFrom_eq_drop used rest]

@[simp] theorem splitFrom_nil : splitFrom 0 [] = [] := rfl

/-- A `]` that closes nothing is passed over. -/
@[simp] theorem splitFrom_close (rest : Text) : splitFrom 0 (.scalar ']' :: rest) = splitFrom 0 rest :=
  splitFrom_of_none rfl

/-- What can be read at a place: a bare key, a bracketed key, a quoted key or an empty key. -/
theorem keyAt?_cases {p : CodePoint} {rest key : Text} {used : Nat}
    (h : keyAt? p rest = some (key, used)) :
    (isDelimiter p = false ∧ key = p :: rest.takeWhile (fun q => !isDelimiter q) ∧
      used = (rest.takeWhile fun q => !isDelimiter q).length) ∨
    (p = .scalar '[' ∧ ∃ q tail before, rest = q :: tail ∧ isQuote q = false ∧
      beforeLastClose? (tail.takeWhile fun q => !q.isChar '[') = some before ∧
      key = q :: before ∧ used = before.length + 2) ∨
    (p = .scalar '[' ∧ ∃ q tail body, rest = q :: tail ∧ isQuote q = true ∧
      quotedBody? q tail = some body ∧ key = unescape body ∧ used = body.length + 3) ∨
    (isEmptyKey p rest = true ∧ key = [] ∧ used = 0) := by
  unfold keyAt? at h
  -- A bare key starts anywhere but at a delimiter, the other forms start at one.
  cases hp : isDelimiter p with
  | false =>
    simp only [hp, Bool.not_false, if_true, Option.some.injEq, Prod.mk.injEq] at h
    exact .inl ⟨rfl, h.1.symm, h.2.symm⟩
  | true =>
    simp only [hp, Bool.not_true, Bool.false_eq_true, if_false] at h
    refine .inr ?_
    split at h
    · rename_i found hfound
      cases h
      split at hfound
      · rename_i hopen
        rw [CodePoint.isChar_iff] at hopen
        cases rest with
        | nil => simp [bracketed?] at hfound
        | cons q tail =>
          simp only [bracketed?] at hfound
          split at hfound
          · rename_i hq
            obtain ⟨body, hbody, heq⟩ := Option.map_eq_some_iff.1 hfound
            cases heq
            exact .inr (.inl ⟨hopen, q, tail, body, rfl, hq, hbody, rfl, rfl⟩)
          · rename_i hq
            obtain ⟨before, hbefore, heq⟩ := Option.map_eq_some_iff.1 hfound
            cases heq
            exact .inl ⟨hopen, q, tail, before, rfl, by simpa using hq, hbefore, rfl, rfl⟩
      · cases hfound
    · split at h
      · rename_i hempty
        cases h
        exact .inr (.inr ⟨hempty, rfl, rfl⟩)
      · cases h

/-! ## Closing brackets and quotes -/

theorem beforeLastClose?_of_not_mem {t : Text} (h : .scalar ']' ∉ t) : beforeLastClose? t = none := by
  induction t with
  | nil => rfl
  | cons p t ih =>
    rw [List.mem_cons, not_or] at h
    have hp : p.isChar ']' = false := by
      rw [Bool.eq_false_iff, ne_eq, CodePoint.isChar_iff]
      exact fun e => h.1 e.symm
    simp [beforeLastClose?, ih h.2, hp]

theorem beforeLastClose?_append {t u : Text} (h : .scalar ']' ∉ u) :
    beforeLastClose? (t ++ .scalar ']' :: u) = some t := by
  induction t with
  | nil => simp [beforeLastClose?, beforeLastClose?_of_not_mem h]
  | cons p t ih => simp [beforeLastClose?, ih]

/-- The last `]` of a text stands behind what is before it. -/
theorem eq_append_of_beforeLastClose? {t before : Text} (h : beforeLastClose? t = some before) :
    ∃ after, t = before ++ .scalar ']' :: after := by
  induction t generalizing before with
  | nil => exact nomatch h
  | cons p rest ih =>
    unfold beforeLastClose? at h
    split at h
    · rename_i inner hinner
      obtain ⟨after, hafter⟩ := ih hinner
      obtain rfl := Option.some.inj h
      exact ⟨after, by rw [hafter, List.cons_append]⟩
    · split at h
      · rename_i hclose
        obtain rfl := Option.some.inj h
        exact ⟨rest, by rw [(CodePoint.isChar_iff p _).1 hclose, List.nil_append]⟩
      · exact nomatch h

theorem length_lt_of_beforeLastClose? {t before : Text} (h : beforeLastClose? t = some before) :
    before.length < t.length := by
  obtain ⟨after, rfl⟩ := eq_append_of_beforeLastClose? h
  rw [List.length_append, List.length_cons]
  omega

/-- A bracket that is opened before `t` and closed by the `]` after it holds `t`, unless `t`
    opens another one; then what it holds is shorter. -/
theorem beforeLastClose?_close (t : Text) {after : Text}
    (hafter : .scalar ']' ∉ after.takeWhile (fun q => !q.isChar '[')) :
    beforeLastClose? ((t ++ .scalar ']' :: after).takeWhile fun q => !q.isChar '[') =
      if ∀ q ∈ t, q.isChar '[' = false then some t
      else beforeLastClose? (t.takeWhile fun q => !q.isChar '[') := by
  split
  · rename_i h
    rw [List.takeWhile_append_of_pos (by simpa using h), List.takeWhile_cons_of_pos (by decide)]
    exact beforeLastClose?_append hafter
  · rename_i h
    congr 1
    rw [List.takeWhile_append, if_neg]
    intro hlen
    have hself := (List.takeWhile_prefix fun q : CodePoint => !q.isChar '[').eq_of_length hlen
    have hall := List.all_takeWhile (p := fun q : CodePoint => !q.isChar '[') (l := t)
    rw [hself, List.all_eq_true] at hall
    exact h fun q hq => by simpa using hall q hq

/-- The body of a quoted bracket is followed by its quote and `]`. -/
theorem eq_append_of_quotedBody? {q : CodePoint} {t body : Text} (h : quotedBody? q t = some body) :
    ∃ rest, t = body ++ q :: .scalar ']' :: rest := by
  fun_induction quotedBody? q t generalizing body with
  | case1 => cases h
  | case2 => cases h
  | case3 next rest hclose =>
    cases h
    exact ⟨rest, by simp [(CodePoint.isChar_iff next ']').1 hclose]⟩
  | case4 => cases h
  | case5 => cases h
  | case6 p next rest _ _ _ ih =>
    obtain ⟨inner, hinner, rfl⟩ := Option.map_eq_some_iff.1 h
    obtain ⟨after, hafter⟩ := ih hinner
    exact ⟨after, by simp [hafter]⟩
  | case7 p next rest _ _ ih =>
    obtain ⟨inner, hinner, rfl⟩ := Option.map_eq_some_iff.1 h
    obtain ⟨after, hafter⟩ := ih hinner
    exact ⟨after, by simp [hafter]⟩

/-- A quoted body is at least as long as the key it denotes. -/
theorem length_unescape_le (t : Text) : (unescape t).length ≤ t.length := by
  fun_induction unescape t with
  | case1 => simp
  | case2 => simp
  | case3 => simp
  | case4 p next rest _ _ ih => simp only [List.length_cons]; omega
  | case5 p next rest _ _ ih => simp only [List.length_cons] at ih ⊢; omega
  | case6 p next rest _ ih => simp only [List.length_cons] at ih ⊢; omega

/-! ## Keys that read back -/

/-- A bare key ends where the text of the next keys starts. -/
theorem splitFrom_bare {p : CodePoint} {rest : Text} (hkey : ∀ q ∈ p :: rest, isDelimiter q = false)
    {after : Text} (hafter : after.takeWhile (fun q => !isDelimiter q) = []) :
    splitFrom 0 (p :: rest ++ after) = (p :: rest) :: splitFrom 0 after := by
  have hrun : (rest ++ after).takeWhile (fun q => !isDelimiter q) = rest := by
    rw [List.takeWhile_append_of_pos (fun q hq => by simp [hkey q (List.mem_cons_of_mem _ hq)]), hafter,
      List.append_nil]
  have hat : keyAt? p (rest ++ after) = some (p :: rest, rest.length) := by
    simp [keyAt?, hkey p List.mem_cons_self, hrun]
  rw [List.cons_append, splitFrom_of_some hat, List.drop_left]

/-- The `.` before a key that starts like an identifier is passed over. -/
theorem keyAt?_dot {p : CodePoint} (h : p.isIdentifierStart = true) (rest : Text) :
    keyAt? (.scalar '.') (p :: rest) = none := by
  have hp : isDelimiter p = false := isDelimiter_of_identifierRest (identifierRest_of_start h)
  have hline : p.isChar '\n' = false := by
    rw [Bool.eq_false_iff, ne_eq, CodePoint.isChar_iff]
    rintro rfl
    exact absurd h (by decide)
  simp only [isDelimiter, Bool.or_eq_false_iff] at hp
  cases rest <;> simp [keyAt?, isDelimiter, isEmptyKey, endsEmptyKey, hp, hline]

/-- A key written with a `.` is always read as itself. -/
theorem splitFrom_dot {key : Text} (h : isDotKey key = true) {after : Text}
    (hafter : after.takeWhile (fun q => !isDelimiter q) = []) :
    splitFrom 0 (.scalar '.' :: (key ++ after)) = key :: splitFrom 0 after := by
  obtain ⟨⟨p, rest, rfl, hp⟩, hkey⟩ := isDotKey_spec h
  rw [List.cons_append, splitFrom_of_none (keyAt?_dot hp _), ← List.cons_append]
  exact splitFrom_bare hkey hafter

/-- An empty bracket before a text that keys are written as. -/
theorem keyAt?_empty (keys : List Text) :
    keyAt? (.scalar '[') (.scalar ']' :: segments keys) =
      if endsEmptyKey (segments keys) then some ([], 0) else none := by
  have hnone : bracketed? (.scalar ']' :: segments keys) = none := by
    simp [bracketed?, isQuote, beforeLastClose?_of_not_mem (close_not_mem_segments keys)]
  simp [keyAt?, isDelimiter, hnone, isEmptyKey]

/-- A bracketed key in front of which no quote stands is read as itself. -/
theorem splitFrom_bracket {p : CodePoint} (hp : isQuote p = false) {rest after : Text}
    (hrest : ∀ q ∈ rest, q.isChar '[' = false)
    (hafter : .scalar ']' ∉ after.takeWhile (fun q => !q.isChar '[')) :
    splitFrom 0 (.scalar '[' :: (p :: rest ++ .scalar ']' :: after)) = (p :: rest) :: splitFrom 0 after := by
  have hbefore := beforeLastClose?_close rest hafter
  rw [if_pos hrest] at hbefore
  have hat : keyAt? (.scalar '[') (p :: rest ++ .scalar ']' :: after) =
      some (p :: rest, rest.length + 2) := by
    simp [keyAt?, isDelimiter, bracketed?, hp, hbefore]
  rw [splitFrom_of_some hat]
  simp

/-- A bracket before a quote that no quoted bracket starts with is passed over. -/
theorem keyAt?_unquoted {p : CodePoint} (hp : isQuote p = true) {rest : Text}
    (h : quotedBody? p rest = none) : keyAt? (.scalar '[') (p :: rest) = none := by
  have hclose : p.isChar ']' = false := by
    rw [Bool.eq_false_iff, ne_eq, CodePoint.isChar_iff]
    rintro rfl
    exact absurd hp (by decide)
  simp [keyAt?, isDelimiter, bracketed?, hp, h, isEmptyKey, hclose]

theorem readsBack_nil {after : Text} : ReadsBack [] after ↔ endsEmptyKey after = true := Iff.rfl

theorem readsBack_quote {p : CodePoint} (hp : isQuote p = true) {rest after : Text} :
    ReadsBack (p :: rest) after ↔ (∀ q ∈ rest, isDelimiter q = false) ∧
      quotedBody? p (rest ++ .scalar ']' :: after) = none := by
  simp [ReadsBack, hp]

theorem readsBack_cons {p : CodePoint} (hp : isQuote p = false) {rest after : Text} :
    ReadsBack (p :: rest) after ↔ ∀ q ∈ rest, q.isChar '[' = false := by
  simp [ReadsBack, hp]

theorem isDelimiter_of_isQuote {p : CodePoint} (h : isQuote p = true) : isDelimiter p = false := by
  simp only [isQuote, Bool.or_eq_true, CodePoint.isChar_iff] at h
  rcases h with rfl | rfl <;> decide

/-- A key that is not misread is read where it is written, and reading goes on after it. -/
theorem splitFrom_segment {key : Text} {keys : List Text} (h : ReadsBack key (segments keys)) :
    splitFrom 0 (segments (key :: keys)) = key :: splitFrom 0 (segments keys) := by
  by_cases hdot : isDotKey key = true
  · rw [segments_dot hdot]
    exact splitFrom_dot hdot (takeWhile_bare_segments keys)
  rw [segments_bracket hdot]
  cases key with
  | nil =>
    have hat := keyAt?_empty keys
    rw [if_pos (readsBack_nil.1 h)] at hat
    rw [List.nil_append, splitFrom_of_some hat, List.drop_zero, splitFrom_close]
  | cons p rest =>
    cases hp : isQuote p with
    | true =>
      rw [readsBack_quote hp] at h
      have hkey : ∀ q ∈ p :: rest, isDelimiter q = false := by
        intro q hq
        rcases List.mem_cons.1 hq with rfl | hq
        · exact isDelimiter_of_isQuote hp
        · exact h.1 q hq
      -- The bracket is passed over and the key read as a bare one.
      rw [List.cons_append, splitFrom_of_none (keyAt?_unquoted hp h.2), ← List.cons_append,
        splitFrom_bare hkey rfl, splitFrom_close]
    | false =>
      exact splitFrom_bracket hp ((readsBack_cons hp).1 h) (close_not_mem_segments keys)

/-! ## Keys that are misread

The rest of the argument goes the other way: a text that yields the keys holds them as they
were written, up to one code point.  `Tight` says this of the text of some keys, and it is
proved from the last key to the first. -/

/-- Each part of the text of the keys, taken from some place to the end, that yields the keys
    and possibly others among them yields just the keys, and lacks at most one code point. -/
def Tight (keys : List Text) : Prop :=
  ∀ t, t <:+ segments keys → keys.Sublist (splitFrom 0 t) →
    splitFrom 0 t = keys ∧ (segments keys).length ≤ t.length + 1

/-- A part that yields one key more does not exist. -/
theorem Tight.not_cons {keys : List Text} (h : Tight keys) {t : Text} (ht : t <:+ segments keys)
    (key : Text) : ¬(key :: keys).Sublist (splitFrom 0 t) := by
  intro hsub
  have heq := (h t ht ((List.sublist_cons_self key keys).trans hsub)).1
  have hlen := hsub.length_le
  rw [heq, List.length_cons] at hlen
  omega

/-- A bare key that starts inside brackets ends before the closing one. -/
private theorem takeWhile_bare_close (v after : Text) :
    (v ++ .scalar ']' :: after).takeWhile (fun q => !isDelimiter q) =
      v.takeWhile fun q => !isDelimiter q := by
  rw [List.takeWhile_append]
  split
  · rename_i h
    rw [List.takeWhile_cons_of_neg (by decide), List.append_nil]
    exact ((List.takeWhile_prefix fun q : CodePoint => !isDelimiter q).eq_of_length h).symm
  · rfl

/-! ### One key between its brackets

What can be read from a place inside `[key]` on, form by form. -/

section InBrackets

variable {key : Text} {keys : List Text} {c : CodePoint} {v : Text} {used : Nat}

/-- A bare key ends before the closing bracket, so it is all of `key`. -/
private theorem bracket_bare (hv : c :: v <:+ .scalar '[' :: key) (hc : isDelimiter c = false)
    (hkey : key = c :: (v ++ .scalar ']' :: segments keys).takeWhile fun q => !isDelimiter q)
    (hused : used = ((v ++ .scalar ']' :: segments keys).takeWhile fun q => !isDelimiter q).length) :
    splitFrom 0 ((v ++ .scalar ']' :: segments keys).drop used) = splitFrom 0 (segments keys) ∧
      c :: v = key ∧ ∀ q ∈ key, isDelimiter q = false := by
  rw [takeWhile_bare_close] at hkey hused
  have hrun := List.takeWhile_prefix (l := v) fun q : CodePoint => !isDelimiter q
  have hsuffix : c :: v <:+ key := by
    rcases List.suffix_cons_iff.1 hv with heq | hsuffix
    · rw [(List.cons.inj heq).1] at hc
      exact absurd hc (by decide)
    · exact hsuffix
  -- The key read is as long as what is left of the brackets, so it stops nowhere before.
  have hkeylen : key.length = (v.takeWhile fun q => !isDelimiter q).length + 1 := by
    rw [hkey, List.length_cons]
  have hself : v.takeWhile (fun q => !isDelimiter q) = v := by
    have := hsuffix.length_le
    have := hrun.length_le
    simp only [List.length_cons] at *
    exact hrun.eq_of_length (by omega)
  rw [hself] at hkey hused
  refine ⟨by rw [hused, List.drop_left, splitFrom_close], hkey.symm, ?_⟩
  have hall := List.all_takeWhile (p := fun q : CodePoint => !isDelimiter q) (l := v)
  rw [hself, List.all_eq_true] at hall
  intro x hx
  rw [hkey] at hx
  rcases List.mem_cons.1 hx with rfl | hx
  · exact hc
  · simpa using hall x hx

/-- A bracketed key is all that the brackets hold. -/
private theorem bracket_unquoted {q : CodePoint} {tail before : Text} (hlen : v.length ≤ key.length)
    (hrest : v ++ .scalar ']' :: segments keys = q :: tail) (hq : isQuote q = false)
    (hbefore : beforeLastClose? (tail.takeWhile fun q => !q.isChar '[') = some before)
    (hkey : key = q :: before) (hused : used = before.length + 2) :
    splitFrom 0 ((v ++ .scalar ']' :: segments keys).drop used) = splitFrom 0 (segments keys) ∧
      v = key ∧ ReadsBack key (segments keys) := by
  cases v with
  | nil =>
    cases hrest
    rw [beforeLastClose?_of_not_mem (close_not_mem_segments keys)] at hbefore
    cases hbefore
  | cons p v =>
    rw [List.cons_append] at hrest
    obtain ⟨rfl, rfl⟩ := List.cons.inj hrest
    rw [beforeLastClose?_close v (close_not_mem_segments keys)] at hbefore
    split at hbefore
    · rename_i hplain
      cases hbefore
      refine ⟨by rw [hused]; simp, hkey.symm, ?_⟩
      rw [hkey, readsBack_cons hq]
      exact hplain
    · -- Otherwise the key would end before a bracket that it holds.
      have hshort := length_lt_of_beforeLastClose? hbefore
      have hprefix := (List.takeWhile_prefix (l := v) fun q : CodePoint => !q.isChar '[').length_le
      simp only [hkey, List.length_cons] at hlen
      omega

/-- A quoted body is longer than what is left inside the brackets, and would take two code points
    from the keys after it. -/
private theorem not_bracket_quoted (htight : Tight keys) {q : CodePoint} {tail body : Text}
    (hlen : v.length ≤ key.length) (hrest : v ++ .scalar ']' :: segments keys = q :: tail)
    (hq : isQuote q = true) (hbody : quotedBody? q tail = some body) (hkey : key = unescape body)
    (hused : used = body.length + 3) :
    ¬keys.Sublist (splitFrom 0 ((v ++ .scalar ']' :: segments keys).drop used)) := by
  intro hsub
  cases v with
  | nil =>
    cases hrest
    exact absurd hq (by decide)
  | cons p v =>
    rw [List.cons_append] at hrest
    obtain ⟨rfl, rfl⟩ := List.cons.inj hrest
    obtain ⟨after, hafter⟩ := eq_append_of_quotedBody? hbody
    have hshort := length_unescape_le body
    have htotal := congrArg List.length hafter
    simp only [hkey, List.length_cons, List.length_append] at hlen htotal
    have hdrop : (p :: v ++ .scalar ']' :: segments keys).drop used =
        (segments keys).drop (body.length + 1 - v.length) := by
      have hcut : body.length + 3 = (p :: v ++ [CodePoint.scalar ']']).length +
          (body.length + 1 - v.length) := by
        simp only [List.length_append, List.length_cons, List.length_nil]
        omega
      rw [hused, hcut, ← List.drop_drop, List.append_cons _ _ (segments keys), List.drop_left]
    rw [hdrop] at hsub
    -- Two code points of the keys would be missing, where one may be.
    have hmissing := (htight _ (List.drop_suffix _ _) hsub).2
    rw [List.length_drop] at hmissing
    omega

/-- How `key` can be read inside the brackets that it is written in, from some place on: from
    the opening bracket if it reads back, or as a bare key behind that bracket. -/
theorem bracket_cases (htight : Tight keys) (hv : c :: v <:+ .scalar '[' :: key)
    (hat : keyAt? c (v ++ .scalar ']' :: segments keys) = some (key, used))
    (hsub : keys.Sublist (splitFrom 0 ((v ++ .scalar ']' :: segments keys).drop used))) :
    splitFrom 0 ((v ++ .scalar ']' :: segments keys).drop used) = splitFrom 0 (segments keys) ∧
      ((c :: v = .scalar '[' :: key ∧ ReadsBack key (segments keys)) ∨
        (c :: v = key ∧ ∀ q ∈ key, isDelimiter q = false)) := by
  have hlen : v.length ≤ key.length := by simpa using hv.length_le
  rcases keyAt?_cases hat with ⟨hc, hkey, hused⟩ | ⟨rfl, q, tail, before, hrest, hq, hbefore, hkey, hused⟩ |
    ⟨rfl, q, tail, body, hrest, hq, hbody, hkey, hused⟩ | ⟨hempty, rfl, rfl⟩
  · obtain ⟨heq, hbare⟩ := bracket_bare hv hc hkey hused
    exact ⟨heq, .inr hbare⟩
  · obtain ⟨heq, rfl, hback⟩ := bracket_unquoted hlen hrest hq hbefore hkey hused
    exact ⟨heq, .inl ⟨rfl, hback⟩⟩
  · exact absurd hsub (not_bracket_quoted htight hlen hrest hq hbody hkey hused)
  · -- An empty key stands at the opening bracket of an empty pair.
    obtain rfl : v = [] := List.eq_nil_of_length_eq_zero (by simpa using hlen)
    obtain rfl : c = .scalar '[' := by
      rcases List.suffix_cons_iff.1 hv with heq | hsuffix
      · exact (List.cons.inj heq).1
      · exact absurd hsuffix.length_le (by simp)
    refine ⟨by simp, .inl ⟨rfl, readsBack_nil.2 ?_⟩⟩
    simpa [isEmptyKey] using hempty

end InBrackets

/-! ### The text of one key more -/

/-- A part of `a ++ b` lies in `b` or starts in `a`. -/
private theorem suffix_append_cases {a b t : Text} (h : t <:+ a ++ b) :
    t <:+ b ∨ ∃ w, w ≠ [] ∧ w <:+ a ∧ t = w ++ b := by
  obtain ⟨before, hbefore⟩ := h
  rcases List.append_eq_append_iff.1 hbefore with ⟨w, rfl, rfl⟩ | ⟨w, rfl, rfl⟩
  · by_cases hw : w = []
    · exact .inl (by simp [hw])
    · exact .inr ⟨w, hw, List.suffix_append _ _, rfl⟩
  · exact .inl (List.suffix_append _ _)

/-- Reading a part of the text of `key :: keys` that starts inside a key written with a `.`. -/
private theorem tight_at_dot {key : Text} {keys : List Text} (hdot : isDotKey key = true)
    {c : CodePoint} {w : Text} (hw : c :: w <:+ .scalar '.' :: key) {used : Nat}
    (hat : keyAt? c (w ++ segments keys) = some (key, used)) :
    (w ++ segments keys).drop used = segments keys ∧ key.length ≤ w.length + 1 := by
  obtain ⟨⟨p, rest, hkey, hp⟩, hplain⟩ := isDotKey_spec hdot
  rcases List.suffix_cons_iff.1 hw with heq | hsuffix
  · obtain ⟨rfl, rfl⟩ := List.cons.inj heq
    rw [hkey, List.cons_append, keyAt?_dot hp] at hat
    cases hat
  · -- Behind the dot, all that is left of the key is read as a bare key.
    have hbare : ∀ q ∈ c :: w, isDelimiter q = false := fun q hq => hplain q (hsuffix.subset hq)
    have hrun : (w ++ segments keys).takeWhile (fun q => !isDelimiter q) = w := by
      rw [List.takeWhile_append_of_pos (fun q hq => by simp [hbare q (List.mem_cons_of_mem _ hq)]),
        takeWhile_bare_segments, List.append_nil]
    simp only [keyAt?, hbare c List.mem_cons_self, hrun, Bool.not_false, if_true, Option.some.injEq,
      Prod.mk.injEq] at hat
    rw [← hat.2, ← hat.1]
    simp

/-- Some part of the text of `key :: keys` yields these keys behind a key that takes one code
    point of it: then it is all of the text, and the key is an empty one that does not exist. -/
private theorem not_surplus {key : Text} {keys : List Text} (htight : Tight keys)
    (hless : ∀ t, t <:+ segments (key :: keys) → t.length + 1 < (segments (key :: keys)).length →
      ¬(key :: keys).Sublist (splitFrom 0 t))
    {c : CodePoint} {rest found : Text} (ht : c :: rest = segments (key :: keys))
    (hat : keyAt? c rest = some (found, 0)) : ¬(key :: keys).Sublist (splitFrom 0 rest) := by
  intro hsub
  by_cases hdot : isDotKey key = true
  · obtain ⟨⟨p, tail, hkey, hp⟩, -⟩ := isDotKey_spec hdot
    rw [segments_dot hdot, hkey] at ht
    obtain ⟨rfl, rfl⟩ := List.cons.inj ht
    rw [List.cons_append, keyAt?_dot hp] at hat
    cases hat
  · have ht' := ht
    rw [segments_bracket hdot] at ht'
    obtain ⟨rfl, rfl⟩ := List.cons.inj ht'
    rcases keyAt?_cases hat with ⟨hc, -⟩ | ⟨-, q, tail, before, -, -, -, -, hused⟩ |
      ⟨-, q, tail, body, -, -, -, -, hused⟩ | ⟨hempty, -⟩
    · exact absurd hc (by decide)
    · omega
    · omega
    · -- Only an empty key takes one code point, and only before a `]`.
      cases key with
      | nil => exact htight.not_cons List.suffix_rfl [] (by simpa using hsub)
      | cons p tail =>
        obtain rfl : p = .scalar ']' := by
          simp only [isEmptyKey, List.cons_append, List.head?_cons, Bool.or_eq_true, Bool.and_eq_true,
            Option.any_some, CodePoint.isChar_iff] at hempty
          rcases hempty with ⟨h, -⟩ | ⟨⟨-, h⟩, -⟩
          · exact absurd h (by decide)
          · exact h
        refine hless (tail ++ .scalar ']' :: segments keys) ?_ ?_ (by simpa using hsub)
        · rw [← ht]
          exact ⟨[.scalar '[', .scalar ']'], rfl⟩
        · rw [← ht]
          simp

/-- Reading a part of the text of `key :: keys` whose first key is `key`. -/
private theorem tight_at_key {key : Text} {keys : List Text} (htight : Tight keys)
    {c : CodePoint} {rest : Text} (ht : c :: rest <:+ segments (key :: keys))
    (hstart : ¬c :: rest <:+ segments keys) {used : Nat} (hat : keyAt? c rest = some (key, used))
    (hsub : keys.Sublist (splitFrom 0 (rest.drop used))) :
    splitFrom 0 (rest.drop used) = keys ∧ (segments (key :: keys)).length ≤ rest.length + 2 := by
  by_cases hdot : isDotKey key = true
  · -- The key is found behind its dot.
    rw [segments_dot hdot, ← List.cons_append] at ht ⊢
    obtain ⟨w, hne, hw, hrest⟩ := (suffix_append_cases ht).resolve_left hstart
    obtain ⟨d, w, rfl⟩ := List.exists_cons_of_ne_nil hne
    rw [List.cons_append] at hrest
    obtain ⟨rfl, rfl⟩ := List.cons.inj hrest
    obtain ⟨hdrop, hlen⟩ := tight_at_dot hdot hw hat
    rw [hdrop] at hsub ⊢
    refine ⟨(htight _ List.suffix_rfl hsub).1, ?_⟩
    simp only [List.length_append, List.length_cons]
    omega
  · -- It is found inside its brackets, whole or bare.
    rw [segments_bracket hdot, ← List.cons_append, List.append_cons] at ht ⊢
    obtain ⟨w, hne, hw, hrest⟩ := (suffix_append_cases ht).resolve_left hstart
    rcases List.suffix_concat_iff.1 hw with rfl | ⟨v, rfl, hv⟩
    · exact absurd rfl hne
    · cases v with
      | nil =>
        obtain ⟨rfl, rfl⟩ := List.cons.inj hrest
        cases hat
      | cons d v =>
        rw [← List.append_cons, List.cons_append] at hrest
        obtain ⟨rfl, rfl⟩ := List.cons.inj hrest
        obtain ⟨heq, hcases⟩ := bracket_cases htight hv hat hsub
        rw [heq] at hsub ⊢
        refine ⟨(htight _ List.suffix_rfl hsub).1, ?_⟩
        have hlen : key.length ≤ v.length + 1 := by
          rcases hcases with ⟨h, -⟩ | ⟨h, -⟩ <;> have := congrArg List.length h <;>
            simp only [List.length_cons] at this <;> omega
        simp only [List.length_append, List.length_cons, List.length_nil]
        omega

/-- No part of the text of some keys yields them all and lacks two code points. -/
theorem tight (keys : List Text) : Tight keys := by
  induction keys with
  | nil =>
    intro t ht _
    rw [segments_nil, List.suffix_nil] at ht
    simp [ht]
  | cons key keys ih =>
    intro t ht hsub
    induction hn : t.length using Nat.strongRecOn generalizing t with
    | ind n hshorter =>
      subst hn
      -- A part that starts after the first key has not enough text for it.
      by_cases hstart : t <:+ segments keys
      · exact absurd hsub (ih.not_cons hstart key)
      cases t with
      | nil => exact absurd List.nil_suffix hstart
      | cons c rest =>
        have hrest : rest <:+ segments (key :: keys) := (List.suffix_cons c rest).trans ht
        cases hat : keyAt? c rest with
        | none =>
          rw [splitFrom_of_none hat] at hsub ⊢
          obtain ⟨heq, hlen⟩ := hshorter rest.length (by simp) rest hrest hsub rfl
          exact ⟨heq, by simp only [List.length_cons]; omega⟩
        | some found =>
          obtain ⟨first, used⟩ := found
          rw [splitFrom_of_some hat] at hsub ⊢
          rcases List.sublist_cons_iff.1 hsub with hlater | ⟨_, hcons, hkeys⟩
          · -- all keys come after the first one read, which leaves them too little text
            exfalso
            have hdrop := (List.drop_suffix used rest).trans hrest
            have hless : (rest.drop used).length < (c :: rest).length := by
              rw [List.length_drop, List.length_cons]
              omega
            obtain ⟨-, hlen⟩ := hshorter _ hless _ hdrop hlater rfl
            have htotal := ht.length_le
            rw [List.length_drop] at hlen
            simp only [List.length_cons] at htotal
            have htwo := two_le_length_segments key keys
            obtain rfl : used = 0 := by omega
            have hall : c :: rest = segments (key :: keys) :=
              ht.eq_of_length (by simp only [List.length_cons]; omega)
            refine not_surplus ih ?_ hall hat (by simpa using hlater)
            intro t ht hlen hsub
            have := (hshorter t.length (by rw [hall]; omega) t ht hsub rfl).2
            omega
          · -- the first key read is `key`
            obtain ⟨rfl, rfl⟩ := List.cons.inj hcons
            obtain ⟨heq, hlen⟩ := tight_at_key ih ht hstart hat hkeys
            exact ⟨by rw [heq], by simp only [List.length_cons]; omega⟩

/-! ## The exact condition -/

/-- A key of which no code point is a delimiter reads back, unless it is taken for a quoted
    bracket. -/
private theorem readsBack_of_plain {key : Text} {keys : List Text}
    (hplain : ∀ q ∈ key, isDelimiter q = false) (hne : key ≠ [])
    (hat : keyAt? (.scalar '[') (key ++ .scalar ']' :: segments keys) = none ∨
      ∀ p ∈ key.head?, isQuote p = false) : ReadsBack key (segments keys) := by
  obtain ⟨p, rest, rfl⟩ := List.exists_cons_of_ne_nil hne
  have hrest : ∀ q ∈ rest, isDelimiter q = false := fun q hq => hplain q (List.mem_cons_of_mem _ hq)
  cases hp : isQuote p with
  | true =>
    rw [readsBack_quote hp]
    refine ⟨hrest, ?_⟩
    have hat := hat.resolve_right fun h => absurd (h p rfl) (by simp [hp])
    cases hbody : quotedBody? p (rest ++ .scalar ']' :: segments keys) with
    | none => rfl
    | some body => simp [keyAt?, isDelimiter, bracketed?, hp, hbody] at hat
  | false =>
    rw [readsBack_cons hp]
    intro q hq
    have := hrest q hq
    simp only [isDelimiter, Bool.or_eq_false_iff] at this
    exact this.1.2

/-- If the text of keys gives them back, its first key was read where it is written. -/
theorem readsBack_of_splitFrom {key : Text} {keys : List Text}
    (h : splitFrom 0 (segments (key :: keys)) = key :: keys) :
    ReadsBack key (segments keys) ∧ splitFrom 0 (segments keys) = keys := by
  by_cases hdot : isDotKey key = true
  · obtain ⟨⟨p, rest, rfl, hp⟩, hplain⟩ := isDotKey_spec hdot
    rw [segments_dot hdot, splitFrom_dot hdot (takeWhile_bare_segments keys)] at h
    refine ⟨readsBack_of_plain hplain (by simp) (.inr ?_), (List.cons.inj h).2⟩
    rintro q ⟨⟩
    rw [Bool.eq_false_iff, ne_eq, isQuote, Bool.or_eq_true, CodePoint.isChar_iff, CodePoint.isChar_iff]
    rintro (rfl | rfl) <;> exact absurd hp (by decide)
  have htight := tight keys
  have hlen := congrArg List.length (segments_bracket hdot keys)
  rw [segments_bracket hdot] at h
  cases hat : keyAt? (.scalar '[') (key ++ .scalar ']' :: segments keys) with
  | some found =>
    obtain ⟨first, used⟩ := found
    rw [splitFrom_of_some hat] at h
    obtain ⟨rfl, hkeys⟩ := List.cons.inj h
    obtain ⟨heq, ⟨-, hback⟩ | ⟨hloop, -⟩⟩ := bracket_cases htight List.suffix_rfl hat (by simp [hkeys])
    · exact ⟨hback, heq ▸ hkeys⟩
    · exact absurd (congrArg List.length hloop) (by simp)
  | none =>
    rw [splitFrom_of_none hat] at h
    cases key with
    | nil =>
      rw [List.nil_append, splitFrom_close] at h
      exact absurd (by simp [h]) (htight.not_cons List.suffix_rfl [])
    | cons p rest =>
      cases hp : keyAt? p (rest ++ .scalar ']' :: segments keys) with
      | none =>
        -- then two code points are passed over before the keys
        rw [List.cons_append, splitFrom_of_none hp] at h
        have hsuffix : rest ++ .scalar ']' :: segments keys <:+ segments ((p :: rest) :: keys) := by
          rw [segments_bracket hdot]
          exact ⟨[.scalar '[', p], rfl⟩
        have := (tight ((p :: rest) :: keys) _ hsuffix (by simp [h])).2
        simp only [hlen, List.length_cons, List.length_append] at this
        omega
      | some found =>
        obtain ⟨first, used⟩ := found
        rw [List.cons_append, splitFrom_of_some hp] at h
        obtain ⟨rfl, hkeys⟩ := List.cons.inj h
        obtain ⟨heq, ⟨hloop, -⟩ | ⟨-, hplain⟩⟩ :=
          bracket_cases htight (List.suffix_cons _ _) hp (by simp [hkeys])
        · exact absurd (congrArg List.length hloop) (by simp)
        · exact ⟨readsBack_of_plain hplain (by simp) (.inl hat), heq ▸ hkeys⟩

/-- Reading the text of keys gives the keys back exactly when none of them is misread. -/
theorem splitFrom_segments_iff (keys : List Text) :
    splitFrom 0 (segments keys) = keys ↔ Readable keys := by
  induction keys with
  | nil => simp [Readable]
  | cons key keys ih =>
    constructor
    · intro h
      obtain ⟨hkey, hkeys⟩ := readsBack_of_splitFrom h
      exact ⟨hkey, ih.1 hkeys⟩
    · rintro ⟨hkey, hkeys⟩
      rw [splitFrom_segment hkey, ih.2 hkeys]

/-- The `.` of a first key may be dropped; no empty key is then read in front of the path. -/
theorem Spells.split_dropDot {t : Text} {keys : List Text} (h : Spells t keys) :
    split (dropDot t) = splitFrom 0 t := by
  cases h with
  | nil => rfl
  | bracket => rfl
  | @dot key after keys hkey hafter =>
    obtain ⟨⟨p, rest, rfl, hp⟩, hplain⟩ := isDotKey_spec hkey
    have hdot : p.isChar '.' = false := by
      have := hplain p List.mem_cons_self
      simp only [isDelimiter, Bool.or_eq_false_iff] at this
      exact this.1.1
    rw [List.cons_append, splitFrom_of_none (keyAt?_dot hp _)]
    simp [dropDot, split, hdot]

theorem split_render (keys : List Text) : split (render keys) = splitFrom 0 (segments keys) :=
  (spells_segments keys).split_dropDot

/-- A written path is read as the keys it was written from exactly when no key is misread. -/
theorem split_render_iff (keys : List Text) : split (render keys) = keys ↔ Readable keys := by
  rw [split_render]
  exact splitFrom_segments_iff keys

-- a dot, a bracket in front and an empty key at the end are read back
example : Readable ["a", "b.c", "[0", ""] := by decide

-- `[a[b].c` is read as `a`, `b` and `c`
example : ¬Readable ["a[b", "c"] := by decide

-- `['a][b']` is read as one quoted key
example : Readable ["'a", "b"] ∧ ¬Readable ["'a", "b'"] := by decide

/-- Reading a written path never makes up for a key that was left out when it was written. -/
theorem split_render_ne_of_sublist {keys more : List Text} (hsub : keys.Sublist more)
    (hlen : keys.length < more.length) : split (render keys) ≠ more := by
  intro h
  rw [split_render] at h
  have := (tight keys _ List.suffix_rfl (h ▸ hsub)).1
  rw [h] at this
  rw [this] at hlen
  omega

end LodashStyle.PropertyPath
