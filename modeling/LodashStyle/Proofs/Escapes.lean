import LodashStyle.JavaScript.StringLiteral
import LodashStyle.Proofs.Outcomes

/-!
# Numbers that escapes write

A string literal writes a number where a backslash that is not escaped itself is followed by
`u{…}`, `uHHHH` or `xHH`.  Which numbers are written decides whether the literal has a value, and
whether the value holds a surrogate.  `isEscaped` tells at which places a text is escaped, and
`AllEscaped` that certain places all are.

## Key results

- `cook_isOk_iff`: a literal has a value exactly when every number it writes is a code point
- `cook_plain_iff`: the value holds a surrogate exactly when the literal writes the number of one
-/

namespace LodashStyle

/-! ## Plain texts -/

/-- A text without surrogates. -/
def Text.Plain (t : Text) : Prop := ∀ p ∈ t, ∃ c, p = .scalar c

namespace Text

@[simp] theorem plain_nil : Plain [] := fun _ hp => absurd hp List.not_mem_nil

@[simp] theorem plain_cons {p : CodePoint} {t : Text} : Plain (p :: t) ↔ (∃ c, p = .scalar c) ∧ Plain t :=
  List.forall_mem_cons

@[simp] theorem plain_append {s t : Text} : Plain (s ++ t) ↔ Plain s ∧ Plain t :=
  List.forall_mem_append

@[simp] theorem plain_ofChars (cs : List Char) : Plain (ofChars cs) := by
  intro p hp
  obtain ⟨c, -, rfl⟩ := List.mem_map.1 hp
  exact ⟨c, rfl⟩

theorem Plain.drop {t : Text} (h : Plain t) (n : Nat) : Plain (t.drop n) :=
  fun p hp => h p (List.mem_of_mem_drop hp)

end Text

namespace JavaScript

/-! ## Written numbers -/

/-- Whether the code point after a text is escaped: a backslash stands before it that is not
    escaped itself. -/
def isEscaped (before : Text) : Bool := before.foldl (fun escaped p => p.isChar '\\' && !escaped) false

/-- A number as it stands behind a backslash: the text and its digits. -/
inductive Numeral : Text → Text → Prop where
  | braced {digits : Text} (hsome : digits ≠ []) (hdigits : ∀ p ∈ digits, (hexValue? p).isSome) :
    Numeral (.scalar 'u' :: .scalar '\x7b' :: (digits ++ [.scalar '\x7d'])) digits
  | four {digits : Text} (hlength : digits.length = 4) (hdigits : ∀ p ∈ digits, (hexValue? p).isSome) :
    Numeral (.scalar 'u' :: digits) digits
  | two {digits : Text} (hlength : digits.length = 2) (hdigits : ∀ p ∈ digits, (hexValue? p).isSome) :
    Numeral (.scalar 'x' :: digits) digits

/-- A text that starts with a numeral of a number. -/
def StartsWithNumber (t : Text) (n : Nat) : Prop :=
  ∃ written digits after, t = written ++ after ∧ Numeral written digits ∧ hexNumber digits = n

/-- The text between the quotes of a literal writes a number by an escape. -/
def Writes (raw : Text) (n : Nat) : Prop :=
  ∃ before after, raw = before ++ .scalar '\\' :: after ∧ isEscaped before = false ∧
    StartsWithNumber after n

theorem isEscaped_cons {p : CodePoint} (hp : p.isChar '\\' = false) (before : Text) :
    isEscaped (p :: before) = isEscaped before := by
  simp [isEscaped, hp]

theorem isEscaped_escape (p : CodePoint) (before : Text) :
    isEscaped (.scalar '\\' :: p :: before) = isEscaped before := by
  simp [isEscaped]

/-- At every place where `test` accepts what is left of the text, the text is escaped. -/
def AllEscaped (test : Text → Bool) (t : Text) : Prop :=
  ∀ before after, t = before ++ after → test after = true → isEscaped before = true

theorem allEscaped_nil {test : Text → Bool} (htest : test [] = false) : AllEscaped test [] := by
  intro before after heq hafter
  obtain ⟨-, rfl⟩ := List.append_eq_nil_iff.1 heq.symm
  simp [htest] at hafter

/-- A code point other than a backslash that the test refuses changes nothing. -/
theorem AllEscaped.cons {test : Text → Bool} {p : CodePoint} {rest : Text} (h : AllEscaped test rest)
    (hp : p.isChar '\\' = false) (htest : test (p :: rest) = false) : AllEscaped test (p :: rest) := by
  intro before after heq hafter
  cases before with
  | nil =>
    rw [List.nil_append] at heq
    simp [← heq, htest] at hafter
  | cons q before =>
    obtain ⟨rfl, hrest⟩ := List.cons.inj heq
    rw [isEscaped_cons hp]
    exact h before after hrest hafter

/-- A backslash that the test refuses escapes the code point behind it. -/
theorem AllEscaped.escape {test : Text → Bool} {p : CodePoint} {rest : Text} (h : AllEscaped test rest)
    (htest : test (.scalar '\\' :: p :: rest) = false) :
    AllEscaped test (.scalar '\\' :: p :: rest) := by
  intro before after heq hafter
  cases before with
  | nil =>
    rw [List.nil_append] at heq
    simp [← heq, htest] at hafter
  | cons q before =>
    obtain ⟨rfl, hmore⟩ := List.cons.inj heq
    cases before with
    | nil => rfl
    | cons q before =>
      obtain ⟨rfl, hrest⟩ := List.cons.inj hmore
      rw [isEscaped_escape]
      exact h before after hrest hafter

theorem not_writes_nil (n : Nat) : ¬Writes [] n := by
  rintro ⟨before, after, heq, -⟩
  simp at heq

/-- Before the first backslash nothing is written. -/
theorem writes_cons_iff {p : CodePoint} (hp : p.isChar '\\' = false) {rest : Text} {n : Nat} :
    Writes (p :: rest) n ↔ Writes rest n := by
  constructor
  · rintro ⟨before, after, heq, hescaped, hnumber⟩
    cases before with
    | nil =>
      rw [List.nil_append] at heq
      rw [(List.cons.inj heq).1] at hp
      simp at hp
    | cons q before =>
      obtain ⟨rfl, hrest⟩ := List.cons.inj heq
      rw [isEscaped_cons hp] at hescaped
      exact ⟨before, after, hrest, hescaped, hnumber⟩
  · rintro ⟨before, after, rfl, hescaped, hnumber⟩
    exact ⟨p :: before, after, rfl, by rwa [isEscaped_cons hp], hnumber⟩

theorem not_startsWithNumber_nil (n : Nat) : ¬StartsWithNumber [] n := by
  rintro ⟨written, digits, after, heq, hnumeral, -⟩
  cases hnumeral <;> simp at heq

/-- A backslash at the end writes nothing. -/
theorem not_writes_lone (n : Nat) : ¬Writes [.scalar '\\'] n := by
  rintro ⟨before, after, heq, -, hnumber⟩
  cases before with
  | nil =>
    obtain ⟨-, rfl⟩ := List.cons.inj heq
    exact not_startsWithNumber_nil n hnumber
  | cons q before =>
    have hnil := (List.cons.inj heq).2
    simp at hnil

/-- A backslash writes what stands behind it, and takes the next code point with it. -/
theorem writes_escape_iff {next : CodePoint} {more : Text} {n : Nat} :
    Writes (.scalar '\\' :: next :: more) n ↔ StartsWithNumber (next :: more) n ∨ Writes more n := by
  constructor
  · rintro ⟨before, after, heq, hescaped, hnumber⟩
    cases before with
    | nil =>
      -- The number is written by this backslash.
      obtain ⟨-, rfl⟩ := List.cons.inj heq
      exact .inl hnumber
    | cons p before =>
      obtain ⟨rfl, htail⟩ := List.cons.inj heq
      -- A backslash right behind this one is escaped by it.
      cases before with
      | nil => simp [isEscaped] at hescaped
      | cons q before =>
        obtain ⟨rfl, hmore⟩ := List.cons.inj htail
        rw [isEscaped_escape] at hescaped
        exact .inr ⟨before, after, hmore, hescaped, hnumber⟩
  · rintro (hnumber | ⟨before, after, rfl, hescaped, hnumber⟩)
    · exact ⟨[], next :: more, rfl, rfl, hnumber⟩
    · exact ⟨.scalar '\\' :: next :: before, after, rfl, by rwa [isEscaped_escape], hnumber⟩

/-- Passing over code points other than backslashes passes over no number. -/
theorem writes_drop_iff {t : Text} {k n : Nat} (h : ∀ p ∈ t.take k, p.isChar '\\' = false) :
    Writes (t.drop k) n ↔ Writes t n := by
  induction k generalizing t with
  | zero => rfl
  | succ k ih =>
    cases t with
    | nil => rfl
    | cons p rest =>
      rw [List.take_succ_cons, List.forall_mem_cons] at h
      rw [List.drop_succ_cons, ih h.2, writes_cons_iff h.1]

/-! ## Digits -/

/-- Digits are read up to what is none. -/
theorem hexRun_append {digits : Text} (h : ∀ p ∈ digits, (hexValue? p).isSome) {p : CodePoint}
    (hp : hexValue? p = none) (after : Text) : hexRun (digits ++ p :: after) = digits := by
  rw [hexRun, List.takeWhile_append_of_pos h, List.takeWhile_cons_of_neg (by simp [hp]), List.append_nil]

theorem mem_hexRun {t : Text} {p : CodePoint} (h : p ∈ hexRun t) : (hexValue? p).isSome :=
  List.all_eq_true.1 List.all_takeWhile p h

/-- All of some digits are read. -/
theorem hexRun_eq_self {digits : Text} (h : ∀ p ∈ digits, (hexValue? p).isSome) : hexRun digits = digits := by
  have hwhole : hexRun (digits ++ []) = digits ++ hexRun [] := List.takeWhile_append_of_pos h
  have hnil : hexRun [] = [] := rfl
  rwa [List.append_nil, hnil, List.append_nil] at hwhole

/-- A text starts with a number of digits when that many are read. -/
theorem length_hexRun_take_iff {t : Text} {k : Nat} :
    (hexRun (t.take k)).length = k ↔ (t.take k).length = k ∧ ∀ p ∈ t.take k, (hexValue? p).isSome := by
  constructor
  · intro h
    have hpre : hexRun (t.take k) <+: t.take k := List.takeWhile_prefix _
    have hmost : (t.take k).length ≤ k := List.length_take_le k t
    have hleast := hpre.length_le
    have hwhole : hexRun (t.take k) = t.take k := hpre.eq_of_length (by omega)
    rw [hwhole] at h
    refine ⟨h, fun p hp => ?_⟩
    rw [← hwhole] at hp
    exact mem_hexRun hp
  · rintro ⟨hlength, hdigits⟩
    rw [hexRun_eq_self hdigits, hlength]

/-- A text starts with digits in braces when a brace is read behind the digits. -/
theorem braced_iff {rest : Text} :
    (rest.head?.any (·.isChar '\x7b') && (!(hexRun rest.tail).isEmpty &&
      (rest.drop ((hexRun rest.tail).length + 1)).head?.any (·.isChar '\x7d'))) = true ↔
      ∃ digits after, rest = .scalar '\x7b' :: (digits ++ .scalar '\x7d' :: after) ∧ digits ≠ [] ∧
        (∀ p ∈ digits, (hexValue? p).isSome) ∧ hexRun rest.tail = digits := by
  constructor
  · intro h
    cases rest with
    | nil => simp at h
    | cons p rest =>
      simp only [List.head?_cons, Option.any_some, List.tail_cons, List.drop_succ_cons,
        Bool.and_eq_true, Bool.not_eq_true', List.isEmpty_eq_false_iff, CodePoint.isChar_iff] at h
      obtain ⟨rfl, hsome, hclose⟩ := h
      -- The digits are a first part of the text, and the brace is looked for behind them.
      obtain ⟨after, hafter⟩ : hexRun rest <+: rest := List.takeWhile_prefix _
      have hdrop : rest.drop (hexRun rest).length = after := by
        conv => lhs; arg 2; rw [← hafter]
        exact List.drop_left
      rw [hdrop] at hclose
      cases after with
      | nil => simp at hclose
      | cons q after =>
        obtain rfl := (CodePoint.isChar_iff q _).1 hclose
        refine ⟨hexRun rest, after, ?_, hsome, fun p hp => mem_hexRun hp, rfl⟩
        rw [hafter]
  · rintro ⟨digits, after, rfl, hsome, hdigits, -⟩
    have hrun := hexRun_append hdigits (p := .scalar '\x7d') rfl after
    simp [hrun, hsome]

/-! ## Numerals -/

/-- The digits of the numeral at the start of a text are determined. -/
theorem Numeral.unique {a b as bs after rest : Text} (ha : Numeral a as) (hb : Numeral b bs)
    (h : a ++ after = b ++ rest) : as = bs := by
  -- A digit is no brace, so that a numeral in braces is no other one.
  have hbrace : ∀ {digits more : Text} {p : CodePoint} {u : Text}, digits.length = 4 →
      (∀ p ∈ digits, (hexValue? p).isSome) → digits ++ more = p :: u → p ≠ .scalar '\x7b' := by
    rintro digits more p u hlength hdigits heq rfl
    cases digits with
    | nil => simp at hlength
    | cons q digits =>
      have hq := hdigits q List.mem_cons_self
      rw [(List.cons.inj heq).1] at hq
      exact absurd hq (by decide)
  cases ha with
  | braced _ hdigits =>
    cases hb with
    | braced _ hdigits' =>
      -- Both runs of digits end at the first brace.
      have hrun := hexRun_append hdigits (p := .scalar '\x7d') rfl after
      have hrun' := hexRun_append hdigits' (p := .scalar '\x7d') rfl rest
      simp only [List.cons_append, List.cons.injEq, true_and, List.append_assoc,
        List.nil_append] at h
      rw [← hrun, ← hrun', h]
    | four hlength hdigits' =>
      simp only [List.cons_append, List.cons.injEq, true_and] at h
      exact absurd rfl (hbrace hlength hdigits' h.symm)
    | two => simp at h
  | four hlength hdigits =>
    cases hb with
    | braced _ hdigits' =>
      simp only [List.cons_append, List.cons.injEq, true_and] at h
      exact absurd rfl (hbrace hlength hdigits h)
    | four hlength' _ =>
      exact (List.append_inj (List.cons.inj h).2 (hlength.trans hlength'.symm)).1
    | two => simp at h
  | two hlength =>
    cases hb with
    | braced => simp at h
    | four => simp at h
    | two hlength' _ =>
      exact (List.append_inj (List.cons.inj h).2 (hlength.trans hlength'.symm)).1

/-- A numeral holds no backslash. -/
theorem Numeral.not_backslash {written digits : Text} (h : Numeral written digits) {p : CodePoint}
    (hp : p ∈ written) : p.isChar '\\' = false := by
  -- A backslash has no value as a digit, and nothing else in a numeral is one.
  have hdigit : ∀ {p : CodePoint}, (hexValue? p).isSome → p.isChar '\\' = false := by
    intro p hvalue
    rw [Bool.eq_false_iff]
    intro hslash
    rw [(CodePoint.isChar_iff p _).1 hslash] at hvalue
    exact absurd hvalue (by decide)
  cases h with
  | braced _ hdigits =>
    simp only [List.mem_cons, List.mem_append, List.not_mem_nil, or_false] at hp
    obtain rfl | rfl | hp | rfl := hp
    · rfl
    · rfl
    · exact hdigit (hdigits p hp)
    · rfl
  | four _ hdigits =>
    obtain rfl | hp := List.mem_cons.1 hp
    · rfl
    · exact hdigit (hdigits p hp)
  | two _ hdigits =>
    obtain rfl | hp := List.mem_cons.1 hp
    · rfl
    · exact hdigit (hdigits p hp)

/-- A letter stands for itself or for a character. -/
theorem letterEscape_eq (p : CodePoint) : letterEscape p = p ∨ ∃ c, letterEscape p = .scalar c := by
  unfold letterEscape
  repeat' split
  all_goals first | exact .inl rfl | exact .inr ⟨_, rfl⟩

/-! ## The tests for a numeral -/

/-- Whether `next` is a `u` with digits in braces behind it. -/
def bracedBehind (next : CodePoint) (more : Text) : Bool :=
  next.isChar 'u' && (more.head?.any (·.isChar '\x7b') && (!(hexRun more.tail).isEmpty &&
    (more.drop ((hexRun more.tail).length + 1)).head?.any (·.isChar '\x7d')))

/-- Whether `next` is the given letter with `count` digits behind it. -/
def digitsBehind (letter : Char) (count : Nat) (next : CodePoint) (more : Text) : Bool :=
  next.isChar letter && decide ((hexRun (more.take count)).length = count)

/-- What is made of an escape that writes no number: a line end is dropped, and any other code point
    stands for itself or for a character. -/
def plainEscape (next : CodePoint) (more : Text) : Text × Nat :=
  if next.isChar '\r' && more.head?.any (·.isChar '\n') then ([], 1)
  else if isLineEnd next then ([], 0)
  else ([letterEscape next], 0)

/-- The three forms of a numeral are tried one after the other. -/
theorem escapeAt_eq (next : CodePoint) (more : Text) :
    escapeAt next more =
      if bracedBehind next more then
        (numbered (hexNumber (hexRun more.tail))).map fun q => ([q], (hexRun more.tail).length + 2)
      else if digitsBehind 'u' 4 next more then
        (numbered (hexNumber (more.take 4))).map fun q => ([q], 4)
      else if digitsBehind 'x' 2 next more then
        (numbered (hexNumber (more.take 2))).map fun q => ([q], 2)
      else .ok (plainEscape next more) := by
  unfold escapeAt bracedBehind digitsBehind plainEscape
  simp only [Bool.and_assoc, apply_ite Except.ok]

theorem digitsBehind_iff {letter : Char} {count : Nat} {next : CodePoint} {more : Text} :
    digitsBehind letter count next more = true ↔
      next = .scalar letter ∧ (more.take count).length = count ∧
        ∀ p ∈ more.take count, (hexValue? p).isSome := by
  rw [digitsBehind, Bool.and_eq_true, CodePoint.isChar_iff, decide_eq_true_eq, length_hexRun_take_iff]

/-- Digits in braces behind a `u` are a numeral. -/
theorem numeral_of_bracedBehind {next : CodePoint} {more : Text} (h : bracedBehind next more = true) :
    Numeral (next :: more.take ((hexRun more.tail).length + 2)) (hexRun more.tail) := by
  obtain ⟨hu, hdigits⟩ := (Bool.and_eq_true _ _).mp h
  obtain rfl := (CodePoint.isChar_iff next _).1 hu
  obtain ⟨digits, after, rfl, hsome, hhex, hrun⟩ := braced_iff.1 hdigits
  have htake : (CodePoint.scalar '\x7b' :: (digits ++ .scalar '\x7d' :: after)).take (digits.length + 2) =
      .scalar '\x7b' :: (digits ++ [.scalar '\x7d']) := by
    simp [List.take_append, List.take_of_length_le]
  rw [hrun, htake]
  exact .braced hsome hhex

/-- Each form of a numeral passes the test for it. -/
theorem Numeral.behind {written digits after more : Text} {next : CodePoint} (h : Numeral written digits)
    (heq : next :: more = written ++ after) :
    bracedBehind next more = true ∨ digitsBehind 'u' 4 next more = true ∨
      digitsBehind 'x' 2 next more = true := by
  cases h with
  | braced hsome hhex =>
    rw [List.cons_append] at heq
    obtain ⟨rfl, rfl⟩ := List.cons.inj heq
    refine .inl ((Bool.and_eq_true _ _).mpr ⟨rfl, braced_iff.2 ⟨digits, after, by simp, hsome, hhex, ?_⟩⟩)
    simpa using hexRun_append hhex (p := .scalar '\x7d') rfl after
  | four hlength hhex =>
    rw [List.cons_append] at heq
    obtain ⟨rfl, rfl⟩ := List.cons.inj heq
    refine .inr (.inl (digitsBehind_iff.2 ⟨rfl, ?_⟩))
    rw [List.take_left' hlength]
    exact ⟨hlength, hhex⟩
  | two hlength hhex =>
    rw [List.cons_append] at heq
    obtain ⟨rfl, rfl⟩ := List.cons.inj heq
    refine .inr (.inr (digitsBehind_iff.2 ⟨rfl, ?_⟩))
    rw [List.take_left' hlength]
    exact ⟨hlength, hhex⟩

/-- An escape that writes no number takes no backslash with it. -/
theorem not_backslash_of_plainEscape {next p : CodePoint} {more : Text}
    (hp : p ∈ more.take (plainEscape next more).2) : p.isChar '\\' = false := by
  unfold plainEscape at hp
  split at hp
  · -- A return takes the newline behind it.
    rename_i hreturn
    obtain ⟨-, hnewline⟩ := (Bool.and_eq_true _ _).mp hreturn
    cases more with
    | nil => simp at hp
    | cons q more =>
      obtain rfl := (CodePoint.isChar_iff q _).1 hnewline
      obtain rfl := List.mem_singleton.1 hp
      rfl
  · split at hp <;> simp at hp

/-- What stands behind a backslash and writes no number is read as itself or as a character. -/
theorem mem_plainEscape {next p : CodePoint} {more : Text} (hp : p ∈ (plainEscape next more).1) :
    p = next ∨ ∃ c, p = .scalar c := by
  unfold plainEscape at hp
  split at hp
  · exact absurd hp List.not_mem_nil
  · split at hp
    · exact absurd hp List.not_mem_nil
    · rw [List.mem_singleton.1 hp]
      exact letterEscape_eq next

/-- What stands behind a backslash is a numeral or writes no number. -/
theorem escapeAt_cases (next : CodePoint) (more : Text) :
    (∃ digits used, Numeral (next :: more.take used) digits ∧
      escapeAt next more = (numbered (hexNumber digits)).map fun q => ([q], used)) ∨
    ((∀ n, ¬StartsWithNumber (next :: more) n) ∧
      ∃ value used, escapeAt next more = .ok (value, used) ∧
        (∀ p ∈ more.take used, p.isChar '\\' = false) ∧ ∀ p ∈ value, p = next ∨ ∃ c, p = .scalar c) := by
  by_cases hbraced : bracedBehind next more = true
  · exact .inl ⟨_, _, numeral_of_bracedBehind hbraced, by rw [escapeAt_eq, if_pos hbraced]⟩
  by_cases hfour : digitsBehind 'u' 4 next more = true
  · obtain ⟨rfl, hlength, hhex⟩ := digitsBehind_iff.1 hfour
    exact .inl ⟨more.take 4, 4, .four hlength hhex, by rw [escapeAt_eq, if_neg hbraced, if_pos hfour]⟩
  by_cases htwo : digitsBehind 'x' 2 next more = true
  · obtain ⟨rfl, hlength, hhex⟩ := digitsBehind_iff.1 htwo
    exact .inl ⟨more.take 2, 2, .two hlength hhex,
      by rw [escapeAt_eq, if_neg hbraced, if_neg hfour, if_pos htwo]⟩
  refine .inr ⟨?_, (plainEscape next more).1, (plainEscape next more).2, ?_,
    fun p => not_backslash_of_plainEscape, fun p => mem_plainEscape⟩
  · -- A numeral would have passed one of the three tests.
    rintro n ⟨written, digits, after, heq, hnumeral, -⟩
    obtain h | h | h := hnumeral.behind heq
    · exact hbraced h
    · exact hfour h
    · exact htwo h
  · rw [escapeAt_eq, if_neg hbraced, if_neg hfour, if_neg htwo]

/-! ## Values -/

theorem cook_cons {p : CodePoint} (hp : p.isChar '\\' = false) (rest : Text) :
    cook (p :: rest) = (cook rest).map (p :: ·) := by
  simp [cook, cookFrom, hp]

/-- An escape is taken as a whole. -/
theorem cook_escape (next : CodePoint) (more : Text) :
    cook (.scalar '\\' :: next :: more) = (escapeAt next more >>= fun (value, used) =>
      (cook (more.drop used)).map (value ++ ·)) := by
  have hslash : (CodePoint.scalar '\\').isChar '\\' = true := rfl
  rw [cook, cookFrom, if_pos hslash]
  dsimp only
  cases escapeAt next more with
  | error fault => rfl
  | ok escape =>
    obtain ⟨value, used⟩ := escape
    dsimp only
    rw [cookFrom_eq_drop, List.drop_succ_cons]
    rfl

/-- Texts are made of code points other than backslashes, a backslash at the end, and escapes. -/
theorem escape_induction {motive : Text → Prop} (nil : motive []) (lone : motive [.scalar '\\'])
    (plain : ∀ p rest, p.isChar '\\' = false → motive rest → motive (p :: rest))
    (escape : ∀ next more, (∀ used, motive (more.drop used)) → motive (.scalar '\\' :: next :: more))
    (t : Text) : motive t := by
  -- An escape takes any number of code points with it, hence the length and not the list.
  induction hlength : t.length using Nat.strongRecOn generalizing t with
  | ind n ih =>
    cases t with
    | nil => exact nil
    | cons p rest =>
      rw [List.length_cons] at hlength
      cases hp : p.isChar '\\' with
      | false => exact plain p rest hp (ih rest.length (by omega) rest rfl)
      | true =>
        obtain rfl := (CodePoint.isChar_iff p _).1 hp
        cases rest with
        | nil => exact lone
        | cons next more =>
          refine escape next more fun used => ih _ ?_ (more.drop used) rfl
          rw [List.length_cons] at hlength
          rw [List.length_drop]
          omega

/-- A number has a code point when it is below `0x110000`. -/
theorem numbered_isOk_iff (n : Nat) : (∃ p, numbered n = .ok p) ↔ n < 0x110000 := by
  unfold numbered CodePoint.ofNat?
  by_cases hsurrogate : 0xD800 ≤ n ∧ n < 0xE000
  · simp [hsurrogate]
    omega
  · by_cases hscalar : n < 0x110000
    · simp [hsurrogate, hscalar]
    · simp [hsurrogate, hscalar]

/-- The code point of a number is a surrogate for the numbers of surrogates. -/
theorem numbered_scalar_iff {n : Nat} {p : CodePoint} (h : numbered n = .ok p) :
    (∃ c, p = .scalar c) ↔ ¬(0xD800 ≤ n ∧ n < 0xE000) := by
  unfold numbered CodePoint.ofNat? at h
  -- A surrogate has its own constructor; every other number below the bound is a character.
  by_cases hsurrogate : 0xD800 ≤ n ∧ n < 0xE000
  · simp only [hsurrogate, and_self, ↓reduceDIte, Except.ok.injEq] at h
    simp [← h, hsurrogate]
  · by_cases hscalar : n < 0x110000
    · simp only [hsurrogate, hscalar, ↓reduceDIte, ↓reduceIte, Except.ok.injEq] at h
      simp [← h, hsurrogate]
    · simp [hsurrogate, hscalar] at h

/-- An escape by number writes this number. -/
theorem writes_numeral_iff {next : CodePoint} {more digits : Text} {used n : Nat}
    (h : Numeral (next :: more.take used) digits) :
    Writes (.scalar '\\' :: next :: more) n ↔ n = hexNumber digits ∨ Writes (more.drop used) n := by
  -- Behind the backslash stands the numeral and then what it leaves.
  have hmore : next :: more = next :: more.take used ++ more.drop used := by
    rw [List.cons_append, List.take_append_drop]
  have hstart : StartsWithNumber (next :: more) n ↔ n = hexNumber digits := by
    constructor
    · rintro ⟨written, digits', after, heq, hnumeral, rfl⟩
      rw [h.unique hnumeral (hmore.symm.trans heq)]
    · rintro rfl
      exact ⟨_, digits, more.drop used, hmore, h, rfl⟩
  rw [writes_escape_iff, hstart,
    writes_drop_iff fun p hp => h.not_backslash (List.mem_cons_of_mem next hp)]

/-- An escape has the code point of the number that it writes, or writes none and has a value of
    its own. -/
theorem cook_escape_cases (next : CodePoint) (more : Text) :
    (∃ digits used,
      cook (.scalar '\\' :: next :: more) =
        (numbered (hexNumber digits) >>= fun q => (cook (more.drop used)).map (q :: ·)) ∧
      ∀ n, Writes (.scalar '\\' :: next :: more) n ↔ n = hexNumber digits ∨ Writes (more.drop used) n) ∨
    ∃ value used,
      cook (.scalar '\\' :: next :: more) = (cook (more.drop used)).map (value ++ ·) ∧
      (∀ n, Writes (.scalar '\\' :: next :: more) n ↔ Writes (more.drop used) n) ∧
      ∀ p ∈ value, p = next ∨ ∃ c, p = .scalar c := by
  rw [cook_escape]
  obtain ⟨digits, used, hnumeral, hescape⟩ | ⟨hnone, value, used, hescape, hslash, hvalue⟩ :=
    escapeAt_cases next more
  · refine .inl ⟨digits, used, ?_, fun n => writes_numeral_iff hnumeral⟩
    rw [hescape]
    cases numbered (hexNumber digits) <;> rfl
  · refine .inr ⟨value, used, ?_, fun n => ?_, hvalue⟩
    · rw [hescape]
      rfl
    · rw [writes_escape_iff, writes_drop_iff hslash]
      simp only [hnone n, false_or]

/-- **Values.**  A literal has a value exactly when every number that it writes by an escape is
    the number of a code point. -/
theorem cook_isOk_iff (raw : Text) : (∃ v, cook raw = .ok v) ↔ ∀ n, Writes raw n → n < 0x110000 := by
  induction raw using escape_induction with
  | nil =>
    constructor
    · exact fun _ n hn => absurd hn (not_writes_nil n)
    · exact fun _ => ⟨[], rfl⟩
  | lone =>
    constructor
    · exact fun _ n hn => absurd hn (not_writes_lone n)
    · exact fun _ => ⟨_, rfl⟩
  | plain p rest hp ih =>
    rw [cook_cons hp, map_isOk_iff, ih]
    simp only [writes_cons_iff hp]
  | escape next more ih =>
    -- The escape adds one number to those of the rest, or none.
    obtain ⟨digits, used, hcook, hwrites⟩ | ⟨value, used, hcook, hwrites, -⟩ := cook_escape_cases next more
    · simp only [hwrites, forall_eq_or_imp]
      rw [← ih used, ← numbered_isOk_iff, hcook]
      cases numbered (hexNumber digits) with
      | error fault => simp [bind, Except.bind]
      | ok q =>
        simp only [Except.ok.injEq, exists_eq', true_and]
        exact map_isOk_iff
    · simp only [hwrites]
      rw [← ih used, hcook, map_isOk_iff]

/-- **Surrogates.**  The value of a literal without surrogates holds one exactly when the literal
    writes the number of one. -/
theorem cook_plain_iff {raw : Text} (hraw : raw.Plain) {v : Text} (h : cook raw = .ok v) :
    v.Plain ↔ ∀ n, Writes raw n → ¬(0xD800 ≤ n ∧ n < 0xE000) := by
  induction raw using escape_induction generalizing v with
  | nil =>
    obtain rfl : [] = v := Except.ok.inj h
    simp only [Text.plain_nil, true_iff]
    exact fun n hn => absurd hn (not_writes_nil n)
  | lone =>
    obtain rfl : [CodePoint.scalar '\\'] = v := Except.ok.inj h
    simp only [hraw, true_iff]
    exact fun n hn => absurd hn (not_writes_lone n)
  | plain p rest hp ih =>
    rw [cook_cons hp] at h
    rw [Text.plain_cons] at hraw
    obtain ⟨value, hvalue, rfl⟩ := map_eq_ok h
    simp only [Text.plain_cons, hraw.1, true_and, writes_cons_iff hp]
    exact ih hraw.2 hvalue
  | escape next more ih =>
    simp only [Text.plain_cons] at hraw
    -- A letter that stands for itself is no surrogate, since the literal holds none.
    obtain ⟨-, hnext, hmore⟩ := hraw
    obtain ⟨digits, used, hcook, hwrites⟩ | ⟨value, used, hcook, hwrites, hscalar⟩ :=
      cook_escape_cases next more
    · rw [hcook] at h
      cases hnumbered : numbered (hexNumber digits) with
      | error fault =>
        rw [hnumbered] at h
        exact nomatch h
      | ok q =>
        rw [hnumbered] at h
        obtain ⟨after, hafter, rfl⟩ := map_eq_ok h
        simp only [Text.plain_cons, hwrites, forall_eq_or_imp]
        rw [numbered_scalar_iff hnumbered, ih used (hmore.drop used) hafter]
    · rw [hcook] at h
      obtain ⟨after, hafter, rfl⟩ := map_eq_ok h
      have hvalue : value.Plain := by
        intro p hp
        obtain rfl | hc := hscalar p hp
        · exact hnext
        · exact hc
      simp only [Text.plain_append, hvalue, true_and, hwrites]
      exact ih used (hmore.drop used) hafter

end JavaScript

end LodashStyle
