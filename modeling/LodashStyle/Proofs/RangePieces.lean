import LodashStyle.Npm.Range
import LodashStyle.Proofs.Outcomes
import Mathlib.Data.List.Basic
import Mathlib.Data.List.TakeWhile

/-!
# The pieces of a range

A range is cut into pieces before any of them is read.  Texts that stand one after the other with
separators between them are cut into the pieces of each; so a list of comparators, however it is
spaced, comes apart into the comparators, and a span into its two ends.

## Key results

- `word_induction`: induction over the words and separators of a text
- `pieces_append_gap`: a gap between two texts takes their pieces apart
- `Separated.comparatorTexts_eq`: pieces with separators between them are the comparators of the range
- `comparatorTexts_span`: a span stands for two bounds
- `readAll_eq_ok`, `readAll_eq_error`: what is read from the comparators
-/

namespace LodashStyle.Npm

/-! ## Pieces -/

section Pieces

variable {isSeparator : CodePoint → Bool}

/-- A separator in front starts no piece. -/
theorem pieces_cons_of_separator {p : CodePoint} (h : isSeparator p = true) (t : Text) :
    pieces isSeparator (p :: t) = pieces isSeparator t := by
  cases t <;> simp [pieces, h]

/-- A text that does not start with a separator starts with a piece. -/
theorem pieces_cons {p : CodePoint} (h : isSeparator p = false) (t : Text) :
    pieces isSeparator (p :: t) =
      (p :: t.takeWhile (!isSeparator ·)) :: pieces isSeparator (t.dropWhile (!isSeparator ·)) := by
  induction t generalizing p with
  | nil => simp [pieces, h]
  | cons q t ih =>
    rw [pieces, if_neg (by simp [h])]
    by_cases hq : isSeparator q = true
    · simp [hq]
    · rw [Bool.not_eq_true] at hq
      rw [if_neg (by simp [hq]), ih hq]
      simp [hq]

/-- A text without separators that is not empty. -/
structure IsWord (isSeparator : CodePoint → Bool) (x : Text) : Prop where
  ne_nil : x ≠ []
  not_separator : ∀ p ∈ x, isSeparator p = false

/-- A word before a separator is one piece. -/
theorem IsWord.pieces_append {x rest : Text} (hx : IsWord isSeparator x)
    (hrest : ∀ p ∈ rest.head?, isSeparator p = true) :
    pieces isSeparator (x ++ rest) = x :: pieces isSeparator rest := by
  obtain ⟨p, x, rfl⟩ := List.exists_cons_of_ne_nil hx.ne_nil
  have hp := hx.not_separator p List.mem_cons_self
  have hmore : ∀ q ∈ x, (!isSeparator q) = true := by
    intro q hq
    simp [hx.not_separator q (List.mem_cons_of_mem _ hq)]
  rw [List.cons_append, pieces_cons hp, List.takeWhile_append_of_pos hmore,
    List.dropWhile_append_of_pos hmore]
  cases rest with
  | nil => simp
  | cons q rest =>
    have hq := hrest q rfl
    simp [hq]

/-- A word alone is the only piece. -/
theorem IsWord.pieces_eq {x : Text} (hx : IsWord isSeparator x) : pieces isSeparator x = [x] := by
  have happend := hx.pieces_append fun p (hp : p ∈ ([] : Text).head?) => nomatch hp
  rwa [List.append_nil] at happend

/-- Nor do any number of separators. -/
theorem pieces_gap_append {gap : Text} (hgap : ∀ p ∈ gap, isSeparator p = true) (t : Text) :
    pieces isSeparator (gap ++ t) = pieces isSeparator t := by
  induction gap with
  | nil => rfl
  | cons p gap ih =>
    rw [List.cons_append, pieces_cons_of_separator (hgap p List.mem_cons_self)]
    exact ih fun q hq => hgap q (List.mem_cons_of_mem _ hq)

/-- A text is empty, or starts with a separator, or with a word up to a separator or the end. -/
@[elab_as_elim]
theorem word_induction (isSeparator : CodePoint → Bool) {motive : Text → Prop} (nil : motive [])
    (separator : ∀ p rest, isSeparator p = true → motive rest → motive (p :: rest))
    (word : ∀ x rest, IsWord isSeparator x → (∀ p ∈ rest.head?, isSeparator p = true) → motive rest →
      motive (x ++ rest))
    (t : Text) : motive t := by
  induction hn : t.length using Nat.strong_induction_on generalizing t with
  | _ n ih =>
    subst hn
    cases t with
    | nil => exact nil
    | cons p t =>
      by_cases hp : isSeparator p = true
      · exact separator p t hp (ih t.length (by simp) t rfl)
      · -- A word goes on to the next separator, and something is left out with it.
        have hword : IsWord isSeparator (p :: t.takeWhile (!isSeparator ·)) := by
          refine ⟨by simp, fun q hq => ?_⟩
          rcases List.mem_cons.1 hq with rfl | hq
          · simpa using hp
          · simpa using List.mem_takeWhile_imp hq
        have hrest : ∀ q ∈ (t.dropWhile (!isSeparator ·)).head?, isSeparator q = true := by
          intro q hq
          have hhead := List.head?_dropWhile_not (!isSeparator ·) t
          rw [hq] at hhead
          simpa using hhead
        have hlength : (t.dropWhile (!isSeparator ·)).length < (p :: t).length :=
          Nat.lt_succ_of_le (List.length_dropWhile_le _ t)
        have happend := word _ _ hword hrest (ih _ hlength _ rfl)
        rwa [List.cons_append, List.takeWhile_append_dropWhile] at happend

/-- A gap between two texts takes their pieces apart. -/
theorem pieces_append_gap {gap : Text} (hne : gap ≠ []) (hgap : ∀ p ∈ gap, isSeparator p = true)
    (t u : Text) :
    pieces isSeparator (t ++ (gap ++ u)) = pieces isSeparator t ++ pieces isSeparator u := by
  induction t using word_induction isSeparator with
  | nil =>
    rw [List.nil_append, pieces_gap_append hgap]
    rfl
  | separator p rest hp ih =>
    rw [List.cons_append, pieces_cons_of_separator hp, pieces_cons_of_separator hp]
    exact ih
  | word x rest hx hrest ih =>
    have hnext : ∀ p ∈ (rest ++ (gap ++ u)).head?, isSeparator p = true := by
      intro p hp
      cases rest with
      | nil =>
        obtain ⟨q, gap, rfl⟩ := List.exists_cons_of_ne_nil hne
        obtain rfl : q = p := by simpa using hp
        exact hgap q List.mem_cons_self
      | cons q rest => exact hrest p hp
    rw [List.append_assoc, hx.pieces_append hnext, hx.pieces_append hrest, ih]
    rfl

/-- A piece is a word between separators or ends of the text. -/
theorem exists_of_mem_pieces {t x : Text} (h : x ∈ pieces isSeparator t) :
    IsWord isSeparator x ∧ ∃ before after, t = before ++ (x ++ after) ∧
      (∀ p ∈ before.getLast?, isSeparator p = true) ∧ ∀ p ∈ after.head?, isSeparator p = true := by
  induction t using word_induction isSeparator with
  | nil => simp [pieces] at h
  | separator p rest hp ih =>
    rw [pieces_cons_of_separator hp] at h
    obtain ⟨hx, before, after, rfl, hbefore, hafter⟩ := ih h
    refine ⟨hx, p :: before, after, rfl, ?_, hafter⟩
    intro q hq
    cases before with
    | nil =>
      obtain rfl : p = q := by simpa using hq
      exact hp
    | cons r before => exact hbefore q (by simpa [List.getLast?_cons_cons] using hq)
  | word y rest hy hrest ih =>
    rw [hy.pieces_append hrest] at h
    rcases List.mem_cons.1 h with rfl | h
    · exact ⟨hy, [], rest, rfl, by simp, hrest⟩
    · obtain ⟨hx, before, after, rfl, hbefore, hafter⟩ := ih h
      refine ⟨hx, y ++ before, after, by rw [List.append_assoc], ?_, hafter⟩
      cases before with
      | nil =>
        -- What follows the first word starts with a separator, and the piece does not.
        obtain ⟨q, x, rfl⟩ := List.exists_cons_of_ne_nil hx.ne_nil
        have hq := hx.not_separator q List.mem_cons_self
        rw [hrest q rfl] at hq
        exact nomatch hq
      | cons r before => simpa [List.getLast?_append, List.getLast?_cons] using hbefore

/-- A piece that holds none of some further separators is a piece with these too. -/
theorem mem_pieces_of_mem_pieces {isOther : CodePoint → Bool}
    (hle : ∀ p, isSeparator p = true → isOther p = true) {t x : Text} (h : x ∈ pieces isSeparator t)
    (hx : ∀ p ∈ x, isOther p = false) : x ∈ pieces isOther t := by
  obtain ⟨hword, before, after, rfl, hbefore, hafter⟩ := exists_of_mem_pieces h
  have hother : IsWord isOther x := ⟨hword.ne_nil, hx⟩
  have hmem : x ∈ pieces isOther (x ++ after) := by
    rw [hother.pieces_append fun p hp => hle p (hafter p hp)]
    exact List.mem_cons_self
  rcases List.eq_nil_or_concat before with rfl | ⟨before, p, rfl⟩
  · exact hmem
  · have hp : isOther p = true := hle p (hbefore p (by simp))
    rw [List.concat_eq_append, List.append_assoc, pieces_append_gap (by simp) (by simpa using hp)]
    exact List.mem_append_right _ hmem

end Pieces

/-! ## Alternatives -/

/-- What separates comparators. -/
def separates (p : CodePoint) : Bool := p.isSpace || p.isChar ','

/-- A text that is one alternative, without blanks at its ends. -/
structure IsAlternative (t : Text) : Prop where
  ne_nil : t ≠ []
  head : ∀ p ∈ t.head?, p.isSpace = false
  last : ∀ p ∈ t.getLast?, p.isSpace = false
  no_bar : ∀ p ∈ t, p.isChar '|' = false

/-- There is no blank at either end to be taken away. -/
theorem IsAlternative.trim_eq {t : Text} (h : IsAlternative t) : t.trim = t := by
  have hdrop : ∀ {u : Text}, (∀ p ∈ u.head?, p.isSpace = false) → u.dropWhile CodePoint.isSpace = u := by
    intro u hu
    cases u with
    | nil => rfl
    | cons p u => rw [List.dropWhile_cons_of_neg (by simp [hu p rfl])]
  rw [Text.trim, hdrop h.head, hdrop (by simpa using h.last), List.reverse_reverse]

/-- Without a bar the range has one alternative. -/
theorem firstAlternative_eq {t : Text} (h : ∀ p ∈ t, p.isChar '|' = false) : firstAlternative t = t := by
  induction t with
  | nil => rfl
  | cons p t ih =>
    have hp := h p List.mem_cons_self
    have hrest := ih fun q hq => h q (List.mem_cons_of_mem _ hq)
    cases t with
    | nil => rfl
    | cons q t => rw [firstAlternative, hp, hrest]; rfl

/-- Texts one after the other, with separators between them. -/
inductive Separated : List Text → Text → Prop where
  | one (t : Text) : Separated [t] t
  | cons {t gap u : Text} {ts : List Text} (hne : gap ≠ []) (hgap : ∀ p ∈ gap, separates p = true)
    (hrest : Separated ts u) : Separated (t :: ts) (t ++ (gap ++ u))

/-- The pieces of texts with gaps between them are those of each text. -/
theorem Separated.pieces_eq {ts : List Text} {t : Text} (h : Separated ts t) :
    pieces separates t = ts.flatMap (pieces separates) := by
  induction h with
  | one t => simp
  | cons hne hgap _ ih => rw [pieces_append_gap hne hgap, ih, List.flatMap_cons]

theorem isChar_bar_of_separates {p : CodePoint} (h : separates p = true) : p.isChar '|' = false := by
  rw [Bool.eq_false_iff, ne_eq, CodePoint.isChar_iff]
  rintro rfl
  exact absurd h (by decide)

/-- Alternatives with gaps between them make up one. -/
theorem Separated.isAlternative {ts : List Text} {t : Text} (h : Separated ts t)
    (hts : ∀ x ∈ ts, IsAlternative x) : IsAlternative t := by
  induction h with
  | one t => exact hts t List.mem_cons_self
  | @cons t gap u ts hne hgap _ ih =>
    have ht := hts t List.mem_cons_self
    have hu := ih fun x hx => hts x (List.mem_cons_of_mem _ hx)
    refine ⟨by simp [ht.ne_nil], ?_, ?_, ?_⟩
    · rw [List.head?_append_of_ne_nil _ ht.ne_nil]
      exact ht.head
    · rw [← List.append_assoc, List.getLast?_append_of_ne_nil _ hu.ne_nil]
      exact hu.last
    · intro p hp
      rcases List.mem_append.1 hp with hp | hp
      · exact ht.no_bar p hp
      · rcases List.mem_append.1 hp with hp | hp
        · exact isChar_bar_of_separates (hgap p hp)
        · exact hu.no_bar p hp

/-- A text that is one piece of a list of comparators: a word without bars that is no hyphen. -/
structure IsPiece (x : Text) : Prop where
  isWord : IsWord separates x
  no_bar : ∀ p ∈ x, p.isChar '|' = false
  ne_hyphen : x ≠ [.scalar '-']

theorem IsPiece.not_isSpace {x : Text} (hx : IsPiece x) : ∀ p ∈ x, p.isSpace = false := by
  intro p hp
  have hnot := hx.isWord.not_separator p hp
  rw [separates, Bool.or_eq_false_iff] at hnot
  exact hnot.1

/-- A piece alone is an alternative. -/
theorem IsPiece.isAlternative {x : Text} (hx : IsPiece x) : IsAlternative x :=
  ⟨hx.isWord.ne_nil, fun p hp => hx.not_isSpace p (List.mem_of_mem_head? hp),
    fun p hp => hx.not_isSpace p (List.mem_of_mem_getLast? hp), hx.no_bar⟩

/-- Comparators none of which is a hyphen are read piece by piece. -/
theorem comparatorTexts_eq_pieces {t : Text} (h : [.scalar '-'] ∉ pieces separates t) :
    comparatorTexts t = pieces separates t := by
  have hle : ∀ p, CodePoint.isSpace p = true → separates p = true := by
    intro p hp
    simp [separates, hp]
  unfold comparatorTexts
  split
  · rename_i low hyphen high hpieces
    rw [if_neg]
    · rfl
    · rw [CodePoint.isChar_iff]
      rintro rfl
      have hmem : [.scalar '-'] ∈ pieces CodePoint.isSpace t := by simp [hpieces]
      exact h (mem_pieces_of_mem_pieces hle hmem (by decide))
  · rfl

/-- Pieces with separators between them are the comparators of the range. -/
theorem Separated.comparatorTexts_eq {ts : List Text} {t : Text} (h : Separated ts t)
    (hts : ∀ x ∈ ts, IsPiece x) : comparatorTexts t = ts := by
  have hpieces : pieces separates t = ts := by
    rw [h.pieces_eq]
    clear h
    induction ts with
    | nil => rfl
    | cons x ts ih =>
      rw [List.flatMap_cons, (hts x List.mem_cons_self).isWord.pieces_eq,
        ih fun y hy => hts y (List.mem_cons_of_mem _ hy)]
      rfl
  have hhyphen : [.scalar '-'] ∉ ts := fun hmem => (hts _ hmem).ne_hyphen rfl
  rw [comparatorTexts_eq_pieces (by rwa [hpieces]), hpieces]

/-- A span stands for two bounds. -/
theorem comparatorTexts_span {low gap gap' high : Text} (hlow : IsWord CodePoint.isSpace low)
    (hhigh : IsWord CodePoint.isSpace high) (hne : gap ≠ []) (hgap : ∀ p ∈ gap, p.isSpace = true)
    (hne' : gap' ≠ []) (hgap' : ∀ p ∈ gap', p.isSpace = true) :
    comparatorTexts (low ++ (gap ++ (.scalar '-' :: (gap' ++ high)))) = [">=" ++ low, "<=" ++ high] := by
  have hhyphen : IsWord CodePoint.isSpace [.scalar '-'] := ⟨by simp, by decide⟩
  have hpieces : pieces CodePoint.isSpace (low ++ (gap ++ ([.scalar '-'] ++ (gap' ++ high)))) =
      [low, [.scalar '-'], high] := by
    rw [pieces_append_gap hne hgap, pieces_append_gap hne' hgap', hlow.pieces_eq, hhyphen.pieces_eq,
      hhigh.pieces_eq]
    rfl
  unfold comparatorTexts
  rw [← List.singleton_append, hpieces]
  rfl

/-! ## What is read -/

/-- The comparators that are read from texts, in their order; a text that is none is left out. -/
def readAll (range : Text) (texts : List Text) : Except RangeFailure (List Comparator) := do
  let read ← texts.mapM Comparator.parse
  match read.filterMap id with
  | [] => .error (.refused (.unreadable range))
  | found => .ok found

/-- An alternative is read piece by piece. -/
theorem comparators_eq {range : Text} (h : IsAlternative range) :
    comparators range = readAll range (comparatorTexts range) := by
  have hsome : range.isEmpty = false := by simpa using h.ne_nil
  rw [comparators, h.trim_eq]
  simp only [hsome, Bool.false_eq_true, if_false, firstAlternative_eq h.no_bar, h.trim_eq]
  rfl

/-- Texts that are all comparators are all read. -/
theorem readAll_eq_ok {α : Type} {text : α → Text} {comparator : α → Comparator} {xs : List α}
    (hne : xs ≠ []) (h : ∀ x ∈ xs, Comparator.parse (text x) = .ok (some (comparator x))) (range : Text) :
    readAll range (xs.map text) = .ok (xs.map comparator) := by
  have hread : (xs.map text).mapM Comparator.parse = .ok (xs.map (some ∘ comparator)) := by
    clear hne
    induction xs with
    | nil => rfl
    | cons x xs ih =>
      rw [List.map_cons, List.mapM_cons, h x List.mem_cons_self,
        ih fun y hy => h y (List.mem_cons_of_mem _ hy)]
      rfl
  obtain ⟨x, xs, rfl⟩ := List.exists_cons_of_ne_nil hne
  rw [readAll, hread]
  simp [bind, Except.bind, List.filterMap_map]

/-- A comparator fails only over a number that is too long. -/
theorem Comparator.exists_of_parse_eq_error {piece : Text} {e : RangeFailure} (h : parse piece = .error e) :
    ∃ n, e = .numeralTooLong n := by
  unfold parse at h
  dsimp only at h
  split at h
  · exact nomatch h
  · split at h
    · exact nomatch h
    · exact ⟨_, (Except.error.inj h).symm⟩
    · exact nomatch h

/-- A number that is too long fails the whole range. -/
theorem readAll_eq_error {texts : List Text} (h : ∃ x ∈ texts, ∃ e, Comparator.parse x = .error e)
    (range : Text) : ∃ n, readAll range texts = .error (.numeralTooLong n) := by
  obtain ⟨x, hx, e, he⟩ := h
  rw [readAll]
  cases hread : texts.mapM Comparator.parse with
  | error e' =>
    obtain ⟨y, _, hy⟩ := exists_of_mapM_eq_error hread
    obtain ⟨n, rfl⟩ := Comparator.exists_of_parse_eq_error hy
    exact ⟨n, rfl⟩
  | ok found =>
    obtain ⟨c, hc⟩ := mapM_isOk_iff.1 ⟨found, hread⟩ x hx
    rw [he] at hc
    exact nomatch hc

end LodashStyle.Npm
