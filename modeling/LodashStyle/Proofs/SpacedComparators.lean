import LodashStyle.Proofs.ComparatorTexts
import Mathlib.Data.Option.NAry

/-!
# Blanks behind a sign

A range is cut at its blanks before any comparator is read, so a sign with blanks behind it becomes a
piece of its own.  That piece is no comparator and is left out, and the operand behind the blanks is
read without the sign.

So blanks behind a sign change nothing where the sign says nothing more than its operand does: it is
`=`, or the operand holds a wildcard or is no release at all.  Everywhere else the relation is lost.

## Key results

- `SpacedComparator.kindsRead_pieces`: a spaced comparator is read as its operand
- `kindsRead_map_unsigned`: relations are kept when each of them is
- `pinnedMajor_map`: the major depends on relations and releases only
- `spaced_signs_kept_iff`: when blanks behind signs change nothing
-/

namespace LodashStyle.Npm

/-! ## Relations and releases -/

/-- What a comparator says, apart from its text. -/
def Comparator.kind (c : Comparator) : Relation × Release := (c.relation, c.release)

/-- What the comparators of a range say, if they can be read. -/
def kindsOf (range : Text) : Option (List (Relation × Release)) :=
  (comparators range).toOption.map (·.map Comparator.kind)

/-- What a text says as a comparator; nothing where it is none. -/
def kinds? (x : Text) : Option (List (Relation × Release)) :=
  (Comparator.parse x).toOption.map fun c => (c.map Comparator.kind).toList

/-- What texts say as comparators, one after the other. -/
def kindsRead : List Text → Option (List (Relation × Release))
  | [] => some []
  | x :: texts => Option.map₂ (· ++ ·) (kinds? x) (kindsRead texts)

/-- Comparators are read from joined lists of texts as from the lists. -/
theorem kindsRead_append (xs ys : List Text) :
    kindsRead (xs ++ ys) = Option.map₂ (· ++ ·) (kindsRead xs) (kindsRead ys) := by
  induction xs with
  | nil => cases h : kindsRead ys <;> simp [kindsRead, h]
  | cons x xs ih =>
    rw [List.cons_append, kindsRead, ih, kindsRead]
    exact (Option.map₂_assoc List.append_assoc).symm

theorem kindsRead_eq (texts : List Text) :
    kindsRead texts =
      (texts.mapM Comparator.parse).toOption.map fun read => (read.filterMap id).map Comparator.kind := by
  induction texts with
  | nil => rfl
  | cons x texts ih =>
    rw [kindsRead, ih, kinds?, List.mapM_cons]
    cases Comparator.parse x with
    | error e => rfl
    | ok c =>
      cases texts.mapM Comparator.parse with
      | error e => rfl
      | ok read => cases c <;> rfl

/-- The comparators of an alternative are read off its pieces. -/
theorem kindsOf_eq {range : Text} (h : IsAlternative range) :
    kindsOf range = (kindsRead (comparatorTexts range)).filter (!·.isEmpty) := by
  rw [kindsOf, comparators_eq h, readAll, kindsRead_eq]
  cases (comparatorTexts range).mapM Comparator.parse with
  | error e => rfl
  | ok read =>
    simp only [bind, Except.bind, Except.toOption, Option.map_some]
    cases read.filterMap id with
    | nil => rfl
    | cons c found => rfl

/-! ## The major of relations and releases -/

/-- The major depends on relations and releases only. -/
theorem pinnedMajor_map {f : Comparator → Comparator} (hf : ∀ c, (f c).kind = c.kind)
    (found : List Comparator) : pinnedMajor (found.map f) = pinnedMajor found := by
  have hrelation : ∀ c, (f c).relation = c.relation := fun c => congrArg Prod.fst (hf c)
  have hrelease : ∀ c, (f c).release = c.release := fun c => congrArg Prod.snd (hf c)
  -- Which bound is the least is told by the releases alone.
  have hleast : ∀ (first : Comparator) (others : List Comparator),
      least (f first) (others.map f) = f (least first others) := by
    intro first others
    induction others generalizing first with
    | nil => rfl
    | cons c others ih =>
      rw [List.map_cons, least, List.foldl_cons, hrelease, hrelease, ← apply_ite f]
      exact ih _
  have hfilter : (found.map f).filter (!·.relation.isUpper) =
      (found.filter (!·.relation.isUpper)).map f := by
    rw [List.filter_map]
    simp only [Function.comp_def, hrelation]
  unfold pinnedMajor
  rw [hfilter]
  cases found.filter (!·.relation.isUpper) with
  | cons lower others =>
    simp only [List.map_cons, List.map_map, Function.comp_def, hrelease]
  | nil =>
    cases found with
    | nil => rfl
    | cons upper others =>
      simp only [List.map_nil, List.map_cons, hleast, majorBelow, hrelation, hrelease]

/-- Ranges that say the same have the same major. -/
theorem majorOf_eq_ok_iff_of_kindsOf {t t' : Text} (h : kindsOf t = kindsOf t') (m : Nat) :
    majorOf t = .ok m ↔ majorOf t' = .ok m := by
  let plain (k : Relation × Release) : Comparator := ⟨k.1, k.2, []⟩
  have hmajor : ∀ range, majorOf range = .ok m ↔
      ∃ ks, kindsOf range = some ks ∧ pinnedMajor (ks.map plain) = m := by
    intro range
    rw [majorOf, kindsOf]
    cases comparators range with
    | error e => simp [Except.map, Except.toOption]
    | ok found =>
      have hfound := pinnedMajor_map (f := fun c => plain c.kind) (fun _ => rfl) found
      simp [Except.map, Except.toOption, Function.comp_def, hfound]
  rw [hmajor, hmajor, h]

/-! ## Operands -/

/-- What a sign may stand in front of: a piece that starts with no sign. -/
structure IsOperand (x : Text) : Prop extends IsPiece x where
  no_sign : ∀ p ∈ x.head?, isSignMark p = false

/-- The operand is read as a release without wildcards. -/
def ReadsRelease (x : Text) : Prop := ∃ r source, Comparator.parse x = .ok (some ⟨.exact, r, source⟩)

/-- What is read from an operand alone has no relation of its own but the one of a wildcard. -/
theorem IsOperand.parse_cases {x : Text} (h : IsOperand x) :
    (∃ e, Comparator.parse x = .error e) ∨ Comparator.parse x = .ok none ∨ ReadsRelease x ∨
      ∃ r source, Comparator.parse x = .ok (some ⟨.wildcard, r, source⟩) := by
  have hbare := Comparator.parse_sign_append .bare h.no_sign
  change Comparator.parse x = _ at hbare
  cases hparse : Comparator.parse x with
  | error e => exact .inl ⟨e, rfl⟩
  | ok found =>
    cases found with
    | none => exact .inr (.inl rfl)
    | some c =>
      -- Without a sign the relation is that of a wildcard or of an exact release.
      rw [hparse] at hbare
      have hrelation : c.relation = if c.relation = .wildcard then .wildcard else .exact :=
        congrArg Comparator.relation (Option.some.inj (Except.ok.inj hbare))
      obtain ⟨relation, r, source⟩ := c
      refine .inr (.inr ?_)
      by_cases hany : relation = .wildcard
      · subst hany
        exact .inr ⟨r, source, rfl⟩
      · obtain rfl : relation = .exact := by simpa [hany] using hrelation
        exact .inl ⟨r, source, hparse⟩

/-! ## Spaced comparators -/

/-- A comparator with a sign, blanks behind the sign and an operand. -/
structure SpacedComparator where
  sign : Sign
  gap : Text
  operand : Text
  signed : sign ≠ .bare
  blank : ∀ p ∈ gap, p.isSpace = true
  isOperand : IsOperand operand

namespace SpacedComparator

variable (c : SpacedComparator)

/-- The comparator as it is written. -/
def text : Text := c.sign.text ++ (c.gap ++ c.operand)

/-- The comparator without the blanks. -/
def closed : Text := c.sign.text ++ c.operand

/-- The comparator without a sign that blanks stand behind. -/
def unsigned : Text := if c.gap = [] then c.closed else c.operand

/-- The blanks take nothing away: there are none, or the sign says no more than its operand. -/
def Kept : Prop := c.gap = [] ∨ c.sign = .equal ∨ ¬ReadsRelease c.operand

/-- The sign alone is a piece. -/
theorem isPiece_sign : IsPiece c.sign.text := by
  have hall : ∀ s : Sign, s ≠ .bare → s.text ≠ [] ∧ (∀ p ∈ s.text, separates p = false) ∧
      (∀ p ∈ s.text, p.isChar '|' = false) ∧ s.text ≠ [.scalar '-'] := by
    intro s
    cases s <;> decide
  obtain ⟨hne, hword, hbar, hhyphen⟩ := hall _ c.signed
  exact ⟨⟨hne, hword⟩, hbar, hhyphen⟩

/-- So is the comparator without its gap. -/
theorem isPiece_closed : IsPiece c.closed := by
  refine ⟨⟨by simp [closed, c.isPiece_sign.isWord.ne_nil], fun p hp => ?_⟩, fun p hp => ?_, fun h => ?_⟩
  · rcases List.mem_append.1 hp with hp | hp
    · exact c.isPiece_sign.isWord.not_separator p hp
    · exact c.isOperand.isWord.not_separator p hp
  · rcases List.mem_append.1 hp with hp | hp
    · exact c.isPiece_sign.no_bar p hp
    · exact c.isOperand.no_bar p hp
  · -- A sign and an operand are two code points at least.
    have hsign := List.length_pos_iff.2 c.isPiece_sign.isWord.ne_nil
    have hoperand := List.length_pos_iff.2 c.isOperand.isWord.ne_nil
    have hlength := congrArg List.length h
    rw [closed, List.length_append, List.length_singleton] at hlength
    omega

/-- And what is left without a sign before a gap. -/
theorem isPiece_unsigned : IsPiece c.unsigned := by
  unfold unsigned
  split
  · exact c.isPiece_closed
  · exact c.isOperand.toIsPiece

theorem separates_of_mem_gap : ∀ p ∈ c.gap, separates p = true := by
  intro p hp
  simp [separates, c.blank p hp]

/-- A comparator with a gap is an alternative. -/
theorem isAlternative_text : IsAlternative c.text := by
  by_cases hgap : c.gap = []
  · have htext : c.text = c.closed := by simp [text, closed, hgap]
    rw [htext]
    exact c.isPiece_closed.isAlternative
  · have htext : Separated [c.sign.text, c.operand] c.text := .cons hgap c.separates_of_mem_gap (.one _)
    refine htext.isAlternative ?_
    simp only [List.forall_mem_cons, List.not_mem_nil, IsEmpty.forall_iff, implies_true, and_true]
    exact ⟨c.isPiece_sign.isAlternative, c.isOperand.isAlternative⟩

/-- Blanks behind the sign make it a piece of its own. -/
theorem pieces_text : pieces separates c.text =
    if c.gap = [] then [c.closed] else [c.sign.text, c.operand] := by
  split
  · rename_i hgap
    have htext : c.text = c.closed := by simp [text, closed, hgap]
    rw [htext, c.isPiece_closed.isWord.pieces_eq]
  · rename_i hgap
    rw [text, pieces_append_gap hgap c.separates_of_mem_gap, c.isPiece_sign.isWord.pieces_eq,
      c.isOperand.isWord.pieces_eq]
    rfl

theorem isPiece_of_mem_pieces : ∀ x ∈ pieces separates c.text, IsPiece x := by
  rw [pieces_text]
  split
  · simpa using c.isPiece_closed
  · simpa using ⟨c.isPiece_sign, c.isOperand.toIsPiece⟩

/-- A sign alone is no comparator, so a spaced comparator is read as its operand. -/
theorem kindsRead_pieces : kindsRead (pieces separates c.text) = kinds? c.unsigned := by
  have hone : ∀ x, kindsRead [x] = kinds? x := by
    intro x
    rw [kindsRead]
    cases kinds? x <;> simp [kindsRead]
  have hsign : ∀ s : Sign, s ≠ .bare → kinds? s.text = some [] := by
    intro s
    cases s <;> decide
  rw [pieces_text, unsigned]
  split
  · exact hone _
  · rw [kindsRead, hone, hsign _ c.signed]
    cases kinds? c.operand <;> rfl

/-- A sign only replaces the relation, but for a wildcard. -/
theorem kinds?_closed : kinds? c.closed = (kinds? c.operand).map
    (·.map fun k => (if k.1 = .wildcard then .wildcard else c.sign.relation, k.2)) := by
  rw [kinds?, closed, Comparator.parse_sign_append c.sign c.isOperand.no_sign, kinds?]
  cases Comparator.parse c.operand with
  | error e => rfl
  | ok found => cases found <;> rfl

/-- Without the sign as many comparators are read. -/
theorem length_kinds?_unsigned :
    (kinds? c.unsigned).map List.length = (kinds? c.closed).map List.length := by
  by_cases hgap : c.gap = []
  · rw [unsigned, if_pos hgap]
  · rw [unsigned, if_neg hgap, kinds?_closed]
    cases kinds? c.operand <;> simp

/-- Without the sign a comparator says the same where the blanks take nothing away. -/
theorem kinds?_unsigned_eq_iff (h : kinds? c.closed ≠ none) :
    kinds? c.unsigned = kinds? c.closed ↔ c.Kept := by
  by_cases hgap : c.gap = []
  · simp [unsigned, Kept, hgap]
  · have hall : ∀ s : Sign, s ≠ .bare → (s.relation = .exact ↔ s = .equal) := by
      intro s
      cases s <;> decide
    have hsign := hall c.sign c.signed
    rw [unsigned, if_neg hgap, kinds?_closed, Kept]
    rw [kinds?_closed] at h
    obtain ⟨e, he⟩ | hnone | ⟨r, source, hr⟩ | ⟨r, source, hr⟩ := c.isOperand.parse_cases
    · simp [kinds?, he, Except.toOption] at h
    · simp [kinds?, hnone, Except.toOption, ReadsRelease]
    · simp [kinds?, hr, Except.toOption, ReadsRelease, Comparator.kind, hgap, ← hsign, eq_comm]
    · simp [kinds?, hr, Except.toOption, ReadsRelease, Comparator.kind]

end SpacedComparator

/-! ## Ranges of spaced comparators -/

variable {items : List SpacedComparator}

/-- What is read off the pieces is read off the comparators without signs before gaps. -/
theorem kindsRead_flatMap_pieces (items : List SpacedComparator) :
    kindsRead (items.flatMap fun c => pieces separates c.text) =
      kindsRead (items.map SpacedComparator.unsigned) := by
  induction items with
  | nil => rfl
  | cons c items ih =>
    rw [List.flatMap_cons, kindsRead_append, c.kindsRead_pieces, ih, List.map_cons, kindsRead]

theorem length_kindsRead_unsigned (items : List SpacedComparator) :
    (kindsRead (items.map SpacedComparator.unsigned)).map List.length =
      (kindsRead (items.map SpacedComparator.closed)).map List.length := by
  induction items with
  | nil => rfl
  | cons c items ih =>
    have hlength : ∀ a b : Option (List (Relation × Release)), (Option.map₂ (· ++ ·) a b).map List.length =
        Option.map₂ (· + ·) (a.map List.length) (b.map List.length) :=
      fun a b => Option.map_map₂_distrib fun _ _ => List.length_append
    rw [List.map_cons, kindsRead, List.map_cons, kindsRead, hlength, hlength, c.length_kinds?_unsigned, ih]

/-- Relations are kept when each of them is. -/
theorem kindsRead_unsigned_eq_iff (h : kindsRead (items.map SpacedComparator.closed) ≠ none) :
    kindsRead (items.map SpacedComparator.unsigned) = kindsRead (items.map SpacedComparator.closed) ↔
      ∀ c ∈ items, c.Kept := by
  induction items with
  | nil => simp
  | cons c items ih =>
    rw [List.map_cons, kindsRead] at h
    rw [List.map_cons, kindsRead, List.map_cons, kindsRead, List.forall_mem_cons]
    have hc : kinds? c.closed ≠ none := fun hnone => h (by rw [hnone]; rfl)
    have hitems : kindsRead (items.map SpacedComparator.closed) ≠ none := fun hnone => h (by
      rw [hnone]
      exact Option.map₂_none_right _ _)
    rw [← c.kinds?_unsigned_eq_iff hc, ← ih hitems]
    -- Both sides are read to the same lengths, so they are equal part by part.
    have hlength := c.length_kinds?_unsigned
    have hlengths := length_kindsRead_unsigned items
    obtain ⟨a', ha'⟩ := Option.ne_none_iff_exists'.1 hc
    obtain ⟨b', hb'⟩ := Option.ne_none_iff_exists'.1 hitems
    rw [ha'] at hlength ⊢
    rw [hb'] at hlengths ⊢
    obtain ⟨a, ha, halen⟩ := Option.map_eq_some_iff.1 hlength
    obtain ⟨b, hb, _⟩ := Option.map_eq_some_iff.1 hlengths
    rw [ha, hb, Option.map₂_some_some, Option.map₂_some_some]
    constructor
    · intro heq
      obtain ⟨rfl, rfl⟩ := List.append_inj (Option.some.inj heq) halen
      exact ⟨rfl, rfl⟩
    · rintro ⟨hab, hbb⟩
      rw [Option.some.inj hab, Option.some.inj hbb]

theorem kindsOf_of_separated {texts : List Text} {t : Text} (h : Separated texts t)
    (htexts : ∀ x ∈ texts, IsPiece x) : kindsOf t = (kindsRead texts).filter (!·.isEmpty) := by
  rw [kindsOf_eq (h.isAlternative fun x hx => (htexts x hx).isAlternative), h.comparatorTexts_eq htexts]

/-- Results of the same length are both left out or both kept. -/
theorem filter_cases {α : Type} {x y : Option (List α)} (h : x.map List.length = y.map List.length) :
    (x.filter (!·.isEmpty) = none ∧ y.filter (!·.isEmpty) = none) ∨
      x.filter (!·.isEmpty) = x ∧ y.filter (!·.isEmpty) = y ∧ x ≠ none ∧ y ≠ none := by
  match x, y, h with
  | none, none, _ => exact .inl ⟨rfl, rfl⟩
  | some [], some [], _ => exact .inl ⟨rfl, rfl⟩
  | some (_ :: _), some (_ :: _), _ => exact .inr ⟨rfl, rfl, nofun, nofun⟩

/-- A range of spaced comparators is read as if the signs with blanks behind them were not there. -/
theorem kindsOf_spaced {t : Text} (h : Separated (items.map SpacedComparator.text) t) :
    kindsOf t = (kindsRead (items.map SpacedComparator.unsigned)).filter (!·.isEmpty) := by
  have halternative : IsAlternative t := by
    refine h.isAlternative fun x hx => ?_
    obtain ⟨c, _, rfl⟩ := List.mem_map.1 hx
    exact c.isAlternative_text
  have hpieces : pieces separates t = items.flatMap fun c => pieces separates c.text := by
    rw [h.pieces_eq, List.flatMap_map]
  have hhyphen : [.scalar '-'] ∉ pieces separates t := by
    rw [hpieces, List.mem_flatMap]
    rintro ⟨c, _, hc⟩
    exact (c.isPiece_of_mem_pieces _ hc).ne_hyphen rfl
  rw [kindsOf_eq halternative, comparatorTexts_eq_pieces hhyphen, hpieces, kindsRead_flatMap_pieces]

/-- Blanks behind signs change nothing exactly where they take nothing away, or where the range cannot
    be read anyway; and then the major is the same.  The range is read as if the signs with blanks behind
    them were not there. -/
theorem spaced_signs_kept_iff (items : List SpacedComparator) {t t' : Text}
    (h : Separated (items.map SpacedComparator.text) t)
    (h' : Separated (items.map SpacedComparator.closed) t') :
    (kindsOf t = kindsOf t' ↔ kindsOf t' = none ∨ ∀ c ∈ items, c.Kept) ∧
      (kindsOf t = none ↔ kindsOf t' = none) ∧
      ((∀ c ∈ items, c.Kept) → ∀ m, majorOf t = .ok m ↔ majorOf t' = .ok m) ∧
      ∀ u, Separated (items.map SpacedComparator.unsigned) u → kindsOf t = kindsOf u := by
  have hclosed : kindsOf t' = (kindsRead (items.map SpacedComparator.closed)).filter (!·.isEmpty) := by
    refine kindsOf_of_separated h' fun x hx => ?_
    obtain ⟨c, _, rfl⟩ := List.mem_map.1 hx
    exact c.isPiece_closed
  have hunsigned := kindsOf_spaced h
  -- Both lists are empty, or what they hold is compared item by item.
  have hcases : (kindsOf t = none ∧ kindsOf t' = none) ∨
      kindsOf t ≠ none ∧ kindsOf t' ≠ none ∧ (kindsOf t = kindsOf t' ↔ ∀ c ∈ items, c.Kept) := by
    rw [hunsigned, hclosed]
    rcases filter_cases (length_kindsRead_unsigned items) with hnone | ⟨hsome, hsome', hne, hne'⟩
    · exact .inl hnone
    · rw [hsome, hsome']
      exact .inr ⟨hne, hne', kindsRead_unsigned_eq_iff hne'⟩
  have hiff : kindsOf t = kindsOf t' ↔ kindsOf t' = none ∨ ∀ c ∈ items, c.Kept := by
    rcases hcases with ⟨hnone, hnone'⟩ | ⟨_, hne', hkept⟩
    · simp [hnone, hnone']
    · simp [hne', hkept]
  have hnone : kindsOf t = none ↔ kindsOf t' = none := by
    rcases hcases with ⟨hnone, hnone'⟩ | ⟨hne, hne', _⟩
    · simp [hnone, hnone']
    · simp [hne, hne']
  refine ⟨hiff, hnone, fun hkept m => majorOf_eq_ok_iff_of_kindsOf (hiff.2 (.inr hkept)) m, fun u hu => ?_⟩
  rw [hunsigned]
  refine (kindsOf_of_separated hu fun x hx => ?_).symm
  obtain ⟨c, _, rfl⟩ := List.mem_map.1 hx
  exact c.isPiece_unsigned

/-- The sign of `< 5.0.0` is lost, since a release follows the gap; in `>= 4.x` a wildcard follows, to
    which no sign makes a difference. -/
theorem spaced_signs_lost_before_release :
    kindsOf "<5.0.0" = some [(.below, ⟨[5, 0, 0]⟩)] ∧ kindsOf "< 5.0.0" ≠ kindsOf "<5.0.0" ∧
      kindsOf ">= 4.x" = kindsOf ">=4.x" := by
  have hrelease : IsOperand "5.0.0" := ⟨⟨⟨by decide, by decide⟩, by decide, by decide⟩, by decide⟩
  have hwildcard : IsOperand "4.x" := ⟨⟨⟨by decide, by decide⟩, by decide, by decide⟩, by decide⟩
  let below : SpacedComparator := ⟨.below, " ", "5.0.0", by decide, by decide, hrelease⟩
  let atLeast : SpacedComparator := ⟨.atLeast, " ", "4.x", by decide, by decide, hwildcard⟩
  have hread : kindsOf "<5.0.0" = some [(.below, ⟨[5, 0, 0]⟩)] := by decide
  have hlost : ¬below.Kept := by
    have hparse : Comparator.parse "5.0.0" = .ok (some ⟨.exact, ⟨[5, 0, 0]⟩, "5.0.0"⟩) := by decide
    -- There is a gap, the sign is not one that may be left out, and a release stands behind it.
    rintro (hgap | hsign | hnot)
    · exact absurd (show (" " : Text) = [] from hgap) (by decide)
    · exact nomatch hsign
    · exact hnot ⟨_, _, hparse⟩
  have hkept : atLeast.Kept := by
    refine .inr (.inr ?_)
    -- A wildcard is no release, so that the sign in front of it does not count.
    rintro ⟨r, source, hr⟩
    have hparse : Comparator.parse "4.x" = .ok (some ⟨.wildcard, ⟨[4]⟩, "4.x"⟩) := by decide
    exact nomatch hparse.symm.trans hr
  refine ⟨hread, fun hsame => ?_, ?_⟩
  · rcases (spaced_signs_kept_iff [below] (.one _) (.one _)).1.1 hsame with hnone | hall
    · exact nomatch hread.symm.trans hnone
    · exact hlost (hall below List.mem_cons_self)
  · refine (spaced_signs_kept_iff [atLeast] (.one _) (.one _)).1.2 (.inr ?_)
    simpa using hkept

end LodashStyle.Npm
