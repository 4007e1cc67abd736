import LodashStyle.Files.Collect
import Mathlib.Data.List.Lex
import Mathlib.Data.List.Nodup

/-!
# The files that paths stand for

A directory stands for the JavaScript files at any depth below it, except those of installed packages.
Their paths are put in the order of their names, name by name and each by its code points: a name that
is the beginning of another one comes first, so that what lies in `a` comes before what lies in `a-b`,
although the slash behind `a` is greater than the hyphen.

In a directory tree each location stands once, nothing lies below a file, and no name is `..`, so that
the path of a file below a directory leads to this file.

## Key results

- `partsLe_iff`: names are compared as lists of lists of code points
- `isLintable_iff`: which names are names of JavaScript files
- `IsTree.mem_filesBelow_iff`: the files below a directory are those that paths below it lead to
- `files_collected_once`: each path stands for itself or for the files below it, each of them once
-/

namespace LodashStyle

/-! ## The order of names -/

/-- No character has the number of a surrogate. -/
theorem CodePoint.val_scalar_ne_val_surrogate (c : Char) (index : Fin 0x800) :
    (scalar c).val ≠ (surrogate index).val := by
  intro h
  have hvalid := c.valid
  have hindex := index.isLt
  simp only [val, Char.toNat] at h
  simp only [UInt32.isValidChar, Nat.isValidChar] at hvalid
  omega

/-- A code point is known from its number. -/
theorem CodePoint.val_injective : Function.Injective CodePoint.val := by
  intro p q h
  cases p with
  | scalar c =>
    cases q with
    | scalar d => exact congrArg _ (Char.toNat_inj.1 h)
    | surrogate j => exact absurd h (val_scalar_ne_val_surrogate c j)
  | surrogate i =>
    cases q with
    | scalar d => exact absurd h.symm (val_scalar_ne_val_surrogate d i)
    | surrogate j =>
      simp only [val] at h
      exact congrArg _ (Fin.ext (by omega))

namespace FilePath

/-- The numbers of the code points of names. -/
def codes (names : List Text) : List (List Nat) := names.map (·.map CodePoint.val)

theorem codes_injective : Function.Injective codes := by
  apply List.map_injective_iff.2
  exact List.map_injective_iff.2 CodePoint.val_injective

theorem textLe_iff (s t : Text) : Text.le s t = true ↔ ¬t.map CodePoint.val < s.map CodePoint.val := by
  fun_induction Text.le s t with
  | case1 t => simp
  | case2 a s => simp
  | case3 a s b t ih =>
    simp only [List.map_cons, List.cons_lt_cons_iff, Bool.or_eq_true, Bool.and_eq_true, decide_eq_true_eq,
      beq_iff_eq, ih]
    by_cases hlt : b.val < a.val
    · simp only [hlt, true_or, not_true_eq_false, iff_false]
      omega
    · by_cases heq : b.val = a.val
      · simp [heq]
      · simp only [hlt, heq, false_and, or_self, not_false_eq_true, iff_true]
        omega

/-- Names are compared as lists of lists of code points. -/
theorem partsLe_iff (a b : List Text) : partsLe a b = true ↔ ¬codes b < codes a := by
  fun_induction partsLe a b with
  | case1 b => simp [codes]
  | case2 a s => simp [codes]
  | case3 s b t ih => simpa [codes, List.cons_lt_cons_iff] using ih
  | case4 a s b t hne =>
    -- The first names differ, so they decide.
    have hcodes : b.map CodePoint.val ≠ a.map CodePoint.val :=
      fun h => hne (List.map_injective_iff.2 CodePoint.val_injective h).symm
    simp only [textLe_iff, codes, List.map_cons, List.cons_lt_cons_iff, hcodes, false_and, or_false]

/-! ## Names of JavaScript files -/

/-- The endings of names of JavaScript files, in lower case. -/
def scriptEndings : List Text := ["js", "jsx", "mjs", "cjs"]

/-- A name of a JavaScript file: something, a dot and an ending in either case. -/
def IsScriptName (name : Text) : Prop :=
  ∃ stem ending : Text, stem ≠ [] ∧ ending.map lower ∈ scriptEndings ∧ name = stem ++ .scalar '.' :: ending

/-- The extension is what stands behind the last dot, unless there is nothing before or behind the dot. -/
theorem extension_append {stem ending : Text} (hstem : stem ≠ []) (hending : ending ≠ [])
    (hdot : .scalar '.' ∉ ending) : extension (stem ++ .scalar '.' :: ending) = .scalar '.' :: ending := by
  have hrun : ((stem ++ .scalar '.' :: ending).reverse.takeWhile (!·.isChar '.')) = ending.reverse := by
    have hnone : ∀ p ∈ ending.reverse, (!p.isChar '.') = true := by
      intro p hp
      rw [Bool.not_eq_true', Bool.eq_false_iff, ne_eq, CodePoint.isChar_iff]
      rintro rfl
      exact hdot (List.mem_reverse.1 hp)
    simp [List.takeWhile_append_of_pos hnone]
  have hlength : 0 < stem.length := List.length_pos_iff.2 hstem
  unfold extension
  dsimp only
  rw [hrun]
  simp [hending]
  omega

theorem exists_of_extension_ne_nil {name : Text} (h : extension name ≠ []) :
    ∃ stem ending : Text, stem ≠ [] ∧ extension name = .scalar '.' :: ending ∧
      name = stem ++ .scalar '.' :: ending := by
  unfold extension at h ⊢
  dsimp only at h ⊢
  split
  · rename_i hnone
    exact absurd (if_pos hnone) h
  · rename_i hsome
    simp only [Bool.or_eq_true, decide_eq_true_eq, not_or, Nat.not_le] at hsome
    -- Behind the run without dots, seen from the end, stands a dot.
    have hsplit := @List.takeWhile_append_dropWhile _ (!·.isChar '.') name.reverse
    cases hrest : name.reverse.dropWhile (!·.isChar '.') with
    | nil =>
      rw [hrest, List.append_nil] at hsplit
      have hlength := congrArg List.length hsplit
      rw [List.length_reverse] at hlength
      omega
    | cons p more =>
      have hp : p = .scalar '.' := by
        have := List.head_dropWhile_not (!·.isChar '.') (l := name.reverse) (by simp [hrest])
        simpa [hrest, CodePoint.isChar_iff] using this
      rw [hrest, hp] at hsplit
      refine ⟨more.reverse, (name.reverse.takeWhile (!·.isChar '.')).reverse, ?_, rfl, ?_⟩
      · intro hnil
        have hlength := congrArg List.length hsplit
        rw [List.reverse_eq_nil_iff.1 hnil, List.length_append, List.length_reverse] at hlength
        simp only [List.length_cons, List.length_nil] at hlength
        omega
      · have hname := congrArg List.reverse hsplit
        simpa using hname.symm

theorem contains_lintableExtensions_iff (name : Text) :
    lintableExtensions.contains ((extension name).map lower) = true ↔ IsScriptName name := by
  have hdotted : ∀ ending : Text,
      (Text.ofChar '.' ++ ending).map lower ∈ lintableExtensions ↔ ending.map lower ∈ scriptEndings := by
    intro ending
    have hlist : lintableExtensions = scriptEndings.map (Text.ofChar '.' ++ ·) := by decide
    have hlower : (Text.ofChar '.' ++ ending).map lower = Text.ofChar '.' ++ ending.map lower := rfl
    rw [hlist, hlower, List.mem_map]
    simp
  rw [List.contains_iff_mem]
  constructor
  · intro hmem
    have hne : extension name ≠ [] := by
      intro hnil
      rw [hnil] at hmem
      exact absurd hmem (by decide)
    obtain ⟨stem, ending, hstem, hextension, hname⟩ := exists_of_extension_ne_nil hne
    rw [hextension] at hmem
    exact ⟨stem, ending, hstem, (hdotted ending).1 hmem, hname⟩
  · rintro ⟨stem, ending, hstem, hending, rfl⟩
    have hne : ending ≠ [] := by
      rintro rfl
      exact absurd hending (by decide)
    have hdot : .scalar '.' ∉ ending := by
      -- A dot has no other case, and no ending has a dot.
      intro hmem
      have hlower : CodePoint.scalar '.' ∈ ending.map lower := List.mem_map.2 ⟨_, hmem, rfl⟩
      have hnone : ∀ e ∈ scriptEndings, CodePoint.scalar '.' ∉ e := by decide
      exact hnone _ hending hlower
    rw [extension_append hstem hne hdot]
    exact (hdotted ending).2 hending

/-- A path is linted if its last name is one of a JavaScript file. -/
theorem isLintable_iff (p : FilePath) :
    p.isLintable = true ↔ ∃ name, p.parts.getLast? = some name ∧ IsScriptName name := by
  unfold isLintable
  cases p.parts.getLast? with
  | none => simp
  | some name => simp only [contains_lintableExtensions_iff, Option.some.injEq, exists_eq_left']

end FilePath

namespace Store

/-! ## Directory trees -/

/-- A store that lists a directory tree: each location stands once, nothing lies below a file, and `..` is
    the name of no file or directory. -/
structure IsTree (s : Store) : Prop where
  once : (s.entries.map (·.1)).Nodup
  leaf : ∀ l bytes, (l, .file bytes) ∈ s.entries → s.isAbove l = false
  proper : ∀ l e, (l, e) ∈ s.entries → (".." : Text) ∉ l

variable {s : Store} {l : Location} {bytes : List UInt8}

/-- A file is listed, since what is not listed is a directory or nothing. -/
theorem mem_entries_of_get? (h : s.get? l = some (.file bytes)) : (l, .file bytes) ∈ s.entries := by
  unfold get? at h
  cases hfind : s.entries.find? (·.1 == l) with
  | none => simp [hfind] at h
  | some entry =>
    obtain ⟨k, e⟩ := entry
    have hk : k = l := by simpa using List.find?_some hfind
    simp only [hfind, Option.some.injEq] at h
    rw [← hk, ← h]
    exact List.mem_of_find?_eq_some hfind

namespace IsTree

theorem get?_of_mem (hs : s.IsTree) {e : FileEntry} (h : (l, e) ∈ s.entries) : s.get? l = some e := by
  unfold get?
  cases hfind : s.entries.find? (·.1 == l) with
  | none =>
    have := List.find?_eq_none.1 hfind (l, e) h
    simp at this
  | some entry =>
    -- Another entry of this location would be the same one.
    have hentry : entry.1 = l := by simpa using List.find?_some hfind
    have hsame := List.inj_on_of_nodup_map hs.once (List.mem_of_find?_eq_some hfind) h hentry
    rw [hsame]

/-- Whatever lies above an entry is a directory. -/
theorem get?_of_isAbove (hs : s.IsTree) (h : s.isAbove l = true) : s.get? l = some .directory := by
  cases hget : s.get? l with
  | none =>
    simp only [get?, h, if_true] at hget
    split at hget
    · cases hget
    · cases hget
  | some e =>
    cases e with
    | directory => rfl
    | file bytes =>
      have hnone := hs.leaf l bytes (mem_entries_of_get? hget)
      rw [h] at hnone
      cases hnone

/-- The names of an entry lead down to it. -/
theorem walk_eq (hs : s.IsTree) {e : FileEntry} {rest : List Text} (h : (l ++ rest, e) ∈ s.entries) :
    s.walk l rest = .ok (l ++ rest) := by
  induction rest generalizing l with
  | nil => rw [walk, List.append_nil]
  | cons name rest ih =>
    have habove : s.isAbove l = true := by
      unfold isAbove
      rw [Bool.or_eq_true, List.any_eq_true]
      refine .inr ⟨_, h, ?_⟩
      simp
    have hname : name ≠ ".." := by
      rintro rfl
      exact hs.proper _ e h (List.mem_append_right _ List.mem_cons_self)
    have hstep : l ++ name :: rest = l ++ [name] ++ rest := by simp
    rw [walk, hs.get?_of_isAbove habove]
    simp only [hname, if_false]
    rw [hstep] at h ⊢
    exact ih h

end IsTree

theorem walk_append (s : Store) (here : Location) (names rest : List Text) :
    s.walk here (names ++ rest) = s.walk here names >>= fun l => s.walk l rest := by
  induction names generalizing here with
  | nil => rfl
  | cons name names ih =>
    rw [List.cons_append, walk, walk]
    cases s.get? here with
    | none => rfl
    | some e =>
      cases e with
      | file bytes => rfl
      | directory =>
        by_cases hname : name = ".."
        · simp only [hname, if_true, ih]
        · simp only [hname, if_false, ih]

theorem follow_eq_ok_iff {p : FilePath} {e : FileEntry} :
    s.follow p = .ok (l, e) ↔ s.walk (s.start p) p.parts = .ok l ∧ s.get? l = some e := by
  unfold follow
  cases hwalk : s.walk (s.start p) p.parts with
  | error fault => simp [bind, Except.bind]
  | ok k =>
    cases hget : s.get? k with
    | none =>
      simp only [bind, Except.bind, hget, reduceCtorEq, Except.ok.injEq, false_iff, not_and]
      rintro rfl
      simp [hget]
    | some found =>
      simp only [bind, Except.bind, hget, Except.ok.injEq, Prod.mk.injEq]
      constructor
      · rintro ⟨rfl, rfl⟩
        exact ⟨rfl, hget⟩
      · rintro ⟨rfl, h⟩
        exact ⟨rfl, Option.some.inj (hget.symm.trans h)⟩

/-- The files below a directory are those that paths below the directory lead to. -/
theorem IsTree.mem_filesBelow_iff (hs : s.IsTree) {p : FilePath} (hp : s.follow p = .ok (l, .directory))
    (rest : List Text) :
    rest ∈ s.filesBelow l ↔ ∃ bytes, s.follow (p.below rest) = .ok (l ++ rest, .file bytes) := by
  have hlist : rest ∈ s.filesBelow l ↔ ∃ bytes, (l ++ rest, .file bytes) ∈ s.entries := by
    unfold filesBelow
    rw [List.mem_filterMap]
    constructor
    · rintro ⟨⟨k, e⟩, hmem, hk⟩
      cases e with
      | directory => exact nomatch hk
      | file bytes =>
        simp only [Option.ite_none_right_eq_some, Option.some.injEq, List.isPrefixOf_iff_prefix] at hk
        obtain ⟨⟨more, rfl⟩, rfl⟩ := hk
        exact ⟨bytes, by simpa using hmem⟩
    · rintro ⟨bytes, hmem⟩
      exact ⟨_, hmem, by simp⟩
  rw [hlist]
  refine exists_congr fun bytes => ?_
  -- The path goes to the directory first.
  have hwalk : s.walk (s.start p) p.parts = .ok l := (follow_eq_ok_iff.1 hp).1
  have hbelow : s.walk (s.start (p.below rest)) (p.below rest).parts = s.walk l rest := by
    show s.walk (s.start p) (p.parts ++ rest) = s.walk l rest
    rw [walk_append, hwalk]
    rfl
  rw [follow_eq_ok_iff, hbelow]
  constructor
  · intro hmem
    exact ⟨hs.walk_eq hmem, hs.get?_of_mem hmem⟩
  · rintro ⟨-, hget⟩
    exact mem_entries_of_get? hget

theorem IsTree.nodup_filesBelow (hs : s.IsTree) (l : Location) : (s.filesBelow l).Nodup := by
  have hentries : s.entries.Pairwise fun a b => a.1 ≠ b.1 := List.pairwise_map.1 hs.once
  unfold filesBelow
  refine List.Pairwise.filterMap _ ?_ hentries
  rintro ⟨k, e⟩ ⟨k', e'⟩ hne rest hrest rest' hrest' rfl
  cases e with
  | directory => exact nomatch hrest
  | file bytes =>
    cases e' with
    | directory => exact nomatch hrest'
    | file bytes' =>
      simp only [Option.ite_none_right_eq_some, Option.some.injEq, List.isPrefixOf_iff_prefix]
        at hrest hrest'
      obtain ⟨⟨more, rfl⟩, rfl⟩ := hrest
      obtain ⟨⟨more', rfl⟩, heq⟩ := hrest'
      apply hne
      simpa using heq.symm

/-! ## Collected files -/

/-- What a path stands for: a path that leads to no directory stands for itself, and a directory for the
    JavaScript files below it, outside installed packages, in the order of their names. -/
inductive StandsFor (s : Store) (p : FilePath) : List FilePath → Prop where
  | itself (hp : s.isDirectory p = false) : StandsFor s p [p]
  | directory {l : Location} {found : List FilePath} (hp : s.follow p = .ok (l, .directory))
    (hmem : ∀ f, f ∈ found ↔ ∃ rest bytes, f = p.below rest ∧ s.follow f = .ok (l ++ rest, .file bytes) ∧
      packagesDirectory ∉ f.parts ∧ ∃ name, f.parts.getLast? = some name ∧ FilePath.IsScriptName name)
    (hsorted : found.Pairwise fun f g => FilePath.codes f.parts < FilePath.codes g.parts) :
    StandsFor s p found

theorem mem_lintableBelow_iff {p f : FilePath} :
    f ∈ s.lintableBelow p l ↔ ∃ rest ∈ s.filesBelow l, f = p.below rest ∧
      packagesDirectory ∉ f.parts ∧ ∃ name, f.parts.getLast? = some name ∧ FilePath.IsScriptName name := by
  unfold lintableBelow
  simp only [List.mem_mergeSort, List.mem_filter, List.mem_map, Bool.and_eq_true, Bool.not_eq_true',
    Bool.eq_false_iff, ne_eq, List.contains_iff_mem, FilePath.isLintable_iff]
  constructor
  · rintro ⟨⟨rest, hrest, rfl⟩, hnone, hname⟩
    exact ⟨rest, hrest, rfl, hnone, hname⟩
  · rintro ⟨rest, hrest, rfl, hnone, hname⟩
    exact ⟨⟨rest, hrest, rfl⟩, hnone, hname⟩

/-- The files below a directory stand in the order of their names, and none of them twice. -/
theorem IsTree.pairwise_lintableBelow (hs : s.IsTree) (p : FilePath) (l : Location) :
    (s.lintableBelow p l).Pairwise fun f g => FilePath.codes f.parts < FilePath.codes g.parts := by
  have hordered : (s.lintableBelow p l).Pairwise fun f g => FilePath.partsLe f.parts g.parts = true := by
    apply List.pairwise_mergeSort
    · intro f g h hfg hgh
      rw [FilePath.partsLe_iff, not_lt] at *
      exact le_trans hfg hgh
    · intro f g
      rw [Bool.or_eq_true, FilePath.partsLe_iff, FilePath.partsLe_iff, not_lt, not_lt]
      exact le_total _ _
  have hnodup : (s.lintableBelow p l).Pairwise fun f g => f.parts ≠ g.parts := by
    have hbelow : ((s.filesBelow l).map p.below).Pairwise fun f g => f.parts ≠ g.parts := by
      rw [List.pairwise_map]
      exact (hs.nodup_filesBelow l).imp fun hne h => hne (List.append_cancel_left h)
    exact (List.Perm.pairwise_iff Ne.symm (List.mergeSort_perm _ _)).2 (hbelow.filter _)
  refine (hordered.and hnodup).imp ?_
  rintro f g ⟨hle, hne⟩
  rw [FilePath.partsLe_iff, not_lt] at hle
  exact lt_of_le_of_ne hle fun h => hne (FilePath.codes_injective h)

theorem IsTree.standsFor_expand (hs : s.IsTree) (p : FilePath) : s.StandsFor p (s.expand p) := by
  unfold expand
  split
  · rename_i l hp
    -- A directory stands for the files below it, which the walk finds.
    refine .directory hp (fun f => ?_) (hs.pairwise_lintableBelow p l)
    rw [mem_lintableBelow_iff]
    constructor
    · rintro ⟨rest, hrest, rfl, hnone, hname⟩
      obtain ⟨bytes, hfollow⟩ := (hs.mem_filesBelow_iff hp rest).1 hrest
      exact ⟨rest, bytes, rfl, hfollow, hnone, hname⟩
    · rintro ⟨rest, bytes, rfl, hfollow, hnone, hname⟩
      exact ⟨rest, (hs.mem_filesBelow_iff hp rest).2 ⟨bytes, hfollow⟩, rfl, hnone, hname⟩
  · rename_i hnot
    apply StandsFor.itself
    unfold isDirectory
    split
    · rename_i l hp
      exact absurd hp (hnot l)
    · rfl

/-- **Collected files.**  In a directory tree, the files that some paths stand for are collected path by
    path.  A path that leads to no directory stands for itself.  A directory stands for the files at any
    depth below it that have the name of a JavaScript file and whose path, the given one included, does not
    go through a directory of installed packages; each of them is there once, they are in the order of
    their names, and nothing else is there. -/
theorem files_collected_once (hs : s.IsTree) (paths : List FilePath) :
    ∃ groups, List.Forall₂ s.StandsFor paths groups ∧ s.collect paths = groups.flatten := by
  refine ⟨paths.map s.expand, ?_, List.flatMap_def⟩
  rw [List.forall₂_map_right_iff, List.forall₂_same]
  intro p _
  exact hs.standsFor_expand p

/-- Four files below a directory, of which two are linted, and a file that is not there: the files in `a`
    come before those in `a-b`. -/
theorem files_collected_once_by_names :
    let file (names : List Text) : Location × FileEntry := ("home" :: names, .file [])
    let s : Store := ⟨["home"], [file ["src", "a-b", "x.js"], file ["src", "a", "b.JSX"],
      file ["src", "node_modules", "c.js"], file ["src", "a", ".js"]]⟩
    let paths : List FilePath := [⟨.relative, ["src"]⟩, ⟨.relative, ["d.txt"]⟩]
    s.IsTree ∧ (∃ groups, List.Forall₂ s.StandsFor paths groups ∧ s.collect paths = groups.flatten) ∧
      s.collect paths = [⟨.relative, ["src", "a", "b.JSX"]⟩, ⟨.relative, ["src", "a-b", "x.js"]⟩,
        ⟨.relative, ["d.txt"]⟩] := by
  intro file s paths
  have hs : s.IsTree := by
    refine ⟨by decide, ?_, ?_⟩
    · intro l bytes hl
      have hleaf : ∀ entry ∈ s.entries, s.isAbove entry.1 = false := by decide
      exact hleaf _ hl
    · intro l e hl
      have hproper : ∀ entry ∈ s.entries, (".." : Text) ∉ entry.1 := by decide
      exact hproper _ hl
  -- Of the files below `src` two are linted, and the names put them the other way round.
  have hfound : ((s.filesBelow ["home", "src"]).map (FilePath.below ⟨.relative, ["src"]⟩)).filter
      (fun f => !f.parts.contains packagesDirectory && f.isLintable) =
        [⟨.relative, ["src", "a-b", "x.js"]⟩, ⟨.relative, ["src", "a", "b.JSX"]⟩] := by decide +kernel
  have hsort : ∀ (f g : FilePath) (le : FilePath → FilePath → Bool), le f g = false →
      [f, g].mergeSort le = [g, f] := by
    intro f g le hle
    simp [List.mergeSort, List.MergeSort.Internal.splitInTwo, hle]
  have hcollect : s.collect paths = s.lintableBelow ⟨.relative, ["src"]⟩ ["home", "src"] ++
      [⟨.relative, ["d.txt"]⟩] := rfl
  refine ⟨hs, files_collected_once hs paths, ?_⟩
  rw [hcollect, lintableBelow, hfound, hsort _ _ _ (by decide +kernel)]
  rfl

end Store

end LodashStyle
