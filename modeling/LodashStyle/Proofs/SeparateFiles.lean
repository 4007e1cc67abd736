import LodashStyle.Proofs.FileRewriting
import Mathlib.Data.List.Basic
import Mathlib.Data.List.Pairwise

/-!
# Files apart from each other

A run goes through its files one after the other and rewrites some of them in place.  A write changes
the bytes at one location and nothing on the way to any other, so a file that is reached later is found
as it was at the start.  What a run over several files comes to is therefore what the runs over each
of them come to, in whatever order the files are taken.  A file with a syntax error counts as one in which
nothing is found.

## Key results

- `Store.follow_setBytes`: a write to one file leaves every path to another one alone
- `lintFiles_eq`: a run in terms of the visits to the files as they were at its start
- `files_linted_apart`: each file is linted and fixed as if it were the only one
-/

namespace LodashStyle

/-! ## Writes to stores -/

namespace Store

variable {s : Store} {l : Location} {old : List UInt8}

/-- The location of the file that a path leads to, if it leads to one. -/
def fileAt? (s : Store) (p : FilePath) : Option Location :=
  match s.follow p with
  | .ok (l, .file _) => some l
  | _ => none

theorem fileAt?_eq_some_iff {p : FilePath} :
    s.fileAt? p = some l ↔ ∃ bytes, s.follow p = .ok (l, .file bytes) := by
  unfold fileAt?
  split
  · rename_i k bytes hk
    simp [hk]
  · rename_i hne
    simp only [reduceCtorEq, false_iff, not_exists]
    exact fun bytes => hne l bytes

/-- What stands at each location after a file was written. -/
theorem get?_setBytes (h : s.get? l = some (.file old)) (bytes : List UInt8) (k : Location) :
    (s.setBytes l bytes).get? k = if k = l then some (.file bytes) else s.get? k := by
  split
  · rename_i hk
    rw [hk, get?_setBytes_self h]
  · rename_i hk
    exact s.get?_setBytes_of_ne hk bytes

/-- A file that is written stays a file, so that every way stays as it was. -/
theorem walk_setBytes (h : s.get? l = some (.file old)) (bytes : List UInt8) (here : Location)
    (names : List Text) : (s.setBytes l bytes).walk here names = s.walk here names := by
  induction names generalizing here with
  | nil => rfl
  | cons name rest ih =>
    rw [walk, walk, get?_setBytes h]
    -- No way goes on from a file, before the write or after it.
    by_cases hhere : here = l
    · rw [if_pos hhere, hhere, h]
    · rw [if_neg hhere]
      cases s.get? here with
      | none => rfl
      | some e =>
        cases e with
        | file b => rfl
        | directory => simp only [ih]

/-- A write to one file leaves every path alone that does not lead to it. -/
theorem follow_setBytes (h : s.get? l = some (.file old)) (bytes : List UInt8) {q : FilePath}
    (hq : s.fileAt? q ≠ some l) : (s.setBytes l bytes).follow q = s.follow q := by
  unfold follow
  rw [walk_setBytes h]
  change s.walk (s.start q) q.parts >>= _ = s.walk (s.start q) q.parts >>= _
  cases hwalk : s.walk (s.start q) q.parts with
  | error fault => rfl
  | ok k =>
    have hk : k ≠ l := by
      rintro rfl
      apply hq
      rw [fileAt?_eq_some_iff]
      refine ⟨old, ?_⟩
      simp only [follow, hwalk, bind, Except.bind, h]
    simp only [bind, Except.bind, s.get?_setBytes_of_ne hk bytes]

/-- Writes to different locations can be made in either order. -/
theorem setBytes_comm (s : Store) {l k : Location} (h : l ≠ k) (a b : List UInt8) :
    (s.setBytes l a).setBytes k b = (s.setBytes k b).setBytes l a := by
  simp only [setBytes, List.map_map, Function.comp_def]
  congr 1
  refine List.map_congr_left fun entry _ => ?_
  by_cases hl : entry.1 = l
  · simp [hl, h]
  · by_cases hk : entry.1 = k
    · simp [hk, Ne.symm h]
    · simp [hl, hk]

/-- What a path is read as depends on where it leads to only. -/
theorem readText_congr {t : Store} {p : FilePath} (h : t.follow p = s.follow p) :
    t.readText p = s.readText p := by
  rw [readText, readText, readBytes, readBytes, h]

end Store

namespace Command

variable {config : Config} {fix : Bool} {s : Store}

/-! ## Visits -/

theorem visit_congr {t : Store} {p : FilePath} (h : t.follow p = s.follow p) :
    visit config fix t p = visit config fix s p := by
  rw [visit, visit, Store.readText_congr h]

/-- What a visit reports. -/
def Visit.found (v : Visit) : List Diagnostic :=
  match v.outcome with
  | .ok (some ds) => ds
  | _ => []

theorem lintVisit_outcome_ne (name : Text) (text : List Char) :
    (lintVisit config name text).outcome ≠ .ok none := by
  unfold lintVisit
  dsimp only
  rw [Ne, mapError_eq_ok_iff]
  intro h
  obtain ⟨ds, -, hds⟩ := map_eq_ok h
  exact nomatch hds

theorem fixVisit_outcome_ne (name : Text) (text : List Char) :
    (fixVisit config name text).outcome ≠ .ok none := by
  unfold fixVisit
  generalize fixSource config (some name) text = fixed
  obtain ⟨log, outcome⟩ := fixed
  cases outcome with
  | error e => simp
  | ok r =>
    -- What a fix leaves is linted, whether or not it is written.
    dsimp only
    split <;> exact lintVisit_outcome_ne name r.output

/-- The files that count as failures are those that cannot be read. -/
theorem visit_failed_iff (p : FilePath) :
    (visit config fix s p).outcome = .ok none ↔ (s.readText p).isOk = false := by
  unfold visit
  cases s.readText p with
  | error e => simp [Except.isOk, Except.toBool]
  | ok text =>
    simp only [Except.isOk, Except.toBool, reduceCtorEq, iff_false]
    split
    · exact fixVisit_outcome_ne p.text text
    · exact lintVisit_outcome_ne p.text text

/-- Only a file that is read and is to be fixed is written. -/
theorem visit_written_eq_none {p : FilePath} (h : fix = false ∨ (s.readText p).isOk = false) :
    (visit config fix s p).written = none := by
  unfold visit
  cases hread : s.readText p with
  | error e => rfl
  | ok text =>
    obtain rfl | hfails := h
    · rfl
    · rw [hread] at hfails
      exact nomatch hfails

/-! ## What visits write -/

/-- Paths that do not lead to the same file. -/
def Apart (s : Store) (p q : FilePath) : Prop := ∀ l, s.fileAt? p = some l → s.fileAt? q ≠ some l

theorem Apart.symm {p q : FilePath} (h : Apart s p q) : Apart s q p := fun l hq hp => h l hp hq

/-- The store with what a visit to a file of `s` writes. -/
def deposit (config : Config) (fix : Bool) (s t : Store) (p : FilePath) : Store :=
  match (visit config fix s p).written, s.fileAt? p with
  | some text, some l => t.setBytes l (Utf8.encode text)
  | _, _ => t

/-- What a visit writes goes to the file that was visited. -/
theorem store_add_visit (q : Progress) {p : FilePath} (h : q.store.follow p = s.follow p) :
    (q.add p (visit config fix q.store p)).store = deposit config fix s q.store p := by
  rw [store_add, visit_congr h, deposit]
  cases (visit config fix s p).written with
  | none => rfl
  | some text =>
    dsimp only
    rw [Store.writeText, h, Store.fileAt?]
    split <;> simp_all

/-- A file at another location is found as it was. -/
theorem follow_deposit {t : Store} {p q : FilePath} (hp : t.follow p = s.follow p)
    (hq : t.follow q = s.follow q) (hapart : Apart s p q) :
    (deposit config fix s t p).follow q = s.follow q := by
  unfold deposit
  split
  · rename_i text l _ hl
    obtain ⟨bytes, hfollow⟩ := Store.fileAt?_eq_some_iff.1 hl
    rw [Store.follow_setBytes (get?_of_follow (hp.trans hfollow)), hq]
    rw [Store.fileAt?, hq]
    exact hapart l hl
  · exact hq

/-- What is not written to stays as it is. -/
theorem get?_deposit {t : Store} {p : FilePath} {l : Location}
    (h : s.fileAt? p = some l → (visit config fix s p).written = none) :
    (deposit config fix s t p).get? l = t.get? l := by
  unfold deposit
  split
  · rename_i text k hwritten hk
    apply t.get?_setBytes_of_ne
    rintro rfl
    rw [h hk] at hwritten
    exact nomatch hwritten
  · rfl

theorem deposit_comm (t : Store) {p q : FilePath} (hapart : Apart s p q) :
    deposit config fix s (deposit config fix s t p) q =
      deposit config fix s (deposit config fix s t q) p := by
  unfold deposit
  cases (visit config fix s p).written with
  | none => rfl
  | some text =>
    cases hp : s.fileAt? p with
    | none => rfl
    | some l =>
      cases (visit config fix s q).written with
      | none => rfl
      | some text' =>
        cases hq : s.fileAt? q with
        | none => rfl
        | some k =>
          -- Only when both visits write does the order matter, and then they write to two files.
          have hne : l ≠ k := by
            rintro rfl
            exact hapart l hp hq
          exact t.setBytes_comm hne _ _

/-! ## Runs -/

theorem add_of_ok (q : Progress) (p : FilePath) {v : Visit} {r : Option (List Diagnostic)}
    (h : v.outcome = .ok r) :
    q.add p v = ⟨(q.add p v).store, q.log ++ v.log, q.diagnostics ++ v.found,
      q.failures + (if r = none then 1 else 0), q.crash⟩ := by
  unfold Progress.add Visit.found
  rw [h]
  cases r <;> simp

/-- A run over files that are apart from each other, in terms of the visits to the files as they are
    in `s`: a step of it finds the files that are left as they were. -/
theorem lintFiles_eq {files : List FilePath} {q : Progress} (hcrash : q.crash = none)
    (hsame : ∀ p ∈ files, q.store.follow p = s.follow p) (hapart : files.Pairwise (Apart s))
    (hreturns : ∀ p ∈ files, ∃ r, (visit config fix s p).outcome = .ok r) :
    lintFiles config fix q files =
      ⟨files.foldl (deposit config fix s) q.store,
        q.log ++ files.flatMap fun p => (visit config fix s p).log,
        q.diagnostics ++ files.flatMap fun p => (visit config fix s p).found,
        q.failures + files.countP fun p => !(s.readText p).isOk, none⟩ := by
  induction files generalizing q with
  | nil =>
    obtain ⟨store, log, diagnostics, failures, crash⟩ := q
    obtain rfl : crash = none := hcrash
    simp [lintFiles]
  | cons p rest ih =>
    obtain ⟨r, hr⟩ := hreturns p List.mem_cons_self
    have hp := hsame p List.mem_cons_self
    obtain ⟨hthis, hrest⟩ := List.pairwise_cons.1 hapart
    have hnext := add_of_ok q p ((congrArg Visit.outcome (visit_congr hp)).trans hr)
    rw [store_add_visit q hp, visit_congr hp, hcrash] at hnext
    -- A visit that returns counts as a failure if the file could not be read.
    have hfailed : (if r = none then 1 else 0) = if (!(s.readText p).isOk) = true then 1 else 0 := by
      have hiff : r = none ↔ (s.readText p).isOk = false := by
        rw [← @visit_failed_iff config fix s p, hr, Except.ok.injEq]
      simp only [hiff, Bool.not_eq_true']
    -- The write goes to this file, so that those that are left are found as before.
    have hleft : ∀ p' ∈ rest, (deposit config fix s q.store p).follow p' = s.follow p' :=
      fun p' hp' => follow_deposit hp (hsame p' (List.mem_cons_of_mem _ hp')) (hthis p' hp')
    rw [lintFiles, visit_congr hp, hnext]
    dsimp only [Option.isSome_none]
    rw [if_neg (by decide), ih rfl hleft hrest fun p' hp' => hreturns p' (List.mem_cons_of_mem _ hp')]
    simp only [List.foldl_cons, List.flatMap_cons, List.append_assoc, List.countP_cons, hfailed]
    congr 1
    omega

/-- What is written to files apart from each other is the same in each order. -/
theorem foldl_deposit_perm {files files' : List FilePath} (hapart : files.Pairwise (Apart s))
    (h : files'.Perm files) (t : Store) :
    files'.foldl (deposit config fix s) t = files.foldl (deposit config fix s) t := by
  have hsymm : Std.Symm (Apart s) := ⟨fun _ _ => Apart.symm⟩
  have hcomm : ∀ p ∈ files, ∀ q ∈ files, ∀ t, deposit config fix s (deposit config fix s t p) q =
      deposit config fix s (deposit config fix s t q) p := by
    intro p hp q hq t
    by_cases hpq : p = q
    · rw [hpq]
    · exact deposit_comm t (hapart.forall hp hq hpq)
  exact (h.symm.foldl_eq' hcomm t).symm

theorem get?_foldl_deposit {files : List FilePath} {l : Location}
    (h : ∀ p ∈ files, s.fileAt? p = some l → (visit config fix s p).written = none) (t : Store) :
    (files.foldl (deposit config fix s) t).get? l = t.get? l := by
  induction files generalizing t with
  | nil => rfl
  | cons p rest ih =>
    rw [List.foldl_cons, ih fun q hq => h q (List.mem_cons_of_mem _ hq)]
    exact get?_deposit (h p List.mem_cons_self)

/-- A run over files from the start. -/
def lintAll (config : Config) (fix : Bool) (s : Store) (files : List FilePath) : Progress :=
  lintFiles config fix ⟨s, [], [], 0, none⟩ files

/-- A run over one file ends early when the visit to it does not return. -/
theorem crash_lintAll_singleton_iff {p : FilePath} :
    (lintAll config fix s [p]).crash = none ↔ ∃ r, (visit config fix s p).outcome = .ok r := by
  have hone : (lintAll config fix s [p]).crash =
      (Progress.add ⟨s, [], [], 0, none⟩ p (visit config fix s p)).crash := by
    rw [lintAll, lintFiles]
    split <;> rfl
  rw [hone]
  unfold Progress.add
  cases (visit config fix s p).outcome with
  | error e => simp
  | ok r => cases r <;> simp

/-- **Files are linted apart.**  Some paths lead to different files, and a run over each of them alone
    returns.  A run over them in any order `files'` then comes to what the runs over each alone come to,
    one after the other, and counts the files that cannot be read.  It leaves the same store in every
    order: each file as the run over it alone does, everything else and what cannot be read as it
    was, and all as it was if nothing is to be fixed. -/
theorem files_linted_apart (config : Config) (fix : Bool) (s : Store) {files files' : List FilePath}
    (hapart : files.Pairwise (Apart s))
    (hreturns : ∀ p ∈ files, (lintAll config fix s [p]).crash = none) (horder : files'.Perm files) :
    let r := lintAll config fix s files'
    r.crash = none ∧
      r.diagnostics = files'.flatMap (fun p => (lintAll config fix s [p]).diagnostics) ∧
      r.log = files'.flatMap (fun p => (lintAll config fix s [p]).log) ∧
      r.failures = files.countP (fun p => !(s.readText p).isOk) ∧
      r.store = (lintAll config fix s files).store ∧
      (∀ p ∈ files, ∀ l, s.fileAt? p = some l →
        r.store.get? l = (lintAll config fix s [p]).store.get? l) ∧
      (∀ l, (∀ p ∈ files, s.fileAt? p = some l → (s.readText p).isOk = false) →
        r.store.get? l = s.get? l) ∧
      (fix = false → r.store = s) := by
  intro r
  have hvisits : ∀ p ∈ files, ∃ r, (visit config fix s p).outcome = .ok r := fun p hp =>
    crash_lintAll_singleton_iff.1 (hreturns p hp)
  -- A run over files that are apart from each other, from the start.
  have hrun : ∀ {fs : List FilePath}, fs.Pairwise (Apart s) → (∀ p ∈ fs, p ∈ files) →
      lintAll config fix s fs =
        ⟨fs.foldl (deposit config fix s) s, fs.flatMap fun p => (visit config fix s p).log,
          fs.flatMap fun p => (visit config fix s p).found,
          fs.countP fun p => !(s.readText p).isOk, none⟩ := by
    intro fs hfs hmem
    rw [lintAll, lintFiles_eq rfl (fun _ _ => rfl) hfs fun p hp => hvisits p (hmem p hp)]
    simp only [List.nil_append, Nat.zero_add]
  have hone : ∀ p ∈ files, (lintAll config fix s [p]).store = deposit config fix s s p ∧
      (lintAll config fix s [p]).log = (visit config fix s p).log ∧
      (lintAll config fix s [p]).diagnostics = (visit config fix s p).found := by
    intro p hp
    rw [hrun (List.pairwise_singleton _ p) (by simpa using hp)]
    simp
  have hmem : ∀ p ∈ files', p ∈ files := fun p hp => horder.mem_iff.1 hp
  have hr : r = _ := hrun (horder.symm.pairwise hapart Apart.symm) hmem
  have hstore : r.store = files.foldl (deposit config fix s) s := by
    rw [hr]
    exact foldl_deposit_perm hapart horder s
  refine ⟨by rw [hr], ?_, ?_, ?_, ?_, ?_, ?_, ?_⟩
  · rw [hr]
    exact List.flatMap_congr fun p hp => (hone p (hmem p hp)).2.2.symm
  · rw [hr]
    exact List.flatMap_congr fun p hp => (hone p (hmem p hp)).2.1.symm
  · rw [hr]
    exact horder.countP_eq _
  · rw [hstore, hrun hapart fun _ hp => hp]
  · intro p hp l hl
    -- In the order in which the file comes first, nothing is written to it afterwards.
    obtain ⟨before, after, rfl⟩ := List.append_of_mem hp
    have hfirst : (p :: (before ++ after)).Perm (before ++ p :: after) := List.perm_middle.symm
    have hothers := (List.pairwise_cons.1 (hfirst.symm.pairwise hapart Apart.symm)).1
    rw [hstore, ← foldl_deposit_perm hapart hfirst, List.foldl_cons, (hone p hp).1]
    exact get?_foldl_deposit (fun q hq hql => absurd hql (hothers q hq l hl)) _
  · intro l hl
    rw [hstore]
    exact get?_foldl_deposit (fun p hp hpl => visit_written_eq_none (.inr (hl p hp hpl))) s
  · rintro rfl
    rw [hstore]
    refine List.foldl_fixed' (fun p => ?_) files
    rw [deposit, visit_written_eq_none (.inl rfl)]

/-- A file with a path to fix, and one that is no text: taken in the other order, too, the first one is
    fixed and the second one stays as it is. -/
theorem files_linted_apart_unreadable :
    let a := FilePath.parse "a.js"
    let b := FilePath.parse "b.js"
    let s : Store := ⟨[], [([("a.js" : Text)], .file (Utf8.encode "_.get(o, ['a']);".toList)),
      ([("b.js" : Text)], .file [0xFF])]⟩
    let r := lintAll {} true s [b, a]
    r.failures = 1 ∧ r.store = (lintAll {} true s [a, b]).store ∧
      r.store.get? ["a.js"] = some (.file (Utf8.encode "_.get(o, 'a');".toList)) ∧
      r.store.get? ["b.js"] = some (.file [0xFF]) := by
  intro a b s r
  have ha : s.fileAt? a = some [("a.js" : Text)] := by decide +kernel
  have hb : s.fileAt? b = some [("b.js" : Text)] := by decide +kernel
  -- The two names stand for different files.
  have hapart : [a, b].Pairwise (Apart s) := by
    rw [List.pairwise_pair]
    intro l hal hbl
    rw [ha] at hal
    rw [hb, ← hal] at hbl
    exact absurd hbl (by decide)
  have hreturns : ∀ p ∈ [a, b], (lintAll {} true s [p]).crash = none := by
    decide +kernel
  obtain ⟨-, -, -, hfailures, hstore, hfixed, hkept, -⟩ :=
    files_linted_apart {} true s hapart hreturns (List.Perm.swap a b [])
  refine ⟨hfailures.trans (by decide +kernel), hstore, ?_, ?_⟩
  · rw [hfixed a List.mem_cons_self _ ha]
    decide +kernel
  · rw [hkept ["b.js"] ?_]
    · decide +kernel
    · decide +kernel

end Command

end LodashStyle
