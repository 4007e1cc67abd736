import LodashStyle.Command.Run
import LodashStyle.Proofs.FixPasses

/-!
# What fixing does to the bytes of a file

A file is read with `\n` as its only line end and written as it was read, so spans of fixes count
bytes of a text that is not quite the file.  A `Cell` is one byte of the text together with the
bytes of the file it was read from; replacing spans of cells replaces them in the text and in the
file at once, which says what the file ought to become.

Which spans are replaced is told by the tree of the text.  That of a text with a syntax error is empty
and nothing is replaced in it, so the results say something about files without syntax errors only.

## Key results

- `flatMap_file_cells`, `map_text_cells`: the cells of a file are the file, and are its text
- `Passes.exists_substituted`: what a row of passes does to a text can be done to the cells
- `map_text_eq_flatMap_file_iff`: cells are the same in text and file exactly without carriage returns
- `fix_run_keeps_bytes_iff`: a file that was fixed differs from the file it ought to become exactly
  by the carriage returns of line ends outside the replaced spans
-/

namespace LodashStyle

open Lint

/-! ## Cells -/

/-- A byte of a text and what it was read from in the file: itself, or a line end. -/
inductive Cell where
  | byte (b : UInt8)
  | returnNewline
  | loneReturn
  deriving DecidableEq, Repr

namespace Cell

/-- The bytes in the file. -/
def file : Cell → List UInt8
  | .byte b => [b]
  | .returnNewline => [0x0D, 0x0A]
  | .loneReturn => [0x0D]

/-- The byte in the text. -/
def text : Cell → UInt8
  | .byte b => b
  | .returnNewline => 0x0A
  | .loneReturn => 0x0A

/-- Whether the cell is a line end with a carriage return. -/
def hasReturn : Cell → Bool
  | .byte _ => false
  | .returnNewline => true
  | .loneReturn => true

/-- The cells of a file. -/
def ofFile : List UInt8 → List Cell
  | [] => []
  | 0x0D :: 0x0A :: rest => .returnNewline :: ofFile rest
  | b :: rest => (if b = 0x0D then .loneReturn else .byte b) :: ofFile rest

/-- The cells of a replacement text. -/
def ofFix (f : Fix) : List Cell := f.bytes.map .byte

end Cell

/-- The cells of a file hold its bytes. -/
theorem flatMap_file_cells (bytes : List UInt8) : (Cell.ofFile bytes).flatMap Cell.file = bytes := by
  -- The cases are those of the cells: a pair, and any other byte.
  induction bytes using Cell.ofFile.induct with
  | case1 => rfl
  | case2 rest ih => rw [Cell.ofFile, List.flatMap_cons, ih]; rfl
  | case3 b rest hnot ih =>
    rw [Cell.ofFile.eq_3 _ _ hnot, List.flatMap_cons, ih]
    split
    · rename_i hb
      rw [hb]
      rfl
    · rfl

/-- A byte that is no carriage return is a cell of its own. -/
theorem ofFile_cons {b : UInt8} (h : b ≠ 0x0D) (rest : List UInt8) :
    Cell.ofFile (b :: rest) = .byte b :: Cell.ofFile rest := by
  rw [Cell.ofFile.eq_3 _ _ (fun _ hb _ => h hb), if_neg h]

theorem ofFile_append {bytes : List UInt8} (h : ∀ b ∈ bytes, b ≠ 0x0D) (rest : List UInt8) :
    Cell.ofFile (bytes ++ rest) = bytes.map .byte ++ Cell.ofFile rest := by
  induction bytes with
  | nil => rfl
  | cons b bytes ih =>
    rw [List.cons_append, ofFile_cons (h b List.mem_cons_self),
      ih fun c hc => h c (List.mem_cons_of_mem b hc)]
    rfl

/-- The byte of an ASCII character occurs in that character only. -/
private theorem eq_of_mem_encodeChar {c : Char} {b : UInt8} (h : b ∈ Utf8.encodeChar c)
    (hb : b.toNat < 0x80) : c.toNat = b.toNat := by
  -- In a sequence of several bytes every byte is `0x80` or more.
  have hseq := Utf8.sequence_encodeChar c
  generalize Utf8.encodeChar c = bytes at h hseq
  generalize c.toNat = n at hseq
  cases hseq with
  | one ha =>
    rw [List.mem_singleton.1 h]
  | two ha htail =>
    rw [Utf8.isTail_iff] at htail
    simp only [List.mem_cons, List.not_mem_nil, or_false] at h
    obtain rfl | rfl := h <;> omega
  | three ha hsecond htail =>
    rw [Utf8.isSecond_iff] at hsecond
    rw [Utf8.isTail_iff] at htail
    simp only [List.mem_cons, List.not_mem_nil, or_false] at h
    obtain rfl | rfl | rfl := h <;> omega
  | four ha hsecond htail htail' =>
    rw [Utf8.isSecond_iff] at hsecond
    rw [Utf8.isTail_iff] at htail htail'
    simp only [List.mem_cons, List.not_mem_nil, or_false] at h
    obtain rfl | rfl | rfl | rfl := h <;> omega

/-- The bytes of a character other than a carriage return hold none. -/
private theorem not_return_of_mem {c : Char} (hc : c ≠ '\r') {b : UInt8}
    (h : b ∈ Utf8.encodeChar c) : b ≠ 0x0D := by
  rintro rfl
  exact hc (Char.toNat_inj.1 (eq_of_mem_encodeChar h (by decide)))

/-- A text that starts with the byte of a newline starts with a newline. -/
private theorem newline_of_encode {cs : List Char} {rest : List UInt8}
    (h : Utf8.encode cs = 0x0A :: rest) : ∃ more, cs = '\n' :: more := by
  cases cs with
  | nil => exact nomatch h
  | cons c cs =>
    rw [Utf8.encode_cons] at h
    -- The first byte of the text is the first one of its first character.
    have hmem : (0x0A : UInt8) ∈ Utf8.encodeChar c := by
      cases hbytes : Utf8.encodeChar c with
      | nil => exact absurd hbytes (String.utf8EncodeChar_ne_nil)
      | cons b bytes =>
        rw [hbytes, List.cons_append] at h
        injection h with hb _
        rw [hb]
        exact List.mem_cons_self
    have hc : c.toNat = '\n'.toNat := eq_of_mem_encodeChar hmem (by decide)
    exact ⟨cs, by rw [Char.toNat_inj.1 hc]⟩

/-- The cells of a file are read as its text with `\n` as the only line end. -/
theorem map_text_cells (cs : List Char) :
    (Cell.ofFile (Utf8.encode cs)).map Cell.text = Utf8.encode (normalizeLines cs) := by
  induction cs using normalizeLines.induct with
  | case1 => rfl
  | case2 rest ih =>
    have hbytes : Utf8.encode ('\r' :: '\n' :: rest) = 0x0D :: 0x0A :: Utf8.encode rest := rfl
    rw [hbytes, Cell.ofFile, normalizeLines, List.map_cons, ih]
    rfl
  | case3 c rest hnot ih =>
    rw [normalizeLines.eq_3 _ _ hnot, Utf8.encode_cons, Utf8.encode_cons, ← ih]
    by_cases hc : c = '\r'
    · -- A lone return: the newline that would make it a pair would be seen in the bytes.
      subst hc
      have hrest : ∀ more, 0x0D = (0x0D : UInt8) → Utf8.encode rest = 0x0A :: more → False := by
        intro more _ hmore
        obtain ⟨more', hrest⟩ := newline_of_encode hmore
        exact hnot more' rfl hrest
      have hbytes : Utf8.encodeChar '\r' ++ Utf8.encode rest = 0x0D :: Utf8.encode rest := rfl
      rw [hbytes, Cell.ofFile.eq_3 _ _ hrest, if_pos rfl, if_pos rfl]
      rfl
    · rw [ofFile_append (fun b hb => not_return_of_mem hc hb), if_neg hc, List.map_append,
        List.map_map]
      congr 1
      exact List.map_id _

/-- What is written agrees with the file exactly when no line end with a carriage return is left. -/
theorem map_text_eq_flatMap_file_iff (cells : List Cell) :
    cells.map Cell.text = cells.flatMap Cell.file ↔ ∀ c ∈ cells, c.hasReturn = false := by
  induction cells with
  | nil => simp
  | cons c cells ih =>
    rw [List.map_cons, List.flatMap_cons, List.forall_mem_cons, ← ih]
    cases c with
    | byte b => simp [Cell.text, Cell.file, Cell.hasReturn]
    | returnNewline => simp [Cell.text, Cell.file, Cell.hasReturn]
    | loneReturn => simp [Cell.text, Cell.file, Cell.hasReturn]

/-! ## Passes over cells -/

/-- The cells that passes over a text leave when each replaces the spans of its fixes in the cells
    it starts from. -/
inductive Substituted (config : Config) (file : Option Text) :
    List Cell → List Fix → List Cell → Prop where
  | none {u : List Cell} : Substituted config file u [] u
  | more {s : List Char} {r : FixResult} {u v w : List Cell} {fixes : List Fix}
    (htext : u.map Cell.text = Utf8.encode s) (hpass : pass config file s = .ok r)
    (hchanged : r.changed = true) (hreplaced : Fix.Replaced Cell.ofFix 0 r.applied u v)
    (hrest : Substituted config file v fixes w) :
    Substituted config file u (r.applied ++ fixes) w

variable {config : Config} {file : Option Text}

/-- A result with fixes has applied some. -/
private theorem applied_ne_nil {r : FixResult} (h : r.changed = true) : r.applied ≠ [] := by
  intro hnil
  rw [FixResult.changed, hnil] at h
  exact absurd h (by decide)

/-- The cells and the fixes leave no choice. -/
theorem Substituted.unique {u w w' : List Cell} {fixes : List Fix}
    (h : Substituted config file u fixes w) (h' : Substituted config file u fixes w') : w' = w := by
  induction h generalizing w' with
  | none =>
    generalize hfixes : [] = fixes at h'
    cases h' with
    | none => rfl
    | more _ _ hchanged _ _ =>
      have hnil := List.append_eq_nil_iff.1 hfixes.symm
      exact absurd hnil.1 (applied_ne_nil hchanged)
  | @more s r u v w fixes htext hpass hchanged hreplaced hrest ih =>
    generalize hfixes : r.applied ++ fixes = all at h'
    cases h' with
    | none =>
      have hnil := List.append_eq_nil_iff.1 hfixes
      exact absurd hnil.1 (applied_ne_nil hchanged)
    | @more s' r' _ v' _ fixes' htext' hpass' _ hreplaced' hrest' =>
      -- The text is known from the cells, so both chains start with the same pass.
      have hs : s' = s := Utf8.encode_inj (htext'.symm.trans htext)
      subst hs
      obtain rfl : r' = r := Except.ok.inj (hpass'.symm.trans hpass)
      obtain rfl : fixes = fixes' := List.append_cancel_left hfixes
      obtain rfl : v = v' := hreplaced.unique hreplaced'
      exact ih hrest'

/-- One pass over a text can be made over cells of the text. -/
theorem exists_replaced_cells {s : List Char} {r : FixResult} {u : List Cell}
    (hpass : pass config file s = .ok r) (htext : u.map Cell.text = Utf8.encode s) :
    ∃ v, Fix.Replaced Cell.ofFix 0 r.applied u v ∧ v.map Cell.text = Utf8.encode r.output := by
  obtain ⟨ds, -, happly⟩ := pass_eq_ok_iff.1 hpass
  obtain ⟨hsplice, happlied, -⟩ := applyFixes_eq_ok_iff.1 happly
  have hlength : u.length = (Utf8.encode s).length := by rw [← htext, List.length_map]
  have hfits : Fix.Fits (Utf8.encode s).length 0 r.applied := by
    rw [happlied]
    exact Fix.fits_select _ _ _
  -- A cell is a byte of the text, so the spans fit the cells as they fit the text.
  obtain ⟨v, hv⟩ : ∃ v, Fix.Replaced Cell.ofFix 0 r.applied (u.drop 0) v :=
    (hlength ▸ hfits).exists_replaced
  refine ⟨v, hv, ?_⟩
  -- In the text the same spans are replaced, by the bytes of the same texts.
  have hcells := hv.map Cell.text
  have hbytes : (fun f => (Cell.ofFix f).map Cell.text) = Fix.bytes := by
    funext f
    rw [Cell.ofFix, List.map_map]
    exact List.map_id _
  rw [hbytes, List.drop_zero, htext] at hcells
  rw [← happlied] at hsplice
  exact hcells.unique (hfits.replaced_of_splice hsplice)

/-- A row of passes over a text can be made over the cells of a file with that text. -/
theorem Lint.Passes.exists_substituted {n : Nat} {s t : List Char} {fixes : List Fix}
    (h : Passes config file n s fixes t) {u : List Cell} (htext : u.map Cell.text = Utf8.encode s) :
    ∃ w, Substituted config file u fixes w ∧ w.map Cell.text = Utf8.encode t := by
  induction h generalizing u with
  | none => exact ⟨u, .none, htext⟩
  | more hpass hchanged _ ih =>
    obtain ⟨v, hv, hvtext⟩ := exists_replaced_cells hpass htext
    obtain ⟨w, hw, hwtext⟩ := ih hvtext
    exact ⟨w, .more htext hpass hchanged hv hw, hwtext⟩

/-! ## A file in a run -/

namespace Command

/-- What stands where a path leads to. -/
theorem get?_of_follow {s : Store} {p : FilePath} {l : Location} {e : FileEntry}
    (h : s.follow p = .ok (l, e)) : s.get? l = some e := by
  unfold Store.follow at h
  cases hwalk : s.walk (s.start p) p.parts with
  | error fault =>
    rw [hwalk] at h
    exact nomatch h
  | ok l' =>
    rw [hwalk] at h
    cases hget : s.get? l' with
    | none => simp [bind, Except.bind, hget] at h
    | some e' =>
      simp only [bind, Except.bind, hget, Except.ok.injEq, Prod.mk.injEq] at h
      obtain ⟨rfl, rfl⟩ := h
      exact hget

/-- What a file of UTF-8 is read as. -/
theorem readText_of_follow {s : Store} {p : FilePath} {l : Location} {old : List UInt8}
    {cs : List Char} (h : s.follow p = .ok (l, .file old)) (hutf8 : Utf8.decode old = .ok cs) :
    s.readText p = .ok (normalizeLines cs) := by
  simp only [Store.readText, Store.readBytes, h, bind, Except.bind, hutf8]

/-- The text that fixing a text leaves to be written is that of a fix that applied something. -/
theorem written_fixVisit (name : Text) (text : List Char) :
    (fixVisit config name text).written =
      match (fixSource config (some name) text).outcome with
      | .error _ => none
      | .ok r => if r.changed then some r.output else none := by
  unfold fixVisit
  generalize fixSource config (some name) text = fixed
  obtain ⟨log, outcome⟩ := fixed
  cases outcome with
  | error e => rfl
  | ok r =>
    dsimp only
    split <;> rfl

/-- What a visit to a file that can be read comes to. -/
theorem visit_of_readText {s : Store} {p : FilePath} {text : List Char}
    (h : s.readText p = .ok text) : visit config true s p = fixVisit config p.text text := by
  unfold visit
  rw [h]
  rfl

/-- Only what a visit writes changes the store. -/
theorem store_add (p : Progress) (file : FilePath) (v : Visit) :
    (p.add file v).store = match v.written with
      | none => p.store
      | some text => p.store.writeText file text := by
  unfold Progress.add
  cases v.outcome with
  | error e => rfl
  | ok ds => cases ds <;> rfl

/-- A run over one more file goes on from where it was, unless it had ended. -/
theorem lintFiles_append {config : Config} {fix : Bool} {p : Progress} {before rest : List FilePath}
    (h : (lintFiles config fix p before).crash = none) :
    lintFiles config fix p (before ++ rest) =
      lintFiles config fix (lintFiles config fix p before) rest := by
  induction before generalizing p with
  | nil => rfl
  | cons file before ih =>
    rw [lintFiles] at h
    rw [List.cons_append, lintFiles, lintFiles]
    -- A run that has ended at this file would have ended before the others, too.
    split
    · rename_i hcrash
      rw [if_pos hcrash] at h
      rw [h] at hcrash
      exact absurd hcrash (by decide)
    · rename_i hcrash
      rw [if_neg hcrash] at h
      exact ih h

/-- The store after one more file. -/
theorem store_lintFiles_append {config : Config} {fix : Bool} {p : Progress}
    {before : List FilePath} {file : FilePath} (h : (lintFiles config fix p before).crash = none) :
    (lintFiles config fix p (before ++ [file])).store =
      ((lintFiles config fix p before).add file
        (visit config fix (lintFiles config fix p before).store file)).store := by
  rw [lintFiles_append h]
  generalize lintFiles config fix p before = q
  rw [lintFiles]
  split <;> rfl

/-- What a fix of a file of UTF-8 writes: nothing, or the text of cells in which the spans of the
    applied fixes were replaced. -/
theorem exists_substituted_of_fixSource {name : Text} {old : List UInt8} {cs : List Char}
    {r : FixResult} (hutf8 : Utf8.decode old = .ok cs)
    (hfix : (fixSource config (some name) (normalizeLines cs)).outcome = .ok r) :
    ∃ w, Substituted config (some name) (Cell.ofFile old) r.applied w ∧
      w.map Cell.text = Utf8.encode r.output := by
  obtain ⟨n, fixes, hpasses, happlied, -⟩ := fixFrom_ok hfix
  rw [List.nil_append] at happlied
  have htext : (Cell.ofFile old).map Cell.text = Utf8.encode (normalizeLines cs) := by
    rw [← Utf8.encode_of_decode hutf8]
    exact map_text_cells cs
  obtain ⟨w, hw, hwtext⟩ := hpasses.exists_substituted htext
  exact ⟨w, happlied ▸ hw, hwtext⟩

/-- **Fixing a file.**  A run that fixes comes to a file of UTF-8, whose cells hold its bytes.
    Everything else in the store stays as it was, and so does the file unless fixes are applied.  If
    they are, the file ought to become its own bytes with the replaced spans substituted, and it
    becomes that exactly when no line end with a carriage return is left outside the spans. -/
theorem fix_run_keeps_bytes_iff (config : Config) (start : Progress) (before : List FilePath)
    (file : FilePath) {l : Location} {old : List UInt8} {cs : List Char}
    (hrun : (lintFiles config true start before).crash = none)
    (hfile : (lintFiles config true start before).store.follow file = .ok (l, .file old))
    (hutf8 : Utf8.decode old = .ok cs) :
    let s := (lintFiles config true start before).store
    let t := (lintFiles config true start (before ++ [file])).store
    (Cell.ofFile old).flatMap Cell.file = old ∧
      (∀ k, k ≠ l → t.get? k = s.get? k) ∧
      ((∀ r, (fixSource config (some file.text) (normalizeLines cs)).outcome = .ok r →
        r.applied = []) → t = s) ∧
      ∀ r, (fixSource config (some file.text) (normalizeLines cs)).outcome = .ok r →
        r.applied ≠ [] →
        ∃ w, Substituted config (some file.text) (Cell.ofFile old) r.applied w ∧
          (∀ w', Substituted config (some file.text) (Cell.ofFile old) r.applied w' → w' = w) ∧
          t.get? l = some (.file (w.map Cell.text)) ∧
          (t.get? l = some (.file (w.flatMap Cell.file)) ↔ ∀ c ∈ w, c.hasReturn = false) := by
  intro s t
  have hget : s.get? l = some (.file old) := get?_of_follow hfile
  have hvisit : visit config true s file = fixVisit config file.text (normalizeLines cs) :=
    visit_of_readText (readText_of_follow hfile hutf8)
  -- The store changes by what the visit to the file writes.
  have ht : t = match (fixVisit config file.text (normalizeLines cs)).written with
      | none => s
      | some text => s.setBytes l (Utf8.encode text) := by
    have hadd : t = match (visit config true s file).written with
        | none => s
        | some text => s.writeText file text :=
      (store_lintFiles_append hrun).trans (store_add _ file _)
    rw [hadd, hvisit]
    cases (fixVisit config file.text (normalizeLines cs)).written with
    | none => rfl
    | some text =>
      change s.writeText file text = _
      rw [Store.writeText, hfile]
  rw [written_fixVisit] at ht
  refine ⟨flatMap_file_cells old, ?_, ?_, ?_⟩
  · intro k hk
    rw [ht]
    split
    · rfl
    · exact s.get?_setBytes_of_ne hk _
  · intro hnone
    rw [ht]
    cases hfix : (fixSource config (some file.text) (normalizeLines cs)).outcome with
    | error e => rfl
    | ok r =>
      have hchanged : ¬r.changed = true := by simp [FixResult.changed, hnone r hfix]
      dsimp only
      rw [if_neg hchanged]
  · intro r hfix happlied
    have hchanged : r.changed = true := by simp [FixResult.changed, happlied]
    rw [hfix] at ht
    dsimp only at ht
    rw [if_pos hchanged] at ht
    obtain ⟨w, hw, hwtext⟩ := exists_substituted_of_fixSource hutf8 hfix
    refine ⟨w, hw, fun w' hw' => hw.unique hw', ?_⟩
    rw [ht, Store.get?_setBytes_self hget, ← hwtext]
    refine ⟨rfl, ?_⟩
    rw [Option.some.injEq, FileEntry.file.injEq]
    exact map_text_eq_flatMap_file_iff w

/-- A file with one path to fix and a line end with a carriage return: the run drops the return. -/
theorem fix_run_drops_return :
    let file := FilePath.parse "a.js"
    let text := "_.get(o, ['a']);\r\n".toList
    let start : Progress := ⟨⟨[], [([("a.js" : Text)], .file (Utf8.encode text))]⟩, [], [], 0, none⟩
    let t := (lintFiles {} true start [file]).store
    ∃ w, Substituted {} (some file.text) (Cell.ofFile (Utf8.encode text))
        [⟨9, 14, "'a'", by decide⟩] w ∧
      t.get? ["a.js"] ≠ some (.file (w.flatMap Cell.file)) := by
  intro file text start t
  have hpass : pass {} (some file.text) (normalizeLines text) =
      .ok ⟨"_.get(o, 'a');\n".toList, [⟨9, 14, "'a'", by decide⟩], []⟩ :=
    eq_ok_of_toOption (by decide +kernel)
  have hfix : (fixSource {} (some file.text) (normalizeLines text)).outcome =
      .ok ⟨"_.get(o, 'a');\n".toList, [⟨9, 14, "'a'", by decide⟩], []⟩ :=
    eq_ok_of_toOption (by decide +kernel)
  have hfollow : start.store.follow file = .ok ([("a.js" : Text)], .file (Utf8.encode text)) :=
    eq_ok_of_toOption (by decide +kernel)
  obtain ⟨w, hw, hunique, -, hiff⟩ := (fix_run_keeps_bytes_iff {} start [] file rfl hfollow
    (Utf8.decode_encode text)).2.2.2 _ hfix (List.cons_ne_nil _ _)
  refine ⟨w, hw, fun hkept => ?_⟩
  -- The line end is behind the one span, so it is among the cells that are left.
  let u := Cell.ofFile (Utf8.encode text)
  have hspan : Fix.Replaced Cell.ofFix 0 [⟨9, 14, "'a'", by decide⟩]
      (u.take 9 ++ ((u.drop 9).take 5 ++ u.drop 14))
      (u.take 9 ++ (Cell.ofFix ⟨9, 14, "'a'", by decide⟩ ++ u.drop 14)) :=
    .span (by decide +kernel) (by decide +kernel) .rest
  have hu : u.take 9 ++ ((u.drop 9).take 5 ++ u.drop 14) = u := by decide +kernel
  rw [hu] at hspan
  have hw' := hunique _ (.more (by decide +kernel) hpass rfl hspan .none)
  have hreturn : Cell.returnNewline ∈ w := by
    rw [← hw']
    decide +kernel
  exact absurd (hiff.1 hkept _ hreturn) (by decide)

end Command

end LodashStyle
