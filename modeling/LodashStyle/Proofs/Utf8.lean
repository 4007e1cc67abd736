import LodashStyle.Text.Utf8
import LodashStyle.Proofs.Outcomes

/-!
# Reading and writing UTF-8

`decode` and `encode` are inverse to each other: every list of characters is read back from
its bytes, and bytes that are read are the bytes of what was read.  So a text may be cut and
joined byte by byte as long as the cuts are between characters.

## Key results

- `decode_encode`: `decode (encode cs) = .ok cs`
- `encode_of_decode`: `decode bytes = .ok cs → encode cs = bytes`
- `decode_eq_ok_iff`: the two together
- `prefix_of_length_le`: places between characters are told by the bytes before them
-/

namespace LodashStyle.Utf8

/-! ## One character -/

theorem isTail_iff {b : UInt8} : isTail b = true ↔ 0x80 ≤ b.toNat ∧ b.toNat < 0xC0 := by
  simp [isTail, UInt8.le_iff_toNat_le, UInt8.lt_iff_toNat_lt]

theorem isSecond_iff {a b : UInt8} :
    isSecond a b = true ↔ (0x80 ≤ b.toNat ∧ b.toNat < 0xC0) ∧ (a.toNat = 0xE0 → 0xA0 ≤ b.toNat) ∧
      (a.toNat = 0xED → b.toNat < 0xA0) ∧ (a.toNat = 0xF0 → 0x90 ≤ b.toNat) ∧
      (a.toNat = 0xF4 → b.toNat < 0x90) := by
  simp only [isSecond, Bool.and_eq_true, Bool.or_eq_true, bne_iff_ne, decide_eq_true_eq, isTail_iff,
    UInt8.le_iff_toNat_le, UInt8.lt_iff_toNat_lt, ne_eq, ← UInt8.toNat_inj, UInt8.reduceToNat]
  omega

/-- The byte sequences of the character numbered `n`, by length. -/
inductive Sequence : List UInt8 → Nat → Prop where
  | one {a : UInt8} (ha : a.toNat < 0x80) : Sequence [a] a.toNat
  | two {a b : UInt8} (ha : 0xC2 ≤ a.toNat ∧ a.toNat < 0xE0) (hb : isTail b = true) :
    Sequence [a, b] ((a.toNat - 0xC0) * 0x40 + tailBits b)
  | three {a b c : UInt8} (ha : 0xE0 ≤ a.toNat ∧ a.toNat < 0xF0) (hb : isSecond a b = true)
    (hc : isTail c = true) :
    Sequence [a, b, c] (((a.toNat - 0xE0) * 0x40 + tailBits b) * 0x40 + tailBits c)
  | four {a b c d : UInt8} (ha : 0xF0 ≤ a.toNat ∧ a.toNat ≤ 0xF4) (hb : isSecond a b = true)
    (hc : isTail c = true) (hd : isTail d = true) :
    Sequence [a, b, c, d]
      ((((a.toNat - 0xF0) * 0x40 + tailBits b) * 0x40 + tailBits c) * 0x40 + tailBits d)

/-- No sequence denotes a surrogate or a number beyond the code points. -/
theorem Sequence.isValidChar {bytes : List UInt8} {n : Nat} (h : Sequence bytes n) : n.isValidChar := by
  unfold Nat.isValidChar
  cases h with
  | one ha => omega
  | two ha hb =>
    rw [isTail_iff] at hb
    unfold tailBits
    omega
  | three ha hb hc =>
    rw [isSecond_iff] at hb
    rw [isTail_iff] at hc
    unfold tailBits
    omega
  | four ha hb hc hd =>
    rw [isSecond_iff] at hb
    rw [isTail_iff] at hc hd
    unfold tailBits
    omega

theorem Sequence.toNat_ofNat {bytes : List UInt8} {n : Nat} (h : Sequence bytes n) :
    (Char.ofNat n).toNat = n := by
  rw [Char.ofNat, dif_pos h.isValidChar]
  rfl

/-- A byte by its number. -/
private theorem toNat_byte {n : Nat} (h : n < 256) : (UInt8.ofNat n).toNat = n :=
  UInt8.toNat_ofNat_of_lt h

/-- The byte with the number of a byte. -/
private theorem byte_eq {n : Nat} {b : UInt8} (h : n = b.toNat) : UInt8.ofNat n = b := by
  rw [h, UInt8.ofNat_toNat]

/-- A character is written as a sequence of its number. -/
theorem sequence_encodeChar (c : Char) : Sequence (encodeChar c) c.toNat := by
  have hvalid : c.toNat < 0xD800 ∨ 0xDFFF < c.toNat ∧ c.toNat < 0x110000 := c.valid
  unfold encodeChar String.utf8EncodeChar
  simp only [show c.val.toNat = c.toNat from rfl]
  -- From here on only the number of the character counts, and of each byte only its number.
  generalize c.toNat = v at hvalid
  split
  · have ha : (UInt8.ofNat v).toNat = v := toNat_byte (by omega)
    have hseq := Sequence.one (a := UInt8.ofNat v) (by omega)
    rwa [ha] at hseq
  split
  · have ha := toNat_byte (n := v / 64 % 0x20 + 0xC0) (by omega)
    have hb := toNat_byte (n := v % 0x40 + 0x80) (by omega)
    generalize UInt8.ofNat (v / 64 % 0x20 + 0xC0) = a at ha ⊢
    generalize UInt8.ofNat (v % 0x40 + 0x80) = b at hb ⊢
    have hn : (a.toNat - 0xC0) * 0x40 + tailBits b = v := by
      unfold tailBits
      omega
    rw [← hn]
    exact .two (by omega) (isTail_iff.2 (by omega))
  split
  · have ha := toNat_byte (n := v / 4096 % 0x10 + 0xE0) (by omega)
    have hb := toNat_byte (n := v / 64 % 0x40 + 0x80) (by omega)
    have hc := toNat_byte (n := v % 0x40 + 0x80) (by omega)
    generalize UInt8.ofNat (v / 4096 % 0x10 + 0xE0) = a at ha ⊢
    generalize UInt8.ofNat (v / 64 % 0x40 + 0x80) = b at hb ⊢
    generalize UInt8.ofNat (v % 0x40 + 0x80) = c at hc ⊢
    have hn : ((a.toNat - 0xE0) * 0x40 + tailBits b) * 0x40 + tailBits c = v := by
      unfold tailBits
      omega
    rw [← hn]
    exact .three (by omega) (isSecond_iff.2 (by omega)) (isTail_iff.2 (by omega))
  · have ha := toNat_byte (n := v / 262144 % 0x08 + 0xF0) (by omega)
    have hb := toNat_byte (n := v / 4096 % 0x40 + 0x80) (by omega)
    have hc := toNat_byte (n := v / 64 % 0x40 + 0x80) (by omega)
    have hd := toNat_byte (n := v % 0x40 + 0x80) (by omega)
    generalize UInt8.ofNat (v / 262144 % 0x08 + 0xF0) = a at ha ⊢
    generalize UInt8.ofNat (v / 4096 % 0x40 + 0x80) = b at hb ⊢
    generalize UInt8.ofNat (v / 64 % 0x40 + 0x80) = c at hc ⊢
    generalize UInt8.ofNat (v % 0x40 + 0x80) = d at hd ⊢
    have hn : (((a.toNat - 0xF0) * 0x40 + tailBits b) * 0x40 + tailBits c) * 0x40 + tailBits d = v := by
      unfold tailBits
      omega
    rw [← hn]
    exact .four (by omega) (isSecond_iff.2 (by omega)) (isTail_iff.2 (by omega)) (isTail_iff.2 (by omega))

/-- A sequence is what its character is written as. -/
theorem Sequence.encodeChar_ofNat {bytes : List UInt8} {n : Nat} (h : Sequence bytes n) :
    encodeChar (Char.ofNat n) = bytes := by
  have hn : (Char.ofNat n).val.toNat = n := h.toNat_ofNat
  unfold encodeChar String.utf8EncodeChar
  simp only [hn]
  -- The length of the sequence bounds the number, which picks the branch of the encoder.
  cases h with
  | one ha => rw [if_pos (by omega), UInt8.ofNat_toNat]
  | two ha hb =>
    rw [isTail_iff] at hb
    unfold tailBits
    rw [if_neg (by omega), if_pos (by omega), List.cons.injEq, List.cons.injEq]
    exact ⟨byte_eq (by omega), byte_eq (by omega), rfl⟩
  | three ha hb hc =>
    rw [isSecond_iff] at hb
    rw [isTail_iff] at hc
    unfold tailBits
    rw [if_neg (by omega), if_neg (by omega), if_pos (by omega), List.cons.injEq, List.cons.injEq,
      List.cons.injEq]
    exact ⟨byte_eq (by omega), byte_eq (by omega), byte_eq (by omega), rfl⟩
  | four ha hb hc hd =>
    rw [isSecond_iff] at hb
    rw [isTail_iff] at hc hd
    unfold tailBits
    rw [if_neg (by omega), if_neg (by omega), if_neg (by omega), List.cons.injEq, List.cons.injEq,
      List.cons.injEq, List.cons.injEq]
    exact ⟨byte_eq (by omega), byte_eq (by omega), byte_eq (by omega), byte_eq (by omega), rfl⟩

/-! ## Whole texts -/

@[simp] theorem encode_nil : encode [] = [] := rfl

@[simp] theorem encode_cons (c : Char) (cs : List Char) : encode (c :: cs) = encodeChar c ++ encode cs := by
  simp [encode]

@[simp] theorem encode_append (cs ds : List Char) : encode (cs ++ ds) = encode cs ++ encode ds := by
  simp [encode]

/-- Bytes are compared by their numbers. -/
private theorem not_lt_byte {a b : UInt8} (h : b.toNat ≤ a.toNat) : ¬a < b := by
  rw [UInt8.lt_iff_toNat_lt]
  exact Nat.not_lt.2 h

/-- A byte that starts a sequence of several bytes. -/
private theorem not_bad_start {a : UInt8} (h : 0xC2 ≤ a.toNat ∧ a.toNat ≤ 0xF4) :
    ¬a < 0x80 ∧ ¬(a < 0xC2 || 0xF4 < a) = true := by
  simp only [UInt8.lt_iff_toNat_lt, Bool.or_eq_true, decide_eq_true_eq, UInt8.reduceToNat]
  omega

/-- Reading a sequence takes its bytes and yields its character. -/
theorem decodeFrom_append {bytes : List UInt8} {n : Nat} (h : Sequence bytes n) (pos : Nat)
    (rest : List UInt8) :
    decodeFrom pos (bytes ++ rest) =
      (decodeFrom (pos + bytes.length) rest).map (Char.ofNat n :: ·) := by
  -- The first byte picks the branch of the reader; the other bytes pass its tests.
  cases h with
  | one ha =>
    rw [List.singleton_append, decodeFrom.eq_def]
    exact if_pos (UInt8.lt_iff_toNat_lt.2 ha)
  | @two a b ha hb =>
    obtain ⟨h1, h2⟩ := not_bad_start (a := a) (by omega)
    have h3 : a < 0xE0 := UInt8.lt_iff_toNat_lt.2 ha.2
    simp only [List.cons_append, List.nil_append]
    rw [decodeFrom.eq_def]
    simp only [if_neg h1, if_neg h2, if_pos h3, if_pos hb, List.length_cons, List.length_nil]
  | @three a b c ha hb hc =>
    obtain ⟨h1, h2⟩ := not_bad_start (a := a) (by omega)
    have h3 : ¬a < 0xE0 := not_lt_byte ha.1
    have h4 : a < 0xF0 := UInt8.lt_iff_toNat_lt.2 ha.2
    simp only [List.cons_append, List.nil_append]
    rw [decodeFrom.eq_def]
    simp only [if_neg h1, if_neg h2, if_neg h3, if_pos h4, if_pos hb, if_pos hc, List.length_cons,
      List.length_nil]
  | @four a b c d ha hb hc hd =>
    obtain ⟨h1, h2⟩ := not_bad_start (a := a) (by omega)
    have h3 : ¬a < 0xE0 := not_lt_byte (Nat.le_trans (by decide) ha.1)
    have h4 : ¬a < 0xF0 := not_lt_byte ha.1
    simp only [List.cons_append, List.nil_append]
    rw [decodeFrom.eq_def]
    simp only [if_neg h1, if_neg h2, if_neg h3, if_neg h4, if_pos hb, if_pos hc, if_pos hd,
      List.length_cons, List.length_nil]

/-- Bytes that start with a sequence, read from `pos` on as the character of that sequence and what
    the other bytes are read as. -/
def ReadsSequence (pos : Nat) (bytes : List UInt8) (cs : List Char) : Prop :=
  ∃ first n rest more, Sequence first n ∧ bytes = first ++ rest ∧ cs = Char.ofNat n :: more ∧
    decodeFrom (pos + first.length) rest = .ok more

section FirstByte

variable {pos : Nat} {a : UInt8} {rest : List UInt8} {cs : List Char}

/-- A byte below `0x80` is read alone. -/
theorem readsSequence_one (ha : a.toNat < 0x80) (h : decodeFrom pos (a :: rest) = .ok cs) :
    ReadsSequence pos (a :: rest) cs := by
  have h1 : a < 0x80 := UInt8.lt_iff_toNat_lt.2 ha
  rw [decodeFrom.eq_def] at h
  simp only [if_pos h1] at h
  obtain ⟨more, hrest, hcs⟩ := map_eq_ok h
  exact ⟨_, _, rest, more, .one ha, rfl, hcs.symm, hrest⟩

/-- No text starts with a byte that is a continuation or would make a sequence too long. -/
theorem decodeFrom_bad_start (ha : 0x80 ≤ a.toNat) (hbad : a.toNat < 0xC2 ∨ 0xF4 < a.toNat) :
    decodeFrom pos (a :: rest) ≠ .ok cs := by
  intro h
  rw [decodeFrom.eq_def] at h
  simp only [Bool.or_eq_true, decide_eq_true_eq, UInt8.lt_iff_toNat_lt, UInt8.reduceToNat] at h
  rw [if_neg (Nat.not_lt.2 ha), if_pos hbad] at h
  exact nomatch h

/-- A byte from `0xC2` on and below `0xE0` is read with one continuation. -/
theorem readsSequence_two (ha : 0xC2 ≤ a.toNat ∧ a.toNat < 0xE0)
    (h : decodeFrom pos (a :: rest) = .ok cs) : ReadsSequence pos (a :: rest) cs := by
  obtain ⟨h1, h2⟩ := not_bad_start (a := a) (by omega)
  have h3 : a < 0xE0 := UInt8.lt_iff_toNat_lt.2 ha.2
  rw [decodeFrom.eq_def] at h
  simp only [if_neg h1, if_neg h2, if_pos h3] at h
  match rest, h with
  | b :: rest, h =>
    dsimp only at h
    split at h
    · rename_i hb
      obtain ⟨more, hrest, hcs⟩ := map_eq_ok h
      exact ⟨_, _, rest, more, .two ha hb, rfl, hcs.symm, hrest⟩
    · exact nomatch h

/-- A byte from `0xE0` on and below `0xF0` is read with two continuations. -/
theorem readsSequence_three (ha : 0xE0 ≤ a.toNat ∧ a.toNat < 0xF0)
    (h : decodeFrom pos (a :: rest) = .ok cs) : ReadsSequence pos (a :: rest) cs := by
  obtain ⟨h1, h2⟩ := not_bad_start (a := a) (by omega)
  have h3 : ¬a < 0xE0 := not_lt_byte ha.1
  have h4 : a < 0xF0 := UInt8.lt_iff_toNat_lt.2 ha.2
  rw [decodeFrom.eq_def] at h
  simp only [if_neg h1, if_neg h2, if_neg h3, if_pos h4] at h
  match rest, h with
  | b :: c :: rest, h =>
    dsimp only at h
    split at h
    · rename_i hb
      split at h
      · rename_i hc
        obtain ⟨more, hrest, hcs⟩ := map_eq_ok h
        exact ⟨_, _, rest, more, .three ha hb hc, rfl, hcs.symm, hrest⟩
      · exact nomatch h
    · exact nomatch h
  | [b], h =>
    -- The data ends inside the sequence.
    dsimp only at h
    split at h <;> exact nomatch h

/-- A byte from `0xF0` on and up to `0xF4` is read with three continuations. -/
theorem readsSequence_four (ha : 0xF0 ≤ a.toNat ∧ a.toNat ≤ 0xF4)
    (h : decodeFrom pos (a :: rest) = .ok cs) : ReadsSequence pos (a :: rest) cs := by
  obtain ⟨h1, h2⟩ := not_bad_start (a := a) (by omega)
  have h3 : ¬a < 0xE0 := not_lt_byte (Nat.le_trans (by decide) ha.1)
  have h4 : ¬a < 0xF0 := not_lt_byte ha.1
  rw [decodeFrom.eq_def] at h
  simp only [if_neg h1, if_neg h2, if_neg h3, if_neg h4] at h
  match rest, h with
  | b :: c :: d :: rest, h =>
    dsimp only at h
    split at h
    · rename_i hb
      split at h
      · rename_i hc
        split at h
        · rename_i hd
          obtain ⟨more, hrest, hcs⟩ := map_eq_ok h
          exact ⟨_, _, rest, more, .four ha hb hc hd, rfl, hcs.symm, hrest⟩
        · exact nomatch h
      · exact nomatch h
    · exact nomatch h
  -- The data ends inside the sequence.
  | [b, c], h =>
    dsimp only at h
    split at h
    · split at h <;> exact nomatch h
    · exact nomatch h
  | [b], h =>
    dsimp only at h
    split at h <;> exact nomatch h

end FirstByte

/-- Bytes that are read start with a sequence, and the rest of them is read too. -/
theorem decodeFrom_ok {pos : Nat} {bytes : List UInt8} {cs : List Char}
    (h : decodeFrom pos bytes = .ok cs) : bytes = [] ∧ cs = [] ∨ ReadsSequence pos bytes cs := by
  cases bytes with
  | nil =>
    injection h with h
    exact .inl ⟨rfl, h.symm⟩
  | cons a rest =>
    -- The first byte tells how long the sequence is.
    rcases (by omega : a.toNat < 0x80 ∨ (0x80 ≤ a.toNat ∧ (a.toNat < 0xC2 ∨ 0xF4 < a.toNat)) ∨
      (0xC2 ≤ a.toNat ∧ a.toNat < 0xE0) ∨ (0xE0 ≤ a.toNat ∧ a.toNat < 0xF0) ∨
      (0xF0 ≤ a.toNat ∧ a.toNat ≤ 0xF4)) with ha | ⟨ha, hbad⟩ | ha | ha | ha
    · exact .inr (readsSequence_one ha h)
    · exact absurd h (decodeFrom_bad_start ha hbad)
    · exact .inr (readsSequence_two ha h)
    · exact .inr (readsSequence_three ha h)
    · exact .inr (readsSequence_four ha h)

theorem decode_encode (cs : List Char) : decode (encode cs) = .ok cs := by
  suffices ∀ pos, decodeFrom pos (encode cs) = .ok cs from this 0
  induction cs with
  | nil => intro pos; rw [encode_nil, decodeFrom]
  | cons c cs ih =>
    intro pos
    rw [encode_cons, decodeFrom_append (sequence_encodeChar c), ih, Char.ofNat_toNat]
    rfl

/-- A text is known by its bytes. -/
theorem encode_inj {cs ds : List Char} (h : encode cs = encode ds) : cs = ds := by
  have hread := decode_encode cs
  rw [h, decode_encode] at hread
  exact (Except.ok.inj hread).symm

/-- Of two texts at the start of a source, the one that takes no more bytes is at the start of the
    other. -/
theorem prefix_of_length_le {source before both : List Char} (hbefore : before <+: source)
    (hboth : both <+: source) (hle : (encode before).length ≤ (encode both).length) : before <+: both := by
  obtain hpre | ⟨extra, rfl⟩ := List.prefix_or_prefix_of_prefix hbefore hboth
  · exact hpre
  · -- The other way round there are no characters in between.
    rw [encode_append, List.length_append] at hle
    have hnone : (encode extra).length = 0 := by omega
    obtain rfl : extra = [] := encode_inj (List.eq_nil_of_length_eq_zero hnone)
    simp

/-- Bytes that are read are written back. -/
theorem encode_of_decode {bytes : List UInt8} {cs : List Char} (h : decode bytes = .ok cs) :
    encode cs = bytes := by
  -- Each character takes a sequence off the bytes, so that the rest starts at any place.
  suffices ∀ pos, decodeFrom pos bytes = .ok cs → encode cs = bytes from this 0 h
  clear h
  induction cs generalizing bytes with
  | nil =>
    intro pos h
    obtain ⟨rfl, -⟩ | ⟨first, n, rest, more, -, -, hcs, -⟩ := decodeFrom_ok h
    · rfl
    · exact nomatch hcs
  | cons c cs ih =>
    intro pos h
    obtain ⟨-, hcs⟩ | ⟨first, n, rest, more, hfirst, rfl, hcs, hrest⟩ := decodeFrom_ok h
    · exact nomatch hcs
    · injection hcs with hc hmore
      subst hc hmore
      rw [encode_cons, hfirst.encodeChar_ofNat, ih _ hrest]

theorem decode_eq_ok_iff {bytes : List UInt8} {cs : List Char} :
    decode bytes = .ok cs ↔ bytes = encode cs := by
  constructor
  · intro h
    exact (encode_of_decode h).symm
  · rintro rfl
    exact decode_encode cs

end LodashStyle.Utf8
