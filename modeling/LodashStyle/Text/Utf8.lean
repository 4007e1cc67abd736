import LodashStyle.Text.Basic

/-! # UTF-8

Byte sequences of texts.  Writing fails on a surrogate; reading is strict and says
where and why it stopped.  A fault spans the bytes of the broken sequence that were
still acceptable, at least one.

* `encode`  bytes of characters
* `decode`  characters of bytes, or the first `DecodeFault` -/

namespace LodashStyle

namespace Utf8

/-- Why a byte sequence is not UTF-8. -/
inductive Reason where
  /-- No character starts with this byte. -/
  | start
  /-- The sequence is broken off by a byte that is no continuation of it. -/
  | continuation
  /-- The data ends inside a sequence. -/
  | truncated
  deriving DecidableEq, Repr

/-- The first place at which a byte sequence is not UTF-8: the bytes from `first` up to,
    not including, `stop`, of which `byte` is the first. -/
structure DecodeFault where
  first : Nat
  stop : Nat
  byte : UInt8
  reason : Reason
  deriving DecidableEq, Repr

/-- The bytes of one character. -/
def encodeChar (c : Char) : List UInt8 := String.utf8EncodeChar c

/-- The bytes of a list of characters. -/
def encode (cs : List Char) : List UInt8 := cs.flatMap encodeChar

/-- A continuation byte. -/
def isTail (b : UInt8) : Bool := 0x80 ≤ b && b < 0xC0

/-- The low six bits of a continuation byte. -/
def tailBits (b : UInt8) : Nat := b.toNat - 0x80

/-- Whether `b` may follow `a`, the first byte of a sequence of three or four bytes: longer
    forms than needed, surrogates and numbers beyond `0x10FFFF` are refused here. -/
def isSecond (a b : UInt8) : Bool :=
  isTail b && (a != 0xE0 || 0xA0 ≤ b) && (a != 0xED || b < 0xA0) &&
    (a != 0xF0 || 0x90 ≤ b) && (a != 0xF4 || b < 0x90)

/-- Reads bytes from offset `pos` on. -/
def decodeFrom (pos : Nat) : List UInt8 → Except DecodeFault (List Char)
  | [] => .ok []
  | a :: rest =>
    if a < 0x80 then
      (decodeFrom (pos + 1) rest).map (Char.ofNat a.toNat :: ·)
    else if a < 0xC2 || 0xF4 < a then
      .error ⟨pos, pos + 1, a, .start⟩
    else if a < 0xE0 then
      match rest with
      | [] => .error ⟨pos, pos + 1, a, .truncated⟩
      | b :: rest =>
        if isTail b then
          (decodeFrom (pos + 2) rest).map (Char.ofNat ((a.toNat - 0xC0) * 0x40 + tailBits b) :: ·)
        else
          .error ⟨pos, pos + 1, a, .continuation⟩
    else if a < 0xF0 then
      match rest with
      | [] => .error ⟨pos, pos + 1, a, .truncated⟩
      | b :: rest =>
        if isSecond a b then
          match rest with
          | [] => .error ⟨pos, pos + 2, a, .truncated⟩
          | c :: rest =>
            if isTail c then
              (decodeFrom (pos + 3) rest).map
                (Char.ofNat (((a.toNat - 0xE0) * 0x40 + tailBits b) * 0x40 + tailBits c) :: ·)
            else
              .error ⟨pos, pos + 2, a, .continuation⟩
        else
          .error ⟨pos, pos + 1, a, .continuation⟩
    else
      match rest with
      | [] => .error ⟨pos, pos + 1, a, .truncated⟩
      | b :: rest =>
        if isSecond a b then
          match rest with
          | [] => .error ⟨pos, pos + 2, a, .truncated⟩
          | c :: rest =>
            if isTail c then
              match rest with
              | [] => .error ⟨pos, pos + 3, a, .truncated⟩
              | d :: rest =>
                if isTail d then
                  (decodeFrom (pos + 4) rest).map
                    (Char.ofNat ((((a.toNat - 0xF0) * 0x40 + tailBits b) * 0x40 + tailBits c)
                      * 0x40 + tailBits d) :: ·)
                else
                  .error ⟨pos, pos + 3, a, .continuation⟩
            else
              .error ⟨pos, pos + 2, a, .continuation⟩
        else
          .error ⟨pos, pos + 1, a, .continuation⟩

/-- The characters of a byte sequence, or the first fault in it. -/
def decode (bytes : List UInt8) : Except DecodeFault (List Char) := decodeFrom 0 bytes

/-- A digit below sixteen as a hexadecimal character. -/
def hexDigit (n : Nat) : Char := Nat.digitChar (n % 16)

/-- The wording of a reason. -/
def Reason.message : Reason → String
  | .start => "invalid start byte"
  | .continuation => "invalid continuation byte"
  | .truncated => "unexpected end of data"

/-- The wording of a fault: one byte is shown, several are given by their offsets. -/
def DecodeFault.message (fault : DecodeFault) : Text :=
  let place : Text :=
    if fault.stop = fault.first + 1 then
      "byte 0x" ++ Text.ofChars [hexDigit (fault.byte.toNat / 16), hexDigit fault.byte.toNat]
        ++ (" in position " : Text) ++ Text.ofNat fault.first
    else
      "bytes in position " ++ Text.ofNat fault.first ++ ("-" : Text) ++ Text.ofNat (fault.stop - 1)
  "'utf-8' codec can't decode " ++ place ++ (": " : Text) ++ (fault.reason.message : Text)

end Utf8

/-- The bytes of a text, if it holds no surrogate. -/
def Text.utf8? (t : Text) : Option (List UInt8) := t.toChars?.map Utf8.encode

end LodashStyle
