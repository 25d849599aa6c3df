/-
  Lexis.Text.Utf8

  Bytes decoded as UTF-8.

  A character is a byte below `0x80`, or a lead byte that fixes how many continuation bytes follow
  and how far the first of them may range; the narrower ranges shut out overlong forms, surrogates
  and numbers past the last code point. Bytes that are not UTF-8 have a defect: the first sequence
  that breaks off, either because the bytes end or because the next byte cannot continue it.
-/

namespace Lexis.Utf8

/-- Where and how bytes cease to be UTF-8. -/
inductive Defect where
  /-- The `length` bytes from `index` on begin a character that the next byte cannot continue,
      or are one byte that begins none. -/
  | invalid (length index : Nat)
  /-- The bytes from `index` to the end begin a character and do not complete it. -/
  | incomplete (index : Nat)
  deriving DecidableEq

/-- A defect in words. -/
def Defect.message : Defect → String
  | invalid length index =>
    "invalid utf-8 sequence of " ++ toString length ++ " bytes from index " ++ toString index
  | incomplete index => "incomplete utf-8 byte sequence from index " ++ toString index

/-- A character of which some bytes have been read. -/
structure Partial where
  /-- Number of bytes still to come. -/
  missing : Nat
  /-- Range of the next byte. -/
  low : UInt8
  high : UInt8
  /-- The bits read so far. -/
  code : Nat
  /-- Number of bytes read so far. -/
  taken : Nat
  deriving DecidableEq

/-- What a lead byte of several begins. -/
def lead? (b : UInt8) : Option Partial :=
  -- Two bytes: `0xC0` and `0xC1` could only begin overlong forms.
  if 0xC2 ≤ b ∧ b ≤ 0xDF then some ⟨1, 0x80, 0xBF, b.toNat % 32, 1⟩
  -- Three bytes: lower second bytes are overlong after `0xE0`, higher ones surrogates after `0xED`.
  else if b = 0xE0 then some ⟨2, 0xA0, 0xBF, b.toNat % 16, 1⟩
  else if b = 0xED then some ⟨2, 0x80, 0x9F, b.toNat % 16, 1⟩
  else if 0xE1 ≤ b ∧ b ≤ 0xEF then some ⟨2, 0x80, 0xBF, b.toNat % 16, 1⟩
  -- Four bytes: lower second bytes are overlong after `0xF0`, higher ones too large after `0xF4`.
  else if b = 0xF0 then some ⟨3, 0x90, 0xBF, b.toNat % 8, 1⟩
  else if 0xF1 ≤ b ∧ b ≤ 0xF3 then some ⟨3, 0x80, 0xBF, b.toNat % 8, 1⟩
  else if b = 0xF4 then some ⟨3, 0x80, 0x8F, b.toNat % 8, 1⟩
  else none

/-- Decodes the bytes that stand at an index, after the begun character if there is one; the index
    is then that of its lead byte. -/
def decodeFrom : Option Partial → Nat → List UInt8 → Except Defect (List Char)
  | none, _, [] => .ok []
  | some _, index, [] => .error (.incomplete index)
  | none, index, b :: bs =>
    if b < 0x80 then (decodeFrom none (index + 1) bs).map (Char.ofUInt8 b :: ·)
    else
      match lead? b with
      | some begun => decodeFrom (some begun) index bs
      | none => .error (.invalid 1 index)
  | some begun, index, b :: bs =>
    if begun.low ≤ b ∧ b ≤ begun.high then
      let code := begun.code * 64 + b.toNat % 64
      if begun.missing ≤ 1 then
        (decodeFrom none (index + begun.taken + 1) bs).map (Char.ofNat code :: ·)
      else decodeFrom (some ⟨begun.missing - 1, 0x80, 0xBF, code, begun.taken + 1⟩) index bs
    else .error (.invalid begun.taken index)

/-- The text that bytes are the UTF-8 form of. -/
def decode (bytes : List UInt8) : Except Defect (List Char) :=
  decodeFrom none 0 bytes

/-- The UTF-8 form of a text. -/
def encode (cs : List Char) : List UInt8 :=
  cs.flatMap String.utf8EncodeChar

@[simp] theorem encode_nil : encode [] = [] := rfl

@[simp] theorem encode_cons (c : Char) (cs : List Char) :
    encode (c :: cs) = String.utf8EncodeChar c ++ encode cs := rfl

@[simp] theorem encode_append (a b : List Char) : encode (a ++ b) = encode a ++ encode b :=
  List.flatMap_append

/-- The character that may mark the start of a text. -/
def byteOrderMark : Char := '\uFEFF'

/-- A text without the one mark that may stand before it. -/
def dropByteOrderMark : List Char → List Char
  | [] => []
  | c :: cs => if c = byteOrderMark then cs else c :: cs

end Lexis.Utf8
