/-
  Lexis.Text.Bytes

  Characters of a string read at a byte offset.

  A byte below `0x80` is a character of its own, so in a run of such bytes the byte `n` places on
  is the character `n` places on, and nothing has to be decoded to find it. Elsewhere characters
  are counted one after another.
-/

namespace Lexis.Text

/-- The byte of a string at an offset. -/
def byteAt? (s : String) (i : Nat) : Option UInt8 :=
  if h : (⟨i⟩ : String.Pos.Raw) < s.rawEndPos then some (s.getUTF8Byte ⟨i⟩ h) else none

/-- The character `n` places after byte offset `start`, if the bytes from there up to it are all
    ASCII. -/
def asciiAt? (s : String) (start n : Nat) : Option Char :=
  if start + n < s.utf8ByteSize &&
      (List.range (n + 1)).all fun i => (byteAt? s (start + i)).any (· < 0x80) then
    (byteAt? s (start + n)).map Char.ofUInt8
  else none

/-- The character `n` places after a position. -/
def nth? {s : String} (p : s.Pos) : Nat → Option Char
  | 0 => p.get?
  | n + 1 => if h : p = s.endPos then none else nth? (p.next h) n

end Lexis.Text
