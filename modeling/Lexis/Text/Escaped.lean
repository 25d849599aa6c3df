/-
  Lexis.Text.Escaped

  Texts written on one line with visible characters only.

  A backslash starts every escape and is itself escaped, so the written form determines the text.
  Common control characters have a short escape, other unprintable characters are written as
  `\u{…}` with their code point in hexadecimal. A combining character is escaped where it would
  attach to something else than the text: at the start of an escaped text, and everywhere in a
  quoted one.
-/

import Lexis.Text.Unprintable
import Lexis.Text.Combining

namespace Lexis.Text

/-- Which of the characters that could stand for themselves are escaped. -/
structure Escapes where
  apostrophe : Bool
  combining : Bool
  deriving DecidableEq

/-- A character by its code point, in lower-case hexadecimal. -/
def codePointEscape (c : Char) : List Char :=
  '\\' :: 'u' :: '\x7b' :: (Nat.toDigits 16 c.toNat ++ ['\x7d'])

/-- The written form of one character. -/
def escapeChar (escapes : Escapes) (c : Char) : List Char :=
  match c with
  | '\x00' => ['\\', '0']
  | '\t' => ['\\', 't']
  | '\r' => ['\\', 'r']
  | '\n' => ['\\', 'n']
  | '\\' => ['\\', '\\']
  | '"' => ['\\', '"']
  | c =>
    if c = '\x27' then if escapes.apostrophe then ['\\', c] else [c]
    else if escapes.combining && isCombining c then codePointEscape c
    else if isUnprintable c then codePointEscape c
    else [c]

/-- A text with its quotes, backslashes and unprintable characters escaped. -/
def escape : List Char → List Char
  | [] => []
  | c :: cs => escapeChar ⟨true, true⟩ c ++ cs.flatMap (escapeChar ⟨true, false⟩)

/-- A text between double quotes; an apostrophe needs no escape there. -/
def quote (cs : List Char) : List Char :=
  '"' :: (cs.flatMap (escapeChar ⟨false, true⟩) ++ ['"'])

end Lexis.Text
