/-
  Lexis.Text.Classes

  The character classes that decide which token a character can start or continue.

  All of them are ASCII: a letter or digit of any other script belongs to none.
-/

namespace Lexis.Text

/-- Decimal digits, which start and continue numbers. -/
def isDigit (c : Char) : Bool :=
  '0' ≤ c && c ≤ '9'

/-- ASCII letters and the underscore, which start words. -/
def isWordStart (c : Char) : Bool :=
  ('a' ≤ c && c ≤ 'z') || ('A' ≤ c && c ≤ 'Z') || c == '_'

/-- Characters that continue a word. -/
def isWordPart (c : Char) : Bool :=
  isWordStart c || isDigit c

/-- Characters that separate tokens and belong to none. -/
def isBlank (c : Char) : Bool :=
  c == ' ' || c == '\t' || c == '\r' || c == '\n'

end Lexis.Text
