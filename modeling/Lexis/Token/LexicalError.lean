/-
  Lexis.Token.LexicalError

  What can be wrong with a piece of source text.

  An error becomes a token whose lexeme is the message; the two messages differ, so the error can
  be read back from it.
-/

namespace Lexis

/-- Why a piece of text is no token of the language. -/
inductive LexicalError where
  /-- A character that starts no token. -/
  | unexpectedCharacter
  /-- A string without its closing quote. -/
  | unterminatedString
  deriving DecidableEq

namespace LexicalError

/-- An error in words, which its token has for a lexeme. -/
def message : LexicalError → String
  | unexpectedCharacter => "Unexpected character."
  | unterminatedString => "Unterminated string."

/-- The error that a message tells of. -/
def ofMessage? (s : String) : Option LexicalError :=
  [unexpectedCharacter, unterminatedString].find? (·.message == s)

theorem ofMessage?_message (e : LexicalError) : ofMessage? e.message = some e := by
  cases e <;> decide

theorem message_of_ofMessage? {s : String} {e : LexicalError} (h : ofMessage? s = some e) :
    e.message = s := by
  have hfound := List.find?_some h
  exact eq_of_beq hfound

end LexicalError

end Lexis
