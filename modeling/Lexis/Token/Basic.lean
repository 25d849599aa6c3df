/-
  Lexis.Token.Basic

  Tokens: a kind, the text it was made from, and where that text stands.

  The lexeme of an error token is the message of its error; every other token that a scan yields
  carries its source text.
-/

import Lexis.Number.Numeral
import Lexis.Token.Kind
import Lexis.Token.LexicalError
import Lexis.Token.Span

namespace Lexis

/-- A token of the source; `line` is that of its first character, from 1. -/
structure Token where
  kind : Kind
  lexeme : String
  line : Nat
  span : Span
  deriving DecidableEq, Inhabited

namespace Token

/-- The token that reports an error over a span. -/
def ofError (e : LexicalError) (line : Nat) (span : Span) : Token :=
  ⟨.error, e.message, line, span⟩

/-- Whether a token is the end of its source. -/
def isEof (t : Token) : Bool :=
  t.kind == .eof

/-- Whether a token stands for an error. -/
def isError (t : Token) : Bool :=
  t.kind == .error

/-- The error that an error token reports. -/
def error? (t : Token) : Option LexicalError :=
  if t.isError then LexicalError.ofMessage? t.lexeme else none

/-- The double that a number token denotes. -/
def value? (t : Token) : Option Binary64 :=
  if t.kind = .number then (Numeral.read? t.lexeme.toList).map Numeral.toBinary64 else none

/-- A token in one line: its line, kind and quoted lexeme. -/
def display (t : Token) : String :=
  toString t.line ++ " " ++ t.kind.name ++ " '" ++ t.lexeme ++ "'"

@[simp] theorem error?_ofError (e : LexicalError) (line : Nat) (span : Span) :
    (ofError e line span).error? = some e := by
  simp [ofError, error?, isError, LexicalError.ofMessage?_message]

/-- Only an error token reports an error, and its lexeme is the message of that error. -/
theorem error?_eq_some {t : Token} {e : LexicalError} (h : t.error? = some e) :
    t.isError = true ∧ t.lexeme = e.message := by
  unfold error? at h
  split at h
  next herror => exact ⟨herror, (LexicalError.message_of_ofMessage? h).symm⟩
  next => cases h

end Token

end Lexis
