/-
  Lexis.Dump.Basic

  Token lists as text and as JSON.

  In a text dump each token is one line: its line number, its kind, its escaped lexeme and, if
  asked for, its span. The escapes leave no line feed in a lexeme, and no white space but the
  space, so the spaces at the end of the line are all the blanks that are cut off there.
-/

import Lexis.Json
import Lexis.Text.Escaped
import Lexis.Token.Basic

namespace Lexis.Dump

/-- The tokens of one source, with the path it was read from. -/
structure File where
  path : String
  tokens : List Token
  deriving DecidableEq

/-! ## Text -/

/-- A number in base ten. -/
def digits (n : Nat) : List Char :=
  Nat.toDigits 10 n

/-- A text without the spaces at its end. -/
def trimEnd (cs : List Char) : List Char :=
  (cs.reverse.dropWhile (· = ' ')).reverse

/-- The span of a token as its line shows it. -/
def spanMark (s : Span) : List Char :=
  ' ' :: '@' :: (digits s.start ++ '.' :: '.' :: digits s.stop)

/-- The line of a token. -/
def tokenLine (spans : Bool) (t : Token) : String :=
  String.ofList <| trimEnd <|
    List.leftpad 4 ' ' (digits t.line) ++ ' ' :: List.rightpad 20 ' ' t.kind.name.toList ++
      ' ' :: Text.escape t.lexeme.toList ++ if spans then spanMark t.span else []

/-- The lines of a file's tokens. -/
def fileLines (spans : Bool) (f : File) : List String :=
  f.tokens.map (tokenLine spans)

/-- The line that names a file before its tokens. -/
def headerLine (f : File) : String :=
  "==> " ++ f.path ++ " <=="

/-- The lines of a dump; files are named if there are several. -/
def lines (spans : Bool) (files : List File) : List String :=
  files.flatMap fun f => (if 1 < files.length then [headerLine f] else []) ++ fileLines spans f

/-- A text dump: its lines, each with its line feed. -/
def text (spans : Bool) (files : List File) : String :=
  String.join ((lines spans files).map (· ++ "\n"))

/-! ## JSON -/

/-- The record of a token. -/
def tokenRecord (t : Token) : Json :=
  .object [("kind", .string t.kind.name), ("lexeme", .string t.lexeme), ("line", .number t.line),
    ("start", .number t.span.start), ("end", .number t.span.stop)]

/-- The record of a file. -/
def fileRecord (f : File) : Json :=
  .object [("file", .string f.path), ("tokens", .array (f.tokens.map tokenRecord))]

/-- A JSON dump. -/
def json (files : List File) : String :=
  (Json.array (files.map fileRecord)).pretty

end Lexis.Dump
