/-
  Lexis.Toml.Text

  The parts of TOML text below values: blanks, comments, line ends, strings and keys.

  A reader takes a text and yields what it read with the rest, or nothing if the text does not
  start as it must.
-/

import Lexis.Text.Classes

namespace Lexis.Toml

/-! ## Blanks and comments -/

/-- Whether a character is a space within a line. -/
def isSpace (c : Char) : Bool :=
  c == ' ' || c == '\t'

/-- Characters of comments and literal strings: all but the controls, of which a tab counts as
    none. -/
def isPlain (c : Char) : Bool :=
  c == '\t' || (0x20 ≤ c.toNat && c.toNat ≠ 0x7F)

/-- A text without the spaces before it. -/
def skipSpace (cs : List Char) : List Char :=
  cs.dropWhile isSpace

/-- Skips the comment that a text may start with. -/
def skipComment : List Char → List Char
  | '#' :: cs => cs.dropWhile isPlain
  | cs => cs

/-- Reads a line end: a line feed that a carriage return may precede. -/
def readNewline? : List Char → Option (List Char)
  | '\n' :: cs => some cs
  | '\r' :: '\n' :: cs => some cs
  | _ => none

/-- Reads what may follow a statement on its line, and the end of the line or text. -/
def readLineEnd? (cs : List Char) : Option (List Char) :=
  match skipComment (skipSpace cs) with
  | [] => some []
  | cs => readNewline? cs

/-- Skips blanks, line ends and comments between the items of an array; `inComment` says that the
    text continues a comment. -/
def skipFiller (inComment : Bool) : List Char → List Char
  | [] => []
  | '\n' :: cs => skipFiller false cs
  | '\r' :: '\n' :: cs => skipFiller false cs
  | c :: cs =>
    if inComment then if isPlain c then skipFiller true cs else c :: cs
    else if isSpace c then skipFiller false cs
    else if c = '#' then skipFiller true cs
    else c :: cs

/-! ## Escapes -/

/-- The number that a hexadecimal digit stands for, in either case. -/
def hexDigit? (c : Char) : Option Nat :=
  if Text.isDigit c then some (c.toNat - '0'.toNat)
  else if 'a' ≤ c ∧ c ≤ 'f' then some (c.toNat - 'a'.toNat + 10)
  else if 'A' ≤ c ∧ c ≤ 'F' then some (c.toNat - 'A'.toNat + 10)
  else none

/-- The character of a code point in hexadecimal; surrogates are none. -/
def codePoint? (digits : List Char) : Option Char := do
  let n ← digits.foldlM (fun n d => (hexDigit? d).map (16 * n + ·)) 0
  if n.isValidChar then some (Char.ofNat n) else none

/-- What a letter after a backslash stands for. -/
def shortEscape? : Char → Option Char
  | 'b' => some '\x08'
  | 't' => some '\t'
  | 'n' => some '\n'
  | 'f' => some '\x0c'
  | 'r' => some '\r'
  | '"' => some '"'
  | '\\' => some '\\'
  | _ => none

/-! ## Strings -/

/-- What a reader yields with one more character in front. -/
def withChar (c : Char) (r : Option (List Char × List Char)) : Option (List Char × List Char) :=
  r.map fun (cs, rest) => (c :: cs, rest)

/-- Reads a basic string from after its opening quote. -/
def readBasic? : List Char → Option (List Char × List Char)
  | [] => none
  | '"' :: cs => some ([], cs)
  | '\\' :: 'u' :: a :: b :: c :: d :: cs =>
    (codePoint? [a, b, c, d]).bind (withChar · (readBasic? cs))
  | '\\' :: 'U' :: a :: b :: c :: d :: e :: f :: g :: h :: cs =>
    (codePoint? [a, b, c, d, e, f, g, h]).bind (withChar · (readBasic? cs))
  | '\\' :: c :: cs => (shortEscape? c).bind (withChar · (readBasic? cs))
  | c :: cs => if isPlain c then withChar c (readBasic? cs) else none

/-- Reads a basic string of several lines from after its opening quotes.

    Up to two quotes may stand before the closing three. After a backslash at the end of a line,
    blanks and line ends are left out, which `folding` says is going on. -/
def readLongBasic? (folding : Bool) : List Char → Option (List Char × List Char)
  | [] => none
  -- Of four or five quotes the last three close the string.
  | '"' :: '"' :: '"' :: '"' :: '"' :: cs => some (['"', '"'], cs)
  | '"' :: '"' :: '"' :: '"' :: cs => some (['"'], cs)
  | '"' :: '"' :: '"' :: cs => some ([], cs)
  | '\n' :: cs =>
    if folding then readLongBasic? true cs else withChar '\n' (readLongBasic? false cs)
  | '\r' :: '\n' :: cs =>
    if folding then readLongBasic? true cs else withChar '\n' (readLongBasic? false cs)
  | '\\' :: 'u' :: a :: b :: c :: d :: cs =>
    (codePoint? [a, b, c, d]).bind (withChar · (readLongBasic? false cs))
  | '\\' :: 'U' :: a :: b :: c :: d :: e :: f :: g :: h :: cs =>
    (codePoint? [a, b, c, d, e, f, g, h]).bind (withChar · (readLongBasic? false cs))
  | '\\' :: c :: cs =>
    match shortEscape? c with
    | some x => withChar x (readLongBasic? false cs)
    | none =>
      -- No letter of an escape is a blank, so a backslash before blanks can only fold a line.
      if (readNewline? (skipSpace (c :: cs))).isSome then readLongBasic? true (c :: cs) else none
  | c :: cs =>
    if folding && isSpace c then readLongBasic? true cs
    else if isPlain c then withChar c (readLongBasic? false cs)
    else none

/-- Reads a literal string from after its opening apostrophe. -/
def readLiteral? : List Char → Option (List Char × List Char)
  | [] => none
  | '\x27' :: cs => some ([], cs)
  | c :: cs => if isPlain c then withChar c (readLiteral? cs) else none

/-- Reads a literal string of several lines from after its opening apostrophes. -/
def readLongLiteral? : List Char → Option (List Char × List Char)
  | [] => none
  | '\x27' :: '\x27' :: '\x27' :: '\x27' :: '\x27' :: cs => some (['\x27', '\x27'], cs)
  | '\x27' :: '\x27' :: '\x27' :: '\x27' :: cs => some (['\x27'], cs)
  | '\x27' :: '\x27' :: '\x27' :: cs => some ([], cs)
  | '\n' :: cs => withChar '\n' (readLongLiteral? cs)
  | '\r' :: '\n' :: cs => withChar '\n' (readLongLiteral? cs)
  | c :: cs => if isPlain c then withChar c (readLongLiteral? cs) else none

/-- Drops the line end that may follow the opening of a string of several lines. -/
def skipNewline (cs : List Char) : List Char :=
  (readNewline? cs).getD cs

/-- Reads a string of any kind. -/
def readString? : List Char → Option (List Char × List Char)
  | '"' :: '"' :: '"' :: cs => readLongBasic? false (skipNewline cs)
  | '"' :: cs => readBasic? cs
  | '\x27' :: '\x27' :: '\x27' :: cs => readLongLiteral? (skipNewline cs)
  | '\x27' :: cs => readLiteral? cs
  | _ => none

/-! ## Keys -/

/-- Whether a character may stand in a key without quotes. -/
def isBareKey (c : Char) : Bool :=
  Text.isWordPart c || c == '-'

/-- Reads one key: bare, or a string on one line. -/
def readKey? : List Char → Option (String × List Char)
  | '"' :: cs => (readBasic? cs).map fun (key, rest) => (String.ofList key, rest)
  | '\x27' :: cs => (readLiteral? cs).map fun (key, rest) => (String.ofList key, rest)
  | cs =>
    let key := cs.takeWhile isBareKey
    if key.isEmpty then none else some (String.ofList key, cs.dropWhile isBareKey)

/-- Reads keys with points between them and blanks around them. -/
def readKeys? (cs : List Char) : Option (List String × List Char) := do
  let (key, rest) ← readKey? (skipSpace cs)
  match skipSpace rest with
  | '.' :: rest =>
    if rest.length < cs.length then
      let (keys, rest) ← readKeys? rest
      some (key :: keys, rest)
    else none
  | rest => some ([key], rest)
termination_by cs.length

/-- Longest row of keys that is read. -/
def maxKeys : Nat := 79

/-- Reads the keys that lead to a table or value: those before the last, and the last. -/
def readPath? (cs : List Char) : Option (List String × String × List Char) := do
  let (keys, rest) ← readKeys? cs
  if keys.length ≤ maxKeys then
    some (keys.dropLast, ← keys.getLast?, rest)
  else none

end Lexis.Toml
