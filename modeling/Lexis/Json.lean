/-
  Lexis.Json

  JSON values and their text.

  The values are those that dumps need: natural numbers, strings, arrays, and objects whose fields
  keep their order. One writer serves both layouts, which differ only in where lines break and in
  what follows a key.
-/

namespace Lexis

/-- A JSON value, of those that dumps are made of. -/
inductive Json where
  | number (n : Nat)
  | string (s : String)
  | array (items : List Json)
  | object (fields : List (String × Json))
  deriving Inhabited

namespace Json

/-! ## Strings -/

/-- A control character by its code point, which has at most two hexadecimal digits. -/
def controlEscape (c : Char) : List Char :=
  '\\' :: 'u' :: '0' :: '0' :: Nat.digitChar (c.toNat / 16) :: [Nat.digitChar (c.toNat % 16)]

/-- A character inside a string; all but quotes, backslashes and controls stand for themselves. -/
def escapeChar : Char → List Char
  | '"' => ['\\', '"']
  | '\\' => ['\\', '\\']
  | '\x08' => ['\\', 'b']
  | '\t' => ['\\', 't']
  | '\n' => ['\\', 'n']
  | '\x0c' => ['\\', 'f']
  | '\r' => ['\\', 'r']
  | c => if c.toNat < 0x20 then controlEscape c else [c]

/-- A string with its quotes. -/
def writeString (s : String) : List Char :=
  '"' :: (s.toList.flatMap escapeChar ++ ['"'])

/-! ## Layouts -/

/-- What stands between the parts of an array or object. -/
structure Layout where
  /-- What precedes each part and the closing bracket, at a depth of nesting. -/
  lineBreak : Nat → List Char
  /-- What separates a key from its value. -/
  afterKey : List Char

/-- Everything on one line, without spaces. -/
def compactLayout : Layout where
  lineBreak _ := []
  afterKey := [':']

/-- One part on each line, two spaces deeper than its bracket. -/
def prettyLayout : Layout where
  lineBreak depth := '\n' :: List.replicate (2 * depth) ' '
  afterKey := [':', ' ']

/-! ## Values -/

mutual

/-- The text of a value at a depth of nesting. -/
def write (layout : Layout) (depth : Nat) : Json → List Char
  | number n => Nat.toDigits 10 n
  | string s => writeString s
  | array [] => ['[', ']']
  | array items =>
    '[' :: (writeItems layout (depth + 1) items ++ layout.lineBreak depth ++ [']'])
  | object [] => ['{', '}']
  | object fields =>
    '{' :: (writeFields layout (depth + 1) fields ++ layout.lineBreak depth ++ ['}'])

/-- The items of an array, with a comma between them. -/
def writeItems (layout : Layout) (depth : Nat) : List Json → List Char
  | [] => []
  | [x] => layout.lineBreak depth ++ write layout depth x
  | x :: xs => layout.lineBreak depth ++ write layout depth x ++ ',' :: writeItems layout depth xs

/-- The fields of an object, with a comma between them. -/
def writeFields (layout : Layout) (depth : Nat) : List (String × Json) → List Char
  | [] => []
  | [(key, x)] =>
    layout.lineBreak depth ++ writeString key ++ layout.afterKey ++ write layout depth x
  | (key, x) :: xs =>
    layout.lineBreak depth ++ writeString key ++ layout.afterKey ++ write layout depth x ++
      ',' :: writeFields layout depth xs

end

/-- The text of a value on one line. -/
def compact (x : Json) : String :=
  String.ofList (x.write compactLayout 0)

/-- The text of a value over several lines. -/
def pretty (x : Json) : String :=
  String.ofList (x.write prettyLayout 0)

end Json

end Lexis
