/-
  Lexis.Proofs.Toml.Grammar

  What texts stand for as TOML, as far as settings are written with it.

  The rules are those of the TOML standard: booleans, integers in any of the four bases with their
  digits grouped or not, basic strings with every way to write a character, and bare keys. A
  document is laid out plainly: one key and its value on each line, the lines of a table behind its
  name in brackets, and empty lines before that.
-/

import Lexis.Proofs.Text.Digits
import Lexis.Toml.Value

namespace Lexis.Toml

open Lexis.Text

/-! ## Basic strings -/

/-- The characters that a backslash and one letter stand for, each behind its letter. -/
def escapeLetters : List (Char × Char) :=
  [('b', '\x08'), ('t', '\t'), ('n', '\n'), ('f', '\x0c'), ('r', '\r'), ('"', '"'), ('\\', '\\')]

/-- Whether a character may stand for itself: no control but the tab, and neither the quote nor the
    backslash. -/
def isUnescaped (c : Char) : Bool :=
  (c == '\t' || 0x20 ≤ c.toNat) && c.toNat != 0x7F && c != '"' && c != '\\'

/-- A number of hexadecimal digits that are the code point of a character. -/
def IsCode (length : Nat) (ds : List Char) (c : Char) : Prop :=
  ds.length = length ∧ (∀ d ∈ ds, (hexValue? d).isSome = true) ∧ ofHex ds = c.toNat

/-- The ways to write a character in a basic string. -/
inductive CharText : List Char → Char → Prop where
  | plain {c : Char} (h : isUnescaped c = true) : CharText [c] c
  | letter {s c : Char} (h : (s, c) ∈ escapeLetters) : CharText ['\\', s] c
  | short {ds : List Char} {c : Char} (h : IsCode 4 ds c) : CharText ('\\' :: 'u' :: ds) c
  | long {ds : List Char} {c : Char} (h : IsCode 8 ds c) : CharText ('\\' :: 'U' :: ds) c

/-- Written characters in a row. -/
inductive CharsText : List Char → List Char → Prop where
  | nil : CharsText [] []
  | cons {t ts cs : List Char} {c : Char} (h : CharText t c) (hs : CharsText ts cs) :
      CharsText (t ++ ts) (c :: cs)

/-! ## Integers -/

/-- Digits, with an underscore between two or without, and the digits alone. -/
inductive Grouped (digit : Char → Bool) : List Char → List Char → Prop where
  | one {d : Char} (h : digit d = true) : Grouped digit [d] [d]
  | next {d : Char} {cs ds : List Char} (h : digit d = true) (hs : Grouped digit cs ds) :
      Grouped digit (d :: cs) (d :: ds)
  | group {d : Char} {cs ds : List Char} (h : digit d = true) (hs : Grouped digit cs ds) :
      Grouped digit (d :: '_' :: cs) (d :: ds)

/-- Whether a character is a digit in a base up to sixteen. -/
def isDigitOf (base : Nat) (c : Char) : Bool :=
  (hexValue? c).any (· < base)

/-- The number that digits stand for in a base. -/
def ofBase (base : Nat) (ds : List Char) : Nat :=
  ds.foldl (fun n d => base * n + (hexValue? d).getD 0) 0

/-- The bases that are named, each behind its letter. -/
def bases : List (Char × Nat) :=
  [('x', 16), ('o', 8), ('b', 2)]

/-- A number in decimal. Only zero starts with the digit zero. -/
inductive DecimalText : List Char → Nat → Prop where
  | digits {cs ds : List Char} (h : Grouped isDigit cs ds)
      (hzero : ds.head? = some '0' → ds = ['0']) : DecimalText cs (Nat.ofDigitChars 10 ds 0)

/-- An integer, in base ten with its sign or in one of three other bases. -/
inductive IntegerText : List Char → Int → Prop where
  | plain {cs : List Char} {n : Nat} (h : DecimalText cs n) : IntegerText cs n
  | plus {cs : List Char} {n : Nat} (h : DecimalText cs n) : IntegerText ('+' :: cs) n
  | minus {cs : List Char} {n : Nat} (h : DecimalText cs n) : IntegerText ('-' :: cs) (-n)
  | based {letter : Char} {base : Nat} {cs ds : List Char} (hbase : (letter, base) ∈ bases)
      (h : Grouped (isDigitOf base) cs ds) :
      IntegerText ('0' :: letter :: cs) (ofBase base ds)

/-! ## Values -/

/-- An integer of 64 bits with a sign. -/
def InInt64 (n : Int) : Prop :=
  -0x8000000000000000 ≤ n ∧ n < 0x8000000000000000

/-- Whether an integer is in range can be evaluated. -/
instance (n : Int) : Decidable (InInt64 n) :=
  inferInstanceAs (Decidable (_ ∧ _))

/-- The texts of booleans, integers and basic strings. -/
inductive LeafText : List Char → Value → Prop where
  | boolean (b : Bool) : LeafText (if b then "true" else "false").toList (.boolean b)
  | integer {cs : List Char} {n : Int} (h : IntegerText cs n) (hrange : InInt64 n) :
      LeafText cs (.integer n)
  | string {body : List Char} {s : String} (h : CharsText body s.toList) :
      LeafText ('"' :: (body ++ ['"'])) (.string s)

/-! ## Documents -/

/-- A key that is written as it is. -/
def IsBareKey (key : String) : Prop :=
  key ≠ "" ∧ ∀ c ∈ key.toList, c.isAlphanum = true ∨ c = '_' ∨ c = '-'

-- The characters of the key are tried and not all characters that there are.
/-- Whether a key may stand without quotes can be evaluated. -/
instance (key : String) : Decidable (IsBareKey key) :=
  @instDecidableAnd _ _ inferInstance (List.decidableBAll _ key.toList)

/-- Lines with a key and its value each. -/
inductive LinesText : List Char → List (String × Value) → Prop where
  | nil : LinesText [] []
  | cons {key : String} {v : Value} {cs ls : List Char} {entries : List (String × Value)}
      (hkey : IsBareKey key) (hv : LeafText cs v) (hls : LinesText ls entries) :
      LinesText (key.toList ++ ' ' :: '=' :: ' ' :: (cs ++ '\n' :: ls)) ((key, v) :: entries)

/-- Tables, each with its name in brackets before its lines; empty lines may stand before that. -/
inductive SectionsText : List Char → List (String × List (String × Value)) → Prop where
  | nil : SectionsText [] []
  | cons {name : String} {empty : Nat} {ls ss : List Char} {entries : List (String × Value)}
      {sections : List (String × List (String × Value))} (hname : IsBareKey name)
      (hls : LinesText ls entries) (hss : SectionsText ss sections) :
      SectionsText (List.replicate empty '\n' ++ '[' :: (name.toList ++ ']' :: '\n' :: (ls ++ ss)))
        ((name, entries) :: sections)

/-- A document: the lines of its root table, then other tables. -/
def DocumentText (text : List Char) (entries : List (String × Value))
    (sections : List (String × List (String × Value))) : Prop :=
  ∃ ls ss, LinesText ls entries ∧ SectionsText ss sections ∧ text = ls ++ ss

end Lexis.Toml
