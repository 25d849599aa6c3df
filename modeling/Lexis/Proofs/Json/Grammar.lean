/-
  Lexis.Proofs.Json.Grammar

  What a text stands for as JSON.

  The rules are those of the JSON standard, with the value that each text stands for: all ways to
  write a character in a string, numbers with fraction and exponent, and space wherever it may
  stand. Half a surrogate pair stands for no character, so a string with one has no value.
-/

import Lexis.Proofs.Text.Digits
import Mathlib.Algebra.Field.Rat

namespace Lexis.Json

open Lexis.Text

/-- What a JSON text stands for. A number is exact, and an object has its members in order. -/
inductive Value where
  | null
  | bool (b : Bool)
  | number (q : ℚ)
  | string (s : String)
  | array (items : List Value)
  | object (members : List (String × Value))

/-! ## Space -/

/-- Whether a character may stand between the parts of a text. -/
def isSpace (c : Char) : Bool :=
  c == ' ' || c == '\t' || c == '\n' || c == '\r'

/-- A text of nothing but space. -/
def IsSpace (cs : List Char) : Prop :=
  ∀ c ∈ cs, isSpace c = true

theorem IsSpace.nil : IsSpace [] :=
  List.forall_mem_nil _

/-! ## Numbers -/

/-- One digit or more. -/
def IsDigits (ds : List Char) : Prop :=
  ds ≠ [] ∧ ∀ d ∈ ds, isDigit d = true

/-- The number that digits stand for. -/
def ofDigits (ds : List Char) : Nat :=
  Nat.ofDigitChars 10 ds 0

/-- What stands before the point. Zero is one digit, and no other number starts with it. -/
inductive IntText : List Char → ℚ → Prop where
  | zero : IntText ['0'] 0
  | digits {ds : List Char} (h : IsDigits ds) (hzero : ds.head? ≠ some '0') :
      IntText ds (ofDigits ds)

/-- What may stand behind the digits before the point: nothing, or a point with digits. -/
inductive FractionText : List Char → ℚ → Prop where
  | none : FractionText [] 0
  | digits {ds : List Char} (h : IsDigits ds) :
      FractionText ('.' :: ds) (ofDigits ds / 10 ^ ds.length)

/-- The digits of an exponent with their sign. -/
inductive PowerText : List Char → ℤ → Prop where
  | digits {ds : List Char} (h : IsDigits ds) : PowerText ds (ofDigits ds)
  | plus {ds : List Char} (h : IsDigits ds) : PowerText ('+' :: ds) (ofDigits ds)
  | minus {ds : List Char} (h : IsDigits ds) : PowerText ('-' :: ds) (-ofDigits ds)

/-- What may stand at the end of a number: nothing, or an exponent. -/
inductive ExponentText : List Char → ℤ → Prop where
  | none : ExponentText [] 0
  | power {c : Char} {cs : List Char} {e : ℤ} (hc : c = 'e' ∨ c = 'E') (h : PowerText cs e) :
      ExponentText (c :: cs) e

/-- A number without its sign. -/
inductive MagnitudeText : List Char → ℚ → Prop where
  | parts {i f x : List Char} {n q : ℚ} {e : ℤ} (hi : IntText i n) (hf : FractionText f q)
      (hx : ExponentText x e) : MagnitudeText (i ++ f ++ x) ((n + q) * 10 ^ e)

/-- A number, with a sign only if it is negative. -/
inductive NumberText : List Char → ℚ → Prop where
  | plain {cs : List Char} {q : ℚ} (h : MagnitudeText cs q) : NumberText cs q
  | minus {cs : List Char} {q : ℚ} (h : MagnitudeText cs q) : NumberText ('-' :: cs) (-q)

/-! ## Strings -/

/-- The characters that a backslash and one more character stand for, each behind that. -/
def shortEscapes : List (Char × Char) :=
  [('"', '"'), ('\\', '\\'), ('/', '/'), ('b', '\x08'), ('f', '\x0c'), ('n', '\n'), ('r', '\r'),
    ('t', '\t')]

/-- Whether a character may stand for itself. -/
def isPlain (c : Char) : Bool :=
  0x20 ≤ c.toNat && c != '"' && c != '\\'

/-- Four hexadecimal digits. -/
def IsUnit (ds : List Char) (n : Nat) : Prop :=
  ds.length = 4 ∧ (∀ d ∈ ds, (hexValue? d).isSome = true) ∧ ofHex ds = n

/-- Whether a unit is the first of a surrogate pair. -/
def isHighSurrogate (n : Nat) : Bool :=
  0xD800 ≤ n && n < 0xDC00

/-- Whether a unit is the second of a surrogate pair. -/
def isLowSurrogate (n : Nat) : Bool :=
  0xDC00 ≤ n && n < 0xE000

/-- The code point of a surrogate pair. -/
def ofSurrogates (m n : Nat) : Nat :=
  0x10000 + (m - 0xD800) * 0x400 + (n - 0xDC00)

/-- The ways to write a character in a string. -/
inductive CharText : List Char → Char → Prop where
  | plain {c : Char} (h : isPlain c = true) : CharText [c] c
  | short {s c : Char} (h : (s, c) ∈ shortEscapes) : CharText ['\\', s] c
  | unit {ds : List Char} {c : Char} (h : IsUnit ds c.toNat) : CharText ('\\' :: 'u' :: ds) c
  | pair {ds es : List Char} {m n : Nat} {c : Char} (hds : IsUnit ds m) (hes : IsUnit es n)
      (hm : isHighSurrogate m = true) (hn : isLowSurrogate n = true)
      (hc : c.toNat = ofSurrogates m n) : CharText ('\\' :: 'u' :: (ds ++ '\\' :: 'u' :: es)) c

/-- Written characters in a row. -/
inductive CharsText : List Char → List Char → Prop where
  | nil : CharsText [] []
  | cons {t ts cs : List Char} {c : Char} (h : CharText t c) (hs : CharsText ts cs) :
      CharsText (t ++ ts) (c :: cs)

/-- A string is its written characters between quotes. -/
inductive StringText : List Char → String → Prop where
  | quoted {body : List Char} {s : String} (h : CharsText body s.toList) :
      StringText ('"' :: (body ++ ['"'])) s

/-! ## Values -/

/-- A value in an array or object, with what stands around it up to the commas. In an object its
    key stands in front of it. -/
structure Part (κ : Type) where
  front : List Char
  text : List Char
  behind : List Char
  key : κ
  value : Value

/-- The text of parts with commas between them. -/
def joined {κ : Type} : List (Part κ) → List Char
  | [] => []
  | [p] => p.front ++ p.text ++ p.behind
  | p :: ps => p.front ++ p.text ++ p.behind ++ ',' :: joined ps

/-- A key in front of its value, with the colon. -/
inductive KeyText : List Char → String → Prop where
  | colon {w t w' w'' : List Char} {s : String} (hw : IsSpace w) (h : StringText t s)
      (hw' : IsSpace w') (hw'' : IsSpace w'') : KeyText (w ++ t ++ w' ++ ':' :: w'') s

/-- The texts that are words, with the values that they stand for. -/
def words : List (List Char × Value) :=
  [(['n', 'u', 'l', 'l'], .null), (['t', 'r', 'u', 'e'], .bool true),
    (['f', 'a', 'l', 's', 'e'], .bool false)]

/-- The values that texts without space around them stand for. -/
inductive Denotes : List Char → Value → Prop where
  | word {cs : List Char} {v : Value} (h : (cs, v) ∈ words) : Denotes cs v
  | number {cs : List Char} {q : ℚ} (h : NumberText cs q) : Denotes cs (.number q)
  | string {cs : List Char} {s : String} (h : StringText cs s) : Denotes cs (.string s)
  | emptyArray {w : List Char} (hw : IsSpace w) : Denotes ('[' :: (w ++ [']'])) (.array [])
  | array {ps : List (Part Unit)} (hne : ps ≠ []) (hfront : ∀ p ∈ ps, IsSpace p.front)
      (hbehind : ∀ p ∈ ps, IsSpace p.behind) (h : ∀ p ∈ ps, Denotes p.text p.value) :
      Denotes ('[' :: (joined ps ++ [']'])) (.array (ps.map (·.value)))
  | emptyObject {w : List Char} (hw : IsSpace w) : Denotes ('\x7b' :: (w ++ ['\x7d'])) (.object [])
  | object {ps : List (Part String)} (hne : ps ≠ []) (hfront : ∀ p ∈ ps, KeyText p.front p.key)
      (hbehind : ∀ p ∈ ps, IsSpace p.behind) (h : ∀ p ∈ ps, Denotes p.text p.value) :
      Denotes ('\x7b' :: (joined ps ++ ['\x7d'])) (.object (ps.map fun p => (p.key, p.value)))

/-- A JSON text and the value that it stands for. -/
def IsText (cs : List Char) (v : Value) : Prop :=
  ∃ w t w', IsSpace w ∧ IsSpace w' ∧ Denotes t v ∧ cs = w ++ t ++ w'

end Lexis.Json
