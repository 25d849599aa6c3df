/-
  Lexis.Toml.Scalar

  TOML numbers, dates and times, each by the rule for its whole text.

  Integers keep their value and must fit in 64 bits with a sign. Floats, dates and times are only
  told apart from what is none.
-/

import Lexis.Number.Numeral
import Lexis.Toml.Text
import Lexis.Toml.Value

namespace Lexis.Toml

open Lexis.Text (isDigit)

/-! ## Integers -/

/-- Digits with the underscores taken out; an underscore stands between two digits. -/
def ungroup? (digit : Char → Bool) : List Char → Option (List Char)
  | [] => none
  | [d] => if digit d then some [d] else none
  | d :: '_' :: cs => if digit d then (ungroup? digit cs).map (d :: ·) else none
  | d :: cs => if digit d then (ungroup? digit cs).map (d :: ·) else none

/-- The digits of an unsigned decimal integer, which starts with zero only if it is zero. -/
def wholeDigits? (cs : List Char) : Option (List Char) :=
  match ungroup? isDigit cs with
  | some ('0' :: _ :: _) => none
  | digits => digits

/-- An integer if it fits in 64 bits with a sign. -/
def int64? (n : Int) : Option Int :=
  if -0x8000000000000000 ≤ n ∧ n < 0x8000000000000000 then some n else none

/-- The integer of grouped digits in a base. -/
def based? (base : Nat) (cs : List Char) : Option Int := do
  let isBaseDigit (c : Char) := (hexDigit? c).any (· < base)
  let digits ← ungroup? isBaseDigit cs
  int64? (digits.foldl (fun n d => base * n + (hexDigit? d).getD 0) 0 : Nat)

/-- The integer that a text stands for, in one of four bases and within 64 bits. -/
def integer? : List Char → Option Int
  | '0' :: 'x' :: cs => based? 16 cs
  | '0' :: 'o' :: cs => based? 8 cs
  | '0' :: 'b' :: cs => based? 2 cs
  | cs => do
    let (negative, body) := Numeral.splitSign cs
    let n : Int := Numeral.ofDigits (← wholeDigits? body)
    int64? (if negative then -n else n)

/-! ## Floats -/

/-- Whether a text is a row of digits, which may be grouped and may start with zero. -/
def isDigits (cs : List Char) : Bool :=
  (ungroup? isDigit cs).isSome

/-- Whether a text is `e` with an optional sign and digits. -/
def isExponent : List Char → Bool
  | e :: cs => (e == 'e' || e == 'E') && isDigits (Numeral.splitSign cs).2
  | [] => false

/-- Whether a text is a fraction, an exponent, or a fraction with an exponent. -/
def isFloatTail : List Char → Bool
  | '.' :: cs =>
    let isGrouped (c : Char) := isDigit c || c == '_'
    let rest := cs.dropWhile isGrouped
    isDigits (cs.takeWhile isGrouped) && (rest.isEmpty || isExponent rest)
  | cs => isExponent cs

/-- Whether a text is a float: a whole number with a fraction, an exponent or both, or a word.
    One that rounds to positive infinity is none. -/
def isFloat (cs : List Char) : Bool :=
  let (negative, body) := Numeral.splitSign cs
  let isGrouped (c : Char) := isDigit c || c == '_'
  body = ['i', 'n', 'f'] || body = ['n', 'a', 'n'] ||
    ((wholeDigits? (body.takeWhile isGrouped)).isSome && isFloatTail (body.dropWhile isGrouped) &&
      (Numeral.read? (body.filter (· ≠ '_'))).any fun n =>
        negative || n.toBinary64.magnitude < Binary64.infinite)

/-! ## Dates and times -/

/-- The number of two digits, if it lies in a range. -/
def twoDigits? (low high : Nat) (a b : Char) : Option Nat :=
  let n := Numeral.ofDigits [a, b]
  if isDigit a && isDigit b && low ≤ n && n ≤ high then some n else none

/-- Number of days of a month. -/
def daysIn (year month : Nat) : Nat :=
  if month = 2 then
    if year % 4 = 0 ∧ (year % 100 ≠ 0 ∨ year % 400 = 0) then 29 else 28
  else if month = 4 ∨ month = 6 ∨ month = 9 ∨ month = 11 then 30
  else 31

/-- Whether a text is a date of the calendar. -/
def isDate : List Char → Bool
  | [y, y', y'', y''', '-', m, m', '-', d, d'] =>
    [y, y', y'', y'''].all isDigit &&
      match twoDigits? 1 12 m m' with
      | some month =>
        (twoDigits? 1 (daysIn (Numeral.ofDigits [y, y', y'', y''']) month) d d').isSome
      | none => false
  | _ => false

/-- Reads a time of day, which has seconds and may have a fraction of one. -/
def readTime? : List Char → Option (List Char)
  | h :: h' :: ':' :: m :: m' :: ':' :: s :: s' :: cs =>
    if (twoDigits? 0 23 h h').isSome && (twoDigits? 0 59 m m').isSome &&
        (twoDigits? 0 60 s s').isSome then
      match cs with
      | '.' :: d :: r => if isDigit d then some (r.dropWhile isDigit) else none
      | _ => some cs
    else none
  | _ => none

/-- Whether a text is an offset from universal time, or nothing. -/
def isOffset : List Char → Bool
  | [] => true
  | [c] => c == 'Z' || c == 'z'
  | [sign, h, h', ':', m, m'] =>
    (sign == '+' || sign == '-') && (twoDigits? 0 23 h h').isSome && (twoDigits? 0 59 m m').isSome
  | _ => false

/-- Whether a text is a date, a time, or a date and a time with an optional offset. -/
def isDateTime (cs : List Char) : Bool :=
  isDate cs || readTime? cs = some [] ||
    (isDate (cs.take 10) &&
      match cs.drop 10 with
      | delimiter :: time =>
        (delimiter == 'T' || delimiter == 't' || delimiter == ' ') && (readTime? time).any isOffset
      | [] => false)

/-! ## Reading -/

/-- Characters that numbers, dates and times are made of; what may follow a value is none. -/
def isScalarPart (c : Char) : Bool :=
  Text.isWordPart c || c == '+' || c == '-' || c == '.' || c == ':'

/-- What a whole text denotes that is neither a string nor made of other values. -/
def scalar? (cs : List Char) : Option Value :=
  if cs = ['t', 'r', 'u', 'e'] then some (.boolean true)
  else if cs = ['f', 'a', 'l', 's', 'e'] then some (.boolean false)
  else if isDateTime cs then some .dateTime
  else if isFloat cs then some .float
  else (integer? cs).map .integer

/-- Reads a boolean, number, date or time. A date may have its time after one space. -/
def readScalar? (cs : List Char) : Option (Value × List Char) :=
  let word := cs.takeWhile isScalarPart
  let rest := cs.dropWhile isScalarPart
  match rest with
  | ' ' :: r =>
    let time := r.takeWhile isScalarPart
    if isDate word && !time.isEmpty then
      (scalar? (word ++ ' ' :: time)).map fun v => (v, r.dropWhile isScalarPart)
    else (scalar? word).map fun v => (v, rest)
  | _ => (scalar? word).map fun v => (v, rest)

end Lexis.Toml
