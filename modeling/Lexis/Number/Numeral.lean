/-
  Lexis.Number.Numeral

  Written numbers: how a text denotes a number, and the double it is read as.

  A numeral is an optional sign, then digits with an optional point among or around them and an
  optional exponent, or one of the words `inf`, `infinity` and `nan` in any case.
-/

import Lexis.Text.Classes
import Lexis.Number.Binary64

namespace Lexis

/-- What a written number denotes, before rounding. -/
inductive Numeral where
  /-- The value `coefficient * 10 ^ exponent`, with its sign. -/
  | decimal (negative : Bool) (coefficient : Nat) (exponent : Int)
  | infinity (negative : Bool)
  | notANumber
  deriving DecidableEq

namespace Numeral

open Lexis.Text

/-- The number that a row of digits denotes in base ten. -/
def ofDigits (ds : List Char) : Nat :=
  ds.foldl (fun n d => 10 * n + (d.toNat - '0'.toNat)) 0

/-- Splits an optional sign off; the flag says whether it was a minus. -/
def splitSign : List Char → Bool × List Char
  | '-' :: cs => (true, cs)
  | '+' :: cs => (false, cs)
  | cs => (false, cs)

/-- Reads what follows the digits: nothing, or `e` with an optional sign and digits. -/
def readExponent? : List Char → Option Int
  | [] => some 0
  | c :: cs =>
    let (negative, ds) := splitSign cs
    if (c == 'e' || c == 'E') && !ds.isEmpty && ds.all isDigit then
      some (if negative then -(ofDigits ds : Int) else ofDigits ds)
    else none

/-- Reads an unsigned decimal as its coefficient and exponent. -/
def readDecimal? (cs : List Char) : Option (Nat × Int) :=
  let whole := cs.takeWhile isDigit
  let (fraction, rest) :=
    match cs.dropWhile isDigit with
    | '.' :: r => (r.takeWhile isDigit, r.dropWhile isDigit)
    | r => ([], r)
  if whole.isEmpty && fraction.isEmpty then none
  else (readExponent? rest).map fun e => (ofDigits (whole ++ fraction), e - fraction.length)

/-- Reads a whole text as a numeral. -/
def read? (cs : List Char) : Option Numeral :=
  let (negative, body) := splitSign cs
  match readDecimal? body with
  | some (coefficient, exponent) => some (.decimal negative coefficient exponent)
  | none =>
    let word := String.ofList (body.map Char.toLower)
    if word = "inf" ∨ word = "infinity" then some (.infinity negative)
    else if word = "nan" then some .notANumber
    else none

/-- The double nearest to what a numeral denotes; the sign of zero is kept. -/
def toBinary64 : Numeral → Binary64
  | decimal negative coefficient exponent =>
    ⟨negative, Binary64.decimalMagnitude coefficient exponent⟩
  | infinity negative => ⟨negative, Binary64.infinite⟩
  | notANumber => Binary64.nan

end Numeral

end Lexis
