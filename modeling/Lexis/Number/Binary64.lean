/-
  Lexis.Number.Binary64

  Double-precision numbers, and the one nearest to a given quotient.

  A number is its sign bit and the 63 bits below it, its magnitude. Magnitudes are ordered as the
  numbers they stand for, and the successor of a magnitude stands for the next larger number, so
  rounding up into the next binade is a carry. Every finite magnitude is
  `steps * 2 ^ 52 + significand` for a unit of `2 ^ (steps - 1074)`, where the significand may
  reach `2 ^ 53`; `nearestMagnitude` finds the unit, then rounds to a multiple of it.
-/

namespace Lexis

/-- A double by its sign and its other 63 bits. -/
structure Binary64 where
  negative : Bool
  magnitude : Nat
  deriving DecidableEq

namespace Binary64

/-- The magnitude of infinity: larger ones are not numbers. -/
def infinite : Nat := 0x7FF0000000000000

/-- A quiet value that is not a number. -/
def nan : Binary64 := ⟨false, 0x7FF8000000000000⟩

/-- Whether a bit pattern stands for no number. -/
def isNaN (x : Binary64) : Bool :=
  infinite < x.magnitude

/-- The 64 bits as one word. -/
def bits (x : Binary64) : Nat :=
  (if x.negative then 0x8000000000000000 else 0) + x.magnitude

/-! ## Rounding -/

/-- The integer nearest to `num / den`, of two the even one. -/
def roundHalfEven (num den : Nat) : Nat :=
  let whole := num / den
  let left := num % den
  if 2 * left < den ∨ (2 * left = den ∧ whole % 2 = 0) then whole else whole + 1

/-- The exponent `e` with `2 ^ e ≤ num / den < 2 ^ (e + 1)`, for positive `num` and `den`. -/
def floorLog2 (num den : Nat) : Int :=
  let k : Int := (num.log2 : Int) - (den.log2 : Int)
  let reached := if 0 ≤ k then den * Nat.pow 2 k.toNat ≤ num else den ≤ num * Nat.pow 2 (-k).toNat
  if reached then k else k - 1

/-- Exponent of the unit in which `num / den` is rounded: 53 bits are kept, and no unit is
    smaller than the smallest subnormal number. -/
def unitExponent (num den : Nat) : Int :=
  max (-1074) (floorLog2 num den - 52)

/-- The magnitude nearest to `num / den`, of two the even one, for positive `den`. -/
def nearestMagnitude (num den : Nat) : Nat :=
  if num = 0 then 0
  else
    let e := unitExponent num den
    -- A significand that rounds up to `2 ^ 53` carries into the steps when the two are added.
    let significand :=
      if 0 ≤ e then roundHalfEven num (den * Nat.pow 2 e.toNat)
      else roundHalfEven (num * Nat.pow 2 (-e).toNat) den
    min infinite ((e + 1074).toNat * 0x10000000000000 + significand)

/-! ## Decimal fractions -/

/-- The magnitude nearest to `coefficient * 10 ^ exponent`.

    A power of ten that alone carries the value past the largest number, or so far below the
    smallest that `coefficient < 2 ^ (log2 coefficient + 1)` cannot bring it back, is not
    computed. -/
def decimalMagnitude (coefficient : Nat) (exponent : Int) : Nat :=
  if coefficient = 0 then 0
  else if 0 ≤ exponent then
    if 400 < exponent then infinite
    else nearestMagnitude (coefficient * Nat.pow 10 exponent.toNat) 1
  else
    let places := (-exponent).toNat
    if coefficient.log2 + 400 < places then 0 else nearestMagnitude coefficient (Nat.pow 10 places)

end Binary64

end Lexis
