import Pushdown.Number.Binary

/-!
# Rounding exact ratios to binary numbers

A decimal is read as an exact ratio and rounded once, to the nearest number of the format,
an exact half going to the even significand.
-/

namespace Pushdown.Number

/-- The quotient rounded to the nearest integer, an exact half going to the even one. -/
def roundDiv (num den : Nat) : Nat :=
  let quotient := num / den
  let remainder := num % den
  if 2 * remainder < den then quotient
  else if den < 2 * remainder then quotient + 1
  else quotient + quotient % 2

/-- `base ^ exponent * den ≤ num`, for an exponent of either sign. -/
def powerFits (base : Nat) (exponent : Int) (num den : Nat) : Bool :=
  Nat.pow base exponent.toNat * den ≤ num * Nat.pow base (-exponent).toNat

/-- The greatest power of two that does not exceed the positive ratio. -/
def floorLog2 (num den : Nat) : Int :=
  let guess : Int := (num.log2 : Int) - den.log2
  if powerFits 2 guess num den then guess else guess - 1

/-- The greatest power of ten that does not exceed the positive ratio. -/
def floorLog10 (num den : Nat) : Int :=
  let guess : Int := floorLog2 num den * 30103 / 100000
  if powerFits 10 (guess + 1) num den then guess + 1
  else if powerFits 10 guess num den then guess
  else guess - 1

namespace Binary

variable {f : Format}

/-- The number nearest to the ratio, an exact half going to the even significand. -/
def ofRatio (negative : Bool) (num den : Nat) : Binary f :=
  if num = 0 then ofMagnitude negative 0
  else
    let exponent := max (floorLog2 num den - f.fractionBits) f.minExponent
    let significand := 
      roundDiv (num * Nat.pow 2 (-exponent).toNat) (den * Nat.pow 2 exponent.toNat)
    ofMagnitude negative ((exponent - f.minExponent).toNat * f.hiddenBit + significand)

/-- The number nearest to `digits * 10 ^ exponent`. A value whose leading digit stands beyond
the reach of the format is infinite, one far below the least positive number is zero; both are
decided before any power is computed. -/
def ofDecimal (negative : Bool) (digits : Nat) (exponent : Int) : Binary f :=
  let leading : Int := exponent + (Nat.toDigits 10 digits).length
  if digits = 0 then ofMagnitude negative 0
  else if (Nat.pow 2 (f.exponentBits - 1) : Int) < leading then ofMagnitude negative f.infinity
  else if leading < f.minExponent then ofMagnitude negative 0
  else ofRatio negative (digits * Nat.pow 10 exponent.toNat) (Nat.pow 10 (-exponent).toNat)

/-- The number of another format nearest to a number. -/
def convert {g : Format} (x : Binary f) : Binary g :=
  match x.decode with
  | .nan => quietNaN x.negative
  | .infinite negative => ofMagnitude negative g.infinity
  | .finite negative significand exponent =>
      ofRatio negative (significand * Nat.pow 2 exponent.toNat) (Nat.pow 2 (-exponent).toNat)

end Binary

end Pushdown.Number
