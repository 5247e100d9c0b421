/-!
# Binary floating-point numbers

A number of a binary interchange format is kept as its word. Decoding gives the sign, an
integer significand and a power of two, so that every rule about digits is stated in exact
integer arithmetic.
-/

namespace Pushdown.Number

/-- A binary interchange format, by the widths of its two fields. -/
structure Format where
  /-- The number of stored bits of the significand. -/
  fractionBits : Nat
  /-- The number of bits of the biased exponent. -/
  exponentBits : Nat
  deriving DecidableEq, Repr

namespace Format

/-- The 32-bit format. -/
def single : Format := ⟨23, 8⟩

/-- The 64-bit format. -/
def double : Format := ⟨52, 11⟩

/-- The number of bits below the sign bit. -/
def magnitudeBits (f : Format) : Nat := f.exponentBits + f.fractionBits

/-- The least positive number of the format is two to this power. -/
def minExponent (f : Format) : Int := 2 - Nat.pow 2 (f.exponentBits - 1) - f.fractionBits

/-- The magnitude that stands for infinity. -/
def infinity (f : Format) : Nat := (Nat.pow 2 f.exponentBits - 1) * Nat.pow 2 f.fractionBits

/-- The sign bit of a word. -/
def signBit (f : Format) : Nat := Nat.pow 2 f.magnitudeBits

/-- The significand bit that is not stored, and the number of fractions. -/
def hiddenBit (f : Format) : Nat := Nat.pow 2 f.fractionBits

end Format

/-- A number of a format, as its word. Two zeros of different sign are different words. -/
structure Binary (f : Format) where
  /-- The interchange word: sign, biased exponent, fraction. -/
  word : BitVec (f.magnitudeBits + 1)
  deriving DecidableEq

/-- A 32-bit number. -/
abbrev Single := Binary Format.single

/-- A 64-bit number. -/
abbrev Double := Binary Format.double

/-- What a word stands for. -/
inductive Decoded
  /-- Not a number. -/
  | nan
  /-- An infinity. -/
  | infinite (negative : Bool)
  /-- The number `significand * 2 ^ exponent` with a sign. -/
  | finite (negative : Bool) (significand : Nat) (exponent : Int)
  deriving DecidableEq, Repr

namespace Binary

variable {f : Format}

/-- The number with the given sign and magnitude; magnitudes beyond infinity become infinity. -/
def ofMagnitude (negative : Bool) (magnitude : Nat) : Binary f :=
  ⟨BitVec.ofNat _ ((if negative then f.signBit else 0) + min magnitude f.infinity)⟩

/-- A quiet not-a-number with the given sign. -/
def quietNaN (negative : Bool) : Binary f :=
  ⟨BitVec.ofNat _ ((if negative then f.signBit else 0) + f.infinity + f.hiddenBit / 2)⟩

/-- The sign bit is set. -/
def negative (x : Binary f) : Bool := f.signBit ≤ x.word.toNat

/-- The sign, significand and exponent of a word. -/
def decode (x : Binary f) : Decoded :=
  let magnitude := x.word.toNat % f.signBit
  let biased := magnitude / f.hiddenBit
  let fraction := magnitude % f.hiddenBit
  if f.infinity < magnitude then .nan
  else if magnitude = f.infinity then .infinite x.negative
  else if biased = 0 then .finite x.negative fraction f.minExponent
  else .finite x.negative (f.hiddenBit + fraction) (f.minExponent + (biased - 1 : Nat))

/-- Equality of numbers: zeros of both signs are equal, and what is not a number equals nothing. -/
def equals (x y : Binary f) : Bool :=
  match x.decode, y.decode with
  | .nan, _ => false
  | _, .nan => false
  | .finite _ 0 _, .finite _ 0 _ => true
  | a, b => a == b

end Binary

end Pushdown.Number
