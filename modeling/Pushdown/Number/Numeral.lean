import Pushdown.Number.Rounding

/-!
# Reading numerals

Digit strings, signed integers within the machine ranges, and decimals with an optional
fraction and exponent. All digits are ASCII.
-/

namespace Pushdown.Number

/-- The number that a string of digits denotes. -/
def ofDigits (digits : List Char) : Nat := Nat.ofDigitChars 10 digits 0

/-- The digits at the front of a text, and the rest. -/
def spanDigits (cs : List Char) : List Char × List Char := cs.span Char.isDigit

/-- The integer with the given sign and digits. -/
def ofSigned (negative : Bool) (digits : List Char) : Int :=
  if negative then -(ofDigits digits : Int) else ofDigits digits

/-- The integer as a 32-bit word, if it fits. -/
def toInt32? (n : Int) : Option Int32 :=
  if -0x80000000 ≤ n ∧ n < 0x80000000 then some (Int32.ofInt n) else none

/-- The integer as a 64-bit word, if it fits. -/
def toInt64? (n : Int) : Option Int64 :=
  if -0x8000000000000000 ≤ n ∧ n < 0x8000000000000000 then some (Int64.ofInt n) else none

/-- The number as an unsigned 64-bit word, if it fits. -/
def toUInt64? (n : Nat) : Option UInt64 :=
  if n < 0x10000000000000000 then some (UInt64.ofNat n) else none

/-- An optional sign at the front of a text: whether it is a minus, and the rest. -/
def spanSign : List Char → Bool × List Char
  | '-' :: rest => (true, rest)
  | '+' :: rest => (false, rest)
  | rest => (false, rest)

/-- A whole text read as an integer: an optional sign and at least one digit. -/
def readInt? (cs : List Char) : Option Int :=
  let (negative, digits) := spanSign cs
  if digits.isEmpty || !digits.all Char.isDigit then none else some (ofSigned negative digits)

/-- A decimal as written: its sign, the digits around the point and the power of ten. -/
structure Numeral where
  /-- A minus sign is written. -/
  negative : Bool
  /-- The digits before the point. -/
  whole : List Char
  /-- The digits after the point. -/
  fraction : List Char
  /-- The written exponent, or zero. -/
  exponent : Int
  deriving DecidableEq, Repr

/-- The nearest number of a format. -/
def Numeral.toBinary {f : Format} (n : Numeral) : Binary f :=
  Binary.ofDecimal n.negative (ofDigits (n.whole ++ n.fraction)) (n.exponent - n.fraction.length)

/-- The exponent after a mantissa: nothing, or `e` with an optional sign and digits. -/
def readExponent? : List Char → Option Int
  | [] => some 0
  | c :: rest => if c == 'e' || c == 'E' then readInt? rest else none

/-- A whole unsigned text read as a decimal: digits with an optional point, at least one digit
in all, and an optional exponent. -/
def readUnsigned? (negative : Bool) (cs : List Char) : Option Numeral :=
  let (whole, rest) := spanDigits cs
  let (fraction, rest) := match rest with
    | '.' :: rest => spanDigits rest
    | rest => ([], rest)
  if whole.isEmpty && fraction.isEmpty then none
  else (readExponent? rest).map fun exponent => ⟨negative, whole, fraction, exponent⟩

/-- A whole text read as a number of a format: an optional sign, then a decimal, an infinity or
not-a-number, in any ASCII casing. -/
def readBinary? {f : Format} (text : String) : Option (Binary f) :=
  let (negative, rest) := spanSign text.toList
  let word := String.ofList (rest.map Char.toLower)
  if word == "inf" || word == "infinity" then some (.ofMagnitude negative f.infinity)
  else if word == "nan" then some (.quietNaN negative)
  else (readUnsigned? negative rest).map Numeral.toBinary

end Pushdown.Number
