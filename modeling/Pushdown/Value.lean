import Pushdown.AttrType
import Pushdown.Number.Layout

/-!
# Constant values

The values a constant of a condition can have, their natural type and their text.
-/

namespace Pushdown

open Number

/-- A constant value. -/
inductive Value
  | null
  | bool (b : Bool)
  | int (n : Int32)
  | long (n : Int64)
  | float (x : Single)
  | double (x : Double)
  | string (s : String)
  deriving DecidableEq

/-- A displayed number has no exponent, and a tie goes away from zero. -/
def displayLayout : Layout := ⟨.away, fun _ => true⟩

/-- The displayed text of a floating-point number: the fewest digits that read back, with a
fraction, or the word for a number that has no digits. -/
def displayNumber {f : Format} (x : Binary f) : String :=
  match displayLayout.text? x with
  | some text => text
  | none =>
      match x.decode with
      | .infinite false => "inf"
      | .infinite true => "-inf"
      | _ => "NaN"

namespace Value

/-- The type a constant is declared with when none is given. -/
def naturalType : Value → AttrType
  | null => .object
  | bool _ => .bool
  | int _ => .int
  | long _ => .long
  | float _ => .float
  | double _ => .double
  | string _ => .string

/-- The text of a value. Its suffix, point or quotes tell the kind of the value. -/
def display : Value → String
  | null => "NULL"
  | bool b => if b then "true" else "false"
  | int n => toString n.toInt
  | long n => toString n.toInt ++ "L"
  | float x => displayNumber x ++ "f"
  | double x => displayNumber x
  | string s => "'" ++ s ++ "'"

/-- Equality of values, with that of numbers for floating-point values. -/
def equals : Value → Value → Bool
  | float x, float y => x.equals y
  | double x, double y => x.equals y
  | v, w => v == w

end Value

end Pushdown
