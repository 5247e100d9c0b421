import Pushdown.Number.Rounding

/-!
# The fewest digits that read back

Every decimal in an interval around a binary number rounds to that number. Among the decimals
with the fewest digits in the interval the nearest one is chosen; a parameter says which way an
exact tie goes.

For a given count of digits only the two neighbours of the number on that decimal grid need to
be tried: if any point of the grid lies in the interval, one of them does.
-/

namespace Pushdown.Number

/-- Which of two equally near decimals is chosen. -/
inductive Tie
  /-- The one with the even last digit. -/
  | even
  /-- The one of greater magnitude. -/
  | away
  deriving DecidableEq, Repr

/-- A positive decimal `digits * 10 ^ exponent`. -/
structure Decimal where
  /-- The integer made of all digits. -/
  digits : Nat
  /-- The power of ten of the last digit. -/
  exponent : Int
  deriving DecidableEq, Repr

/-- A positive number as four times its significand over a power of two, with the ends of the
interval of decimals that round to it in the same unit. -/
structure Rounds where
  /-- Four times the significand. -/
  value : Nat
  /-- The lower end. -/
  low : Nat
  /-- The upper end. -/
  high : Nat
  /-- Both ends round to the number too. -/
  closed : Bool
  /-- The power of two of the unit. -/
  exponent : Int

/-- The interval of a positive significand and exponent. Below a power of two the numbers lie
half as far apart, except at the least exponent. -/
def Rounds.of (f : Format) (significand : Nat) (exponent : Int) : Rounds :=
  { value := 4 * significand
    low :=
      if significand = f.hiddenBit ∧ f.minExponent < exponent then 4 * significand - 1
      else 4 * significand - 2
    high := 4 * significand + 2
    closed := significand % 2 = 0
    exponent := exponent - 2 }

namespace Rounds

/-- The factors that turn the unit of the interval into the unit `10 ^ exponent`. -/
def scale (r : Rounds) (exponent : Int) : Nat × Nat :=
  (Nat.pow 2 r.exponent.toNat * Nat.pow 10 (-exponent).toNat,
    Nat.pow 2 (-r.exponent).toNat * Nat.pow 10 exponent.toNat)

/-- The decimal lies in the interval. -/
def holds (r : Rounds) (d : Decimal) : Bool :=
  let (up, down) := r.scale d.exponent
  if r.closed then r.low * up ≤ d.digits * down && d.digits * down ≤ r.high * up
  else r.low * up < d.digits * down && d.digits * down < r.high * up

/-- The nearest decimal of the interval on the grid `10 ^ exponent`, if there is one. -/
def onGrid (r : Rounds) (tie : Tie) (exponent : Int) : Option Decimal :=
  let (up, down) := r.scale exponent
  let below := r.value * up / down
  let rest := r.value * up % down
  let lower : Decimal := ⟨below, exponent⟩
  let upper : Decimal := ⟨below + 1, exponent⟩
  match r.holds lower, r.holds upper with
  | false, false => none
  | true, false => some lower
  | false, true => some upper
  | true, true =>
      if 2 * rest < down then some lower
      else if down < 2 * rest then some upper
      else match tie with
        | .even => some (if below % 2 = 0 then lower else upper)
        | .away => some upper

/-- The first hit on the grids from `10 ^ exponent` downwards. -/
def search (r : Rounds) (tie : Tie) : Nat → Int → Option Decimal
  | 0, _ => none
  | steps + 1, exponent => (r.onGrid tie exponent).or (search r tie steps (exponent - 1))

/-- The decimal with the fewest digits in the interval, the nearest of those. The exact value
stands in if no grid has a hit. -/
def shortest (r : Rounds) (tie : Tie) (steps : Nat) : Decimal :=
  let (up, down) := r.scale 0
  (r.search tie steps (floorLog10 (r.value * up) down)).getD
    ⟨r.value * Nat.pow 2 r.exponent.toNat * Nat.pow 5 (-r.exponent).toNat, min r.exponent 0⟩

end Rounds

end Pushdown.Number
