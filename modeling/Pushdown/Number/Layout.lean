import Pushdown.Number.Shortest

/-!
# Layout of numbers as text

A layout says which way ties between shortest digits go and which exponents are written
positionally; all other numbers are written with one digit before the point and a signed
exponent. A positional number always shows a fraction.
-/

namespace Pushdown.Number

/-- The decisions of a format that writes numbers. -/
structure Layout where
  /-- The choice between two equally near shortest decimals. -/
  tie : Tie
  /-- The exponents of the leading digit that are written positionally. -/
  positional : Int → Bool

/-- The digits of a positive decimal without the zeros at their end. -/
def Decimal.significant (d : Decimal) : List Char :=
  ((Nat.toDigits 10 d.digits).reverse.dropWhile (· == '0')).reverse

/-- The power of ten of the leading digit. -/
def Decimal.leading (d : Decimal) : Int := d.exponent + (Nat.toDigits 10 d.digits).length - 1

/-- The digits with a point after the one of power zero, filled up with zeros. -/
def positionalText (digits : List Char) (leading : Int) : List Char :=
  if leading < 0 then
    '0' :: '.' :: (List.replicate (-leading - 1).toNat '0' ++ digits)
  else
    let whole := leading.toNat + 1
    if digits.length ≤ whole then digits ++ List.replicate (whole - digits.length) '0' ++ ['.', '0']
    else digits.take whole ++ '.' :: digits.drop whole

/-- One digit, a point and the other digits if there are any, and a signed exponent. -/
def scientificText (digits : List Char) (leading : Int) : List Char :=
  let mantissa := match digits with
    | [] => []
    | [d] => [d]
    | d :: rest => d :: '.' :: rest
  let sign := if leading < 0 then '-' else '+'
  mantissa ++ 'e' :: sign :: Nat.toDigits 10 leading.natAbs

/-- The text of a positive decimal. -/
def Layout.decimal (l : Layout) (d : Decimal) : List Char :=
  if l.positional d.leading then positionalText d.significant d.leading
  else scientificText d.significant d.leading

/-- The text of a finite number; infinities and not-a-number have none here. -/
def Layout.text? {f : Format} (l : Layout) (x : Binary f) : Option String :=
  match x.decode with
  | .nan => none
  | .infinite _ => none
  | .finite negative significand exponent =>
      let magnitude :=
        if significand = 0 then ['0', '.', '0']
        else l.decimal ((Rounds.of f significand exponent).shortest l.tie (f.magnitudeBits + 1))
      some (String.ofList (if negative then '-' :: magnitude else magnitude))

end Pushdown.Number
