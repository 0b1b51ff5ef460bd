import BundlePacker.Decimal.Double

/-!
# Shortest decimal texts

A number of double precision is written with the fewest digits that lead back to it.  The numbers
that round to it form an interval; for one, two and more digits, the decimal numbers next to it are
tried, and the first that lie in the interval give the digits.  Of two the nearer one is taken, and
of two equally near ones the even one.
-/

namespace BundlePacker.Decimal

/-- The interval of numbers that round to a number of double precision. -/
structure Interval where
  lower : Rat
  upper : Rat
  /-- Whether the ends belong to the interval. -/
  closed : Bool

namespace Interval

/--
The interval around a number.  Just above a power of two the numbers below are twice as dense, and
so the interval reaches only half as far down.
-/
def around (number : Binary) : Interval :=
  let center := number.value
  let gap := (2 : Rat) ^ number.exponent
  let isPower :=
    number.significand = Binary.leastFull ∧ Binary.leastExponent < number.exponent
  { lower := center - gap / (if isPower then 4 else 2)
    upper := center + gap / 2
    closed := number.significand % 2 = 0 }

/-- Whether a number lies in an interval. -/
def contains (interval : Interval) (number : Rat) : Bool :=
  if interval.closed then interval.lower ≤ number ∧ number ≤ interval.upper
  else interval.lower < number ∧ number < interval.upper

end Interval

/-- The decimal exponent of the leading digit of a positive number. -/
def leadingPower (number : Rat) : Int :=
  if 1 ≤ number then
    ((Nat.toDigits 10 number.floor.toNat).length : Int) - 1
  else
    -((Nat.toDigits 10 ((1 / number).ceil.toNat - 1)).length : Int)

/-- A decimal number: digits as one natural number, and the exponent of the last digit. -/
structure Numeral where
  digits : Nat
  exponent : Int
deriving DecidableEq

/-- The number that digits and an exponent stand for. -/
def Numeral.value (numeral : Numeral) : Rat :=
  (numeral.digits : Rat) * (10 : Rat) ^ numeral.exponent

/-- The better one of the two neighbours of a number on the grid of an exponent, if one will do. -/
def neighbour? (interval : Interval) (number : Rat) (exponent : Int) : Option Numeral :=
  let below : Numeral := ⟨(number / (10 : Rat) ^ exponent).floor.toNat, exponent⟩
  let above : Numeral := ⟨below.digits + 1, exponent⟩
  match interval.contains below.value, interval.contains above.value with
  | false, false => none
  | true, false => some below
  | false, true => some above
  | true, true =>
    let down := number - below.value
    let up := above.value - number
    if down < up then some below
    else if up < down then some above
    else if below.digits % 2 = 0 then some below
    else some above

/-- The first grid with a neighbour, from a given number of digits on; the exact value at last. -/
def shortestFrom (interval : Interval) (number : Rat) (power : Int) : Nat → Nat → Numeral
  | 0, _ => ⟨number.floor.toNat, 0⟩
  | attempts + 1, count =>
    match neighbour? interval number (power - (count : Int) + 1) with
    | some numeral => numeral
    | none => shortestFrom interval number power attempts (count + 1)

/-- The shortest decimal number that rounds to a positive number of double precision. -/
def shortest (number : Rat) : Numeral :=
  shortestFrom (.around (Binary.nearest number)) number (leadingPower number) 17 1

/-- How a decimal number is written. -/
structure Style where
  /-- The least exponent of the leading digit for which all zeros are written out. -/
  leastPositional : Int
  /-- The greatest exponent of the leading digit for which all zeros are written out. -/
  greatestPositional : Int

/-- Numbers from 0.00001 up to sixteen digits before the point are written without an exponent. -/
def Style.standard : Style where
  leastPositional := -5
  greatestPositional := 15

/-- Digits with zeros at their end taken off. -/
def significantDigits (digits : Nat) : List Char :=
  ((Nat.toDigits 10 digits).reverse.dropWhile fun digit => digit = '0').reverse

/-- Digits with the point after the first of them; none when there is only one. -/
def pointed : List Char → List Char
  | [] => []
  | [first] => [first]
  | first :: rest => first :: '.' :: rest

/-- The text of a decimal number that is not zero. -/
def Style.write (style : Style) (numeral : Numeral) : List Char :=
  let digits := significantDigits numeral.digits
  let power := ((Nat.toDigits 10 numeral.digits).length : Int) - 1 + numeral.exponent
  if style.leastPositional ≤ power ∧ power < 0 then
    '0' :: '.' :: List.replicate (power.natAbs - 1) '0' ++ digits
  else if 0 ≤ power ∧ power ≤ style.greatestPositional then
    let whole := power.natAbs + 1
    if whole < digits.length then
      digits.take whole ++ '.' :: digits.drop whole
    else
      digits ++ List.replicate (whole - digits.length) '0' ++ ['.', '0']
  else
    pointed digits ++ 'e' :: (if power < 0 then '-' else '+') :: Nat.toDigits 10 power.natAbs

/-- The text of a number of double precision, given by its sign and its magnitude. -/
def shortestText (negative : Bool) (magnitude : Rat) : String :=
  let sign := if negative then ['-'] else []
  let text := if magnitude = 0 then ['0', '.', '0'] else Style.standard.write (shortest magnitude)
  String.ofList (sign ++ text)

end BundlePacker.Decimal
