/-!
# Numbers of double precision

A number that is kept in double precision is a rational number of the form `m * 2 ^ q`, where `m`
has at most 53 bits and `q` is at least -1074.  Arithmetic in double precision is exact arithmetic
followed by rounding to the nearest such number, with ties going to the even `m`.
-/

namespace BundlePacker.Decimal

/-- A significand and a binary exponent; the number that they stand for is `m * 2 ^ q`. -/
structure Binary where
  significand : Nat
  exponent : Int
deriving DecidableEq

namespace Binary

/-- The smallest exponent of double precision. -/
def leastExponent : Int :=
  -1074

/-- The number of bits of a significand. -/
def precision : Nat :=
  53

/-- The least significand that has all bits. -/
def leastFull : Nat :=
  1 <<< (precision - 1)

/-- The number that a significand and an exponent stand for. -/
def value (number : Binary) : Rat :=
  (number.significand : Rat) * (2 : Rat) ^ number.exponent

/-- The nearest natural number, and of two equally near ones the even one. -/
def nearestEven (number : Rat) : Nat :=
  let below := number.floor.toNat
  let rest := number - (below : Rat)
  if rest < 1 / 2 then below
  else if 1 / 2 < rest then below + 1
  else if below % 2 = 0 then below
  else below + 1

/-- The binary exponent of the leading bit of a positive number. -/
def leadingExponent (number : Rat) : Int :=
  let guess : Int := (Nat.log2 number.num.natAbs : Int) - (Nat.log2 number.den : Int)
  if number < (2 : Rat) ^ guess then guess - 1 else guess

/-- The number of double precision that is nearest to a number that is not negative. -/
def nearest (number : Rat) : Binary :=
  if number ≤ 0 then
    ⟨0, leastExponent⟩
  else
    let exponent := max leastExponent (leadingExponent number - (precision - 1 : Nat))
    let significand := nearestEven (number / (2 : Rat) ^ exponent)
    if significand = 2 * leastFull then ⟨leastFull, exponent + 1⟩
    else ⟨significand, exponent⟩

end Binary

/-- A number that is not negative, rounded to double precision. -/
def rounded (number : Rat) : Rat :=
  (Binary.nearest number).value

/-- The first power of two that double precision can not reach. -/
def overflowBound : Rat :=
  (2 : Rat) ^ (1024 : Nat)

/-- A power of ten in double precision. -/
def powerOfTen (exponent : Nat) : Rat :=
  rounded ((10 : Rat) ^ exponent)

/-- The largest exponent for which a power of ten is kept. -/
def greatestPower : Nat :=
  308

/-- Divide by a power of ten, by at most the greatest kept power at a time. -/
def scaleDown (number : Rat) (exponent : Nat) : Rat :=
  if exponent ≤ greatestPower then
    rounded (number / powerOfTen exponent)
  else if number = 0 then
    0
  else
    scaleDown (rounded (number / powerOfTen greatestPower)) (exponent - greatestPower)
termination_by exponent
decreasing_by simp only [greatestPower] at *; omega

/--
A significand times a power of ten, computed in double precision: the significand is rounded first
and then scaled, so the last digit may differ from that of the exact product.  There is no result
when the product is out of range.
-/
def scaled? (significand : Nat) (exponent : Int) : Option Rat :=
  let start := rounded significand
  if exponent < 0 then
    some (scaleDown start exponent.natAbs)
  else if exponent ≤ greatestPower then
    let product := rounded (start * powerOfTen exponent.natAbs)
    if overflowBound ≤ product then none else some product
  else if start = 0 then
    some 0
  else
    none

end BundlePacker.Decimal
