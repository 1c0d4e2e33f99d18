/-!
# Binary floating-point numbers

The numbers of the 64-bit binary format, by value, and the rounding of decimals to them. A
number is an integer of at most 53 bits times a power of two from -1074 to 971.
-/

namespace ProcessNets.Number

/-- A number of the 64-bit binary format. -/
inductive Binary64 where
  /-- The mantissa times two to the exponent. -/
  | finite (negative : Bool) (mantissa : Nat) (exponent : Int)
  | infinite (negative : Bool)
  | notANumber
deriving DecidableEq, Repr, Inhabited

def minExponent : Int := -1074

def maxExponent : Int := 971

/-- A quotient rounded to the nearest integer, halves to the even one. -/
def divideToNearest (num den : Nat) : Nat :=
  let low := num / den
  let twice := 2 * (num % den)
  if twice < den then low
  else if den < twice then low + 1
  else if low % 2 == 0 then low else low + 1

/-- Numerator and denominator of a power of a number. -/
def powerParts (base : Nat) (exponent : Int) : Nat × Nat :=
  if 0 ≤ exponent then (Nat.pow base exponent.toNat, 1) else (1, Nat.pow base (-exponent).toNat)

/-- Numerator and denominator of `num / den` divided by a power of a number. -/
def scaleDown (base num den : Nat) (exponent : Int) : Nat × Nat :=
  let (p, q) := powerParts base exponent
  (num * q, den * p)

/-- The least mantissa of 53 bits. -/
def leastFullMantissa : Nat := Nat.pow 2 52

namespace Binary64

/-- The number of the format nearest to a quotient, halves to the even mantissa. -/
def ofQuotient (negative : Bool) (num den : Nat) : Binary64 :=
  if num = 0 then .finite negative 0 minExponent
  else
    let guess : Int := (num.log2 : Int) - den.log2 - 52
    let (n, d) := scaleDown 2 num den guess
    let exponent := max minExponent (if n < d * leastFullMantissa then guess - 1 else guess)
    let (n, d) := scaleDown 2 num den exponent
    let rounded := divideToNearest n d
    let (mantissa, exponent) :=
      if rounded = 2 * leastFullMantissa then (leastFullMantissa, exponent + 1)
      else (rounded, exponent)
    if maxExponent < exponent then .infinite negative else .finite negative mantissa exponent

/-- The number of the format nearest to `digits` times ten to `exponent`. -/
def ofDecimal (negative : Bool) (digits : Nat) (exponent : Int) : Binary64 :=
  let magnitude : Int := (Nat.toDigits 10 digits).length + exponent
  if digits = 0 ∨ magnitude < -330 then .finite negative 0 minExponent
  else if 320 < magnitude then .infinite negative
  else
    let (p, q) := powerParts 10 exponent
    ofQuotient negative (digits * p) q

def isZero : Binary64 → Bool
  | .finite _ mantissa _ => mantissa == 0
  | _ => false

end Binary64

end ProcessNets.Number
