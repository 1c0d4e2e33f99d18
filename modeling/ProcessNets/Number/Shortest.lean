import ProcessNets.Number.Binary64

/-!
# Shortest decimals

The decimal with the fewest digits that still rounds to a given binary number, and of those the
one nearest to it.
-/

namespace ProcessNets.Number

/-- A positive quotient `num / den` and the half widths, over the same denominator, of the
interval of reals that round to it. -/
structure Neighbourhood where
  num : Nat
  den : Nat
  below : Nat
  above : Nat
  /-- Whether the ends of the interval round to the quotient too. -/
  closed : Bool

namespace Neighbourhood

/-- The reals that round to a mantissa times a power of two. Just above a power of two the gap
below is half as wide. -/
def ofParts (mantissa : Nat) (exponent : Int) : Neighbourhood :=
  let narrow := mantissa = leastFullMantissa ∧ minExponent < exponent
  let (unit, den) := powerParts 2 exponent
  ⟨4 * mantissa * unit, 4 * den, if narrow then unit else 2 * unit, 2 * unit, mantissa % 2 == 0⟩

/-- Whether `digits` times ten to `exponent` lies in the interval. -/
def holds (v : Neighbourhood) (digits : Nat) (exponent : Int) : Bool :=
  let (p, q) := powerParts 10 exponent
  let x := digits * p * v.den
  let low := (v.num - v.below) * q
  let high := (v.num + v.above) * q
  if v.closed then low ≤ x && x ≤ high else low < x && x < high

/-- The exponent of ten of the leading digit. -/
def leadingExponent (v : Neighbourhood) : Int :=
  if v.den ≤ v.num then (Nat.toDigits 10 (v.num / v.den)).length - 1
  else -((Nat.toDigits 10 ((v.den + v.num - 1) / v.num - 1)).length : Int)

/-- The quotient in units of ten to `exponent`: its whole part, and whether the rest is above,
at or below one half. -/
def units (v : Neighbourhood) (exponent : Int) : Nat × Ordering :=
  let (n, d) := scaleDown 10 v.num v.den exponent
  (n / d, compare (2 * (n % d)) d)

/-- The nearest decimal with `count` digits in the interval, as digits and exponent. -/
def candidate (v : Neighbourhood) (count : Nat) : Option (Nat × Int) :=
  let exponent := v.leadingExponent - (count - 1 : Nat)
  let (low, rest) := v.units exponent
  let order := match rest with
    | .lt => [low, low + 1]
    | .gt => [low + 1, low]
    | .eq => if low % 2 == 0 then [low, low + 1] else [low + 1, low]
  (order.find? (v.holds · exponent)).map (·, exponent)

/-- The shortest decimal in the interval. Seventeen digits always suffice. -/
def shortest (v : Neighbourhood) : Nat × Int :=
  ((List.range' 1 17).findSome? v.candidate).getD (0, 0)

end Neighbourhood

/-! ### Layout -/

/-- Digits without trailing zeros, and the exponent that keeps their value. -/
def dropZeros (digits : List Char) (exponent : Int) : List Char × Int :=
  let zeros := (digits.reverse.takeWhile (· == '0')).length
  (digits.take (digits.length - zeros), exponent + zeros)

/-- The text of `0.digits` times ten to `point`: positional from 0.0001 up to 16 digits before
the point and with at least one digit after it, otherwise with an exponent of at least two
digits. -/
def layOut (digits : List Char) (point : Int) : List Char :=
  if -4 < point ∧ point ≤ 0 then
    '0' :: '.' :: List.replicate (-point).toNat '0' ++ digits
  else if 0 < point ∧ point ≤ 16 then
    let whole := point.toNat
    if digits.length ≤ whole then
      digits ++ List.replicate (whole - digits.length) '0' ++ ['.', '0']
    else digits.take whole ++ '.' :: digits.drop whole
  else
    let exponent := point - 1
    let size := Nat.toDigits 10 exponent.natAbs
    let fraction := if digits.length ≤ 1 then [] else '.' :: digits.drop 1
    digits.take 1 ++ fraction ++ ['e', if exponent < 0 then '-' else '+'] ++
      List.replicate (2 - size.length) '0' ++ size

/-- The shortest text that reads back as the number. -/
def Binary64.text : Binary64 → String
  | .notANumber => "nan"
  | .infinite negative => if negative then "-inf" else "inf"
  | .finite negative mantissa exponent =>
    let body :=
      if mantissa = 0 then ['0', '.', '0']
      else
        let (number, scale) := (Neighbourhood.ofParts mantissa exponent).shortest
        let (digits, scale) := dropZeros (Nat.toDigits 10 number) scale
        layOut digits (digits.length + scale)
    String.ofList (if negative then '-' :: body else body)

end ProcessNets.Number
