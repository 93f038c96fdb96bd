import Clausal.Decimal.Binary64

/-!
The shortest decimal of a floating point number: the fewest digits that read
back as the number, and of several such decimals the nearest to it. All numbers
that read back as a given one form an interval around it, so it is enough to
test, for each count of digits, its two neighbours among the decimals with that
many digits.
-/

namespace Clausal.Decimal

/-- The decimal `0.d₁d₂…` times `10 ^ point`. -/
structure Shortest where
  digits : List Char
  point : Int

namespace Shortest

/-- The least power of ten above the ratio. -/
def pointOf (numerator denominator : Nat) : Int :=
  if denominator ≤ numerator then ((Nat.toDigits 10 (numerator / denominator)).length : Int)
  else
    match (List.range 400).find? fun zeros => denominator ≤ numerator * Nat.pow 10 (zeros + 1) with
    | some zeros => -(zeros : Int)
    | none => 0

/-- The numbers that round to a given one lie between two bounds, here with a
common denominator; the bounds belong to them if the significand is even. -/
structure Neighbourhood where
  lower : Nat
  value : Nat
  upper : Nat
  denominator : Nat
  closed : Bool

/-- The lower neighbour of a power of two is half as far away as the upper
one. -/
def neighbourhood (number : Binary64) : Neighbourhood :=
  let scaled := { number with significand := 4 * number.significand }.ratio
  let step := { number with significand := 1 }.ratio.1
  let below :=
    if number.significand = Binary64.leastSignificand ∧
        number.exponent ≠ Binary64.leastExponent then step
    else 2 * step
  { lower := scaled.1 - below
    value := scaled.1
    upper := scaled.1 + 2 * step
    denominator := 4 * scaled.2
    closed := number.significand % 2 == 0 }

/-- Whether a value over the common denominator reads back. -/
def Neighbourhood.holds (range : Neighbourhood) (candidate : Nat) : Bool :=
  if range.closed then range.lower ≤ candidate && candidate ≤ range.upper
  else range.lower < candidate && candidate < range.upper

/-- The decimal with this many digits that reads back, if there is one. The
range is multiplied by a power of ten so that decimals become naturals. -/
def withDigits? (range : Neighbourhood) (point : Int) (count : Nat) : Option Nat :=
  let places := (count : Int) - point
  let factor := if 0 ≤ places then Nat.pow 10 places.natAbs else 1
  let unit := range.denominator * (if places < 0 then Nat.pow 10 places.natAbs else 1)
  let scaled : Neighbourhood :=
    { range with
      lower := range.lower * factor
      value := range.value * factor
      upper := range.upper * factor }
  let low := scaled.value / unit
  let high := low + 1
  let nearer := roundDiv scaled.value unit
  let other := if nearer = low then high else low
  if scaled.holds (nearer * unit) then some nearer
  else if scaled.holds (other * unit) then some other
  else none

/-- A decimal with its closing zeros cut off. -/
def trim (significand : Nat) (count : Nat) (point : Int) : Shortest :=
  let digits := Nat.toDigits 10 significand
  let kept := (digits.reverse.dropWhile (· = '0')).reverse
  ⟨kept, point + ((digits.length : Int) - count)⟩

def ofBinary64 (number : Binary64) : Shortest :=
  if number.isZero then ⟨[], 0⟩
  else
    let range := neighbourhood number
    let point := pointOf range.value range.denominator
    let found := (List.range 17).findSome? fun count =>
      (withDigits? range point (count + 1)).map fun significand =>
        trim significand (count + 1) point
    found.getD ⟨[], 0⟩

end Shortest

end Clausal.Decimal
