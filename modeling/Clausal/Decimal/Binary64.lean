/-!
Nonnegative finite numbers of the 64-bit binary floating point format, as exact
values. Every operation computes the exact result as a ratio of naturals and
rounds it once, to the nearest representable number and to the even one of two
that are equally near.
-/

namespace Clausal.Decimal

/-- The value `significand * 2 ^ exponent`. The significand has at most 53 bits,
and fewer than that only with the least exponent. -/
structure Binary64 where
  significand : Nat
  exponent : Int
  deriving DecidableEq

/-- The quotient rounded to the nearest natural, a half to the even one. -/
def roundDiv (numerator denominator : Nat) : Nat :=
  let quotient := numerator / denominator
  let remainder := numerator % denominator
  if denominator < 2 * remainder ∨ denominator = 2 * remainder ∧ quotient % 2 = 1 then
    quotient + 1
  else quotient

namespace Binary64

/-- The least significand of 53 bits, `2 ^ 52`. -/
def leastSignificand : Nat := 4503599627370496

def leastExponent : Int := -1074

def greatestExponent : Int := 971

def zero : Binary64 := ⟨0, leastExponent⟩

def isZero (number : Binary64) : Bool := number.significand == 0

/-- The value as a ratio of two naturals. -/
def ratio (number : Binary64) : Nat × Nat :=
  if number.exponent < 0 then (number.significand, Nat.pow 2 number.exponent.natAbs)
  else (number.significand * Nat.pow 2 number.exponent.natAbs, 1)

/-- The exponent with which the ratio has a significand of 53 bits, or the
least exponent where that would be smaller. -/
def exponentFor (numerator denominator : Nat) : Int :=
  let guess : Int := (numerator.log2 : Int) - denominator.log2 - 53
  let fits :=
    if guess < 0 then numerator * Nat.pow 2 guess.natAbs < denominator * (2 * leastSignificand)
    else numerator < denominator * (2 * leastSignificand) * Nat.pow 2 guess.natAbs
  max leastExponent (if fits then guess else guess + 1)

/-- The representable number nearest to the ratio, unless it is too large. -/
def ofRatio? (numerator denominator : Nat) : Option Binary64 :=
  if numerator = 0 then some zero
  else
    let exponent := exponentFor numerator denominator
    let significand :=
      if exponent < 0 then roundDiv (numerator * Nat.pow 2 exponent.natAbs) denominator
      else roundDiv numerator (denominator * Nat.pow 2 exponent.natAbs)
    let number : Binary64 :=
      if significand = 2 * leastSignificand then ⟨leastSignificand, exponent + 1⟩
      else ⟨significand, exponent⟩
    if number.exponent ≤ greatestExponent then some number else none

def ofNat? (value : Nat) : Option Binary64 := ofRatio? value 1

def mul? (first second : Binary64) : Option Binary64 :=
  ofRatio? (first.ratio.1 * second.ratio.1) (first.ratio.2 * second.ratio.2)

def div? (first second : Binary64) : Option Binary64 :=
  ofRatio? (first.ratio.1 * second.ratio.2) (first.ratio.2 * second.ratio.1)

end Binary64

end Clausal.Decimal
