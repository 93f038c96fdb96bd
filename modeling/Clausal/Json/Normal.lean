import Clausal.Decimal.Shortest
import Clausal.Json.Basic

/-!
Normal forms of JSON values, for values that are kept as data rather than read
into a record. In a normal form the keys of every object are distinct and
sorted, every numeral is a 64-bit integer or the shortest decimal of a floating
point number, and every literal denotes a string. A value without a normal form
is nested too deeply, has a number out of range or a literal without string.
-/

namespace Clausal.Json

open Decimal

namespace Numeral

/-- Appends digits to a significand while it fits into 64 bits, and gives back
the digits from the first one that does not fit. -/
def gather : Nat → List Char → Nat × List Char
  | significand, [] => (significand, [])
  | significand, digit :: rest =>
      let next := 10 * significand + (digit.toNat - '0'.toNat)
      if next < wordLimit then gather next rest else (significand, digit :: rest)

/-- The significand of the numeral and the power of ten by which its digits are
to be multiplied. Digits of the whole part that do not fit raise the power, and
digits of the fraction that do not fit are dropped. -/
def significand (numeral : Numeral) : Nat × Int :=
  let (whole, excess) := gather 0 (Nat.toDigits 10 numeral.whole)
  let (all, dropped) := gather whole numeral.fraction
  (all, (excess.length : Int) - ((numeral.fraction.length : Int) - dropped.length))

/-- The greatest power of ten that is representable. -/
def greatestPower : Nat := 308

def powerOfTen? (power : Nat) : Option Binary64 := Binary64.ofNat? (Nat.pow 10 power)

/-- Divides by the divisor so many times, or until nothing is left. -/
def divideTimes? (divisor : Binary64) : Nat → Binary64 → Option Binary64
  | 0, dividend => some dividend
  | times + 1, dividend =>
      if dividend.isZero then some dividend
      else (dividend.div? divisor).bind (divideTimes? divisor times)

/-- Divides by a power of ten. What exceeds the greatest representable power is
divided out in steps of that one. -/
def scaleDown? (number : Binary64) (power : Nat) : Option Binary64 :=
  let steps := (power - 1) / greatestPower
  match powerOfTen? greatestPower, powerOfTen? (power - greatestPower * steps) with
  | some step, some last =>
      (divideTimes? step steps number).bind fun reduced => reduced.div? last
  | _, _ => none

/-- Multiplies by a power of ten, unless the result is too large. -/
def scale? (number : Binary64) (power : Int) : Option Binary64 :=
  if power < 0 then scaleDown? number power.natAbs
  else if power ≤ greatestPower then (powerOfTen? power.natAbs).bind number.mul?
  else if number.isZero then some number
  else none

/-- The greatest exponent that is taken as it is written. -/
def exponentLimit : Nat := 2147483647

/-- The magnitude of the numeral as a floating point number. -/
def magnitude? (numeral : Numeral) : Option Binary64 :=
  let (significand, shift) := numeral.significand
  let exponent := numeral.exponent.getD 0
  if exponentLimit < exponent.natAbs then
    if significand ≠ 0 ∧ 0 < exponent then none else some .zero
  else (Binary64.ofNat? significand).bind fun number => scale? number (shift + exponent)

/-- A floating point number as a numeral. It has no exponent if at most sixteen
digits stand before the point, or at most four zeros behind it. -/
def ofBinary64 (negative : Bool) (number : Binary64) : Numeral :=
  let ⟨digits, point⟩ := Shortest.ofBinary64 number
  let value (digits : List Char) : Nat := Nat.ofDigitChars 10 digits 0
  let count : Int := digits.length
  if digits.isEmpty then ⟨negative, 0, ['0'], none⟩
  else if count ≤ point ∧ point ≤ 16 then
    ⟨negative, value digits * Nat.pow 10 (point - count).natAbs, ['0'], none⟩
  else if 0 < point ∧ point ≤ 16 then
    ⟨negative, value (digits.take point.natAbs), digits.drop point.natAbs, none⟩
  else if -5 < point ∧ point ≤ 0 then
    ⟨negative, 0, List.replicate point.natAbs '0' ++ digits, none⟩
  else ⟨negative, value (digits.take 1), digits.drop 1, some (point - 1)⟩

/-- Integers of 64 bits, unsigned or signed, stay as they are. -/
def isWord (numeral : Numeral) : Bool := numeral.unsigned?.isSome || numeral.signed?.isSome

def normal? (numeral : Numeral) : Option Numeral :=
  if numeral.isWord then some numeral
  else numeral.magnitude?.map (ofBinary64 numeral.negative)

end Numeral

/-- Puts a member into a sorted list of members, in place of one with the same
key. -/
def insertMember (key : String) (value : Json) :
    List (String × Json) → List (String × Json)
  | [] => [(key, value)]
  | (other, kept) :: rest =>
      if key < other then (key, value) :: (other, kept) :: rest
      else if key = other then (key, value) :: rest
      else (other, kept) :: insertMember key value rest

/-- The greatest depth of arrays and objects in a value that is kept as data,
counted from the outside of the whole text. -/
def depthLimit : Nat := 127

mutual

/-- The normal form of a value nested at most `depth` deep. -/
def normal? (depth : Nat) : Json → Option Json
  | .null => some .null
  | .bool value => some (.bool value)
  | .number numeral => numeral.normal?.map .number
  | .string none => none
  | .string (some value) => some (.string (some value))
  | .array items =>
      match depth with
      | 0 => none
      | depth + 1 => (normalItems? depth items).map .array
  | .object members =>
      match depth with
      | 0 => none
      | depth + 1 => (normalMembers? depth [] members).map record

def normalItems? (depth : Nat) : List Json → Option (List Json)
  | [] => some []
  | item :: rest =>
      match normal? depth item, normalItems? depth rest with
      | some item, some rest => some (item :: rest)
      | _, _ => none

/-- Adds the members one by one, so that of two with the same key the later
one stays. -/
def normalMembers? (depth : Nat) (sorted : List (String × Json)) :
    List (Option String × Json) → Option (List (String × Json))
  | [] => some sorted
  | (none, _) :: _ => none
  | (some key, value) :: rest =>
      match normal? depth value with
      | none => none
      | some value => normalMembers? depth (insertMember key value sorted) rest

end

/-- Whether the value has a normal form within this depth. -/
def hasNormal (depth : Nat) (json : Json) : Bool := (json.normal? depth).isSome

end Clausal.Json
